/-
# The pending object and the session

The part of the responder that sessions and pending objects depend on is a small machine of its
own: an object is announced, cleared, a session is opened or closed.  Every command makes one of
these steps, and the rounds of the command loop only add the drop of a session.
-/
import AioMod.MtpAnswers

namespace MtpNativeServer

/-! ## Handles -/

/-- The handles given out: the answer to an announcement has three parameters, and no other has. -/
def handedOut (messages : List Message) : List UInt32 :=
  messages.filterMap fun m => match m with
    | .response _ _ [_, _, handle] => some handle
    | _ => none

/-- The handle that is given out after `n` others. -/
def handleAt (n : ℕ) : UInt32 := .ofNat (n % (2 ^ 32 - 2) + 1)

theorem toNat_handleAt (n : ℕ) : (handleAt n).toNat = n % (2 ^ 32 - 2) + 1 := by
  unfold handleAt
  rw [UInt32.toNat_ofNat']
  omega

/-- A handle is neither 0 nor 0xFFFFFFFF. -/
theorem handleAt_ne (n : ℕ) : handleAt n ≠ 0 ∧ handleAt n ≠ 0xFFFFFFFF := by
  have hn := toNat_handleAt n
  constructor
  · intro h
    rw [h] at hn
    have h0 : (0 : UInt32).toNat = 0 := rfl
    omega
  · intro h
    rw [h] at hn
    have h1 : (0xFFFFFFFF : UInt32).toNat = 2 ^ 32 - 1 := rfl
    omega

/-- It differs from the 2^32 - 3 handles before it. -/
theorem handleAt_injOn {i j : ℕ} (hij : i < j) (hj : j ≤ i + (2 ^ 32 - 3)) :
    handleAt i ≠ handleAt j := by
  intro h
  have hi := toNat_handleAt i
  have hj' := toNat_handleAt j
  rw [h] at hi
  omega

/-- The counter goes on to the next handle. -/
theorem freshHandle_succ {next : UInt32} {n : ℕ} (h : (freshHandle next).1 = handleAt n) :
    (freshHandle (freshHandle next).2).1 = handleAt (n + 1) := by
  have hsucc : (freshHandle next).2 = handleAt n + 1 := by
    rw [← h]
    unfold freshHandle
    split
    · rfl
    · rfl
  have hn := toNat_handleAt n
  have hn1 := toNat_handleAt (n + 1)
  have hadd : (handleAt n + 1).toNat = n % (2 ^ 32 - 2) + 2 := by
    rw [UInt32.toNat_add, hn]
    have h1 : (1 : UInt32).toNat = 1 := rfl
    omega
  rw [hsucc]
  unfold freshHandle
  split
  · rename_i hwrap
    have hmax : n % (2 ^ 32 - 2) = 2 ^ 32 - 3 := by
      rcases hwrap with hw | hw
      · rw [hw] at hadd
        have h0 : (0 : UInt32).toNat = 0 := rfl
        omega
      · rw [hw] at hadd
        have h0 : (0xFFFFFFFF : UInt32).toNat = 2 ^ 32 - 1 := rfl
        omega
    refine UInt32.toNat_inj.mp ?_
    have h1 : (1 : UInt32).toNat = 1 := rfl
    show (1 : UInt32).toNat = _
    rw [h1, hn1]
    omega
  · rename_i hno
    rw [not_or] at hno
    refine UInt32.toNat_inj.mp ?_
    rw [hadd, hn1]
    have hlast : n % (2 ^ 32 - 2) ≠ 2 ^ 32 - 3 := by
      intro hmax
      refine hno.2 (UInt32.toNat_inj.mp ?_)
      rw [hadd, hmax]
      rfl
    omega

/-! ## The machine of sessions and objects -/

/-- What sessions and pending objects depend on. -/
structure Core where
  session : UInt32
  next : UInt32
  handle : UInt32
  pending : Bool
  busy : Bool
  idle : Bool
  handed : List UInt32

/-- The state in which objects are not to be touched. -/
def ServerState.idle (state : ServerState) : Bool := state ≠ .Receiving && state ≠ .Installing

def Server.core (s : Server) : Core where
  session := s.sessionId
  next := s.nextObjectHandle
  handle := s.pendingObjectHandle
  pending := s.pendingValid
  busy := s.installerBusy
  idle := s.state.idle
  handed := handedOut s.sent

namespace Core

/-- An object gets a fresh handle. -/
def announce (c : Core) : Core :=
  { c with
    next := (freshHandle c.next).2, handle := (freshHandle c.next).1, pending := true, idle := true
    handed := c.handed ++ [(freshHandle c.next).1] }

/-- There is no object any more. -/
def clear (c : Core) : Core := { c with handle := 0, pending := false }

/-- The installer has been at work and is not any more. -/
def settle (c : Core) : Core := { c with busy := false, idle := true }

/-- The steps a command can make, apart from closing the session. -/
inductive Step (c : Core) : Core → Prop where
  | keep : Step c c
  | announce (hopen : c.session ≠ 0) (hbusy : c.busy = false) (hpending : c.pending = false) :
    Step c c.announce
  | clear (hpending : c.pending = true) : Step c c.clear
  | settle (hpending : c.pending = true) : Step c c.clear.settle
  | openSession {id : UInt32} (hclosed : c.session = 0) (hid : id ≠ 0) :
      Step c { c with session := id }

/-- The session is closed; an object is not cleared. -/
def close (c : Core) : Core := { c with session := 0 }

/-- What a run keeps: no object outlives its session, the installer rests between commands, and
handles are given out in order. -/
structure Sound (c : Core) : Prop where
  closed : c.session = 0 → c.pending = false
  rested : c.busy = false ∧ c.idle = true
  handed : c.handed = (List.range c.handed.length).map handleAt
  next : (freshHandle c.next).1 = handleAt c.handed.length

end Core

/-! ## What a handler does to it -/

theorem handedOut_append (a b : List Message) : handedOut (a ++ b) = handedOut a ++ handedOut b :=
  List.filterMap_append

section core

variable {s s' : Server} {trans : UInt32} (p : Platform) (params : List UInt32)

/-- A message without three parameters gives no handle out. -/
theorem Server.core_sent {messages : List Message} (h : handedOut messages = []) :
    ({ s with sent := s.sent ++ messages } : Server).core = s.core := by
  unfold core
  rw [handedOut_append, h, List.append_nil]

@[simp] theorem Server.core_sendResponse (code : UInt16) :
    (s.sendResponse code trans).core = s.core :=
  core_sent rfl

@[simp] theorem Server.core_sendResponse_one (code : UInt16) (param : UInt32) :
    (s.sendResponse code trans [param]).core = s.core :=
  core_sent rfl

@[simp] theorem Server.core_sendRemoved (handle : UInt32) :
    (s.sendRemoved handle).core = s.core := by
  unfold sendRemoved
  split
  · exact core_sent rfl
  · rfl

@[simp] theorem Server.core_answer (op : Operation) (data : Except UInt16 Bytes) :
    (s.answer op trans data).core = s.core := by
  unfold answer
  split
  · exact core_sendResponse _
  · rw [core_sendResponse]
    exact core_sent rfl

@[simp] theorem Server.core_reading (usb : List Completion) (rx : Rx) :
    (s.reading usb rx).core = s.core := rfl

@[simp] theorem Server.core_readExact (n : ℕ) : (s.readExact n).2.core = s.core := rfl

theorem Server.core_drainExact (n : ℕ) : ∀ s : Server, (s.drainExact n).2.core = s.core := by
  induction n using Nat.strong_induction_on with
  | _ n ih =>
    intro s
    unfold drainExact
    split
    · rfl
    · have hread := s.core_readExact (min n 4096)
      rcases hr : s.readExact (min n 4096) with ⟨_ | bs, s₁⟩
      · rw [hr] at hread
        exact hread
      · rw [hr] at hread
        dsimp only
        rw [ih _ (by omega) s₁]
        exact hread

theorem Server.core_readDataset (op : Operation) (least most : ℕ) :
    (s.readDataset op trans least most).2.core = s.core := by
  unfold readDataset
  have hread := s.core_readExact headerSize
  rcases hr : s.readExact headerSize with ⟨_ | bytes, s₁⟩
  · rw [hr] at hread
    exact hread
  · rw [hr] at hread
    dsimp only
    split
    · rw [core_sendResponse]
      split
      · rw [core_drainExact]
        exact hread
      · exact hread
    · rw [core_readExact]
      exact hread

/-- A transfer that fails leaves no object. -/
theorem Server.core_failTransfer (code : UInt16) (hbusy : s.installerBusy = false) :
    (s.failTransfer code trans).core = s.core.clear.settle := by
  unfold failTransfer
  rw [core_sendRemoved]
  have hnone : handedOut [Message.response code trans []] = [] := rfl
  unfold core Core.clear Core.settle
  simp only [sendResponse, resetPendingObject, handedOut_append, hnone, List.append_nil, hbusy]
  rfl

/-- An announcement is refused, or gets a fresh handle. -/
theorem Server.step_preparePendingObject (hopen : s.core.session ≠ 0) (name : Bytes) (size : ℕ)
    (known : Bool) (format : UInt16) :
    s.core.Step (s.preparePendingObject name size known format trans).core := by
  unfold preparePendingObject
  split
  · rw [core_sendResponse]
    exact .keep
  rename_i hfree
  rw [not_or] at hfree
  split
  · rw [core_sendResponse]
    exact .keep
  have hbusy : s.core.busy = false := by
    show s.installerBusy = false
    simpa using hfree.1
  have hpending : s.core.pending = false := by
    show s.pendingValid = false
    simpa using hfree.2
  have hann := Core.Step.announce hopen hbusy hpending
  unfold core Core.announce at hann
  unfold core
  simp only [sendResponse, handedOut_append]
  exact hann

/-- A step of a server that has the same core. -/
theorem Core.Step.of_core {s₁ : Server} (h : s₁.core.Step s'.core) (hs : s₁.core = s.core) :
    s.core.Step s'.core := hs ▸ h

/-- Nothing happens to the core. -/
theorem Core.Step.of_eq {c c' : Core} (h : c' = c) : c.Step c' := h ▸ .keep

theorem Server.readDataset_core {op : Operation} {least most : ℕ} {data : Option Bytes}
    {s₁ : Server}
    (h : s.readDataset op trans least most = (data, s₁)) : s₁.core = s.core := by
  have hcore : (s.readDataset op trans least most).2.core = s.core :=
    s.core_readDataset op least most
  rw [h] at hcore
  exact hcore

theorem Server.step_handleSendObjectInfo (hopen : s.sessionId ≠ 0) :
    s.core.Step (s.handleSendObjectInfo trans params).core := by
  unfold handleSendObjectInfo
  split
  · exact .of_eq (core_sendResponse _)
  split
  · exact .of_eq (core_sendResponse _)
  split
  · exact .of_eq (core_sendResponse _)
  rcases hr : s.readDataset .sendObjectInfo trans 53 (64 * 1024) with ⟨_ | data, s₁⟩
  · exact .of_eq (readDataset_core hr)
  dsimp only
  split
  · rw [core_sendResponse]
    exact .of_eq (readDataset_core hr)
  · have hcore : s₁.core = s.core := readDataset_core hr
    have hopen₁ : s₁.core.session ≠ 0 := by
      rw [hcore]
      exact hopen
    exact (step_preparePendingObject hopen₁ _ _ _ _).of_core hcore

theorem Server.step_handleSendObjectPropList (hopen : s.sessionId ≠ 0) :
    s.core.Step (s.handleSendObjectPropList trans params).core := by
  unfold handleSendObjectPropList
  split
  · exact .of_eq (core_sendResponse _)
  split
  · dsimp only
    split
    · exact .of_eq (core_sendResponse _)
    rcases hr : s.readDataset .sendObjectPropList trans 4 (256 * 1024) with ⟨_ | data, s₁⟩
    · exact .of_eq (readDataset_core hr)
    dsimp only
    split
    · rw [core_sendResponse]
      exact .of_eq (readDataset_core hr)
    · have hcore : s₁.core = s.core := readDataset_core hr
      have hopen₁ : s₁.core.session ≠ 0 := by
        rw [hcore]
        exact hopen
      exact (step_preparePendingObject hopen₁ _ _ _ _).of_core hcore
  · exact .of_eq (core_sendResponse _)

theorem Server.step_handleSetObjectPropValue :
    s.core.Step (s.handleSetObjectPropValue trans params).core := by
  unfold handleSetObjectPropValue
  split
  swap
  · exact .of_eq (core_sendResponse _)
  split
  · exact .of_eq (core_sendResponse _)
  split
  · exact .of_eq (core_sendResponse _)
  split
  · exact .of_eq (core_sendResponse _)
  rcases hr : s.readDataset .setObjectPropValue trans 1 4096 with ⟨_ | data, s₁⟩
  · exact .of_eq (readDataset_core hr)
  dsimp only
  split
  · rw [core_sendResponse]
    exact .of_eq (readDataset_core hr)
  · have hcore : s₁.core = s.core := readDataset_core hr
    split
    · rw [core_sendResponse]
      exact .of_eq hcore
    · rw [core_sendResponse]
      exact .of_eq hcore

/-- However a transfer goes, no object is left. -/
theorem Server.core_receiveObject : (s.receiveObject p trans).core = s.core.clear.settle := by
  have hnone : ∀ code, handedOut [Message.response code trans []] = [] := fun _ => rfl
  unfold receiveObject
  dsimp only
  split
  · rw [core_failTransfer _ rfl]
    rfl
  · split
    · rw [core_sendRemoved]
      unfold core Core.clear Core.settle
      simp only [sendResponse, resetPendingObject, handedOut_append, hnone, List.append_nil]
      rfl
    · rw [core_sendRemoved, core_sendResponse]
      rfl

variable (trans) in
/-- Both outcomes of `handleSendObject`: it is refused, and counts nothing, or no object is left. -/
theorem Server.handleSendObject_cases :
    ((s.handleSendObject p trans).core = s.core ∧
      (s.handleSendObject p trans).sessionInstalledCount = s.sessionInstalledCount ∧
      (s.handleSendObject p trans).sessionFailedCount = s.sessionFailedCount) ∨
    s.pendingValid = true ∧ (s.handleSendObject p trans).core = s.core.clear.settle := by
  unfold handleSendObject
  split
  · exact .inl ⟨core_sendResponse _, rfl, rfl⟩
  rename_i hbusy
  split
  · exact .inl ⟨core_sendResponse _, rfl, rfl⟩
  rename_i hpending
  rw [Bool.not_eq_true] at hbusy
  rw [not_not] at hpending
  rcases hr : s.readExact headerSize with ⟨_ | bytes, s₁⟩
  · have hs₁ : s₁ = (s.readExact headerSize).2 := by rw [hr]
    rw [hs₁]
    exact .inl ⟨rfl, rfl, rfl⟩
  have hs₁ : s₁ = (s.readExact headerSize).2 := by rw [hr]
  have hcore : s₁.core = s.core := by rw [hs₁, core_readExact]
  have hbusy₁ : s₁.installerBusy = false := by rw [hs₁]; exact hbusy
  dsimp only
  generalize ContainerHeader.decode bytes = h
  generalize (if ¬decide (h.length.toNat = 4294967295) = true ∧ headerSize ≤ h.length.toNat then
    h.length.toNat - headerSize else 0) = size
  split
  · left
    rw [hs₁]
    exact ⟨core_sendResponse _, rfl, rfl⟩
  right
  refine ⟨hpending, ?_⟩
  split
  · rw [core_failTransfer]
    · split
      · rw [core_drainExact, hcore]
      · rw [hcore]
    · have hbusy₂ : ∀ s₂ : Server, s₂.core = s₁.core → s₂.installerBusy = false := by
        intro s₂ h₂
        have := congrArg Core.busy h₂
        exact this.trans hbusy₁
      split
      · exact hbusy₂ _ (core_drainExact _ _)
      · exact hbusy₁
  · split
    · rw [core_receiveObject, ← hcore]
      rfl
    · rw [core_receiveObject, hcore]

theorem Server.step_handleSendObject : s.core.Step (s.handleSendObject p trans).core := by
  rcases handleSendObject_cases (s := s) trans p with ⟨h, -⟩ | ⟨hpending, h⟩
  · exact .of_eq h
  · rw [h]
    exact .settle hpending

variable (trans) in
/-- `handleDeleteObject` is refused, or clears the object. -/
theorem Server.core_handleDeleteObject :
    (s.handleDeleteObject trans params).core =
      if (s.installerBusy = false ∧ s.state.idle = true) ∧ params[0]?.any s.isCurrentObject then
        s.core.clear else s.core := by
  unfold handleDeleteObject
  have hguard : (s.installerBusy = true ∨ s.state = .Receiving ∨ s.state = .Installing) ↔
      ¬(s.installerBusy = false ∧ s.state.idle = true) := by
    unfold ServerState.idle
    rw [Bool.and_eq_true, decide_eq_true_iff, decide_eq_true_iff]
    cases s.installerBusy
    · simp only [Bool.false_eq_true, false_or, true_and]
      tauto
    · simp
  by_cases hrest : s.installerBusy = false ∧ s.state.idle = true
  swap
  · rw [if_pos (hguard.mpr hrest), if_neg fun h => hrest h.1, core_sendResponse]
  rw [if_neg fun h => hguard.mp h hrest]
  by_cases hcur : params[0]?.any s.isCurrentObject = true
  · rw [if_neg (not_not.mpr hcur), if_pos ⟨hrest, hcur⟩, core_sendRemoved, core_sendResponse]
    rfl
  · rw [if_pos hcur, if_neg fun h => hcur h.2, core_sendResponse]

theorem Server.step_handleDeleteObject :
    s.core.Step (s.handleDeleteObject trans params).core := by
  rw [core_handleDeleteObject]
  split
  · rename_i h
    have hpending : s.core.pending = true := by
      obtain ⟨handle, -, hcur⟩ := Option.any_eq_true .. |>.mp h.2
      unfold isCurrentObject at hcur
      exact (of_decide_eq_true hcur).2
    exact .clear hpending
  · exact .keep

variable (trans) in
/-- `OpenSession` is refused, or opens a session. -/
theorem Server.core_openSession :
    (s.openSession trans params).core = s.core ∨
      s.sessionId = 0 ∧ ∃ id : UInt32, id ≠ 0 ∧
        (s.openSession trans params).core = { s.core with session := id } := by
  unfold openSession
  split
  · exact .inl (core_sendResponse _)
  · split
    · exact .inl (core_sendResponse _)
    · rename_i id rest hid
      split
      · exact .inl (core_sendResponse_one _ _)
      · rename_i hclosed
        rw [core_sendResponse]
        exact .inr ⟨not_not.mp hclosed, id, hid, rfl⟩

theorem Server.core_closeSession :
    (s.dispatchOperation p .closeSession trans params).core = s.core.close :=
  core_sendResponse _

theorem Server.core_handleGetObjectPropList :
    (s.handleGetObjectPropList trans params).core = s.core := by
  unfold handleGetObjectPropList
  split
  · dsimp only
    split
    · exact core_sendResponse _
    · split
      · exact core_sendResponse _
      · split
        · exact core_sendResponse _
        · exact core_answer _ _
  · exact core_sendResponse _

/-- Every other operation makes one of the steps. -/
theorem Server.step_dispatchOperation {op : Operation} (hop : op ≠ .closeSession)
    (hopen : op.hasData = true → s.sessionId ≠ 0) :
    s.core.Step (s.dispatchOperation p op trans params).core := by
  cases op with
  | getDeviceInfo | getStorageIds | getStorageInfo | getObjectHandles | getObjectInfo
  | getObjectPropsSupported | getObjectPropDesc | getObjectPropValue =>
    exact .of_eq (core_answer _ _)
  | getNumObjects => exact .of_eq (core_sendResponse_one _ _)
  | getObjectPropList => exact .of_eq (core_handleGetObjectPropList params)
  | openSession =>
    rcases core_openSession (s := s) trans params with h | ⟨hclosed, id, hid, h⟩
    · exact .of_eq h
    · show s.core.Step (s.openSession trans params).core
      rw [h]
      exact .openSession hclosed hid
  | closeSession => exact absurd rfl hop
  | deleteObject => exact step_handleDeleteObject params
  | sendObjectInfo => exact step_handleSendObjectInfo params (hopen rfl)
  | sendObjectPropList => exact step_handleSendObjectPropList params (hopen rfl)
  | sendObject => exact step_handleSendObject p
  | setObjectPropValue => exact step_handleSetObjectPropValue params

variable (trans) in
/-- A command makes one of the steps, or closes the session. -/
theorem Server.dispatchCommand_cases (op : UInt16) :
    s.core.Step (s.dispatchCommand p op trans params).core ∨
      op = Operation.closeSession.code ∧
        (s.dispatchCommand p op trans params).core = s.core.close := by
  unfold dispatchCommand
  split
  · exact .inl (.of_eq (core_sendResponse _))
  rename_i hopen
  cases ho : Operation.ofCode op with
  | none => exact .inl (.of_eq (core_sendResponse _))
  | some o =>
    obtain rfl := Operation.ofCode_eq_some ho
    by_cases hclose : o = .closeSession
    · subst hclose
      exact .inr ⟨rfl, core_closeSession p params⟩
    · refine .inl (step_dispatchOperation p params hclose fun hdata hclosed => hopen ?_)
      exact ⟨(Operation.code_of_hasData hdata).1, (Operation.code_of_hasData hdata).2, hclosed⟩

end core

/-! ## Rounds -/

namespace Core

variable {c c' : Core}

/-- The session is dropped. -/
def drop (c : Core) : Core := { c with session := 0, handle := 0, pending := false, idle := true }

theorem Sound.drop (h : c.Sound) : c.drop.Sound :=
  ⟨fun _ => rfl, ⟨h.rested.1, rfl⟩, h.handed, h.next⟩

/-- A step keeps a sound core. -/
theorem Sound.step (h : c.Sound) (hs : c.Step c') : c'.Sound := by
  cases hs with
  | keep => exact h
  | announce hopen hbusy hpending =>
    have hlen : (c.handed ++ [(freshHandle c.next).1]).length = c.handed.length + 1 := by simp
    refine ⟨fun hclosed => absurd hclosed hopen, ⟨h.rested.1, rfl⟩, ?_, ?_⟩
    · show c.handed ++ [_] = List.map _ (List.range (c.handed ++ [_]).length)
      rw [hlen, List.range_succ, List.map_append, ← h.handed, h.next]
      rfl
    · show (freshHandle (freshHandle c.next).2).1 = handleAt (c.handed ++ [_]).length
      rw [hlen]
      exact freshHandle_succ h.next
  | clear hpending => exact ⟨fun _ => rfl, h.rested, h.handed, h.next⟩
  | settle hpending => exact ⟨fun _ => rfl, ⟨rfl, rfl⟩, h.handed, h.next⟩
  | openSession hclosed hid => exact ⟨fun h0 => absurd h0 hid, h.rested, h.handed, h.next⟩

/-- So does the end of a session without a pending object. -/
theorem Sound.close (h : c.Sound) (hpending : c.pending = false) : c.close.Sound :=
  ⟨fun _ => hpending, h.rested, h.handed, h.next⟩

end Core

section rounds

variable {s s' : Server}

theorem Server.readCommand_core : s.readCommand.2.core = s.core := by
  unfold readCommand
  have hread := s.core_readExact headerSize
  rcases hr : s.readExact headerSize with ⟨_ | bytes, s₁⟩
  · rw [hr] at hread
    exact hread
  · rw [hr] at hread
    dsimp only
    split
    · exact hread
    · split
      · exact hread
      · have hread₂ := s₁.core_readExact ((ContainerHeader.decode bytes).length.toNat - headerSize)
        rcases hr₂ : s₁.readExact ((ContainerHeader.decode bytes).length.toNat - headerSize) with
          ⟨_ | payload, s₂⟩
        · rw [hr₂] at hread₂
          exact hread₂.trans hread
        · rw [hr₂] at hread₂
          exact hread₂.trans hread

/-- After a command that failed the session is gone, and the object with it. -/
theorem Server.core_restart : s.restart.core = s.core.drop := by
  unfold restart core Core.drop
  by_cases h : s.state = .Error
  · simp only [resetPendingObject, h, if_true]
    rfl
  · simp only [resetPendingObject, h, if_false]
    rfl

/-- The next command does not close a session over a pending object. -/
def Server.Tidy (s : Server) : Prop :=
  ∀ op trans params, s.readCommand.1 = .command op trans params →
    op = Operation.closeSession.code → s.pendingValid = false

/-- A round of a run in which no session is closed over a pending object. -/
def Server.TidyRound (s s' : Server) : Prop := s.Tidy ∧ ∃ p, s' = s.commandRound p

/-- A round keeps a sound core. -/
theorem Server.TidyRound.sound (h : s.TidyRound s') (hs : s.core.Sound) : s'.core.Sound := by
  obtain ⟨htidy, p, rfl⟩ := h
  unfold Tidy at htidy
  have hcore := s.readCommand_core
  unfold commandRound processOneCommand
  rcases hr : s.readCommand with ⟨_ | trans | ⟨op, trans, params⟩, s₁⟩
  · rw [hr] at hcore
    show s₁.restart.core.Sound
    rw [core_restart, hcore]
    exact hs.drop
  · rw [hr] at hcore
    show (s₁.sendResponse RES_INVALID_PARAMETER trans).core.Sound
    rw [core_sendResponse, hcore]
    exact hs
  · rw [hr] at hcore htidy
    show (s₁.dispatchCommand p op trans params).core.Sound
    rw [← hcore] at hs
    rcases dispatchCommand_cases (s := s₁) trans p params op with hstep | ⟨hop, hclose⟩
    · exact hs.step hstep
    · rw [hclose]
      refine hs.close ?_
      rw [hcore]
      exact htidy op trans params rfl hop

/-! ## One pending object -/

/-- The server before the first command, whatever the host will send. -/
def Server.Start (s : Server) : Prop := ∃ usb, s = { usb }

theorem Server.Start.sound (h : s.Start) : s.core.Sound := by
  obtain ⟨usb, rfl⟩ := h
  exact ⟨fun _ => rfl, ⟨rfl, rfl⟩, rfl, rfl⟩

/-- What a command does to the pending object, from the state `s` to `s'`. -/
structure Server.CommandSound (s s' : Server) (op : UInt16) (params : List UInt32) : Prop where
  /-- A handle is given out only when no object is pending. -/
  one : handedOut s'.sent ≠ handedOut s.sent → s.pendingValid = false ∧ s'.pendingValid = true
  /-- A new session begins without an object, and the installer is free. -/
  opens : s.sessionId = 0 → s'.sessionId ≠ 0 → s'.pendingValid = false ∧ s'.installerBusy = false
  /-- No object outlives its session. -/
  closes : op = Operation.closeSession.code → s'.sessionId = 0 ∧ s'.pendingValid = false
  /-- A transfer that is counted, as installed or as failed, is over. -/
  completes : op = Operation.sendObject.code →
    s'.sessionInstalledCount ≠ s.sessionInstalledCount ∨
      s'.sessionFailedCount ≠ s.sessionFailedCount → s'.pendingValid = false
  /-- An object that is deleted is gone. -/
  deletes : op = Operation.deleteObject.code → s.pendingValid = true →
    params[0]? = some s.pendingObjectHandle → s'.pendingValid = false

/-- Handles are fresh, and no object is pending without a session; so it stays with every command
but a `CloseSession` over a pending object. -/
structure Server.PendingSound (s : Server) : Prop where
  valid : ∀ handle ∈ handedOut s.sent, handle ≠ 0 ∧ handle ≠ 0xFFFFFFFF
  fresh : ∀ (i j : ℕ) (a b : UInt32), i < j → j ≤ i + (2 ^ 32 - 3) →
    (handedOut s.sent)[i]? = some a →
    (handedOut s.sent)[j]? = some b → a ≠ b
  closed : s.sessionId = 0 → s.pendingValid = false
  command : ∀ (usb : List Completion) (rx : Rx) (p : Platform) (op : UInt16) (trans : UInt32)
    (params : List UInt32), (op = Operation.closeSession.code → s.pendingValid = false) →
      s.CommandSound ((s.reading usb rx).dispatchCommand p op trans params) op params

variable {usb : List Completion} {rx : Rx} (p : Platform) {op : UInt16} {trans : UInt32}
  {params : List UInt32}

/-- The operation of a known code, in an open session. -/
theorem Server.dispatchCommand_code (o : Operation) (hopen : s.sessionId ≠ 0) :
    s.dispatchCommand p o.code trans params = s.dispatchOperation p o trans params := by
  unfold dispatchCommand
  rw [if_neg fun h => hopen h.2.2, Operation.ofCode_code]

theorem Server.dispatchCommand_closed (hop : op ≠ Operation.getDeviceInfo.code)
    (hop' : op ≠ Operation.openSession.code) (hclosed : s.sessionId = 0) :
    s.dispatchCommand p op trans params = s.sendResponse RES_SESSION_NOT_OPEN trans := by
  unfold dispatchCommand
  rw [if_pos ⟨hop, hop', hclosed⟩]

theorem Server.closes_dispatchCommand (hpending : s.pendingValid = false) :
    (s.dispatchCommand p Operation.closeSession.code trans params).sessionId = 0 ∧
      (s.dispatchCommand p Operation.closeSession.code trans params).pendingValid = false := by
  by_cases hclosed : s.sessionId = 0
  · rw [dispatchCommand_closed p (by decide) (by decide) hclosed]
    exact ⟨hclosed, hpending⟩
  · rw [dispatchCommand_code p .closeSession hclosed]
    exact ⟨rfl, hpending⟩

theorem Server.completes_dispatchCommand
    (hcount : (s.dispatchCommand p Operation.sendObject.code trans params).sessionInstalledCount ≠
        s.sessionInstalledCount ∨
      (s.dispatchCommand p Operation.sendObject.code trans params).sessionFailedCount ≠
        s.sessionFailedCount) :
    (s.dispatchCommand p Operation.sendObject.code trans params).pendingValid = false := by
  by_cases hclosed : s.sessionId = 0
  · rw [dispatchCommand_closed p (by decide) (by decide) hclosed] at hcount
    exact hcount.elim (absurd rfl) (absurd rfl)
  · rw [dispatchCommand_code p .sendObject hclosed] at hcount ⊢
    rcases handleSendObject_cases (s := s) trans p with ⟨-, hi, hf⟩ | ⟨-, hcore⟩
    · exact hcount.elim (absurd hi) (absurd hf)
    · exact congrArg Core.pending hcore

theorem Server.deletes_dispatchCommand (hs : s.core.Sound) (hpending : s.pendingValid = true)
    (hhandle : params[0]? = some s.pendingObjectHandle) :
    (s.dispatchCommand p Operation.deleteObject.code trans params).pendingValid = false := by
  have hopen : s.sessionId ≠ 0 := by
    intro hclosed
    have hnone : s.pendingValid = false := hs.closed hclosed
    rw [hpending] at hnone
    cases hnone
  have hcur : params[0]?.any s.isCurrentObject = true := by
    rw [hhandle, Option.any_some]
    unfold isCurrentObject currentObjectHandle currentObjectExists
    rw [if_pos hpending]
    exact decide_eq_true ⟨rfl, hpending⟩
  have hcore := core_handleDeleteObject (s := s) trans params
  rw [if_pos ⟨hs.rested, hcur⟩] at hcore
  rw [dispatchCommand_code p .deleteObject hopen]
  exact congrArg Core.pending hcore

/-- What the machine of sessions and objects keeps, the responder keeps with every command. -/
theorem Server.pendingSound (hs : s.core.Sound) : s.PendingSound := by
  have hat : ∀ (i : ℕ) (a : UInt32), (handedOut s.sent)[i]? = some a → a = handleAt i := by
    intro i a ha
    have hlist : handedOut s.sent = (List.range (handedOut s.sent).length).map handleAt := hs.handed
    rw [hlist, List.getElem?_map, Option.map_eq_some_iff] at ha
    obtain ⟨k, hk, rfl⟩ := ha
    rw [(List.getElem?_eq_some_iff.mp hk).2.symm, List.getElem_range]
  refine ⟨?_, ?_, hs.closed, ?_⟩
  · intro handle hmem
    obtain ⟨i, hi⟩ := List.mem_iff_getElem?.mp hmem
    rw [hat i handle hi]
    exact handleAt_ne i
  · intro i j a b hij hj ha hb
    rw [hat i a ha, hat j b hb]
    exact handleAt_injOn hij hj
  · intro usb rx p op trans params htidy
    have hs₁ : (s.reading usb rx).core.Sound := hs
    have hcases := dispatchCommand_cases (s := s.reading usb rx) trans p params op
    generalize hd : (s.reading usb rx).dispatchCommand p op trans params = s' at hcases
    refine ⟨?_, ?_, ?_, ?_, ?_⟩
    · intro hne
      rcases hcases with hstep | ⟨-, hclose⟩
      · generalize hc : s'.core = c' at hstep
        have hhanded : c'.handed ≠ s.core.handed := by
          rw [← hc]
          exact hne
        cases hstep with
        | announce hopen hbusy hpending => exact ⟨hpending, congrArg Core.pending hc⟩
        | keep | clear | settle | openSession => exact absurd rfl hhanded
      · exact absurd (congrArg Core.handed hclose) hne
    · intro hclosed hopened
      have hnone : s.pendingValid = false := hs.closed hclosed
      rcases hcases with hstep | ⟨-, hclose⟩
      · generalize hc : s'.core = c' at hstep
        have hsession : c'.session ≠ 0 := by
          rw [← hc]
          exact hopened
        cases hstep with
        | openSession =>
          exact ⟨(congrArg Core.pending hc).trans hnone,
            (congrArg Core.busy hc).trans hs.rested.1⟩
        | keep | clear | settle => exact absurd hclosed hsession
        | announce hopen => exact absurd hclosed hopen
      · exact absurd (congrArg Core.session hclose) hopened
    · rintro rfl
      rw [← hd]
      exact closes_dispatchCommand p (htidy rfl)
    · rintro rfl hcount
      rw [← hd] at hcount ⊢
      exact completes_dispatchCommand p hcount
    · rintro rfl hpending hhandle
      rw [← hd]
      exact deletes_dispatchCommand p hs₁ hpending hhandle

/-- In every run in which no session is closed over a pending object, the responder keeps its
promises about handles, objects and sessions. -/
theorem Server.pending_kept {s₀ : Server} (h₀ : s₀.Start)
    (hrun : Relation.ReflTransGen TidyRound s₀ s) : s.PendingSound := by
  refine pendingSound ?_
  induction hrun with
  | refl => exact h₀.sound
  | tail _ hround ih => exact hround.sound ih

end rounds

/-! ### An object that is taken back before its session is closed -/

/-- A command container of the host. -/
def commandBytes (op : Operation) (trans : UInt32) (params : List UInt32) : Completion :=
  some (ContainerHeader.encode ⟨.ofNat (headerSize + 4 * params.length), CONTAINER_COMMAND, op.code,
    trans⟩ ++ params.flatMap add32)

/-- The property list that announces an object `a.nsp`. -/
def announcement : Bytes :=
  add32 1 ++ add32 0 ++ add16 PROP_OBJECT_FILE_NAME ++ add16 TYPE_STRING ++
    addString (Nsp.text "a.nsp")

/-- The two transfers of the host that announce an object of three bytes. -/
def announcing (trans : UInt32) : List Completion :=
  [commandBytes .sendObjectPropList trans [0, 0, 0x3000, 0, 3],
    some (ContainerHeader.encode ⟨.ofNat (headerSize + announcement.length), CONTAINER_DATA,
      Operation.sendObjectPropList.code, trans⟩ ++ announcement)]

/-- The host opens a session, announces an object, deletes it and closes the session; then it opens
another session and announces another object. -/
def takenBack : Server where
  usb := [commandBytes .openSession 1 [7]] ++ announcing 2 ++
    [commandBytes .deleteObject 3 [1], commandBytes .closeSession 4 [],
      commandBytes .openSession 5 [8]] ++ announcing 6

/-- The server after some rounds. -/
def Server.rounds (n : ℕ) (s : Server) : Server := (fun s => s.commandRound platform)^[n] s

/-- The next command is another one, or no object is pending. -/
theorem Server.Tidy.of_command {s : Server} (op : UInt16) (trans : UInt32) (params : List UInt32)
    (h : s.readCommand.1 = .command op trans params)
    (hop : op ≠ Operation.closeSession.code ∨ s.pendingValid = false) : s.Tidy := by
  intro op' trans' params' hread hclose
  rw [h] at hread
  cases hread
  exact hop.resolve_left (not_not.mpr hclose)

/-- Both objects get a handle, and the second one is pending in the second session. -/
theorem Server.pending_kept_takenBack :
    handedOut (takenBack.rounds 6).sent = [1, 2] ∧ (takenBack.rounds 6).sessionId = 8 ∧
      (takenBack.rounds 6).pendingValid = true ∧ (takenBack.rounds 6).PendingSound := by
  have hround : ∀ n, (takenBack.rounds n).Tidy →
      (takenBack.rounds n).TidyRound (takenBack.rounds (n + 1)) := by
    intro n htidy
    refine ⟨htidy, platform, ?_⟩
    unfold rounds
    rw [Function.iterate_succ_apply']
  have h0 := hround 0 (.of_command Operation.openSession.code 1 [7] (by decide) (.inl (by decide)))
  have h1 := hround 1 (.of_command Operation.sendObjectPropList.code 2 [0, 0, 0x3000, 0, 3]
    (by decide) (.inl (by decide)))
  have h2 := hround 2 (.of_command Operation.deleteObject.code 3 [1] (by decide)
    (.inl (by decide)))
  -- here the session is closed, and no object is pending
  have h3 := hround 3 (.of_command Operation.closeSession.code 4 [] (by decide) (.inr (by decide)))
  have h4 := hround 4 (.of_command Operation.openSession.code 5 [8] (by decide) (.inl (by decide)))
  have h5 := hround 5 (.of_command Operation.sendObjectPropList.code 6 [0, 0, 0x3000, 0, 3]
    (by decide) (.inl (by decide)))
  have hrun := (((((Relation.ReflTransGen.single h0).tail h1).tail h2).tail h3).tail h4).tail h5
  exact ⟨by decide, by decide, by decide, pending_kept ⟨_, rfl⟩ hrun⟩

/-! ### A session that is closed over an object -/

/-- The host opens a session, announces an object of three bytes, and closes the session. -/
def abandoned : Server where
  usb := [commandBytes .openSession 1 [7]] ++ announcing 2 ++ [commandBytes .closeSession 3 []]

/-- The object of a session that is closed is still pending. -/
theorem Server.pending_outlives_session :
    ¬∀ s₀ s : Server, s₀.Start →
      Relation.ReflTransGen (fun s s' : Server => ∃ p, s' = s.commandRound p) s₀ s →
        s.PendingSound := by
  intro h
  have hsound := h abandoned (((abandoned.commandRound platform).commandRound
    platform).commandRound platform) ⟨_, rfl⟩
    (((Relation.ReflTransGen.single ⟨_, rfl⟩).tail ⟨_, rfl⟩).tail ⟨_, rfl⟩)
  have hpending := hsound.closed (by decide)
  revert hpending
  decide

end MtpNativeServer
