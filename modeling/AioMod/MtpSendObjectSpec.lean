/-
# The answer to a `SendObject` and what was installed

What the handler answers matches what the installer has done in exactly those runs in which no
receive fails and no request is seen behind the join after a commit, the header of the data is not
refused, and what is not committed is rolled back.
-/
import AioMod.MtpSendObject
import AioMod.MtpAnswers

namespace MtpSendObject

open MtpNativeServer Traces

/-! ## What the runs are judged by -/

/-- The handler has given this answer. -/
def Answered (s₀ : Server) (trans : UInt32) (c : Conf) (code : UInt16) : Prop :=
  ∃ messages, c.server.sent = s₀.sent ++ messages ∧ .response code trans [] ∈ messages

/-- The transport is gone. -/
def Gone (t : List Event) : Prop := .headerLost true ∈ t ∨ .detached ∈ t

/-- The answer matches the installation. -/
structure Matches (s₀ : Server) (trans : UInt32) (t : List Event) (c : Conf) : Prop where
  installed : Answered s₀ trans c RES_OK ∧
    c.server.sessionInstalledCount = s₀.sessionInstalledCount + 1 ↔ c.transaction = .committed
  failed : c.transaction ≠ .committed →
    ((∃ code, code ≠ RES_OK ∧ Answered s₀ trans c code) ∨ Gone t) ∧ c.transaction ≠ .leftBehind
  released : (∃ code, Answered s₀ trans c code) → c.server.pendingValid = false ∧
    c.server.installerBusy = false ∧ c.homeBlocked = false

/-- The look at `stopRequested` behind the join comes after a request. -/
def StopSeen (stop₀ : Bool) (t : List Event) : Prop :=
  ∃ t₁ t₂, t = t₁ ++ .lookStop :: t₂ ∧ (stop₀ = true ∨ .stop ∈ t₁)

/-- A request to cancel has come since the transfer started. -/
def CancelSince (t : List Event) : Prop := ∃ t₁ t₂, t = t₁ ++ .started :: t₂ ∧ .cancel ∈ t₂

/-- The look at `transferCancelRequested` behind the join comes after a request. -/
def CancelSeen (t : List Event) : Prop :=
  ∃ t₁ t₂, t = t₁ ++ .lookCancel :: t₂ ∧ CancelSince t₁

/-- Nothing comes between a commit and the answer, the header is in order, and rollbacks are
complete. -/
structure Undisturbed (stop₀ : Bool) (t : List Event) : Prop where
  header : .headerRejected ∉ t ∧ .headerLost false ∉ t
  commit : .committed ∈ t → .receiveFailed ∉ t ∧ ¬StopSeen stop₀ t ∧ ¬CancelSeen t
  rollback : .rolledBack false ∉ t

/-! ## Requests in a run -/

theorem append_singleton_split {t t₁ t₂ : List Event} {e e' : Event}
    (h : t ++ [e] = t₁ ++ e' :: t₂) :
    (t₂ = [] ∧ t = t₁ ∧ e = e') ∨ ∃ t₃, t₂ = t₃ ++ [e] ∧ t = t₁ ++ e' :: t₃ := by
  rcases List.eq_nil_or_concat' t₂ with rfl | ⟨t₃, e₃, rfl⟩
  · obtain ⟨h₁, h₂⟩ := List.append_inj' h rfl
    exact .inl ⟨rfl, h₁, by simpa using h₂⟩
  · have h' : t ++ [e] = (t₁ ++ e' :: t₃) ++ [e₃] := by simpa using h
    obtain ⟨h₁, h₂⟩ := List.append_inj' h' rfl
    obtain rfl : e = e₃ := by simpa using h₂
    exact .inr ⟨t₃, rfl, h₁⟩

theorem stopSeen_snoc {stop₀ : Bool} {t : List Event} {e : Event} :
    StopSeen stop₀ (t ++ [e]) ↔ StopSeen stop₀ t ∨ e = .lookStop ∧ (stop₀ = true ∨ .stop ∈ t) := by
  constructor
  · rintro ⟨t₁, t₂, h, hstop⟩
    rcases append_singleton_split h with ⟨rfl, rfl, rfl⟩ | ⟨t₃, rfl, rfl⟩
    · exact .inr ⟨rfl, hstop⟩
    · exact .inl ⟨t₁, t₃, rfl, hstop⟩
  · rintro (⟨t₁, t₂, rfl, hstop⟩ | ⟨rfl, hstop⟩)
    · exact ⟨t₁, t₂ ++ [e], by simp, hstop⟩
    · exact ⟨t, [], rfl, hstop⟩

theorem cancelSince_snoc {t : List Event} {e : Event} :
    CancelSince (t ++ [e]) ↔ CancelSince t ∨ e = .cancel ∧ .started ∈ t := by
  constructor
  · rintro ⟨t₁, t₂, h, hcancel⟩
    rcases append_singleton_split h with ⟨rfl, rfl, rfl⟩ | ⟨t₃, rfl, rfl⟩
    · cases hcancel
    · rcases List.mem_append.mp hcancel with hmem | hmem
      · exact .inl ⟨t₁, t₃, rfl, hmem⟩
      · exact .inr ⟨(List.mem_singleton.mp hmem).symm, by simp⟩
  · rintro (⟨t₁, t₂, rfl, hcancel⟩ | ⟨rfl, hstarted⟩)
    · exact ⟨t₁, t₂ ++ [e], by simp, List.mem_append_left _ hcancel⟩
    · obtain ⟨t₁, t₂, rfl⟩ := List.append_of_mem hstarted
      exact ⟨t₁, t₂ ++ [.cancel], by simp, by simp⟩

theorem cancelSeen_snoc {t : List Event} {e : Event} :
    CancelSeen (t ++ [e]) ↔ CancelSeen t ∨ e = .lookCancel ∧ CancelSince t := by
  constructor
  · rintro ⟨t₁, t₂, h, hcancel⟩
    rcases append_singleton_split h with ⟨rfl, rfl, rfl⟩ | ⟨t₃, rfl, rfl⟩
    · exact .inr ⟨rfl, hcancel⟩
    · exact .inl ⟨t₁, t₃, rfl, hcancel⟩
  · rintro (⟨t₁, t₂, rfl, hcancel⟩ | ⟨rfl, hcancel⟩)
    · exact ⟨t₁, t₂ ++ [e], by simp, hcancel⟩
    · exact ⟨t, [], rfl, hcancel⟩

/-! ## What the handlers do to the server -/

/-- What an answer changes of the server. -/
structure Standing where
  sent : List Message
  installed : ℕ
  valid : Bool
  busy : Bool

/-- The standing of a server. -/
def standing (s : Server) : Standing where
  sent := s.sent
  installed := s.sessionInstalledCount
  valid := s.pendingValid
  busy := s.installerBusy

theorem standing_readExact (s : Server) (n : ℕ) : standing (s.readExact n).2 = standing s := rfl

theorem standing_drainExact (n : ℕ) : ∀ s : Server, standing (s.drainExact n).2 = standing s := by
  induction n using Nat.strong_induction_on with
  | _ n ih =>
    intro s
    unfold Server.drainExact
    split
    · rfl
    · have hread := standing_readExact s (min n 4096)
      rcases hr : s.readExact (min n 4096) with ⟨_ | bs, s₁⟩
      · rw [hr] at hread
        exact hread
      · rw [hr] at hread
        dsimp only
        rw [ih _ (by omega) s₁]
        exact hread

/-- A header is accepted, has a length that does not fit, or is refused. -/
theorem acceptHeader_cases (s : Server) (bytes : Bytes) (trans : UInt32) :
    (∃ s' l, acceptHeader s bytes trans = (.tau, s', l) ∧ standing s' = standing s ∧
        (l = .start ∨ ∃ n, l = .drain n)) ∨
      acceptHeader s bytes trans =
        (.headerRejected, s.sendResponse RES_INVALID_OBJECT_INFO trans, .returned .rejected) := by
  unfold acceptHeader
  dsimp only
  generalize (if ¬decide ((ContainerHeader.decode bytes).length.toNat = 0xFFFFFFFF) = true ∧
      headerSize ≤ (ContainerHeader.decode bytes).length.toNat then
    (ContainerHeader.decode bytes).length.toNat - headerSize else 0) = payload
  split_ifs
  · exact .inr rfl
  · exact .inl ⟨_, _, rfl, rfl, .inr ⟨_, rfl⟩⟩
  · exact .inl ⟨_, _, rfl, rfl, .inl rfl⟩
  · exact .inl ⟨_, _, rfl, rfl, .inl rfl⟩

/-- An event for a removed object is no answer. -/
theorem sendRemoved_standing (s : Server) (handle : UInt32) :
    ∃ messages, standing (s.sendRemoved handle) =
      { standing s with sent := s.sent ++ messages } ∧
        ∀ code trans params, .response code trans params ∉ messages := by
  unfold Server.sendRemoved
  split
  · refine ⟨[.event EVENT_OBJECT_REMOVED [handle]], rfl, ?_⟩
    intro code trans params hmem
    cases List.mem_singleton.mp hmem
  · exact ⟨[], by simp [standing], by simp⟩

/-- The answers a handler has added. -/
def AnswersOnly (trans : UInt32) (messages : List Message) (code : UInt16) : Prop :=
  ∀ code', .response code' trans [] ∈ messages ↔ code' = code

theorem answersOnly_append {trans : UInt32} {messages : List Message} {code : UInt16}
    (h : ∀ code trans params, .response code trans params ∉ messages) :
    AnswersOnly trans (.response code trans [] :: messages) code := by
  intro code'
  rw [List.mem_cons]
  constructor
  · rintro (heq | hmem)
    · injection heq
    · exact absurd hmem (h _ _ _)
  · rintro rfl
    exact .inl rfl

theorem failTransfer_standing (s : Server) (code : UInt16) (trans : UInt32) (b : Bool) :
    ∃ messages, standing (failTransfer s code trans b) =
      { standing s with sent := s.sent ++ messages, valid := false } ∧
        (b = true → AnswersOnly trans messages code) ∧ (b = false → messages = []) := by
  cases b
  · exact ⟨[], by simp [failTransfer, standing, Server.resetPendingObject], by rintro ⟨⟩, fun _ => rfl⟩
  · obtain ⟨messages, hst, hno⟩ := sendRemoved_standing
      { (({ s with state := .Error }.sendResponse code trans).resetPendingObject) with
        currentFile := s.pendingName, lastFailedFile := s.pendingName
        sessionFailedCount := s.sessionFailedCount + 1 } s.currentObjectHandle
    refine ⟨.response code trans [] :: messages, ?_, fun _ => answersOnly_append hno, by rintro ⟨⟩⟩
    refine hst.trans ?_
    simp [standing, Server.resetPendingObject, Server.sendResponse]

theorem refuse_standing (s : Server) (code : Nsp.ErrorCode) (trans : UInt32) :
    ∃ messages, standing (refuse s code trans) =
      { standing s with sent := s.sent ++ messages, valid := false } ∧
        AnswersOnly trans messages (installResponse code) := by
  obtain ⟨messages, hst, hno⟩ := sendRemoved_standing
    { (({ s with state := .Error }.sendResponse (installResponse code) trans).resetPendingObject) with
      currentFile := s.pendingName, lastFailedFile := s.pendingName
      sessionFailedCount := s.sessionFailedCount + 1 } s.currentObjectHandle
  refine ⟨_, hst.trans ?_, answersOnly_append hno⟩
  simp [standing, Server.resetPendingObject, Server.sendResponse]

theorem succeed_standing (s : Server) (trans : UInt32) :
    ∃ messages, standing (succeed s trans) =
      { standing s with
        sent := s.sent ++ messages, installed := s.sessionInstalledCount + 1, valid := false } ∧
        AnswersOnly trans messages RES_OK := by
  obtain ⟨messages, hst, hno⟩ := sendRemoved_standing
    (({ ({ s with
        currentFile := s.pendingName, lastCompletedFile := s.pendingName
        sessionInstalledCount := s.sessionInstalledCount + 1 } : Server).resetPendingObject with
      state := .Connected }).sendResponse RES_OK trans) s.currentObjectHandle
  refine ⟨_, hst.trans ?_, answersOnly_append hno⟩
  simp [standing, Server.resetPendingObject, Server.sendResponse]

theorem installResponse_ne_ok (code : Nsp.ErrorCode) : installResponse code ≠ RES_OK := by
  cases code <;> decide

/-! ## The stream -/

/-- Only a cancellation sets the flag. -/
theorem cancelledFlag_of_move {c c' : MtpInstallStream.Conf} {e : MtpInstallStream.Event}
    (h : MtpInstallStream.Move c e c') (he : e ≠ .cancel) :
    c'.stream.cancelledFlag = c.stream.cancelledFlag := by
  cases h
  all_goals first
    | rfl
    | exact absurd rfl he

/-- A push fails because of the flag. -/
theorem cancelledFlag_of_pushReturn {c c' : MtpInstallStream.Conf}
    (h : MtpInstallStream.Move c (.pushReturn false) c') : c.stream.cancelledFlag = true := by
  cases h with
  | pushCancelled s q o src d hc => exact hc

theorem push_ne_cancel {c c' : MtpInstallStream.Conf} {k : MtpInstallStream.PushCall}
    {e : MtpInstallStream.Event} (h : MtpInstallStream.push c k = some (e, c')) : e ≠ .cancel := by
  obtain ⟨l, src, d⟩ := k
  cases l with
  | enter =>
    simp only [MtpInstallStream.push, MtpInstallStream.pushSection, Option.some.injEq] at h
    split_ifs at h
    all_goals
      cases h
      rintro ⟨⟩
  | asleep => cases h
  | notify =>
    cases h
    rintro ⟨⟩
  | exit =>
    cases h
    rintro ⟨⟩

theorem read_ne_cancel {c c' : MtpInstallStream.Conf} {k : MtpInstallStream.ReadCall}
    {e : MtpInstallStream.Event} (h : MtpInstallStream.readExact c k = some (e, c')) :
    e ≠ .cancel := by
  obtain ⟨l, n, dst⟩ := k
  cases l with
  | enter =>
    simp only [MtpInstallStream.readExact, MtpInstallStream.readSection, Option.some.injEq] at h
    split_ifs at h
    all_goals
      cases h
      rintro ⟨⟩
  | asleep => cases h
  | notify =>
    cases h
    rintro ⟨⟩
  | exit =>
    cases h
    rintro ⟨⟩

/-- The other actions do not cancel the stream. -/
theorem step_ne_cancel {c c' : MtpInstallStream.Conf} {a : MtpInstallStream.Action}
    {e : MtpInstallStream.Event} (h : MtpInstallStream.step c a = some (e, c'))
    (ha : a ≠ .cancelProducer ∧ a ≠ .cancelConsumer ∧ a ≠ .cancelOther) : e ≠ .cancel := by
  obtain ⟨h₁, h₂, h₃⟩ := ha
  obtain ⟨s, p, q, o⟩ := c
  cases a with
  | cancelProducer => exact absurd rfl h₁
  | cancelConsumer => exact absurd rfl h₂
  | cancelOther => exact absurd rfl h₃
  | producer =>
    cases p with
    | idle => cases h
    | push k => exact push_ne_cancel h
    | ending n =>
      cases h
      rintro ⟨⟩
  | consumer =>
    cases q with
    | idle => cases h
    | readExact k => exact read_ne_cancel h
    | ending n =>
      cases h
      rintro ⟨⟩
  | producerSpurious =>
    cases p with
    | push k =>
      simp only [MtpInstallStream.step] at h
      split_ifs at h
      cases h
      rintro ⟨⟩
    | _ => cases h
  | consumerSpurious =>
    cases q with
    | readExact k =>
      simp only [MtpInstallStream.step] at h
      split_ifs at h
      cases h
      rintro ⟨⟩
    | _ => cases h
  | other =>
    cases o with
    | none => cases h
    | some n =>
      cases h
      rintro ⟨⟩
  | callPush src =>
    cases p <;> cases h
    rintro ⟨⟩
  | callClose =>
    cases p <;> cases h
    rintro ⟨⟩
  | callRead n =>
    cases q <;> cases h
    rintro ⟨⟩
  | callFinish =>
    cases q <;> cases h
    rintro ⟨⟩

theorem cancelledFlag_of_step {c c' : MtpInstallStream.Conf} {a : MtpInstallStream.Action}
    {e : MtpInstallStream.Event} (h : MtpInstallStream.step c a = some (e, c'))
    (ha : a ≠ .cancelProducer ∧ a ≠ .cancelConsumer ∧ a ≠ .cancelOther) :
    c'.stream.cancelledFlag = c.stream.cancelledFlag :=
  cancelledFlag_of_move (MtpInstallStream.step_move h) (step_ne_cancel h ha)

/-! ## The steps beside the USB thread -/

/-- How far a transfer has come when it shows this. -/
def Event.phase : Event → ℕ
  | .stop => 0
  | .cancel => 0
  | .committed => 0
  | .rolledBack _ => 0
  | .tau => 0
  | .started => 1
  | .receiveFailed => 1
  | .lookStop => 2
  | .lookCancel => 3
  | .headerLost _ => 4
  | .headerRejected => 4
  | .detached => 4

/-- The transfer has shown nothing of a later phase. -/
def UpTo (n : ℕ) (t : List Event) : Prop := ∀ e ∈ t, e.phase ≤ n

theorem UpTo.snoc {n m : ℕ} {t : List Event} {e : Event} (h : UpTo n t) (hn : n ≤ m)
    (he : e.phase ≤ m) : UpTo m (t ++ [e]) := by
  intro e' hmem
  rcases List.mem_append.mp hmem with hmem | hmem
  · exact (h e' hmem).trans hn
  · rw [List.mem_singleton.mp hmem]
    exact he

theorem UpTo.notMem {n : ℕ} {t : List Event} {e : Event} (h : UpTo n t) (he : n < e.phase) :
    e ∉ t := fun hmem => absurd (h e hmem) (not_le.mpr he)

/-- The installer is not there: it has not started, or it has exited. -/
def Worker.Absent (w : Worker) : Prop := w = .absent ∨ ∃ r, w = .exited r

/-- What a step beside the USB thread leaves alone. -/
structure Aside (c : Conf) (e : Event) (c' : Conf) : Prop where
  phase : e.phase = 0
  usb : c'.usb = c.usb
  standing : standing c'.server = standing c.server
  size : c'.server.knownSize = c.server.knownSize
  home : c'.homeBlocked = c.homeBlocked
  transfer : c'.transfer = c.transfer
  flag : c'.stream.stream.cancelledFlag = c.stream.stream.cancelledFlag
  stop : c'.stopRequested = true ↔ c.stopRequested = true ∨ e = .stop
  cancel : c'.transferCancelRequested = true ↔ c.transferCancelRequested = true ∨ e = .cancel
  worker : c.worker.Absent → c'.worker = c.worker ∧ c'.transaction = c.transaction

theorem aside_stream {c : Conf} {a : MtpInstallStream.Action} {e : MtpInstallStream.Event}
    {d : MtpInstallStream.Conf} {w : Worker} (h : MtpInstallStream.step c.stream a = some (e, d))
    (ha : a ≠ .cancelProducer ∧ a ≠ .cancelConsumer ∧ a ≠ .cancelOther)
    (hw : c.worker.Absent → w = c.worker) :
    Aside c .tau { c with stream := d, worker := w } where
  phase := rfl
  usb := rfl
  standing := rfl
  size := rfl
  home := rfl
  transfer := rfl
  flag := cancelledFlag_of_step h ha
  stop := by simp
  cancel := by simp
  worker := fun h => ⟨hw h, rfl⟩

theorem aside_settle {c : Conf} {e : Event} {w : Worker} {x : Transaction} (he : e.phase = 0)
    (hstop : e ≠ .stop) (hcancel : e ≠ .cancel) (hw : ¬c.worker.Absent) :
    Aside c e { c with transaction := x, worker := w } where
  phase := he
  usb := rfl
  standing := rfl
  size := rfl
  home := rfl
  transfer := rfl
  flag := rfl
  stop := by simp [hstop]
  cancel := by simp [hcancel]
  worker := fun h => absurd h hw

/-- The installer leaves the USB thread alone. -/
theorem workerStep_aside {c c' : Conf} {w : Work} {e : Event}
    (h : workerStep c c.worker w = some (e, c')) : Aside c e c' := by
  have present : ∀ v : Worker, c.worker = v → ¬v.Absent → ¬c.worker.Absent := by
    rintro v rfl hv
    exact hv
  have hrun : ¬Worker.Absent .running := by simp [Worker.Absent]
  have hcut : ¬Worker.Absent .cutOff := by simp [Worker.Absent]
  rcases hw : c.worker with _ | _ | _ | _ | _ | result | result | result
  all_goals
    rw [hw] at h
    cases w <;> simp only [workerStep, Option.map_eq_some_iff, Option.some.injEq, Prod.mk.injEq,
      reduceCtorEq] at h
  · -- the installer begins
    obtain ⟨rfl, rfl⟩ := h
    exact ⟨rfl, rfl, rfl, rfl, rfl, rfl, rfl, by simp, by simp,
      fun ha => absurd ha (present _ hw (by simp [Worker.Absent]))⟩
  · obtain ⟨r, hr, rfl, rfl⟩ := h
    exact aside_stream hr (by simp) fun ha => absurd ha (present _ hw hrun)
  · obtain ⟨rfl, rfl⟩ := h
    exact aside_settle rfl (by simp) (by simp) (present _ hw hrun)
  · obtain ⟨rfl, rfl⟩ := h
    exact aside_settle rfl (by simp) (by simp) (present _ hw hrun)
  · obtain ⟨r, hr, rfl, rfl⟩ := h
    exact aside_stream hr (by simp) fun ha => absurd ha (present _ hw (by simp [Worker.Absent]))
  · obtain ⟨rfl, rfl⟩ := h
    exact aside_settle rfl (by simp) (by simp) (present _ hw hcut)
  · obtain ⟨r, hr, rfl, rfl⟩ := h
    exact aside_stream hr (by simp) fun ha => absurd ha (present _ hw (by simp [Worker.Absent]))
  · obtain ⟨r, hr, rfl, rfl⟩ := h
    exact aside_stream hr (by simp) fun ha => absurd ha (present _ hw (by simp [Worker.Absent]))

/-- A step is one of the USB thread or leaves it alone. -/
theorem step_aside {trans : UInt32} {c c' : Conf} {a : Action} {e : Event}
    (h : step trans c a = some (e, c')) :
    Aside c e c' ∨ ∃ i, usbStep trans c c.usb i = some (e, c') := by
  cases a with
  | stop =>
    cases h
    exact .inl ⟨rfl, rfl, rfl, rfl, rfl, rfl, rfl, by simp, by simp, fun _ => ⟨rfl, rfl⟩⟩
  | cancel reset =>
    cases h
    refine .inl ⟨rfl, rfl, ?_, ?_, rfl, rfl, rfl, by simp, by simp, fun _ => ⟨rfl, rfl⟩⟩
    · cases reset <;> rfl
    · cases reset <;> rfl
  | usb i => exact .inr ⟨i, h⟩
  | usbSpurious =>
    simp only [step, Option.map_eq_some_iff, Prod.mk.injEq] at h
    obtain ⟨r, hr, rfl, rfl⟩ := h
    exact .inl (aside_stream hr (by simp) fun _ => rfl)
  | worker w => exact .inl (workerStep_aside h)
  | workerSpurious =>
    simp only [step, Option.map_eq_some_iff, Prod.mk.injEq] at h
    obtain ⟨r, hr, rfl, rfl⟩ := h
    exact .inl (aside_stream hr (by simp) fun _ => rfl)

/-! ## The transaction -/

/-- The installer's place fits the transaction. -/
def Worker.Fits : Worker → Transaction → Prop
  | .returned none, x => x = .committed
  | .ending none, x => x = .committed
  | .exited none, x => x = .committed
  | .returned (some _), x => x = .rolledBack ∨ x = .leftBehind
  | .ending (some _), x => x = .rolledBack ∨ x = .leftBehind
  | .exited (some _), x => x = .rolledBack ∨ x = .leftBehind
  | _, x => x = .untouched

/-- What the trace tells of the transaction and of the requests. -/
structure Told (stop₀ : Bool) (t : List Event) (c : Conf) : Prop where
  stop : c.stopRequested = true ↔ stop₀ = true ∨ .stop ∈ t
  committed : .committed ∈ t ↔ c.transaction = .committed
  left : .rolledBack false ∈ t ↔ c.transaction = .leftBehind
  fits : c.worker.Fits c.transaction

/-- What a step of the USB thread leaves alone of the rest. -/
structure Apart (c : Conf) (e : Event) (c' : Conf) : Prop where
  phase : e = .tau ∨ 1 ≤ e.phase
  stop : c'.stopRequested = c.stopRequested
  transaction : c'.transaction = c.transaction
  worker : c'.worker = c.worker ∨ c.usb = .start ∧ c'.worker = .launched

theorem judge_apart (c : Conf) (trans : UInt32) (result : Option Nsp.ErrorCode) :
    Apart c .tau (judge c trans result) := by
  unfold judge
  split
  · exact ⟨.inl rfl, rfl, rfl, .inl rfl⟩
  · cases result
    · exact ⟨.inl rfl, rfl, rfl, .inl rfl⟩
    · exact ⟨.inl rfl, rfl, rfl, .inl rfl⟩

theorem pushed_apart (c : Conf) (d : MtpInstallStream.Conf) (chunk : ℕ)
    (e : MtpInstallStream.Event) : Apart c .tau (pushed { c with stream := d } chunk e) := by
  rcases e with _ | _ | _ | _ | _ | _ | ok | _ | _ | _ | _
  case pushReturn =>
    cases ok
    · exact ⟨.inl rfl, rfl, rfl, .inl rfl⟩
    · simp only [pushed]
      split
      · exact ⟨.inl rfl, rfl, rfl, .inl rfl⟩
      · exact ⟨.inl rfl, rfl, rfl, .inl rfl⟩
  all_goals exact ⟨.inl rfl, rfl, rfl, .inl rfl⟩

/-! ## The places of the USB thread -/

/-- Before the transfer. -/
structure Before (s₀ : Server) (t : List Event) (c : Conf) : Prop where
  quiet : UpTo 0 t
  standing : standing c.server = standing s₀
  home : c.homeBlocked = false
  worker : c.worker = .absent

/-- The transfer runs. -/
structure Running (s₀ : Server) (t : List Event) (c : Conf) : Prop where
  quiet : UpTo 1 t
  standing : standing c.server = { standing s₀ with busy := true }
  started : .started ∈ t
  cancel : c.transferCancelRequested = true ↔ CancelSince t
  receiveFailed : .receiveFailed ∈ t ↔ c.transfer.readFailed = true
  pushFailed : c.transfer.pushFailed = false

/-- In the loop, with this many bytes being pushed. -/
structure Looping (s₀ : Server) (t : List Event) (c : Conf) (n : ℕ) : Prop extends
    Running s₀ t c where
  readFailed : c.transfer.readFailed = false
  flag : c.stream.stream.cancelledFlag = false
  total : c.server.knownSize.all (c.transfer.totalReceived + n ≤ ·)

/-- The loop is left, because of this if the transfer is not complete. -/
def Left (c : Conf) (why : Prop) : Prop :=
  c.transfer.readFailed = true ∨ c.server.knownSize.all (c.transfer.totalReceived = ·) ∨ why

/-- Behind the join. -/
structure After (s₀ : Server) (t : List Event) (c : Conf) : Prop where
  standing : standing c.server = standing s₀
  home : c.homeBlocked = false
  worker : ∃ result, c.worker = .exited result
  cancel : c.transferCancelRequested = true ↔ CancelSince t
  started : .started ∈ t
  receiveFailed : .receiveFailed ∈ t ↔ c.transfer.readFailed = true
  pushFailed : c.transfer.pushFailed = false

/-- In a transfer that fails. -/
structure Failing (s₀ : Server) (stop₀ : Bool) (t : List Event) (c : Conf) : Prop where
  quiet : UpTo 3 t
  standing : standing c.server = standing s₀
  worker : c.worker.Absent
  why : c.transaction = .committed → .receiveFailed ∈ t ∨ StopSeen stop₀ t ∨ CancelSeen t

/-- What `Undisturbed` says, given what became of the transaction. -/
structure Calm (stop₀ : Bool) (t : List Event) (x : Transaction) : Prop where
  header : .headerRejected ∉ t ∧ .headerLost false ∉ t
  commit : x = .committed → .receiveFailed ∉ t ∧ ¬StopSeen stop₀ t ∧ ¬CancelSeen t
  rollback : x ≠ .leftBehind

/-- What holds where the USB thread stands. -/
def Facts (s₀ : Server) (stop₀ : Bool) (trans : UInt32) (t : List Event) (c : Conf) : Loc → Prop
  | .entry => Before s₀ t c
  | .header => Before s₀ t c ∧ s₀.pendingValid = true
  | .drain _ => Before s₀ t c ∧ s₀.pendingValid = true
  | .start => Before s₀ t c ∧ s₀.pendingValid = true
  | .whileStop => Looping s₀ t c 0
  | .whileCancel => Looping s₀ t c 0
  | .body => Looping s₀ t c 0
  | .receive => Looping s₀ t c 0
  | .push chunk => Looping s₀ t c chunk
  | .release => Running s₀ t c ∧
      Left c (c.stopRequested = true ∨ c.transferCancelRequested = true) ∧
      ∃ result, c.worker = .exited result
  | .lookStop => After s₀ t c ∧ UpTo 1 t ∧
      Left c (c.stopRequested = true ∨ c.transferCancelRequested = true)
  | .lookCancel => After s₀ t c ∧ UpTo 2 t ∧ ¬StopSeen stop₀ t ∧
      Left c (c.transferCancelRequested = true)
  | .judge => After s₀ t c ∧ UpTo 3 t ∧ ¬StopSeen stop₀ t ∧ ¬CancelSeen t ∧ Left c False
  | .failing code => code = RES_INCOMPLETE_TRANSFER ∧ Failing s₀ stop₀ t c
  | .returned _ => c.worker.Absent ∧ (Matches s₀ trans t c ↔ Calm stop₀ t c.transaction)
  -- between the loop and the join
  | _ => Running s₀ t c ∧ Left c (c.stopRequested = true ∨ c.transferCancelRequested = true)

/-! ## The facts under the steps of the others -/

section Aside

variable {s₀ : Server} {stop₀ : Bool} {trans : UInt32} {t : List Event} {c c' : Conf} {e : Event}

theorem Aside.upTo (h : Aside c e c') {n : ℕ} (ht : UpTo n t) : UpTo n (t ++ [e]) :=
  ht.snoc le_rfl (by rw [h.phase]; omega)

/-- Such a step does not show an event of a phase. -/
theorem Aside.mem (h : Aside c e c') {e' : Event} (he : 0 < e'.phase) :
    e' ∈ t ++ [e] ↔ e' ∈ t := by
  rw [List.mem_append, List.mem_singleton]
  constructor
  · rintro (hmem | rfl)
    · exact hmem
    · rw [h.phase] at he
      omega
  · exact .inl

theorem Aside.stopSeen (h : Aside c e c') : StopSeen stop₀ (t ++ [e]) ↔ StopSeen stop₀ t := by
  rw [stopSeen_snoc]
  constructor
  · rintro (hs | ⟨rfl, -⟩)
    · exact hs
    · cases h.phase
  · exact .inl

theorem Aside.cancelSeen (h : Aside c e c') : CancelSeen (t ++ [e]) ↔ CancelSeen t := by
  rw [cancelSeen_snoc]
  constructor
  · rintro (hs | ⟨rfl, -⟩)
    · exact hs
    · cases h.phase
  · exact .inl

theorem Aside.cancelSince (h : Aside c e c') (hstarted : .started ∈ t)
    (hc : c.transferCancelRequested = true ↔ CancelSince t) :
    c'.transferCancelRequested = true ↔ CancelSince (t ++ [e]) := by
  rw [h.cancel, hc, cancelSince_snoc]
  constructor
  · rintro (hs | he)
    · exact .inl hs
    · exact .inr ⟨he, hstarted⟩
  · rintro (hs | ⟨he, -⟩)
    · exact .inl hs
    · exact .inr he

theorem Before.aside (hf : Before s₀ t c) (h : Aside c e c') : Before s₀ (t ++ [e]) c' where
  quiet := h.upTo hf.quiet
  standing := h.standing.trans hf.standing
  home := h.home.trans hf.home
  worker := (h.worker (.inl hf.worker)).1.trans hf.worker

theorem Running.aside (hf : Running s₀ t c) (h : Aside c e c') : Running s₀ (t ++ [e]) c' where
  quiet := h.upTo hf.quiet
  standing := h.standing.trans hf.standing
  started := (h.mem (by decide)).mpr hf.started
  cancel := h.cancelSince hf.started hf.cancel
  receiveFailed := by
    rw [h.mem (by decide), h.transfer]
    exact hf.receiveFailed
  pushFailed := by
    rw [h.transfer]
    exact hf.pushFailed

theorem Looping.aside {n : ℕ} (hf : Looping s₀ t c n) (h : Aside c e c') :
    Looping s₀ (t ++ [e]) c' n where
  toRunning := hf.toRunning.aside h
  readFailed := by
    rw [h.transfer]
    exact hf.readFailed
  flag := h.flag.trans hf.flag
  total := by
    rw [h.transfer, h.size]
    exact hf.total

theorem Left.aside {why why' : Prop} (hf : Left c why) (h : Aside c e c') (hw : why → why') :
    Left c' why' := by
  unfold Left at hf ⊢
  rw [h.transfer, h.size]
  exact hf.imp_right (Or.imp_right hw)

theorem Aside.requested (h : Aside c e c')
    (hr : c.stopRequested = true ∨ c.transferCancelRequested = true) :
    c'.stopRequested = true ∨ c'.transferCancelRequested = true :=
  hr.imp (fun hs => h.stop.mpr (.inl hs)) fun hs => h.cancel.mpr (.inl hs)

theorem After.aside (hf : After s₀ t c) (h : Aside c e c') : After s₀ (t ++ [e]) c' where
  standing := h.standing.trans hf.standing
  home := h.home.trans hf.home
  worker := by
    rw [(h.worker (.inr hf.worker)).1]
    exact hf.worker
  cancel := h.cancelSince hf.started hf.cancel
  started := (h.mem (by decide)).mpr hf.started
  receiveFailed := by
    rw [h.mem (by decide), h.transfer]
    exact hf.receiveFailed
  pushFailed := by
    rw [h.transfer]
    exact hf.pushFailed

theorem Failing.aside (hf : Failing s₀ stop₀ t c) (h : Aside c e c') :
    Failing s₀ stop₀ (t ++ [e]) c' where
  quiet := h.upTo hf.quiet
  standing := h.standing.trans hf.standing
  worker := by
    rw [(h.worker hf.worker).1]
    exact hf.worker
  why := by
    rw [(h.worker hf.worker).2, h.stopSeen, h.cancelSeen, h.mem (by decide)]
    exact hf.why

theorem Calm.aside {x : Transaction} (h : Aside c e c') :
    Calm stop₀ (t ++ [e]) x ↔ Calm stop₀ t x := by
  constructor
  · rintro ⟨hh, hc, hr⟩
    rw [h.mem (by decide), h.mem (by decide)] at hh
    rw [h.stopSeen, h.cancelSeen, h.mem (by decide)] at hc
    exact ⟨hh, hc, hr⟩
  · rintro ⟨hh, hc, hr⟩
    refine ⟨?_, ?_, hr⟩
    · rw [h.mem (by decide), h.mem (by decide)]
      exact hh
    · rw [h.stopSeen, h.cancelSeen, h.mem (by decide)]
      exact hc

/-- What is compared does not depend on more than this. -/
theorem Matches.congr {t' : List Event} (hm : Matches s₀ trans t c)
    (hst : MtpSendObject.standing c'.server = MtpSendObject.standing c.server)
    (hhome : c'.homeBlocked = c.homeBlocked) (hx : c'.transaction = c.transaction)
    (hg : Gone t → Gone t') : Matches s₀ trans t' c' := by
  injection hst with hsent hinst hvalid hbusy
  have ha : ∀ code, Answered s₀ trans c' code ↔ Answered s₀ trans c code := by
    intro code
    unfold Answered
    rw [hsent]
  refine ⟨?_, ?_, ?_⟩
  · rw [ha, hinst, hx]
    exact hm.installed
  · rw [hx]
    intro hne
    obtain ⟨hcode | hgone, hleft⟩ := hm.failed hne
    · simp only [ha]
      exact ⟨.inl hcode, hleft⟩
    · exact ⟨.inr (hg hgone), hleft⟩
  · simp only [ha, hvalid, hbusy, hhome]
    exact hm.released

theorem Matches.aside (h : Aside c e c') (hw : c.worker.Absent) :
    Matches s₀ trans (t ++ [e]) c' ↔ Matches s₀ trans t c := by
  have hx := (h.worker hw).2
  have hg : Gone (t ++ [e]) ↔ Gone t := by
    unfold Gone
    rw [h.mem (by decide), h.mem (by decide)]
  constructor
  · intro hm
    exact hm.congr h.standing.symm h.home.symm hx.symm hg.mp
  · intro hm
    exact hm.congr h.standing h.home hx hg.mpr

/-- The steps of the others keep the facts of every place. -/
theorem Facts.aside {l : Loc} (hf : Facts s₀ stop₀ trans t c l) (h : Aside c e c') :
    Facts s₀ stop₀ trans (t ++ [e]) c' l := by
  cases l with
  | entry => exact Before.aside hf h
  | header => exact ⟨hf.1.aside h, hf.2⟩
  | drain n => exact ⟨hf.1.aside h, hf.2⟩
  | start => exact ⟨hf.1.aside h, hf.2⟩
  | whileStop => exact Looping.aside hf h
  | whileCancel => exact Looping.aside hf h
  | body => exact Looping.aside hf h
  | receive => exact Looping.aside hf h
  | push chunk => exact Looping.aside hf h
  | endStop => exact ⟨hf.1.aside h, hf.2.aside h h.requested⟩
  | endCancel => exact ⟨hf.1.aside h, hf.2.aside h h.requested⟩
  | ending b => exact ⟨hf.1.aside h, hf.2.aside h h.requested⟩
  | notify => exact ⟨hf.1.aside h, hf.2.aside h h.requested⟩
  | join => exact ⟨hf.1.aside h, hf.2.aside h h.requested⟩
  | release =>
    obtain ⟨hr, hl, hw⟩ := hf
    refine ⟨hr.aside h, hl.aside h h.requested, ?_⟩
    rw [(h.worker (.inr hw)).1]
    exact hw
  | lookStop =>
    obtain ⟨ha, hq, hl⟩ := hf
    exact ⟨ha.aside h, h.upTo hq, hl.aside h h.requested⟩
  | lookCancel =>
    obtain ⟨ha, hq, hs, hl⟩ := hf
    exact ⟨ha.aside h, h.upTo hq, mt h.stopSeen.mp hs, hl.aside h fun hc => h.cancel.mpr (.inl hc)⟩
  | judge =>
    obtain ⟨ha, hq, hs, hc, hl⟩ := hf
    exact ⟨ha.aside h, h.upTo hq, mt h.stopSeen.mp hs, mt h.cancelSeen.mp hc, hl.aside h id⟩
  | failing code => exact ⟨hf.1, hf.2.aside h⟩
  | returned r =>
    obtain ⟨hw, hv⟩ := hf
    refine ⟨?_, ?_⟩
    · rw [(h.worker hw).1]
      exact hw
    · rw [Matches.aside h hw, hv, (h.worker hw).2, Calm.aside h]

end Aside

/-! ## The answers -/

section Answers

variable {s₀ : Server} {stop₀ : Bool} {trans : UInt32} {t : List Event} {c : Conf}

theorem answered_iff {messages : List Message} {code : UInt16}
    (hsent : c.server.sent = s₀.sent ++ messages) (ha : AnswersOnly trans messages code)
    (code' : UInt16) : Answered s₀ trans c code' ↔ code' = code := by
  unfold Answered
  rw [hsent]
  constructor
  · rintro ⟨messages', heq, hmem⟩
    rw [← List.append_cancel_left heq] at hmem
    exact (ha code').mp hmem
  · rintro rfl
    exact ⟨messages, rfl, (ha code').mpr rfl⟩

theorem not_answered (trans : UInt32) (hsent : c.server.sent = s₀.sent) (code : UInt16) :
    ¬Answered s₀ trans c code := by
  rintro ⟨messages, heq, hmem⟩
  rw [hsent] at heq
  rw [List.self_eq_append_right.mp heq] at hmem
  cases hmem

/-- An error is the right answer to an installation that did not commit. -/
theorem matches_error {messages : List Message} {code : UInt16}
    (hst : standing c.server =
      { standing s₀ with sent := s₀.sent ++ messages, valid := false })
    (ha : AnswersOnly trans messages code) (hcode : code ≠ RES_OK)
    (hbusy : s₀.installerBusy = false) (hhome : c.homeBlocked = false) :
    Matches s₀ trans t c ↔ c.transaction ≠ .committed ∧ c.transaction ≠ .leftBehind := by
  injection hst with hsent hinst hvalid hbusy'
  have hans := answered_iff hsent ha
  constructor
  · intro hm
    have hne : c.transaction ≠ .committed := by
      intro hx
      exact hcode ((hans _).mp (hm.installed.mpr hx).1).symm
    exact ⟨hne, (hm.failed hne).2⟩
  · rintro ⟨hne, hleft⟩
    refine ⟨?_, ?_, ?_⟩
    · constructor
      · rintro ⟨hok, -⟩
        exact absurd ((hans _).mp hok).symm hcode
      · intro hx
        exact absurd hx hne
    · intro _
      exact ⟨.inl ⟨code, hcode, (hans _).mpr rfl⟩, hleft⟩
    · intro _
      exact ⟨hvalid, hbusy'.trans hbusy, hhome⟩

/-- No answer is right when the transport is gone. -/
theorem matches_gone (hsent : c.server.sent = s₀.sent) (hg : Gone t) :
    Matches s₀ trans t c ↔ c.transaction ≠ .committed ∧ c.transaction ≠ .leftBehind := by
  have hans := not_answered trans hsent
  constructor
  · intro hm
    have hne : c.transaction ≠ .committed := by
      intro hx
      exact hans _ (hm.installed.mpr hx).1
    exact ⟨hne, (hm.failed hne).2⟩
  · rintro ⟨hne, hleft⟩
    refine ⟨?_, ?_, ?_⟩
    · constructor
      · rintro ⟨hok, -⟩
        exact absurd hok (hans _)
      · intro hx
        exact absurd hx hne
    · intro _
      exact ⟨.inr hg, hleft⟩
    · rintro ⟨code, hcode⟩
      exact absurd hcode (hans _)

/-- The answer to an installation that committed. -/
theorem matches_ok {messages : List Message}
    (hst : standing c.server = { standing s₀ with
      sent := s₀.sent ++ messages, installed := s₀.sessionInstalledCount + 1, valid := false })
    (ha : AnswersOnly trans messages RES_OK) (hbusy : s₀.installerBusy = false)
    (hhome : c.homeBlocked = false) : Matches s₀ trans t c ↔ c.transaction = .committed := by
  injection hst with hsent hinst hvalid hbusy'
  have hans := answered_iff hsent ha
  constructor
  · intro hm
    exact hm.installed.mp ⟨(hans _).mpr rfl, hinst⟩
  · intro hx
    refine ⟨?_, ?_, ?_⟩
    · constructor
      · intro _
        exact hx
      · intro _
        exact ⟨(hans _).mpr rfl, hinst⟩
    · intro hne
      exact absurd hx hne
    · intro _
      exact ⟨hvalid, hbusy'.trans hbusy, hhome⟩

end Answers

/-! ## The facts under the steps of the USB thread -/

section Usb

variable {s₀ : Server} {stop₀ : Bool} {trans : UInt32} {t : List Event} {c c' : Conf} {e : Event}
  {i : Input}

theorem Before.fits (hf : Before s₀ t c) (hw : c.worker.Fits c.transaction) :
    c.transaction = .untouched := by
  rw [hf.worker] at hw
  exact hw

theorem Before.move (hf : Before s₀ t c) {s : Server}
    (hs : MtpSendObject.standing s = MtpSendObject.standing c.server) (l : Loc) :
    Before s₀ (t ++ [.tau]) { c with server := s, usb := l } where
  quiet := hf.quiet.snoc le_rfl le_rfl
  standing := hs.trans hf.standing
  home := hf.home
  worker := hf.worker

/-- Nothing was installed yet. -/
theorem Before.calm (hf : Before s₀ t c) (hw : c.worker.Fits c.transaction)
    (he : e ≠ .headerRejected ∧ e ≠ .headerLost false) : Calm stop₀ (t ++ [e]) c.transaction := by
  rw [hf.fits hw]
  refine ⟨?_, by rintro ⟨⟩, by rintro ⟨⟩⟩
  simp only [List.mem_append, List.mem_singleton, not_or]
  exact ⟨⟨hf.quiet.notMem (by decide), he.1.symm⟩, ⟨hf.quiet.notMem (by decide), he.2.symm⟩⟩

theorem facts_entry (hf : Before s₀ t c) (hw : c.worker.Fits c.transaction)
    (hbusy : s₀.installerBusy = false) (h : usbStep trans c .entry i = some (e, c')) :
    Apart c e c' ∧ Facts s₀ stop₀ trans (t ++ [e]) c' c'.usb := by
  have hst := hf.standing
  injection hst with hsent hinst hvalid hbusy'
  cases i <;> simp only [usbStep, reduceCtorEq] at h
  split at h
  · rename_i hb
    rw [hbusy', hbusy] at hb
    cases hb
  split at h
  · rename_i hv
    cases h
    refine ⟨⟨.inl rfl, rfl, rfl, .inl rfl⟩, .inl hf.worker, ?_⟩
    have hst' : standing (c.server.sendResponse RES_INVALID_OBJECT_INFO trans) =
        { standing s₀ with
          sent := s₀.sent ++ [.response RES_INVALID_OBJECT_INFO trans []], valid := false } := by
      simp only [standing, Server.sendResponse, hsent, hinst, hbusy']
      rw [Bool.not_eq_true] at hv
      rw [hv]
    have ha : AnswersOnly trans [.response RES_INVALID_OBJECT_INFO trans []]
        RES_INVALID_OBJECT_INFO := answersOnly_append (by simp)
    refine Iff.trans (matches_error hst' ha (by decide) hbusy hf.home) ?_
    have hx := hf.fits hw
    have hcalm : Calm stop₀ (t ++ [.tau]) c.transaction := hf.calm hw (by simp)
    simp only [hx, ne_eq, reduceCtorEq, not_false_eq_true, and_self, true_iff]
    rw [← hx]
    exact hcalm
  · rename_i hv
    cases h
    refine ⟨⟨.inl rfl, rfl, rfl, .inl rfl⟩, hf.move rfl _, ?_⟩
    rw [not_not] at hv
    rw [← hvalid]
    exact hv

theorem facts_header (hf : Before s₀ t c) (hvalid₀ : s₀.pendingValid = true)
    (hw : c.worker.Fits c.transaction) (h : usbStep trans c .header i = some (e, c')) :
    Apart c e c' ∧ Facts s₀ stop₀ trans (t ++ [e]) c' c'.usb := by
  have hx := hf.fits hw
  cases i <;> simp only [usbStep, reduceCtorEq] at h
  rename_i usb gone
  have hread := standing_readExact { c.server with usb } headerSize
  rcases hr : { c.server with usb }.readExact headerSize with ⟨_ | bytes, s⟩
  all_goals
    rw [hr] at h hread
    dsimp only at h hread
    split at h
    on_goal 2 => cases h
  · -- the header is lost
    cases h
    have hst : standing s = standing s₀ := hread.trans hf.standing
    refine ⟨⟨.inr (by simp [Event.phase]), rfl, rfl, .inl rfl⟩, .inl hf.worker, ?_⟩
    dsimp only
    cases gone with
    -- the host is gone and no answer is due
    | true =>
      rw [matches_gone (congrArg Standing.sent hst) (.inl (by simp))]
      have hcalm : Calm stop₀ (t ++ [.headerLost true]) c.transaction := hf.calm hw (by simp)
      simp only [hx, ne_eq, reduceCtorEq, not_false_eq_true, and_self, true_iff]
      rw [← hx]
      exact hcalm
    | false =>
      constructor
      · intro hm
        obtain ⟨⟨code, -, ha⟩ | hg, -⟩ := hm.failed (by simp [hx])
        · exact absurd ha (not_answered trans (congrArg Standing.sent hst) _)
        · rcases hg with hg | hg
          · rcases List.mem_append.mp hg with hg | hg
            · exact absurd hg (hf.quiet.notMem (by decide))
            · simp at hg
          · rcases List.mem_append.mp hg with hg | hg
            · exact absurd hg (hf.quiet.notMem (by decide))
            · simp at hg
      · intro hc
        exact absurd (by simp) hc.header.2
  · have hst : standing s = standing c.server := hread
    rcases acceptHeader_cases s bytes trans with ⟨s', l, ha, hst', hl⟩ | ha
    · rw [ha] at h
      cases h
      refine ⟨⟨.inl rfl, rfl, rfl, .inl rfl⟩, ?_⟩
      have hb := hf.move (hst'.trans hst) l
      rcases hl with rfl | ⟨n, rfl⟩
      · exact ⟨hb, hvalid₀⟩
      · exact ⟨hb, hvalid₀⟩
    · -- the header is refused
      rw [ha] at h
      cases h
      refine ⟨⟨.inr (by simp [Event.phase]), rfl, rfl, .inl rfl⟩, .inl hf.worker, ?_⟩
      constructor
      · intro hm
        have hst₀ := hst.trans hf.standing
        injection hst₀ with hsent hinst hvalid hbusy
        have ha : Answered s₀ trans { c with
            server := s.sendResponse RES_INVALID_OBJECT_INFO trans
            usb := .returned .rejected } RES_INVALID_OBJECT_INFO := by
          refine ⟨[.response RES_INVALID_OBJECT_INFO trans []], ?_, by simp⟩
          simp only [Server.sendResponse, hsent]
        have hcleared := (hm.released ⟨_, ha⟩).1
        simp only [Server.sendResponse, hvalid, hvalid₀] at hcleared
        cases hcleared
      · intro hc
        exact absurd (by simp) hc.header.1

theorem facts_drain {n : ℕ} (hf : Before s₀ t c) (hw : c.worker.Fits c.transaction)
    (h : usbStep trans c (.drain n) i = some (e, c')) :
    Apart c e c' ∧ Facts s₀ stop₀ trans (t ++ [e]) c' c'.usb := by
  cases i <;> simp only [usbStep, reduceCtorEq] at h
  rename_i usb gone
  have hst : standing (if n ≠ 0 then ({ c.server with usb }.drainExact n).2
      else { c.server with usb }) = standing c.server := by
    split
    · exact standing_drainExact n { c.server with usb }
    · rfl
  generalize (if n ≠ 0 then ({ c.server with usb }.drainExact n).2
      else { c.server with usb }) = s at h hst
  split at h
  · cases h
    refine ⟨⟨.inl rfl, rfl, rfl, .inl rfl⟩, rfl, ?_⟩
    refine ⟨hf.quiet.snoc (by omega) (by simp [Event.phase]), hst.trans hf.standing,
      .inl hf.worker, ?_⟩
    intro hx
    rw [show c.transaction = .untouched from hf.fits hw] at hx
    cases hx
  · cases h

theorem facts_start (hf : Before s₀ t c) (h : usbStep trans c .start i = some (e, c'))
    (hl : c.usb = .start) : Apart c e c' ∧ Facts s₀ stop₀ trans (t ++ [e]) c' c'.usb := by
  cases i <;> simp only [usbStep, reduceCtorEq, Option.some.injEq, Prod.mk.injEq] at h
  obtain ⟨rfl, rfl⟩ := h
  have hst := hf.standing
  injection hst with hsent hinst hvalid hbusy
  refine ⟨⟨.inr le_rfl, rfl, rfl, .inr ⟨hl, rfl⟩⟩, ⟨?_, ?_, by simp, ?_, ?_, rfl⟩, rfl, rfl, ?_⟩
  · exact hf.quiet.snoc (by omega) le_rfl
  · simp only [standing, hsent, hinst, hvalid]
  · -- no request has come since
    constructor
    · rintro ⟨⟩
    · intro hs
      rcases cancelSince_snoc.mp hs with ⟨t₁, t₂, rfl, -⟩ | ⟨he, -⟩
      · exact absurd (by simp) (hf.quiet.notMem (e := .started) (by decide))
      · cases he
  · simp only [List.mem_append, List.mem_singleton, reduceCtorEq, or_false, Bool.false_eq_true,
      iff_false]
    exact hf.quiet.notMem (by decide)
  · rw [Option.all_eq_true]
    intro n hn
    simp

theorem Running.tau (hf : Running s₀ t c)
    (hst : MtpSendObject.standing c'.server = MtpSendObject.standing c.server)
    (hcancel : c'.transferCancelRequested = c.transferCancelRequested)
    (hread : c'.transfer.readFailed = c.transfer.readFailed)
    (hpush : c'.transfer.pushFailed = c.transfer.pushFailed) : Running s₀ (t ++ [.tau]) c' where
  quiet := hf.quiet.snoc le_rfl (by simp [Event.phase])
  standing := hst.trans hf.standing
  started := List.mem_append_left _ hf.started
  cancel := by
    rw [hcancel, hf.cancel, cancelSince_snoc]
    simp
  receiveFailed := by
    rw [hread, ← hf.receiveFailed]
    simp
  pushFailed := hpush.trans hf.pushFailed

/-- The loop is left, the transfer not failed. -/
theorem facts_leave (hf : Running s₀ t c) {s : Server}
    (hst : standing s = standing c.server)
    (hl : Left { c with server := s } (c.stopRequested = true ∨ c.transferCancelRequested = true)) :
    Apart c .tau { c with server := s, usb := .endStop } ∧
      Facts s₀ stop₀ trans (t ++ [.tau]) { c with server := s, usb := .endStop } .endStop :=
  ⟨⟨.inl rfl, rfl, rfl, .inl rfl⟩, hf.tau hst rfl rfl rfl, hl⟩

theorem Looping.tau {n m : ℕ} (hf : Looping s₀ t c n)
    (hst : MtpSendObject.standing c'.server = MtpSendObject.standing c.server)
    (hsize : c'.server.knownSize = c.server.knownSize)
    (hcancel : c'.transferCancelRequested = c.transferCancelRequested)
    (hread : c'.transfer.readFailed = c.transfer.readFailed)
    (hpush : c'.transfer.pushFailed = c.transfer.pushFailed)
    (hflag : c'.stream.stream.cancelledFlag = c.stream.stream.cancelledFlag)
    (htotal : ∀ k, c.server.knownSize = some k → c.transfer.totalReceived + n ≤ k →
      c'.transfer.totalReceived + m ≤ k) : Looping s₀ (t ++ [.tau]) c' m where
  toRunning := hf.toRunning.tau hst hcancel hread hpush
  readFailed := hread.trans hf.readFailed
  flag := hflag.trans hf.flag
  total := by
    rw [hsize, Option.all_eq_true]
    intro k hk
    have hle := hf.total
    rw [hk] at hle
    simp only [Option.all_some, decide_eq_true_eq] at hle
    exact decide_eq_true (htotal k hk hle)

theorem facts_whileStop (hf : Looping s₀ t c 0) (h : usbStep trans c .whileStop i = some (e, c')) :
    Apart c e c' ∧ Facts s₀ stop₀ trans (t ++ [e]) c' c'.usb := by
  cases i <;> simp only [usbStep, reduceCtorEq, Option.some.injEq, Prod.mk.injEq] at h
  obtain ⟨rfl, rfl⟩ := h
  split
  · rename_i hs
    exact facts_leave hf.toRunning rfl (.inr (.inr (.inl hs)))
  · exact ⟨⟨.inl rfl, rfl, rfl, .inl rfl⟩, hf.tau rfl rfl rfl rfl rfl rfl fun _ _ hle => hle⟩

theorem facts_whileCancel (hf : Looping s₀ t c 0)
    (h : usbStep trans c .whileCancel i = some (e, c')) :
    Apart c e c' ∧ Facts s₀ stop₀ trans (t ++ [e]) c' c'.usb := by
  cases i <;> simp only [usbStep, reduceCtorEq, Option.some.injEq, Prod.mk.injEq] at h
  obtain ⟨rfl, rfl⟩ := h
  split
  · rename_i hs
    exact facts_leave hf.toRunning rfl (.inr (.inr (.inr hs)))
  · exact ⟨⟨.inl rfl, rfl, rfl, .inl rfl⟩, hf.tau rfl rfl rfl rfl rfl rfl fun _ _ hle => hle⟩

/-- An object whose end is seen in a short transfer has no known size. -/
theorem shortEnd_left (h : c.shortEnd = true) (why : Prop) : Left c why := by
  unfold Conf.shortEnd at h
  rw [Bool.and_eq_true, Option.isNone_iff_eq_none] at h
  refine .inr (.inl ?_)
  rw [h.1]
  rfl

theorem facts_body (hf : Looping s₀ t c 0) (h : usbStep trans c .body i = some (e, c')) :
    Apart c e c' ∧ Facts s₀ stop₀ trans (t ++ [e]) c' c'.usb := by
  cases i <;> simp only [usbStep, reduceCtorEq, Option.map_eq_some_iff, Prod.mk.injEq] at h
  obtain ⟨d, hb, rfl, rfl⟩ := h
  unfold body at hb
  split_ifs at hb with hend hrest hshort
  · -- everything has come
    cases hb
    refine facts_leave hf.toRunning rfl (.inr (.inl ?_))
    rw [Option.all_eq_true]
    intro k hk
    have hle := hf.total
    rw [hk] at hle hend
    simp only [Option.any_some, Option.all_some, decide_eq_true_eq] at hle hend
    exact decide_eq_true (show c.transfer.totalReceived = k by omega)
  · cases hb
    exact facts_leave hf.toRunning rfl (shortEnd_left hshort.1 _)
  · cases hb
    exact ⟨⟨.inl rfl, rfl, rfl, .inl rfl⟩, hf.tau rfl rfl rfl rfl rfl rfl fun _ _ hle => hle⟩
  · obtain ⟨r, hr, rfl⟩ := Option.map_eq_some_iff.mp hb
    refine ⟨⟨.inl rfl, rfl, rfl, .inl rfl⟩, hf.tau rfl rfl rfl rfl rfl ?_ ?_⟩
    · exact cancelledFlag_of_step hr (by simp)
    · intro k hk hle
      have hchunk : c.chunk ≤ k - c.transfer.totalReceived := by
        unfold Conf.chunk
        rw [hk]
        exact min_le_right _ _
      dsimp only
      omega

theorem facts_receive (hf : Looping s₀ t c 0) (h : usbStep trans c .receive i = some (e, c')) :
    Apart c e c' ∧ Facts s₀ stop₀ trans (t ++ [e]) c' c'.usb := by
  have lost : ∀ s : Server, standing s = standing c.server →
      Running s₀ (t ++ [.receiveFailed]) { c with
        server := s
        transfer := { c.transfer with readFailed := true }
        usb := .endStop } := by
    intro s hst
    refine ⟨hf.quiet.snoc le_rfl le_rfl, hst.trans hf.standing,
      List.mem_append_left _ hf.started, ?_, by simp, hf.pushFailed⟩
    dsimp only
    rw [hf.cancel, cancelSince_snoc]
    simp
  cases i <;> simp only [usbStep, reduceCtorEq, Option.some.injEq] at h
  rename_i r
  rcases r with _ | _ | ⟨b, bs⟩
  · cases h
    exact ⟨⟨.inr le_rfl, rfl, rfl, .inl rfl⟩, lost _ rfl, .inl rfl⟩
  · simp only [receive] at h
    split at h
    · rename_i hshort
      cases h
      exact facts_leave hf.toRunning rfl (shortEnd_left hshort _)
    · cases h
      exact ⟨⟨.inr le_rfl, rfl, rfl, .inl rfl⟩, lost _ rfl, .inl rfl⟩
  · cases h
    exact ⟨⟨.inl rfl, rfl, rfl, .inl rfl⟩, hf.tau rfl rfl rfl rfl rfl rfl fun _ _ hle => hle⟩

theorem facts_push {n : ℕ} (hf : Looping s₀ t c n) (hl : c.usb = .push n)
    (h : usbStep trans c (.push n) i = some (e, c')) :
    Apart c e c' ∧ Facts s₀ stop₀ trans (t ++ [e]) c' c'.usb := by
  cases i <;> simp only [usbStep, reduceCtorEq, Option.map_eq_some_iff, Prod.mk.injEq] at h
  obtain ⟨⟨ev, d⟩, hr, rfl, rfl⟩ := h
  have hflag := cancelledFlag_of_step hr (by simp)
  refine ⟨pushed_apart c d n ev, ?_⟩
  have more : Facts s₀ stop₀ trans (t ++ [.tau]) { c with stream := d } c.usb := by
    rw [hl]
    exact hf.tau rfl rfl rfl rfl rfl hflag fun _ _ hle => hle
  rcases ev with _ | _ | _ | _ | _ | _ | ok | _ | _ | _ | _
  case pushReturn =>
    cases ok with
    | true =>
      simp only [pushed]
      split
      · rename_i hshort
        exact ⟨hf.toRunning.tau rfl rfl rfl rfl, shortEnd_left hshort.1 _⟩
      · exact hf.tau rfl rfl rfl rfl rfl hflag fun _ _ hle => hle
    | false =>
      -- only the USB thread cancels the stream, and later
      have hc := cancelledFlag_of_pushReturn (MtpInstallStream.step_move hr)
      rw [hf.flag] at hc
      cases hc
  all_goals exact more

/-- A step between the loop and the join. -/
theorem Running.between (hf : Running s₀ t c)
    (hl : Left c (c.stopRequested = true ∨ c.transferCancelRequested = true))
    (d : MtpInstallStream.Conf) (l : Loc) :
    Apart c .tau { c with stream := d, usb := l } ∧
      Running s₀ (t ++ [.tau]) { c with stream := d, usb := l } ∧
      Left { c with stream := d, usb := l } (c.stopRequested = true ∨
        c.transferCancelRequested = true) :=
  ⟨⟨.inl rfl, rfl, rfl, .inl rfl⟩, hf.tau rfl rfl rfl rfl, hl⟩

theorem facts_endStop (hf : Running s₀ t c)
    (hl : Left c (c.stopRequested = true ∨ c.transferCancelRequested = true))
    (h : usbStep trans c .endStop i = some (e, c')) :
    Apart c e c' ∧ Facts s₀ stop₀ trans (t ++ [e]) c' c'.usb := by
  cases i <;> simp only [usbStep, reduceCtorEq, Option.some.injEq, Prod.mk.injEq] at h
  obtain ⟨rfl, rfl⟩ := h
  split
  · exact hf.between hl c.stream _
  · exact hf.between hl c.stream _

theorem facts_endCancel (hf : Running s₀ t c)
    (hl : Left c (c.stopRequested = true ∨ c.transferCancelRequested = true))
    (h : usbStep trans c .endCancel i = some (e, c')) :
    Apart c e c' ∧ Facts s₀ stop₀ trans (t ++ [e]) c' c'.usb := by
  cases i <;> simp only [usbStep, reduceCtorEq, Option.some.injEq, Prod.mk.injEq] at h
  obtain ⟨rfl, rfl⟩ := h
  exact hf.between hl c.stream _

theorem facts_ending {b : Bool} (hf : Running s₀ t c)
    (hl : Left c (c.stopRequested = true ∨ c.transferCancelRequested = true))
    (h : usbStep trans c (.ending b) i = some (e, c')) :
    Apart c e c' ∧ Facts s₀ stop₀ trans (t ++ [e]) c' c'.usb := by
  cases i <;> simp only [usbStep, reduceCtorEq, Option.map_eq_some_iff, Prod.mk.injEq] at h
  obtain ⟨r, -, rfl, rfl⟩ := h
  exact hf.between hl r.2 _

theorem facts_notify (hf : Running s₀ t c)
    (hl : Left c (c.stopRequested = true ∨ c.transferCancelRequested = true))
    (h : usbStep trans c .notify i = some (e, c')) :
    Apart c e c' ∧ Facts s₀ stop₀ trans (t ++ [e]) c' c'.usb := by
  cases i <;> simp only [usbStep, reduceCtorEq, Option.map_eq_some_iff, Prod.mk.injEq] at h
  obtain ⟨r, -, rfl, rfl⟩ := h
  split
  · exact hf.between hl r.2 _
  · exact hf.between hl r.2 _

theorem facts_join (hf : Running s₀ t c)
    (hl : Left c (c.stopRequested = true ∨ c.transferCancelRequested = true))
    (h : usbStep trans c .join i = some (e, c')) :
    Apart c e c' ∧ Facts s₀ stop₀ trans (t ++ [e]) c' c'.usb := by
  cases i <;> simp only [usbStep, reduceCtorEq] at h
  split at h
  · rename_i result hw
    cases h
    obtain ⟨ha, hr, hl'⟩ := hf.between hl c.stream .release
    exact ⟨ha, hr, hl', result, hw⟩
  · cases h

theorem facts_release (hf : Running s₀ t c)
    (hl : Left c (c.stopRequested = true ∨ c.transferCancelRequested = true))
    (hw : ∃ result, c.worker = .exited result) (hbusy : s₀.installerBusy = false)
    (h : usbStep trans c .release i = some (e, c')) :
    Apart c e c' ∧ Facts s₀ stop₀ trans (t ++ [e]) c' c'.usb := by
  cases i <;> simp only [usbStep, reduceCtorEq, Option.some.injEq, Prod.mk.injEq] at h
  obtain ⟨rfl, rfl⟩ := h
  refine ⟨⟨.inl rfl, rfl, rfl, .inl rfl⟩, ?_, hf.quiet.snoc le_rfl (by simp [Event.phase]), hl⟩
  have hr : Running s₀ (t ++ [.tau]) c := hf.tau rfl rfl rfl rfl
  have hst := hf.standing
  injection hst with hsent hinst hvalid
  refine ⟨?_, rfl, hw, hr.cancel, hr.started, hr.receiveFailed, hr.pushFailed⟩
  simp only [standing, hsent, hinst, hvalid, hbusy]

/-- A look changes nothing but the place. -/
theorem After.look (hf : After s₀ t c) (he : e = .lookStop ∨ e = .lookCancel) (l : Loc) :
    After s₀ (t ++ [e]) { c with usb := l } where
  standing := hf.standing
  home := hf.home
  worker := hf.worker
  cancel := by
    rw [cancelSince_snoc]
    rcases he with rfl | rfl
    · simpa using hf.cancel
    · simpa using hf.cancel
  started := List.mem_append_left _ hf.started
  receiveFailed := by
    rcases he with rfl | rfl
    · simpa using hf.receiveFailed
    · simpa using hf.receiveFailed
  pushFailed := hf.pushFailed

theorem facts_lookStop (hf : After s₀ t c) (hq : UpTo 1 t)
    (hl : Left c (c.stopRequested = true ∨ c.transferCancelRequested = true))
    (htold : Told stop₀ t c) (h : usbStep trans c .lookStop i = some (e, c')) :
    Apart c e c' ∧ Facts s₀ stop₀ trans (t ++ [e]) c' c'.usb := by
  cases i <;> simp only [usbStep, reduceCtorEq, Option.some.injEq, Prod.mk.injEq] at h
  obtain ⟨rfl, rfl⟩ := h
  refine ⟨⟨.inr (by simp [Event.phase]), rfl, rfl, .inl rfl⟩, ?_⟩
  split
  · rename_i hs
    refine ⟨rfl, hq.snoc (by omega) (by simp [Event.phase]), hf.standing, .inr hf.worker, ?_⟩
    intro _
    exact .inr (.inl (stopSeen_snoc.mpr (.inr ⟨rfl, htold.stop.mp hs⟩)))
  · rename_i hs
    refine ⟨hf.look (.inl rfl) _, hq.snoc (by omega) le_rfl, ?_, ?_⟩
    · intro hseen
      rcases stopSeen_snoc.mp hseen with ⟨t₁, t₂, rfl, -⟩ | ⟨-, hstop⟩
      · exact absurd (by simp) (hq.notMem (e := .lookStop) (by decide))
      · exact hs (htold.stop.mpr hstop)
    · rcases hl with hr | hk | hreq | hreq
      · exact .inl hr
      · exact .inr (.inl hk)
      · exact absurd hreq hs
      · exact .inr (.inr hreq)

theorem facts_lookCancel (hf : After s₀ t c) (hq : UpTo 2 t) (hstop : ¬StopSeen stop₀ t)
    (hl : Left c (c.transferCancelRequested = true))
    (h : usbStep trans c .lookCancel i = some (e, c')) :
    Apart c e c' ∧ Facts s₀ stop₀ trans (t ++ [e]) c' c'.usb := by
  cases i <;> simp only [usbStep, reduceCtorEq, Option.some.injEq, Prod.mk.injEq] at h
  obtain ⟨rfl, rfl⟩ := h
  refine ⟨⟨.inr (by simp [Event.phase]), rfl, rfl, .inl rfl⟩, ?_⟩
  split
  · rename_i hc
    refine ⟨rfl, hq.snoc (by omega) le_rfl, hf.standing, .inr hf.worker, ?_⟩
    intro _
    exact .inr (.inr (cancelSeen_snoc.mpr (.inr ⟨rfl, hf.cancel.mp hc⟩)))
  · rename_i hc
    refine ⟨hf.look (.inr rfl) _, hq.snoc (by omega) le_rfl, ?_, ?_, ?_⟩
    · rw [stopSeen_snoc]
      simpa using hstop
    · intro hseen
      rcases cancelSeen_snoc.mp hseen with ⟨t₁, t₂, rfl, -⟩ | ⟨-, hsince⟩
      · exact absurd (by simp) (hq.notMem (e := .lookCancel) (by decide))
      · exact hc (hf.cancel.mpr hsince)
    · rcases hl with hr | hk | hreq
      · exact .inl hr
      · exact .inr (.inl hk)
      · exact absurd hreq hc

theorem facts_judge (hf : After s₀ t c) (hq : UpTo 3 t) (hstop : ¬StopSeen stop₀ t)
    (hcancel : ¬CancelSeen t) (hl : Left c False) (htold : Told stop₀ t c)
    (hbusy : s₀.installerBusy = false) (h : usbStep trans c .judge i = some (e, c')) :
    Apart c e c' ∧ Facts s₀ stop₀ trans (t ++ [e]) c' c'.usb := by
  have hq' : UpTo 3 (t ++ [.tau]) := hq.snoc le_rfl (by simp [Event.phase])
  have hst := hf.standing
  injection hst with hsent hinst hvalid hbusy'
  cases i <;> simp only [usbStep, reduceCtorEq] at h
  obtain ⟨result, hw⟩ := hf.worker
  rw [hw] at h
  cases h
  refine ⟨judge_apart c trans result, ?_⟩
  have hfits := htold.fits
  rw [hw] at hfits
  unfold judge
  split
  · rename_i hfail
    -- the transfer has failed
    have hread : c.transfer.readFailed = true := by
      rcases hl with hr | hk | hno
      · exact hr
      · rcases hfail with hr | hp | hne
        · exact hr
        · rw [hf.pushFailed] at hp
          cases hp
        · rcases hsize : c.server.knownSize with _ | k
          · rw [hsize] at hne
            cases hne
          · rw [hsize] at hne hk
            simp only [Option.all_some, Option.any_some, decide_eq_true_eq] at hne hk
            exact absurd hk hne
      · exact hno.elim
    refine ⟨rfl, hq', hf.standing, .inr ⟨result, hw⟩, ?_⟩
    intro _
    exact .inl (List.mem_append_left _ (hf.receiveFailed.mpr hread))
  · rename_i hfail
    have hheader : .headerRejected ∉ t ++ [.tau] ∧ .headerLost false ∉ t ++ [.tau] :=
      ⟨hq'.notMem (by decide), hq'.notMem (by decide)⟩
    cases result with
    | some code =>
      refine ⟨.inr ⟨_, hw⟩, ?_⟩
      obtain ⟨messages, hst', ha⟩ := refuse_standing c.server code trans
      rw [hf.standing, hsent] at hst'
      refine Iff.trans (matches_error hst' ha (installResponse_ne_ok code) hbusy hf.home) ?_
      have hne : c.transaction ≠ .committed := by
        rcases hfits with hx | hx
        · rw [hx]
          rintro ⟨⟩
        · rw [hx]
          rintro ⟨⟩
      constructor
      · rintro ⟨-, hleft⟩
        exact ⟨hheader, fun hx => absurd hx hne, hleft⟩
      · intro hcalm
        exact ⟨hne, hcalm.rollback⟩
    | none =>
      refine ⟨.inr ⟨_, hw⟩, ?_⟩
      obtain ⟨messages, hst', ha⟩ := succeed_standing c.server trans
      rw [hf.standing, hsent, hinst] at hst'
      refine Iff.trans (matches_ok hst' ha hbusy hf.home) ?_
      have hx : c.transaction = .committed := hfits
      constructor
      · intro _
        refine ⟨hheader, ?_, ?_⟩
        · intro _
          refine ⟨?_, ?_, ?_⟩
          · intro hmem
            refine hfail (.inl (hf.receiveFailed.mp ?_))
            simpa using hmem
          · rw [stopSeen_snoc]
            simpa using hstop
          · rw [cancelSeen_snoc]
            simpa using hcancel
        · dsimp only
          rw [hx]
          rintro ⟨⟩
      · intro _
        exact hx

theorem facts_failing (hf : Failing s₀ stop₀ t c) (hbusy : s₀.installerBusy = false)
    (h : usbStep trans c (.failing RES_INCOMPLETE_TRANSFER) i = some (e, c')) :
    Apart c e c' ∧ Facts s₀ stop₀ trans (t ++ [e]) c' c'.usb := by
  have hst := hf.standing
  injection hst with hsent hinst hvalid hbusy'
  cases i <;> simp only [usbStep, reduceCtorEq, Option.some.injEq, Prod.mk.injEq] at h
  rename_i b
  obtain ⟨rfl, rfl⟩ := h
  obtain ⟨messages, hst', hyes, hno⟩ :=
    failTransfer_standing c.server RES_INCOMPLETE_TRANSFER trans b
  have hcalm : ∀ ev : Event, ev = .tau ∨ ev = .detached →
      (c.transaction ≠ .committed ∧ c.transaction ≠ .leftBehind ↔
        Calm stop₀ (t ++ [ev]) c.transaction) := by
    intro ev hev
    have hmem : ∀ ev' : Event, ev' ∈ t → ev' ∈ t ++ [ev] := fun ev' => List.mem_append_left _
    constructor
    · rintro ⟨hne, hleft⟩
      refine ⟨?_, fun hx => absurd hx hne, hleft⟩
      have h₁ := hf.quiet.notMem (e := .headerRejected) (by decide)
      have h₂ := hf.quiet.notMem (e := .headerLost false) (by decide)
      rcases hev with rfl | rfl
      · simp [h₁, h₂]
      · simp [h₁, h₂]
    · intro hc
      refine ⟨?_, hc.rollback⟩
      intro hx
      obtain ⟨hr, hs, hk⟩ := hc.commit hx
      rcases hf.why hx with hr' | hs' | hk'
      · exact hr (hmem _ hr')
      · exact hs (stopSeen_snoc.mpr (.inl hs'))
      · exact hk (cancelSeen_snoc.mpr (.inl hk'))
  cases b with
  | true =>
    refine ⟨⟨.inl rfl, rfl, rfl, .inl rfl⟩, hf.worker, ?_⟩
    rw [hf.standing, hsent] at hst'
    exact (matches_error hst' (hyes rfl) (by decide) hbusy rfl).trans (hcalm .tau (.inl rfl))
  | false =>
    refine ⟨⟨.inr (by simp [Event.phase]), rfl, rfl, .inl rfl⟩, hf.worker, ?_⟩
    injection hst' with hsent'
    rw [hno rfl, List.append_nil] at hsent'
    refine Iff.trans (matches_gone (hsent'.trans hsent) (.inr ?_)) (hcalm .detached (.inr rfl))
    simp

/-- Every step of the USB thread keeps the facts. -/
theorem Facts.usb (hf : Facts s₀ stop₀ trans t c c.usb) (htold : Told stop₀ t c)
    (hbusy : s₀.installerBusy = false) (h : usbStep trans c c.usb i = some (e, c')) :
    Apart c e c' ∧ Facts s₀ stop₀ trans (t ++ [e]) c' c'.usb := by
  generalize hl : c.usb = l at h hf
  cases l with
  | entry => exact facts_entry hf htold.fits hbusy h
  | header => exact facts_header hf.1 hf.2 htold.fits h
  | drain n => exact facts_drain hf.1 htold.fits h
  | start => exact facts_start hf.1 h hl
  | whileStop => exact facts_whileStop hf h
  | whileCancel => exact facts_whileCancel hf h
  | body => exact facts_body hf h
  | receive => exact facts_receive hf h
  | push n => exact facts_push hf hl h
  | endStop => exact facts_endStop hf.1 hf.2 h
  | endCancel => exact facts_endCancel hf.1 hf.2 h
  | ending b => exact facts_ending hf.1 hf.2 h
  | notify => exact facts_notify hf.1 hf.2 h
  | join => exact facts_join hf.1 hf.2 h
  | release =>
    obtain ⟨hr, hl, hw⟩ := hf
    exact facts_release hr hl hw hbusy h
  | lookStop =>
    obtain ⟨ha, hq, hl⟩ := hf
    exact facts_lookStop ha hq hl htold h
  | lookCancel =>
    obtain ⟨ha, hq, hs, hl⟩ := hf
    exact facts_lookCancel ha hq hs hl h
  | judge =>
    obtain ⟨ha, hq, hs, hc, hl⟩ := hf
    exact facts_judge ha hq hs hc hl htold hbusy h
  | failing code =>
    obtain ⟨rfl, hf⟩ := hf
    exact facts_failing hf hbusy h
  | returned r => cases i <;> cases h

end Usb

/-! ## The runs -/

section Runs

variable {s₀ : Server} {stop₀ : Bool} {trans : UInt32} {t : List Event} {c c' : Conf} {e : Event}

/-- A step that neither asks to stop nor settles the transaction. -/
theorem Told.quiet (hf : Told stop₀ t c) (hstop : c'.stopRequested = c.stopRequested)
    (hx : c'.transaction = c.transaction) (hfits : c'.worker.Fits c.transaction)
    (he : e ≠ .stop ∧ e ≠ .committed ∧ e ≠ .rolledBack false) : Told stop₀ (t ++ [e]) c' where
  stop := by
    rw [hstop, hf.stop, List.mem_append, List.mem_singleton]
    simp [he.1.symm]
  committed := by
    rw [hx, ← hf.committed, List.mem_append, List.mem_singleton]
    simp [he.2.1.symm]
  left := by
    rw [hx, ← hf.left, List.mem_append, List.mem_singleton]
    simp [he.2.2.symm]
  fits := by
    rw [hx]
    exact hfits

/-- The installer settles its transaction. -/
theorem Told.settle (hf : Told stop₀ t c) (hx : c.transaction = .untouched) {x : Transaction}
    {result : Option Nsp.ErrorCode} (he : e ≠ .stop) (hcommitted : e = .committed ↔ x = .committed)
    (hleft : e = .rolledBack false ↔ x = .leftBehind) (hfits : Worker.Fits (.returned result) x) :
    Told stop₀ (t ++ [e]) { c with transaction := x, worker := .returned result } where
  stop := by
    rw [hf.stop, List.mem_append, List.mem_singleton]
    simp [he.symm]
  committed := by
    rw [List.mem_append, List.mem_singleton, hf.committed, hx, ← hcommitted]
    simp [eq_comm]
  left := by
    rw [List.mem_append, List.mem_singleton, hf.left, hx, ← hleft]
    simp [eq_comm]
  fits := hfits

theorem Told.rollBack (hf : Told stop₀ t c) (hx : c.transaction = .untouched) (complete : Bool)
    (code : Nsp.ErrorCode) : Told stop₀ (t ++ [.rolledBack complete]) { c with
      transaction := if complete then .rolledBack else .leftBehind
      worker := .returned (some code) } := by
  cases complete
  · exact hf.settle hx (by simp) (by simp) (by simp) (.inr rfl)
  · exact hf.settle hx (by simp) (by simp) (by simp) (.inl rfl)

/-- The installer's steps. -/
theorem Told.worker {w : Work} (hf : Told stop₀ t c)
    (h : workerStep c c.worker w = some (e, c')) : Told stop₀ (t ++ [e]) c' := by
  have hfits := hf.fits
  rcases hw : c.worker with _ | _ | _ | _ | _ | result | result | result
  all_goals
    rw [hw] at h hfits
    cases w <;> simp only [workerStep, Option.map_eq_some_iff, Option.some.injEq, Prod.mk.injEq,
      reduceCtorEq] at h
  · obtain ⟨rfl, rfl⟩ := h
    exact hf.quiet rfl rfl hfits (by simp)
  · obtain ⟨r, -, rfl, rfl⟩ := h
    exact hf.quiet rfl rfl hfits (by simp)
  · obtain ⟨rfl, rfl⟩ := h
    exact hf.settle hfits (by simp) (by simp) (by simp) rfl
  · obtain ⟨rfl, rfl⟩ := h
    exact hf.rollBack hfits _ _
  · obtain ⟨r, -, rfl, rfl⟩ := h
    refine hf.quiet rfl rfl ?_ (by simp)
    dsimp only
    split
    · exact hfits
    · exact hfits
    · exact hfits
  · obtain ⟨rfl, rfl⟩ := h
    exact hf.rollBack hfits _ _
  · obtain ⟨r, -, rfl, rfl⟩ := h
    refine hf.quiet rfl rfl ?_ (by simp)
    cases result
    · exact hfits
    · exact hfits
  · obtain ⟨r, -, rfl, rfl⟩ := h
    refine hf.quiet rfl rfl ?_ (by simp)
    dsimp only
    cases result
    · split
      · exact hfits
      · exact hfits
    · split
      · exact hfits
      · exact hfits

/-- What every step keeps. -/
structure Inv (s₀ : Server) (stop₀ : Bool) (trans : UInt32) (t : List Event) (c : Conf) : Prop where
  told : Told stop₀ t c
  facts : Facts s₀ stop₀ trans t c c.usb

theorem Told.usb (hf : Told stop₀ t c) (hfacts : Facts s₀ stop₀ trans t c c.usb)
    (h : Apart c e c') : Told stop₀ (t ++ [e]) c' := by
  refine hf.quiet h.stop h.transaction ?_ ?_
  · rcases h.worker with hw | ⟨hl, hw⟩
    · rw [hw]
      exact hf.fits
    · rw [hl] at hfacts
      rw [hw]
      exact hfacts.1.fits hf.fits
  · rcases h.phase with rfl | hphase
    · simp
    · refine ⟨?_, ?_, ?_⟩
      · rintro rfl
        simp [Event.phase] at hphase
      · rintro rfl
        simp [Event.phase] at hphase
      · rintro rfl
        simp [Event.phase] at hphase

theorem Inv.step (hi : Inv s₀ stop₀ trans t c) (hbusy : s₀.installerBusy = false) {a : Action}
    (h : step trans c a = some (e, c')) : Inv s₀ stop₀ trans (t ++ [e]) c' := by
  have hfacts : Facts s₀ stop₀ trans (t ++ [e]) c' c'.usb := by
    rcases step_aside h with ha | ⟨i, hu⟩
    · rw [ha.usb]
      exact hi.facts.aside ha
    · exact (hi.facts.usb hi.told hbusy hu).2
  refine ⟨?_, hfacts⟩
  cases a with
  | stop =>
    cases h
    refine ⟨by simp, ?_, ?_, hi.told.fits⟩
    · simpa using hi.told.committed
    · simpa using hi.told.left
  | cancel reset =>
    cases h
    exact hi.told.quiet rfl rfl hi.told.fits (by simp)
  | usb i => exact hi.told.usb hi.facts (hi.facts.usb hi.told hbusy h).1
  | usbSpurious =>
    simp only [MtpSendObject.step, Option.map_eq_some_iff, Prod.mk.injEq] at h
    obtain ⟨r, -, rfl, rfl⟩ := h
    exact hi.told.quiet rfl rfl hi.told.fits (by simp)
  | worker w => exact hi.told.worker h
  | workerSpurious =>
    simp only [MtpSendObject.step, Option.map_eq_some_iff, Prod.mk.injEq] at h
    obtain ⟨r, -, rfl, rfl⟩ := h
    exact hi.told.quiet rfl rfl hi.told.fits (by simp)

theorem Inv.of_runs (hbusy : s₀.installerBusy = false) (h : Runs trans s₀ stop₀ t c) :
    Inv s₀ stop₀ trans t c := by
  refine h.invariant ?_ ?_
  · rintro c ⟨cancel₀, rfl⟩
    refine ⟨⟨by simp, by simp, by simp, rfl⟩, ?_, rfl, rfl, rfl⟩
    intro e he
    cases he
  · intro t c a e c' hi hs
    exact hi.step hbusy hs

theorem Told.calm (h : Told stop₀ t c) : Calm stop₀ t c.transaction ↔ Undisturbed stop₀ t := by
  constructor
  · rintro ⟨hh, hc, hr⟩
    exact ⟨hh, fun hx => hc (h.committed.mp hx), mt h.left.mp hr⟩
  · rintro ⟨hh, hc, hr⟩
    exact ⟨hh, fun hx => hc (h.committed.mpr hx), mt h.left.mpr hr⟩

end Runs

/-- The server waits for an object of four bytes. -/
def expecting : Server where
  usb := []
  pendingObjectHandle := 1
  pendingSize := 4
  pendingSizeKnown := true
  pendingValid := true

/-- Nothing is asked yet. -/
def awaiting : Conf where
  server := expecting
  stopRequested := false
  transferCancelRequested := false

/-- What a run is looked at for. -/
def outcome (r : List Event × Conf) : List Event × Transaction × ℕ × Loc :=
  (r.1, r.2.transaction, r.2.server.sessionInstalledCount, r.2.usb)

/-- A run by what is looked at. -/
theorem exists_run {o : List Event × Transaction × ℕ × Loc} (as : List Action)
    (h : (exec (step 7) as [] awaiting).map outcome = some o) :
    ∃ c, Runs 7 expecting false o.1 c ∧ c.transaction = o.2.1 ∧
      c.server.sessionInstalledCount = o.2.2.1 ∧ c.usb = o.2.2.2 := by
  obtain ⟨⟨t, c⟩, hr, rfl⟩ := Option.map_eq_some_iff.mp h
  exact ⟨c, Trace.exec as (.nil ⟨false, rfl⟩) hr, rfl, rfl, rfl⟩

end MtpSendObject
