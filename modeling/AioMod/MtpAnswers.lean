/-
# One response per command

What a command makes the responder send.  A handler that reads a dataset of the host answers once
the dataset is there; when a receive fails, or gets a zero-length packet while bytes are missing, it
returns without a word.
-/
import AioMod.MtpNativeServerSpec

namespace MtpNativeServer

open ByteImage

/-! ## What arrives -/

/-- The bytes that arrive before a receive fails or gets a zero-length packet. -/
def arrived : List Completion → Bytes
  | some (b :: bs) :: usb => (b :: bs) ++ arrived usb
  | _ => []

/-- Whether a zero-length packet comes after these bytes, and no receive fails there. -/
def emptyPacketNext : List Completion → Bool
  | some (_ :: _) :: usb => emptyPacketNext usb
  | some [] :: _ => true
  | _ => false

/-- What a read can get. -/
def Server.incoming (s : Server) : Bytes := s.rx.rest ++ arrived s.usb

theorem arrived_split : ∀ usb : List Completion, ∃ (ts : List Bytes) (later : List Completion),
    (∀ t ∈ ts, t ≠ []) ∧ usb = ts.map some ++ later ∧ ts.flatten = arrived usb ∧
      arrived later = [] := by
  intro usb
  induction usb with
  | nil => exact ⟨[], [], by simp, rfl, rfl, rfl⟩
  | cons c usb ih =>
    rcases c with _ | t
    · exact ⟨[], none :: usb, by simp, rfl, rfl, rfl⟩
    · rcases t with _ | ⟨b, bs⟩
      · exact ⟨[], some [] :: usb, by simp, rfl, rfl, rfl⟩
      · obtain ⟨ts, later, hne, rfl, hts, hlater⟩ := ih
        refine ⟨(b :: bs) :: ts, later, ?_, rfl, ?_, hlater⟩
        · intro t ht
          rcases List.mem_cons.mp ht with rfl | ht
          · simp
          · exact hne t ht
        · rw [List.flatten_cons, hts]
          rfl

/-- A read gets its bytes when they arrive. -/
theorem Server.readExact_arrived {s : Server} {n : ℕ} (hn : n ≤ s.incoming.length) :
    ∃ usb rx, s.readExact n = (some (s.incoming.take n), s.reading usb rx) ∧
      (s.reading usb rx).incoming = s.incoming.drop n := by
  obtain ⟨ts, later, hne, husb, hts, hlater⟩ := arrived_split s.usb
  have ha : s.Ahead s.incoming later := ⟨ts, hne, husb, by rw [hts, incoming]⟩
  obtain ⟨usb, rx, hread, ts', hne', husb', hrest'⟩ := readExact_ahead ha hn
  refine ⟨usb, rx, hread, ?_⟩
  have harr : arrived (ts'.map some ++ later) = ts'.flatten := by
    clear hrest' husb'
    induction ts' with
    | nil => exact hlater
    | cons t ts' ih =>
      rcases t with _ | ⟨b, bs⟩
      · exact absurd rfl (hne' [] (by simp))
      · rw [List.map_cons, List.cons_append, arrived, ih fun u hu => hne' u (by simp [hu]),
          List.flatten_cons]
  have husb : usb = ts'.map some ++ later := husb'
  rw [← hrest', incoming]
  show rx.rest ++ arrived usb = rx.rest ++ ts'.flatten
  rw [husb, harr]

/-- A read fails when its bytes do not arrive. -/
theorem readLoop_short (size : ℕ) : ∀ (usb : List Completion) (rx : Rx) (done : Bytes),
    rx.rest.length + (arrived usb).length < size - done.length →
      (readLoop size usb rx done).1 = none := by
  intro usb
  induction usb with
  | nil =>
    intro rx done h
    exact readLoop_nil (by omega)
  | cons c usb ih =>
    intro rx done h
    rcases c with _ | t
    · have hlen : ¬size ≤ (done ++ rx.rest).length := by
        rw [List.length_append]
        omega
      unfold readLoop
      simp only [Nat.min_eq_right (show rx.rest.length ≤ size - done.length by omega),
        List.take_length]
      rw [if_neg hlen]
    · rcases t with _ | ⟨b, bs⟩
      · exact (readLoop_empty (by omega)).1
      · rw [arrived, List.length_append] at h
        rw [readLoop_receive (by simp) (by omega)]
        refine ih _ _ ?_
        rw [Rx.rest_received, List.length_append]
        omega

theorem Server.readExact_short {s : Server} {n : ℕ} (h : s.incoming.length < n) :
    (s.readExact n).1 = none := by
  rw [incoming, List.length_append] at h
  exact readLoop_short n s.usb s.rx [] (by simpa using h)

/-! ## What is sent -/

/-- One response to the transaction, after at most one data container, and then only events. -/
def Answered (op : UInt16) (trans : UInt32) (messages : List Message) : Prop :=
  ∃ data code params events, messages = data ++ .response code trans params :: events ∧
    (data = [] ∨ ∃ payload, data = [Message.data op trans payload]) ∧
      ∀ m ∈ events, ∃ code params, m = Message.event code params

/-- Between `s` and `s'` the transaction was answered. -/
def Server.Answers (s s' : Server) (op : UInt16) (trans : UInt32) : Prop :=
  ∃ messages, s'.sent = s.sent ++ messages ∧ Answered op trans messages

@[simp] theorem Server.sent_readExact (s : Server) (n : ℕ) : (s.readExact n).2.sent = s.sent := rfl

theorem Server.sent_drainExact (n : ℕ) : ∀ s : Server, (s.drainExact n).2.sent = s.sent := by
  induction n using Nat.strong_induction_on with
  | _ n ih =>
    intro s
    unfold drainExact
    split
    · rfl
    · have hread := s.sent_readExact (min n 4096)
      rcases hr : s.readExact (min n 4096) with ⟨_ | bs, s₁⟩
      · rw [hr] at hread
        exact hread
      · rw [hr] at hread
        dsimp only
        rw [ih _ (by omega) s₁]
        exact hread

section answers

variable {s s' : Server} {op : UInt16} {trans : UInt32} (p : Platform) (params : List UInt32)

/-- Silence is no answer. -/
theorem Server.not_answers (h : s'.sent = s.sent) : ¬s.Answers s' op trans := by
  rintro ⟨messages, hsent, data, code, params, events, rfl, -⟩
  rw [h] at hsent
  have := congrArg List.length hsent
  simp only [List.length_append, List.length_cons] at this
  omega

/-- A response alone, whatever else is done to the server. -/
theorem Server.answers_of_sent {code : UInt16} {params : List UInt32}
    (h : s'.sent = s.sent ++ [.response code trans params]) : s.Answers s' op trans :=
  ⟨[.response code trans params], h, [], code, params, [], rfl, .inl rfl, by simp⟩

theorem Server.answers_response (h : s'.sent = s.sent) (code : UInt16) (params : List UInt32) :
    s.Answers (s'.sendResponse code trans params) op trans := by
  have hsent : (s'.sendResponse code trans params).sent =
      s.sent ++ [.response code trans params] := by
    show s'.sent ++ _ = _
    rw [h]
  exact answers_of_sent hsent

/-- An event changes nothing about an answer. -/
theorem Server.Answers.removed (h : s.Answers s' op trans) (handle : UInt32) :
    s.Answers (s'.sendRemoved handle) op trans := by
  unfold sendRemoved
  split
  swap
  · exact h
  obtain ⟨messages, hsent, data, code, params, events, rfl, hdata, hevents⟩ := h
  refine ⟨data ++ .response code trans params :: (events ++ [.event EVENT_OBJECT_REMOVED [handle]]),
    ?_, data, code, params, _, rfl, hdata, ?_⟩
  · show s'.sent ++ _ = _
    rw [hsent]
    simp
  · intro m hm
    rcases List.mem_append.mp hm with hm | hm
    · exact hevents m hm
    · exact ⟨_, _, List.mem_singleton.mp hm⟩

/-- An answer of a server that has sent the same. -/
theorem Server.Answers.of_sent {s₁ : Server} (h : s₁.Answers s' op trans) (hs : s₁.sent = s.sent) :
    s.Answers s' op trans := by
  obtain ⟨messages, hsent, ha⟩ := h
  exact ⟨messages, by rw [hsent, hs], ha⟩

theorem Server.answers_failTransfer (s : Server) (code : UInt16) :
    s.Answers (s.failTransfer code trans) op trans := by
  unfold failTransfer
  exact Answers.removed (answers_of_sent rfl) _

theorem Server.answers_answer (s : Server) {o : Operation} (data : Except UInt16 Bytes) :
    s.Answers (s.answer o trans data) o.code trans := by
  unfold answer
  rcases data with code | payload
  · exact answers_response rfl _ _
  · refine ⟨[.data o.code trans payload, .response RES_OK trans []], ?_,
      [.data o.code trans payload],
      RES_OK, [], [], rfl, .inr ⟨payload, rfl⟩, by simp⟩
    show (s.sent ++ _) ++ _ = _
    rw [List.append_assoc]
    rfl

theorem Server.answers_preparePendingObject (s : Server) (name : Bytes) (size : ℕ) (known : Bool)
    (format : UInt16) :
    s.Answers (s.preparePendingObject name size known format trans) op trans := by
  unfold preparePendingObject
  split
  · exact answers_response rfl _ _
  · split
    · exact answers_response rfl _ _
    · exact answers_response rfl _ _

theorem Server.answers_openSession (s : Server) :
    s.Answers (s.openSession trans params) op trans := by
  unfold openSession
  rcases params with _ | ⟨id, params⟩
  · exact answers_response rfl _ _
  · dsimp only
    split
    · exact answers_response rfl _ _
    · split
      · exact answers_response rfl _ _
      · exact answers_response rfl _ _

theorem Server.answers_handleDeleteObject (s : Server) :
    s.Answers (s.handleDeleteObject trans params) op trans := by
  unfold handleDeleteObject
  split
  · exact answers_response rfl _ _
  · split
    · exact answers_response rfl _ _
    · exact (answers_response rfl _ _).removed _

theorem Server.answers_handleGetObjectPropList (s : Server) :
    s.Answers (s.handleGetObjectPropList trans params) Operation.getObjectPropList.code trans := by
  unfold handleGetObjectPropList
  split
  · dsimp only
    split
    · exact answers_response rfl _ _
    · split
      · exact answers_response rfl _ _
      · split
        · exact answers_response rfl _ _
        · exact s.answers_answer _
  · exact answers_response rfl _ _

/-- However a transfer goes, it is answered. -/
theorem Server.answers_receiveObject (s : Server) :
    s.Answers (s.receiveObject p trans) op trans := by
  unfold receiveObject
  dsimp only
  split
  · exact (answers_failTransfer _ _).of_sent rfl
  · split
    · exact Answers.removed (answers_of_sent rfl) _
    · exact Answers.removed (answers_of_sent rfl) _

end answers

/-! ## The bytes a command waits for -/

/-- What `readDataset` takes for the header of the data container. -/
def Server.dataHeader (s : Server) : ContainerHeader :=
  ContainerHeader.decode (s.incoming.take headerSize)

/-- The bytes that `readDataset` reads before its handler answers: the header, and the dataset that
an accepted header announces. -/
def Server.datasetNeeded (s : Server) (op : Operation) (trans : UInt32) (least most : ℕ) : ℕ :=
  let length := s.dataHeader.length.toNat
  if s.dataHeader.type ≠ CONTAINER_DATA ∨ s.dataHeader.code ≠ op.code ∨
      s.dataHeader.transaction ≠ trans ∨ length < headerSize + least ∨
        headerSize + most < length then
    headerSize
  else length

/-- The bytes of the host that are read before the command is answered. -/
def Server.needed (s : Server) (op : UInt16) (trans : UInt32) (params : List UInt32) : ℕ :=
  if s.sessionId = 0 then 0
  else
    match Operation.ofCode op with
    | some .sendObjectInfo =>
      if s.installerBusy ∨ (params[0]?.any fun storage => storage ≠ 0 ∧ storage ≠ STORAGE_ID) ∨
          (params[1]?.any fun parent => parent ≠ 0 ∧ parent ≠ 0xFFFFFFFF) then 0
      else s.datasetNeeded .sendObjectInfo trans 53 (64 * 1024)
    | some .sendObjectPropList =>
      if s.installerBusy ∨ params.length < 5 ∨
          (params[0]?.any fun storage => storage ≠ 0 ∧ storage ≠ STORAGE_ID) ∨
          (params[1]?.any fun parent => parent ≠ 0 ∧ parent ≠ 0xFFFFFFFF) then 0
      else s.datasetNeeded .sendObjectPropList trans 4 (256 * 1024)
    | some .setObjectPropValue =>
      if params.length < 2 ∨ ¬(params[0]?.any s.isCurrentObject) ∨
          (params[1]?.any fun prop => prop.toUInt16 ≠ PROP_OBJECT_FILE_NAME) ∨
          s.installerBusy ∨ s.state = .Receiving ∨ s.state = .Installing then 0
      else s.datasetNeeded .setObjectPropValue trans 1 4096
    | some .sendObject => if s.installerBusy ∨ ¬s.pendingValid then 0 else headerSize
    | _ => 0

section needed

variable {s : Server} {op : Operation} {trans : UInt32} {least most : ℕ}

theorem Server.headerSize_le_datasetNeeded : headerSize ≤ s.datasetNeeded op trans least most := by
  unfold datasetNeeded
  dsimp only
  split
  · exact le_rfl
  · rename_i h
    rw [not_or, not_or, not_or, not_or] at h
    omega

/-- Without its bytes `readDataset` returns nothing, and sends nothing. -/
theorem Server.readDataset_short
    (h : s.incoming.length < s.datasetNeeded op trans least most) :
    (s.readDataset op trans least most).1 = none ∧
      (s.readDataset op trans least most).2.sent = s.sent := by
  unfold readDataset
  by_cases hh : headerSize ≤ s.incoming.length
  swap
  · have hnone := readExact_short (Nat.lt_of_not_le hh)
    have hsent := s.sent_readExact headerSize
    rcases hr : s.readExact headerSize with ⟨_ | bytes, s₁⟩
    · rw [hr] at hsent
      exact ⟨rfl, hsent⟩
    · rw [hr] at hnone
      cases hnone
  obtain ⟨usb, rx, hread, hrest⟩ := readExact_arrived hh
  unfold datasetNeeded at h
  rw [hread]
  dsimp only
  split
  · rename_i hbad
    unfold dataHeader at h
    rw [if_pos hbad] at h
    omega
  · rename_i hbad
    unfold dataHeader at h
    rw [if_neg hbad] at h
    have hlen : (s.reading usb rx).incoming.length <
        (ContainerHeader.decode (s.incoming.take headerSize)).length.toNat - headerSize := by
      rw [hrest, List.length_drop]
      omega
    exact ⟨readExact_short hlen, rfl⟩

/-- With its bytes it returns the dataset, or its handler's answer is sent. -/
theorem Server.readDataset_arrived
    (h : s.datasetNeeded op trans least most ≤ s.incoming.length) (o : UInt16) :
    (s.readDataset op trans least most).1 = none ∧
        s.Answers (s.readDataset op trans least most).2 o trans ∨
      ∃ data, (s.readDataset op trans least most).1 = some data ∧
        (s.readDataset op trans least most).2.sent = s.sent := by
  have hh : headerSize ≤ s.incoming.length := headerSize_le_datasetNeeded.trans h
  obtain ⟨usb, rx, hread, hrest⟩ := readExact_arrived hh
  unfold datasetNeeded dataHeader at h
  unfold readDataset
  rw [hread]
  dsimp only at h ⊢
  split
  · left
    refine ⟨rfl, answers_response ?_ _ _⟩
    split
    · exact sent_drainExact _ _
    · rfl
  · right
    rename_i hbad
    rw [if_neg hbad] at h
    have hlen : (ContainerHeader.decode (s.incoming.take headerSize)).length.toNat - headerSize ≤
        (s.reading usb rx).incoming.length := by
      rw [hrest, List.length_drop]
      omega
    obtain ⟨usb', rx', hread', -⟩ := readExact_arrived hlen
    rw [hread']
    exact ⟨_, rfl, rfl⟩

end needed

/-! ## Every handler -/

/-- The transaction is answered if `n` bytes arrive; otherwise nothing is sent. -/
def Server.Replies (s s' : Server) (op : UInt16) (trans : UInt32) (n : ℕ) : Prop :=
  (n ≤ s.incoming.length → s.Answers s' op trans) ∧ (s.incoming.length < n → s'.sent = s.sent)

section replies

variable {s s' : Server} {op : UInt16} {trans : UInt32} (p : Platform) (params : List UInt32)

/-- A command that waits for nothing. -/
theorem Server.Answers.replies (h : s.Answers s' op trans) : s.Replies s' op trans 0 :=
  ⟨fun _ => h, fun hlt => absurd hlt (Nat.not_lt_zero _)⟩

theorem Server.readDataset_cases (s : Server) (trans : UInt32) (o : Operation) (least most : ℕ)
    (code : UInt16) :
    (∃ s₁, s.readDataset o trans least most = (none, s₁) ∧
        s.Replies s₁ code trans (s.datasetNeeded o trans least most)) ∨
      ∃ data s₁, s.readDataset o trans least most = (some data, s₁) ∧ s₁.sent = s.sent ∧
        s.datasetNeeded o trans least most ≤ s.incoming.length := by
  by_cases h : s.datasetNeeded o trans least most ≤ s.incoming.length
  · rcases readDataset_arrived h code with ⟨hnone, hans⟩ | ⟨data, hsome, hsent⟩
    · exact .inl ⟨_, Prod.ext hnone rfl, fun _ => hans, fun hlt => absurd h (Nat.not_le.mpr hlt)⟩
    · exact .inr ⟨data, _, Prod.ext hsome rfl, hsent, h⟩
  · obtain ⟨hnone, hsent⟩ := readDataset_short (Nat.lt_of_not_le h)
    exact .inl ⟨_, Prod.ext hnone rfl, fun hle => absurd hle h, fun _ => hsent⟩

theorem Server.replies_handleSendObjectInfo (hopen : s.sessionId ≠ 0) :
    s.Replies (s.handleSendObjectInfo trans params) Operation.sendObjectInfo.code trans
      (s.needed Operation.sendObjectInfo.code trans params) := by
  have hcode : Operation.ofCode Operation.sendObjectInfo.code = some .sendObjectInfo := rfl
  unfold needed handleSendObjectInfo
  rw [if_neg hopen, hcode]
  dsimp only
  by_cases hbusy : s.installerBusy = true
  · rw [if_pos hbusy, if_pos (.inl hbusy)]
    exact (answers_response rfl _ _).replies
  rw [if_neg hbusy]
  split
  · rename_i hstorage
    rw [if_pos (.inr (.inl hstorage))]
    exact (answers_response rfl _ _).replies
  rename_i hstorage
  split
  · rename_i hparent
    rw [if_pos (.inr (.inr hparent))]
    exact (answers_response rfl _ _).replies
  rename_i hparent
  rw [if_neg (not_or.mpr ⟨hbusy, not_or.mpr ⟨hstorage, hparent⟩⟩)]
  rcases s.readDataset_cases trans .sendObjectInfo 53 (64 * 1024)
    Operation.sendObjectInfo.code with ⟨s₁, hr, hrep⟩ | ⟨data, s₁, hr, hsent, hn⟩
  · rw [hr]
    exact hrep
  · rw [hr]
    refine ⟨fun _ => ?_, fun hlt => absurd hn (Nat.not_le.mpr hlt)⟩
    dsimp only
    split
    · exact answers_response hsent _ _
    · exact (answers_preparePendingObject s₁ _ _ _ _).of_sent hsent

theorem Server.replies_handleSendObjectPropList (hopen : s.sessionId ≠ 0) :
    s.Replies (s.handleSendObjectPropList trans params) Operation.sendObjectPropList.code trans
      (s.needed Operation.sendObjectPropList.code trans params) := by
  have hcode : Operation.ofCode Operation.sendObjectPropList.code = some .sendObjectPropList := rfl
  unfold needed handleSendObjectPropList
  rw [if_neg hopen, hcode]
  dsimp only
  by_cases hbusy : s.installerBusy = true
  · rw [if_pos hbusy, if_pos (.inl hbusy)]
    exact (answers_response rfl _ _).replies
  rw [if_neg hbusy]
  split
  swap
  · -- too few parameters
    rename_i hfew
    have hlen : params.length < 5 := by
      rcases params with _ | ⟨storage, _ | ⟨parent, _ | ⟨format, _ | ⟨high, _ | ⟨low, rest⟩⟩⟩⟩⟩
      · simp
      · simp
      · simp
      · simp
      · simp
      · exact absurd rfl (hfew storage parent format high low rest)
    rw [if_pos (.inr (.inl hlen))]
    exact (answers_response rfl _ _).replies
  rename_i storage parent format high low rest
  have hlen : ¬(storage :: parent :: format :: high :: low :: rest).length < 5 := by
    simp
  have hneeded : (s.installerBusy = true ∨
      (storage :: parent :: format :: high :: low :: rest).length < 5 ∨
      decide (storage ≠ 0 ∧ storage ≠ STORAGE_ID) = true ∨
      decide (parent ≠ 0 ∧ parent ≠ 0xFFFFFFFF) = true) ↔
      (storage ≠ 0 ∧ storage ≠ STORAGE_ID) ∨ (parent ≠ 0 ∧ parent ≠ 0xFFFFFFFF) := by
    rw [decide_eq_true_iff, decide_eq_true_iff]
    simp only [hbusy, hlen, Bool.false_eq_true, false_or]
  simp only [List.getElem?_cons_zero, List.getElem?_cons_succ, Option.any_some]
  split
  · rename_i hbad
    rw [if_pos (hneeded.mpr hbad)]
    exact (answers_response rfl _ _).replies
  rename_i hok
  rw [if_neg fun h => hok (hneeded.mp h)]
  rcases s.readDataset_cases trans .sendObjectPropList 4 (256 * 1024)
    Operation.sendObjectPropList.code with ⟨s₁, hr, hrep⟩ | ⟨data, s₁, hr, hsent, hn⟩
  · rw [hr]
    exact hrep
  · rw [hr]
    refine ⟨fun _ => ?_, fun hlt => absurd hn (Nat.not_le.mpr hlt)⟩
    dsimp only
    split
    · exact answers_response hsent _ _
    · exact (answers_preparePendingObject s₁ _ _ _ _).of_sent hsent

theorem Server.replies_handleSetObjectPropValue (hopen : s.sessionId ≠ 0) :
    s.Replies (s.handleSetObjectPropValue trans params) Operation.setObjectPropValue.code trans
      (s.needed Operation.setObjectPropValue.code trans params) := by
  have hcode : Operation.ofCode Operation.setObjectPropValue.code = some .setObjectPropValue := rfl
  unfold needed handleSetObjectPropValue
  rw [if_neg hopen, hcode]
  dsimp only
  split
  swap
  · rename_i hfew
    have hlen : params.length < 2 := by
      rcases params with _ | ⟨handle, _ | ⟨prop, rest⟩⟩
      · simp
      · simp
      · exact absurd rfl (hfew handle prop rest)
    rw [if_pos (.inl hlen)]
    exact (answers_response rfl _ _).replies
  rename_i handle prop rest
  have hlen : ¬(handle :: prop :: rest).length < 2 := by
    simp
  by_cases hcur : s.isCurrentObject handle = true
  swap
  · rw [if_pos hcur, if_pos (.inr (.inl (by simpa using hcur)))]
    exact (answers_response rfl _ _).replies
  rw [if_neg (not_not.mpr hcur)]
  split
  · rename_i hprop
    rw [if_pos (.inr (.inr (.inl (by simpa using hprop))))]
    exact (answers_response rfl _ _).replies
  rename_i hprop
  split
  · rename_i hstate
    rw [if_pos (.inr (.inr (.inr hstate)))]
    exact (answers_response rfl _ _).replies
  rename_i hstate
  rw [if_neg]
  swap
  · refine not_or.mpr ⟨hlen, not_or.mpr ⟨?_, not_or.mpr ⟨?_, hstate⟩⟩⟩
    · simpa using hcur
    · simpa using hprop
  rcases s.readDataset_cases trans .setObjectPropValue 1 4096
    Operation.setObjectPropValue.code with ⟨s₁, hr, hrep⟩ | ⟨data, s₁, hr, hsent, hn⟩
  · rw [hr]
    exact hrep
  · rw [hr]
    refine ⟨fun _ => ?_, fun hlt => absurd hn (Nat.not_le.mpr hlt)⟩
    dsimp only
    split
    · exact answers_response hsent _ _
    · split
      · exact answers_response hsent _ _
      · exact answers_response hsent _ _

theorem Server.replies_handleSendObject (hopen : s.sessionId ≠ 0) :
    s.Replies (s.handleSendObject p trans) Operation.sendObject.code trans
      (s.needed Operation.sendObject.code trans params) := by
  have hcode : Operation.ofCode Operation.sendObject.code = some .sendObject := rfl
  unfold needed handleSendObject
  rw [if_neg hopen, hcode]
  dsimp only
  by_cases hbusy : s.installerBusy = true
  · rw [if_pos hbusy, if_pos (.inl hbusy)]
    exact (answers_response rfl _ _).replies
  rw [if_neg hbusy]
  by_cases hpending : s.pendingValid = true
  swap
  · rw [if_pos hpending, if_pos (.inr hpending)]
    exact (answers_response rfl _ _).replies
  rw [if_neg (not_not.mpr hpending), if_neg (not_or.mpr ⟨hbusy, not_not.mpr hpending⟩)]
  by_cases hn : headerSize ≤ s.incoming.length
  swap
  · refine ⟨fun hle => absurd hle hn, fun hlt => ?_⟩
    have hnone := readExact_short hlt
    have hsent := s.sent_readExact headerSize
    rcases hr : s.readExact headerSize with ⟨_ | bytes, s₁⟩
    · rw [hr] at hsent
      exact hsent
    · rw [hr] at hnone
      cases hnone
  refine ⟨fun _ => ?_, fun hlt => absurd hn (Nat.not_le.mpr hlt)⟩
  obtain ⟨usb, rx, hread, -⟩ := readExact_arrived hn
  rw [hread]
  dsimp only
  generalize (ContainerHeader.decode (s.incoming.take headerSize)) = h
  generalize (if ¬decide (h.length.toNat = 4294967295) = true ∧ headerSize ≤ h.length.toNat then
    h.length.toNat - headerSize else 0) = size
  split
  · exact answers_response rfl _ _
  · split
    · refine (answers_failTransfer _ _).of_sent ?_
      split
      · exact sent_drainExact _ _
      · rfl
    · split
      · exact (answers_receiveObject p _).of_sent rfl
      · exact (answers_receiveObject p _).of_sent rfl

/-- An operation without data from the host waits for nothing. -/
theorem Server.needed_noData {o : Operation} (ho : o.hasData = false) :
    s.needed o.code trans params = 0 := by
  unfold needed
  rw [Operation.ofCode_code]
  split
  · rfl
  · cases o <;> first | rfl | cases ho

/-- The operations without data are answered at once. -/
theorem Server.answers_dispatchOperation {o : Operation} (ho : o.hasData = false) :
    s.Answers (s.dispatchOperation p o trans params) o.code trans := by
  cases o with
  | sendObjectInfo | sendObjectPropList | sendObject | setObjectPropValue => cases ho
  | getDeviceInfo | getStorageIds | getStorageInfo | getObjectHandles | getObjectInfo
  | getObjectPropsSupported | getObjectPropDesc | getObjectPropValue => exact s.answers_answer _
  | openSession => exact answers_openSession params s
  | closeSession => exact answers_response rfl _ _
  | getNumObjects => exact answers_response rfl _ _
  | deleteObject => exact answers_handleDeleteObject params s
  | getObjectPropList => exact answers_handleGetObjectPropList params s

theorem Server.replies_dispatchOperation {o : Operation}
    (hopen : o.hasData = true → s.sessionId ≠ 0) :
    s.Replies (s.dispatchOperation p o trans params) o.code trans
      (s.needed o.code trans params) := by
  by_cases ho : o.hasData = true
  · have hsession := hopen ho
    cases o with
    | sendObjectInfo => exact replies_handleSendObjectInfo params hsession
    | sendObjectPropList => exact replies_handleSendObjectPropList params hsession
    | sendObject => exact replies_handleSendObject p params hsession
    | setObjectPropValue => exact replies_handleSetObjectPropValue params hsession
    | _ => cases ho
  · have hnone : o.hasData = false := by simpa using ho
    rw [needed_noData params hnone]
    exact (answers_dispatchOperation p params hnone).replies

theorem Operation.ofCode_eq_some {code : UInt16} {o : Operation} (h : ofCode code = some o) :
    code = o.code := by
  have := List.find?_some h
  exact (beq_iff_eq.mp this).symm

/-- Only operations without data are allowed before a session. -/
theorem Operation.code_of_hasData {o : Operation} (h : o.hasData = true) :
    o.code ≠ getDeviceInfo.code ∧ o.code ≠ openSession.code := by
  cases o with
  | sendObjectInfo | sendObjectPropList | sendObject | setObjectPropValue => decide
  | _ => cases h

/-- Every command is answered once the bytes that its handler waits for arrive, and not before. -/
theorem Server.replies_dispatchCommand (s : Server) :
    s.Replies (s.dispatchCommand p op trans params) op trans (s.needed op trans params) := by
  unfold dispatchCommand
  split
  · rename_i hclosed
    have hneeded : s.needed op trans params = 0 := if_pos hclosed.2.2
    rw [hneeded]
    exact (answers_response rfl _ _).replies
  rename_i hopen
  cases ho : Operation.ofCode op with
  | none =>
    have hneeded : s.needed op trans params = 0 := by
      unfold needed
      rw [ho]
      split
      · rfl
      · rfl
    rw [hneeded]
    exact (answers_response rfl _ _).replies
  | some o =>
    obtain rfl := Operation.ofCode_eq_some ho
    refine replies_dispatchOperation p params fun hdata hclosed => hopen ?_
    exact ⟨(Operation.code_of_hasData hdata).1, (Operation.code_of_hasData hdata).2, hclosed⟩

end replies

/-! ## One response to every command -/

/-- A receive fails before the bytes that the command waits for arrive. -/
def Server.TransportFails (s : Server) (op : UInt16) (trans : UInt32) (params : List UInt32) :
    Prop :=
  s.incoming.length < s.needed op trans params ∧ emptyPacketNext s.usb = false

/-- A zero-length packet comes before the bytes that the command waits for. -/
def Server.CutShort (s : Server) (op : UInt16) (trans : UInt32) (params : List UInt32) : Prop :=
  s.incoming.length < s.needed op trans params ∧ emptyPacketNext s.usb = true

instance (s : Server) (op : UInt16) (trans : UInt32) (params : List UInt32) :
    Decidable (s.CutShort op trans params) := inferInstanceAs (Decidable (_ ∧ _))

/-- Without a transport failure a command gets its one response, after at most one data container
and before no other, unless a zero-length packet cuts its data phase short. -/
theorem Server.one_response (s : Server) (p : Platform) (op : UInt16) (trans : UInt32)
    (params : List UInt32) :
    (¬s.TransportFails op trans params →
      s.Answers (s.dispatchCommand p op trans params) op trans) ↔ ¬s.CutShort op trans params := by
  have hreplies : s.Replies (s.dispatchCommand p op trans params) op trans
      (s.needed op trans params) := s.replies_dispatchCommand p params
  obtain ⟨hans, hsilent⟩ := hreplies
  constructor
  · rintro h ⟨hlt, hempty⟩
    refine not_answers (hsilent hlt) (h fun hfails => ?_)
    rw [hfails.2] at hempty
    cases hempty
  · intro hcut hok
    refine hans (Nat.le_of_not_lt fun hlt => ?_)
    by_cases hempty : emptyPacketNext s.usb = true
    · exact hcut ⟨hlt, hempty⟩
    · exact hok ⟨hlt, by simpa using hempty⟩

/-- A session, an announcement whose container header says 100 bytes, and a zero-length packet. -/
def cutDataset : Server where
  usb := [some (ContainerHeader.encode ⟨112, CONTAINER_DATA, Operation.sendObjectInfo.code, 7⟩),
    some []]
  sessionId := 1

/-- The announcement is not answered, and nothing failed. -/
theorem cut_dataset_unanswered :
    ¬∀ (s : Server) (p : Platform) (op : UInt16) (trans : UInt32) (params : List UInt32),
      ¬s.TransportFails op trans params →
        s.Answers (s.dispatchCommand p op trans params) op trans := by
  intro h
  have hcut : cutDataset.CutShort Operation.sendObjectInfo.code 7 [] := by decide
  refine Server.not_answers (s := cutDataset) ?_ (h cutDataset ⟨fun _ => none, none, none⟩
    Operation.sendObjectInfo.code 7 [] fun hfails => ?_)
  · exact (cutDataset.replies_dispatchCommand ⟨fun _ => none, none, none⟩ []).2 hcut.1
  · have hempty := hfails.2
    rw [hcut.2] at hempty
    cases hempty

end MtpNativeServer
