/-
# What the responder reads

`Ahead s d later` says that the bytes `d` are what the host sends before the receives `later`:
the rest of the buffer and transfers that are not empty.  A read takes its bytes from the
front of `d`, however they are cut into transfers.
-/
import AioMod.MtpNativeServer

namespace MtpNativeServer

open ByteImage

/-! ## The buffer -/

theorem Rx.rest_received (bs : Bytes) : (Rx.received bs).rest = bs := rfl

@[simp] theorem Rx.rest_failed (rx : Rx) : rx.failed.rest = [] := rfl

@[simp] theorem Rx.rest_advance (rx : Rx) (n : ℕ) : (rx.advance n).rest = rx.rest.drop n := by
  unfold rest advance
  rw [List.drop_drop]

/-! ## The loop of a read -/

section readLoop

variable {size : ℕ} {usb : List Completion} {rx : Rx} {done : Bytes}

/-- The buffer has what is missing. -/
theorem readLoop_rest (hd : done.length ≤ size) (h : size - done.length ≤ rx.rest.length) :
    readLoop size usb rx done =
      (some (done ++ rx.rest.take (size - done.length)), usb, rx.advance (size - done.length)) := by
  unfold readLoop
  have hlen : size ≤ (done ++ rx.rest.take (size - done.length)).length := by
    rw [List.length_append, List.length_take]
    omega
  simp only [Nat.min_eq_left h]
  rw [if_pos hlen]

/-- What is missing begins with the whole rest of the buffer. -/
theorem readLoop_receive {t : Bytes} (ht : t ≠ []) (h : rx.rest.length < size - done.length) :
    readLoop size (some t :: usb) rx done = readLoop size usb (.received t) (done ++ rx.rest) := by
  conv_lhs => unfold readLoop
  have hlen : ¬size ≤ (done ++ rx.rest).length := by
    rw [List.length_append]
    omega
  simp only [Nat.min_eq_right h.le, List.take_length]
  rw [if_neg hlen]

/-- A zero-length packet where bytes are missing. -/
theorem readLoop_empty (h : rx.rest.length < size - done.length) :
    (readLoop size (some [] :: usb) rx done).1 = none ∧
      (readLoop size (some [] :: usb) rx done).2.1 = usb ∧
      (readLoop size (some [] :: usb) rx done).2.2.rest = [] := by
  unfold readLoop
  have hlen : ¬size ≤ (done ++ rx.rest).length := by
    rw [List.length_append]
    omega
  simp only [Nat.min_eq_right h.le, List.take_length]
  rw [if_neg hlen]
  exact ⟨rfl, rfl, rfl⟩

/-- The cable is out where bytes are missing. -/
theorem readLoop_nil (h : rx.rest.length < size - done.length) :
    (readLoop size [] rx done).1 = none := by
  unfold readLoop
  have hlen : ¬size ≤ (done ++ rx.rest).length := by
    rw [List.length_append]
    omega
  simp only [Nat.min_eq_right h.le, List.take_length]
  rw [if_neg hlen]

end readLoop

/-- The transfers from the one on in which the first `n` bytes end. -/
def fromByte (n : ℕ) : List Bytes → List Bytes
  | [] => []
  | t :: ts => if n ≤ t.length then t :: ts else fromByte (n - t.length) ts

/-- A read that needs more than the rest of the buffer ends in a transfer. -/
theorem readLoop_transfers (size : ℕ) (later : List Completion) :
    ∀ (ts : List Bytes) (rx : Rx) (done : Bytes), (∀ t ∈ ts, t ≠ []) →
      rx.rest.length < size - done.length →
      size - done.length ≤ (rx.rest ++ ts.flatten).length →
      ∃ (t : Bytes) (post : List Bytes) (k : ℕ),
        fromByte (size - done.length - rx.rest.length) ts = t :: post ∧ t ∈ ts ∧
        (∀ u ∈ post, u ∈ ts) ∧
        readLoop size (ts.map some ++ later) rx done =
          (some (done ++ (rx.rest ++ ts.flatten).take (size - done.length)),
            post.map some ++ later, (Rx.received t).advance k) ∧
        t.drop k ++ post.flatten = (rx.rest ++ ts.flatten).drop (size - done.length) := by
  intro ts
  induction ts with
  | nil =>
    intro rx done _ hlt hle
    rw [List.flatten_nil, List.append_nil] at hle
    omega
  | cons t ts ih =>
    intro rx done hne hlt hle
    have ht : t ≠ [] := hne t (by simp)
    have htl := List.length_pos_iff.mpr ht
    rw [List.length_append, List.flatten_cons, List.length_append] at hle
    rw [List.map_cons, List.cons_append, readLoop_receive ht hlt]
    have hd : (done ++ rx.rest).length = done.length + rx.rest.length := List.length_append
    have hneed : size - (done ++ rx.rest).length = size - done.length - rx.rest.length := by omega
    have htake : (rx.rest ++ (t :: ts).flatten).take (size - done.length) =
        rx.rest ++ (t ++ ts.flatten).take (size - done.length - rx.rest.length) := by
      rw [List.flatten_cons, List.take_append, List.take_of_length_le (by omega)]
    have hdrop : (rx.rest ++ (t :: ts).flatten).drop (size - done.length) =
        (t ++ ts.flatten).drop (size - done.length - rx.rest.length) := by
      rw [List.flatten_cons, List.drop_append, List.drop_eq_nil_of_le (by omega),
        List.nil_append]
    rw [htake, hdrop]
    by_cases hin : size - done.length - rx.rest.length ≤ t.length
    · -- the last byte that is missing is in this transfer
      refine ⟨t, ts, size - done.length - rx.rest.length, ?_, by simp, ?_, ?_, ?_⟩
      · rw [fromByte, if_pos hin]
      · intro u hu
        exact List.mem_cons_of_mem _ hu
      · have hr : size - (done ++ rx.rest).length ≤ (Rx.received t).rest.length := by
          rw [Rx.rest_received]
          omega
        have hdone : (done ++ rx.rest).length ≤ size := by
          rw [hd]
          omega
        rw [readLoop_rest hdone hr, hneed, Rx.rest_received, List.append_assoc,
          List.take_append_of_le_length hin]
      · rw [List.drop_append_of_le_length hin]
    -- this transfer is read to its end, and the next one has the rest
    · have hlt' : (Rx.received t).rest.length < size - (done ++ rx.rest).length := by
        rw [Rx.rest_received]
        omega
      have hle' : size - (done ++ rx.rest).length ≤ ((Rx.received t).rest ++ ts.flatten).length := by
        rw [Rx.rest_received, hd, List.length_append]
        omega
      obtain ⟨t', post, k, hfrom, hmem, hsub, hread, hleft⟩ :=
        ih (.received t) (done ++ rx.rest) (fun u hu => hne u (List.mem_cons_of_mem _ hu)) hlt' hle'
      rw [Rx.rest_received, hneed] at hfrom hread hleft
      refine ⟨t', post, k, ?_, List.mem_cons_of_mem _ hmem, ?_, ?_, hleft⟩
      · rw [fromByte, if_neg hin]
        exact hfrom
      · intro u hu
        exact List.mem_cons_of_mem _ (hsub u hu)
      · rw [hread, List.append_assoc]

/-! ## What is ahead -/

/-- The host sends `d` before the receives `later`. -/
def Server.Ahead (s : Server) (d : Bytes) (later : List Completion) : Prop :=
  ∃ ts : List Bytes, (∀ t ∈ ts, t ≠ []) ∧ s.usb = ts.map some ++ later ∧ s.rx.rest ++ ts.flatten = d

/-- Nothing is ahead: the buffer is read. -/
theorem Server.ahead_nil {s : Server} {later : List Completion} :
    s.Ahead [] later ↔ s.usb = later ∧ s.rx.rest = [] := by
  constructor
  · rintro ⟨ts, hne, husb, hrest⟩
    obtain ⟨hr, hts⟩ := List.append_eq_nil_iff.mp hrest
    have : ts = [] := by
      rw [List.flatten_eq_nil_iff] at hts
      rw [List.eq_nil_iff_forall_not_mem]
      intro t ht
      exact hne t ht (hts t ht)
    subst this
    exact ⟨husb, hr⟩
  · rintro ⟨husb, hr⟩
    exact ⟨[], by simp, husb, by simpa using hr⟩

/-- The server with another receiving side. -/
def Server.reading (s : Server) (usb : List Completion) (rx : Rx) : Server := { s with usb, rx }

/-- A read takes its bytes from the front of what is ahead, and changes nothing but the
receiving side. -/
theorem Server.readExact_ahead {s : Server} {d : Bytes} {later : List Completion}
    (h : s.Ahead d later) {n : ℕ} (hn : n ≤ d.length) :
    ∃ usb rx, s.readExact n = (some (d.take n), s.reading usb rx) ∧
      (s.reading usb rx).Ahead (d.drop n) later := by
  obtain ⟨ts, hne, husb, rfl⟩ := h
  unfold readExact
  by_cases hr : n ≤ s.rx.rest.length
  · refine ⟨s.usb, s.rx.advance n, ?_, ts, hne, husb, ?_⟩
    · rw [readLoop_rest (Nat.zero_le n) hr]
      rw [List.take_append_of_le_length hr]
      rfl
    · show (s.rx.advance n).rest ++ ts.flatten = _
      rw [Rx.rest_advance, List.drop_append_of_le_length hr]
  · obtain ⟨t, post, k, -, -, hsub, hread, hleft⟩ :=
      readLoop_transfers n later ts s.rx [] hne (Nat.lt_of_not_le hr) hn
    refine ⟨post.map some ++ later, (Rx.received t).advance k, ?_, post, ?_, rfl, ?_⟩
    · rw [husb, hread]
      rfl
    · intro u hu
      exact hne u (hsub u hu)
    · show ((Rx.received t).advance k).rest ++ post.flatten = _
      rw [Rx.rest_advance, Rx.rest_received]
      exact hleft

/-- `drainExact` drops its bytes from the front of what is ahead. -/
theorem Server.drainExact_ahead {later : List Completion} (n : ℕ) :
    ∀ {s : Server} {d : Bytes}, s.Ahead d later → n ≤ d.length →
      ∃ usb rx, s.drainExact n = (true, s.reading usb rx) ∧
        (s.reading usb rx).Ahead (d.drop n) later := by
  induction n using Nat.strong_induction_on with
  | _ n ih =>
    intro s d h hn
    unfold drainExact
    by_cases h0 : n = 0
    · subst h0
      rw [dif_pos rfl]
      exact ⟨s.usb, s.rx, rfl, h⟩
    · rw [dif_neg h0]
      obtain ⟨usb, rx, hread, ha⟩ := readExact_ahead h (n := min n 4096) (by omega)
      rw [hread]
      obtain ⟨usb', rx', hdrain, ha'⟩ := ih (n - min n 4096) (by omega) ha
        (by rw [List.length_drop]; omega)
      refine ⟨usb', rx', hdrain, ?_⟩
      rw [List.drop_drop, show min n 4096 + (n - min n 4096) = n by omega] at ha'
      exact ha'

/-! ## What leaves the receiving side alone -/

/-- What is left to receive and to read. -/
def Server.wire (s : Server) : List Completion × Bytes := (s.usb, s.rx.rest)

theorem Server.Ahead.wire {s : Server} {later : List Completion} (h : s.Ahead [] later) :
    s.wire = (later, []) := by
  obtain ⟨husb, hrest⟩ := ahead_nil.mp h
  unfold Server.wire
  rw [husb, hrest]

section wire

variable (s : Server) (p : Platform) (trans code : UInt32) (res : UInt16) (params : List UInt32)

@[simp] theorem Server.wire_sendResponse : (s.sendResponse res trans params).wire = s.wire := rfl

@[simp] theorem Server.wire_resetPendingObject : s.resetPendingObject.wire = s.wire := rfl

@[simp] theorem Server.wire_sendRemoved : (s.sendRemoved code).wire = s.wire := by
  unfold sendRemoved
  split <;> rfl

@[simp] theorem Server.wire_failTransfer : (s.failTransfer res trans).wire = s.wire := by
  unfold failTransfer
  rw [wire_sendRemoved]
  rfl

@[simp] theorem Server.wire_preparePendingObject (name : Bytes) (size : ℕ) (known : Bool)
    (format : UInt16) : (s.preparePendingObject name size known format trans).wire = s.wire := by
  unfold preparePendingObject
  split
  · rfl
  · split <;> rfl

@[simp] theorem Server.wire_answer (op : Operation) (data : Except UInt16 Bytes) :
    (s.answer op trans data).wire = s.wire := by
  unfold answer
  split <;> rfl

@[simp] theorem Server.wire_openSession : (s.openSession trans params).wire = s.wire := by
  unfold openSession
  split
  · rfl
  · split
    · rfl
    · split <;> rfl

@[simp] theorem Server.wire_handleDeleteObject :
    (s.handleDeleteObject trans params).wire = s.wire := by
  unfold handleDeleteObject
  split
  · rfl
  · split
    · rfl
    · rw [wire_sendRemoved]
      rfl

@[simp] theorem Server.wire_handleGetObjectPropList :
    (s.handleGetObjectPropList trans params).wire = s.wire := by
  unfold handleGetObjectPropList
  split
  · dsimp only
    split
    · rfl
    · split
      · rfl
      · split
        · rfl
        · rw [wire_answer]
  · rfl

end wire

/-- The operations whose command is followed by data from the host. -/
def Operation.hasData : Operation → Bool
  | sendObjectInfo => true
  | sendObject => true
  | sendObjectPropList => true
  | setObjectPropValue => true
  | _ => false

/-- An operation without data from the host receives nothing. -/
theorem Server.wire_dispatchOperation (s : Server) (p : Platform) {op : Operation}
    (hop : op.hasData = false) (trans : UInt32) (params : List UInt32) :
    (s.dispatchOperation p op trans params).wire = s.wire := by
  unfold dispatchOperation
  cases op <;> simp [Operation.hasData] at hop ⊢
  · rfl

/-! ## Datasets -/

/-- The payload bytes that `readDataset` takes, given the length in the header. -/
def datasetTaken (length : ℕ) : ℕ := if length < 1024 * 1024 then length - headerSize else 0

/-- The payload is read, or drained, when the length in its header is below a megabyte and
right. -/
theorem Server.wire_readDataset {s : Server} {h : ContainerHeader} {payload : Bytes}
    {later : List Completion} (ha : s.Ahead (h.encode ++ payload) later)
    (htaken : datasetTaken h.length.toNat = payload.length) (op : Operation) (trans : UInt32)
    (least : ℕ) {most : ℕ} (hmost : headerSize + most < 1024 * 1024) :
    (s.readDataset op trans least most).2.wire = (later, []) := by
  have hl : h.encode.length = headerSize := ContainerHeader.length_encode h
  obtain ⟨usb, rx, hread, hrest⟩ := readExact_ahead ha (n := headerSize)
    (by rw [List.length_append]; omega)
  rw [List.take_left' hl] at hread
  rw [List.drop_left' hl] at hrest
  have hdec : ContainerHeader.decode h.encode = h := by
    simpa using ContainerHeader.decode_encode h []
  unfold datasetTaken at htaken
  unfold readDataset
  rw [hread]
  simp only [hdec]
  split
  · rw [wire_sendResponse]
    split
    · rename_i hdrain
      rw [if_pos hdrain.2] at htaken
      obtain ⟨usb', rx', hd, ha'⟩ := drainExact_ahead (h.length.toNat - headerSize) hrest htaken.le
      rw [hd]
      rw [htaken, List.drop_length] at ha'
      exact ha'.wire
    · -- nothing is drained, and nothing is there
      rename_i hdrain
      have h0 : payload = [] := by
        rw [← List.length_eq_zero_iff]
        split at htaken <;> omega
      rw [h0] at hrest
      exact hrest.wire
  · rename_i hok
    have hlt : h.length.toNat < 1024 * 1024 := by
      rw [not_or, not_or, not_or, not_or] at hok
      omega
    rw [if_pos hlt] at htaken
    obtain ⟨usb', rx', hd, ha'⟩ := readExact_ahead hrest htaken.le
    rw [hd]
    rw [htaken, List.drop_length] at ha'
    exact ha'.wire

/-! ## The loop of `handleSendObject` -/

section receiveLoop

variable {n : ℕ} {usb : List Completion} {rx : Rx} {pushed : Bytes}

/-- An object of known size ends in the buffer. -/
theorem receiveLoop_known_rest (h : rx.rest.length = n - pushed.length) :
    receiveLoop (some n) usb rx pushed =
      (⟨true, pushed ++ rx.rest⟩, usb, rx.advance rx.rest.length) := by
  unfold receiveLoop
  have hlen : n ≤ (pushed ++ rx.rest).length := by
    rw [List.length_append]
    omega
  simp only [← h, Nat.min_self, List.take_length]
  rw [decide_eq_true hlen, if_pos rfl]

/-- The buffer is pushed, and a transfer received. -/
theorem receiveLoop_known_receive {t : Bytes} (ht : t ≠ [])
    (h : rx.rest.length < n - pushed.length) :
    receiveLoop (some n) (some t :: usb) rx pushed =
      receiveLoop (some n) usb (.received t) (pushed ++ rx.rest) := by
  conv_lhs => unfold receiveLoop
  have hlen : ¬n ≤ (pushed ++ rx.rest).length := by
    rw [List.length_append]
    omega
  simp only [Nat.min_eq_left h.le, List.take_length]
  rw [decide_eq_false hlen, if_neg Bool.false_ne_true]

/-- A zero-length packet where bytes of a known size are missing. -/
theorem receiveLoop_known_empty (h : rx.rest.length < n - pushed.length) :
    receiveLoop (some n) (some [] :: usb) rx pushed =
      (⟨false, pushed ++ rx.rest⟩, usb, .received []) := by
  unfold receiveLoop
  have hlen : ¬n ≤ (pushed ++ rx.rest).length := by
    rw [List.length_append]
    omega
  simp only [Nat.min_eq_left h.le, List.take_length]
  rw [decide_eq_false hlen, if_neg Bool.false_ne_true]
  rfl

/-- A short transfer ends an object of unknown size. -/
theorem receiveLoop_unknown_short (hs : rx.rxShortPacket = true) (hb : rx.rxBuffer ≠ []) :
    receiveLoop none usb rx pushed =
      (⟨true, pushed ++ rx.rest⟩, usb, rx.advance rx.rest.length) := by
  unfold receiveLoop
  simp only [List.take_length]
  rw [if_pos]
  show (rx.rxShortPacket && decide (rx.rxBuffer ≠ [])) = true
  rw [hs, decide_eq_true hb]
  rfl

/-- A full transfer does not end an object of unknown size. -/
theorem receiveLoop_unknown_receive {t : Bytes} (ht : t ≠ []) (hs : rx.rxShortPacket = false) :
    receiveLoop none (some t :: usb) rx pushed =
      receiveLoop none usb (.received t) (pushed ++ rx.rest) := by
  conv_lhs => unfold receiveLoop
  simp only [List.take_length]
  rw [if_neg]
  show ¬(rx.rxShortPacket && decide (rx.rxBuffer ≠ [])) = true
  rw [hs]
  exact Bool.false_ne_true

/-- A zero-length packet ends an object of unknown size. -/
theorem receiveLoop_unknown_empty (hs : rx.rxShortPacket = false) :
    receiveLoop none (some [] :: usb) rx pushed =
      (⟨true, pushed ++ rx.rest⟩, usb, .received []) := by
  unfold receiveLoop
  simp only [List.take_length]
  rw [if_neg]
  · rfl
  · show ¬(rx.rxShortPacket && decide (rx.rxBuffer ≠ [])) = true
    rw [hs]
    exact Bool.false_ne_true

end receiveLoop

/-- An object of known size that is wholly ahead is pushed, and nothing else. -/
theorem receiveLoop_known {n : ℕ} (later : List Completion) :
    ∀ (ts : List Bytes) (rx : Rx) (pushed : Bytes), (∀ t ∈ ts, t ≠ []) →
      (rx.rest ++ ts.flatten).length = n - pushed.length →
      ∃ rx' : Rx, rx'.rest = [] ∧ receiveLoop (some n) (ts.map some ++ later) rx pushed =
        (⟨true, pushed ++ (rx.rest ++ ts.flatten)⟩, later, rx') := by
  intro ts
  induction ts with
  | nil =>
    intro rx pushed _ hlen
    rw [List.flatten_nil, List.append_nil] at hlen ⊢
    refine ⟨rx.advance rx.rest.length, ?_, receiveLoop_known_rest hlen⟩
    rw [Rx.rest_advance, List.drop_length]
  | cons t ts ih =>
    intro rx pushed hne hlen
    have ht : t ≠ [] := hne t (by simp)
    have htl := List.length_pos_iff.mpr ht
    rw [List.flatten_cons, List.length_append, List.length_append] at hlen
    obtain ⟨rx', hrest, hloop⟩ := ih (.received t) (pushed ++ rx.rest)
      (fun u hu => hne u (List.mem_cons_of_mem _ hu))
      (by rw [Rx.rest_received, List.length_append, List.length_append]; omega)
    refine ⟨rx', hrest, ?_⟩
    rw [List.map_cons, List.cons_append, receiveLoop_known_receive ht (by omega), hloop,
      Rx.rest_received, List.flatten_cons, List.append_assoc]

/-- When a known size is not reached, a zero-length packet ends the loop. -/
theorem receiveLoop_known_short {n : ℕ} (later : List Completion) :
    ∀ (ts : List Bytes) (rx : Rx) (pushed : Bytes), (∀ t ∈ ts, t ≠ []) →
      (rx.rest ++ ts.flatten).length < n - pushed.length →
      receiveLoop (some n) (ts.map some ++ some [] :: later) rx pushed =
        (⟨false, pushed ++ (rx.rest ++ ts.flatten)⟩, later, .received []) := by
  intro ts
  induction ts with
  | nil =>
    intro rx pushed _ hlen
    rw [List.flatten_nil, List.append_nil] at hlen ⊢
    exact receiveLoop_known_empty hlen
  | cons t ts ih =>
    intro rx pushed hne hlen
    have ht : t ≠ [] := hne t (by simp)
    rw [List.flatten_cons, List.length_append, List.length_append] at hlen
    rw [List.map_cons, List.cons_append, receiveLoop_known_receive ht (by omega),
      ih (.received t) (pushed ++ rx.rest) (fun u hu => hne u (List.mem_cons_of_mem _ hu))
        (by rw [Rx.rest_received, List.length_append, List.length_append]; omega),
      Rx.rest_received, List.flatten_cons, List.append_assoc]

/-- All transfers but the last fill the buffer, and the last one does not. -/
def ShortEnded : List Bytes → Prop
  | [] => False
  | [t] => t.length < IO_BUFFER_SIZE
  | t :: ts => IO_BUFFER_SIZE ≤ t.length ∧ ShortEnded ts

/-- An object of unknown size whose transfers end with the first short one is pushed, and
nothing else. -/
theorem receiveLoop_unknown (later : List Completion) :
    ∀ (ts : List Bytes) (t : Bytes) (k : ℕ) (pushed : Bytes), t ≠ [] →
      (∀ u ∈ ts.dropLast, u ≠ []) → ShortEnded (t :: ts) →
      ∃ rx' : Rx, rx'.rest = [] ∧
        receiveLoop none (ts.map some ++ later) ((Rx.received t).advance k) pushed =
          (⟨true, pushed ++ (t.drop k ++ ts.flatten)⟩, later, rx') := by
  intro ts
  induction ts with
  | nil =>
    intro t k pushed ht _ hs
    have hshort : ((Rx.received t).advance k).rxShortPacket = true := decide_eq_true hs
    refine ⟨((Rx.received t).advance k).advance ((Rx.received t).advance k).rest.length, ?_, ?_⟩
    · rw [Rx.rest_advance, List.drop_length]
    · rw [List.map_nil, List.nil_append, receiveLoop_unknown_short hshort ht, List.flatten_nil,
        List.append_nil, Rx.rest_advance, Rx.rest_received]
  | cons u ts ih =>
    intro t k pushed ht hne hs
    have hfull : ((Rx.received t).advance k).rxShortPacket = false :=
      decide_eq_false (Nat.not_lt.mpr hs.1)
    rw [List.map_cons, List.cons_append]
    by_cases hu : u = []
    · -- a zero-length packet is the last transfer
      subst hu
      have hts : ts = [] := by
        by_contra hts
        exact hne [] (by rw [List.dropLast_cons_of_ne_nil hts]; simp) rfl
      subst hts
      refine ⟨.received [], rfl, ?_⟩
      rw [receiveLoop_unknown_empty hfull]
      simp [Rx.rest_received]
    · have hne' : ∀ v ∈ ts.dropLast, v ≠ [] := by
        intro v hv
        have hts : ts ≠ [] := by
          rintro rfl
          simp at hv
        exact hne v (by rw [List.dropLast_cons_of_ne_nil hts]; exact List.mem_cons_of_mem _ hv)
      obtain ⟨rx', hrest, hloop⟩ := ih u 0 (pushed ++ t.drop k) hu hne' hs.2
      refine ⟨rx', hrest, ?_⟩
      rw [receiveLoop_unknown_receive hu hfull, Rx.rest_advance, Rx.rest_received]
      rw [List.drop_zero, List.append_assoc] at hloop
      exact hloop

/-- The loop only adds to what is pushed. -/
theorem prefix_receiveLoop_unknown : ∀ (usb : List Completion) (rx : Rx) (pushed : Bytes),
    pushed ++ rx.rest <+: (receiveLoop none usb rx pushed).1.pushed := by
  intro usb
  induction usb with
  | nil =>
    intro rx pushed
    unfold receiveLoop
    simp only [List.take_length]
    split <;> exact List.prefix_rfl
  | cons c usb ih =>
    intro rx pushed
    unfold receiveLoop
    simp only [List.take_length]
    split
    · exact List.prefix_rfl
    · rcases c with _ | t
      · exact List.prefix_rfl
      · rcases t with _ | ⟨b, bs⟩
        · exact List.prefix_rfl
        · exact (List.prefix_append _ _).trans (ih _ _)

/-! ## What is made of a transfer -/

/-- The outcome of a transfer decides the answer, not what is left to receive. -/
theorem Server.wire_receiveObject (s : Server) (p : Platform) (trans : UInt32) :
    (s.receiveObject p trans).wire =
      ((receiveLoop s.knownSize s.usb s.rx []).2.1,
        (receiveLoop s.knownSize s.usb s.rx []).2.2.rest) := by
  unfold receiveObject
  dsimp only
  split
  · rw [wire_failTransfer]
    rfl
  · split <;> rw [wire_sendRemoved] <;> rfl

@[simp] theorem Server.installed_sendRemoved (s : Server) (handle : UInt32) :
    (s.sendRemoved handle).installed = s.installed := by
  unfold sendRemoved
  split <;> rfl

/-- The installer is run once, on the bytes that were pushed. -/
theorem Server.installed_receiveObject (s : Server) (p : Platform) (trans : UInt32) :
    (s.receiveObject p trans).installed = s.installed ++
      [⟨s.pendingName, s.knownSize.getD 0, (receiveLoop s.knownSize s.usb s.rx []).1.pushed⟩] := by
  unfold receiveObject
  dsimp only
  split
  · unfold failTransfer
    rw [installed_sendRemoved]
    rfl
  · split <;> rw [installed_sendRemoved] <;> rfl

end MtpNativeServer
