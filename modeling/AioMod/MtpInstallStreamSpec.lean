/-
# The native install stream is a faithful queue

The invariant says what the ring holds in terms of the trace, what each open call has done
since it began, and why a thread sleeps: its condition fails, or a notification for it is
on its way.
-/
import AioMod.MtpInstallStream

namespace MtpInstallStream

open Traces RingBuffer

/-- The bytes in the ring, oldest first. -/
def InstallStream.contents (s : InstallStream) : Bytes := queue s.buffer s.readPos s.used

/-- The positions fit the ring. -/
structure InstallStream.Fits (s : InstallStream) : Prop where
  length : s.buffer.length = s.capacity
  used : s.used ≤ s.capacity
  readPos : s.readPos < s.capacity
  writePos : (s.readPos + s.used) % s.capacity = s.writePos

namespace InstallStream.Fits

variable {s : InstallStream}

theorem new (capacityBytes : ℕ) : (InstallStream.new capacityBytes).Fits := by
  have hpos : 0 < max capacityBytes (64 * 1024) := by omega
  exact ⟨List.length_replicate, Nat.zero_le _, hpos, Nat.zero_mod _⟩

theorem writePos_lt (h : s.Fits) : s.writePos < s.capacity := by
  rw [← h.writePos]
  exact Nat.mod_lt _ (by have := h.readPos; omega)

theorem length_contents (h : s.Fits) : s.contents.length = s.used :=
  length_queue (by rw [h.length]; exact h.used)

theorem contents_eq_nil (h : s.Fits) : s.contents = [] ↔ s.used = 0 := by
  rw [← List.length_eq_zero_iff, h.length_contents]

theorem store (h : s.Fits) {bs : Bytes}
    (hb : bs.length ≤ min (s.capacity - s.writePos) (s.capacity - s.used)) : (s.store bs).Fits where
  length := by
    have hw := h.writePos_lt
    show (overwrite s.buffer s.writePos bs).length = s.capacity
    rw [length_overwrite (by rw [h.length]; omega), h.length]
  used := by
    have hu := h.used
    show s.used + bs.length ≤ s.capacity
    omega
  readPos := h.readPos
  writePos := by
    show (s.readPos + (s.used + bs.length)) % s.capacity = (s.writePos + bs.length) % s.capacity
    rw [← Nat.add_assoc, ← Nat.mod_add_mod, h.writePos]

/-- A chunk is stored behind what the ring holds. -/
theorem contents_store (h : s.Fits) {bs : Bytes}
    (hb : bs.length ≤ min (s.capacity - s.writePos) (s.capacity - s.used)) :
    (s.store bs).contents = s.contents ++ bs := by
  have hr := h.readPos
  have hu := h.used
  unfold contents
  simp only [InstallStream.store]
  rw [← h.writePos] at hb ⊢
  rw [← h.length] at hb hr hu ⊢
  exact queue_overwrite hr hb hu

theorem fetch (h : s.Fits) {n : ℕ} (hn : n ≤ s.used) : (s.fetch n).Fits where
  length := h.length
  used := by
    have hu := h.used
    show s.used - n ≤ s.capacity
    omega
  readPos := Nat.mod_lt _ (by have := h.readPos; omega)
  writePos := by
    show ((s.readPos + n) % s.capacity + (s.used - n)) % s.capacity = s.writePos
    rw [Nat.mod_add_mod, ← h.writePos]
    congr 1
    omega

/-- What is copied out is the front of what the ring holds. -/
theorem copied_contents (h : s.Fits) {n : ℕ} (hn : n ≤ min (s.capacity - s.readPos) s.used) :
    (s.buffer.drop s.readPos).take n ++ (s.fetch n).contents = s.contents := by
  have hr := h.readPos
  have hu := h.used
  have hfront : (s.buffer.drop s.readPos).take n = s.contents.take n :=
    take_queue (by rw [h.length]; exact hr) (by rw [h.length]; exact hn)
  have hback : (s.fetch n).contents = s.contents.drop n := by
    unfold contents
    simp only [InstallStream.fetch]
    rw [← h.length]
    exact drop_queue (by rw [h.length]; exact hu) (by omega)
  rw [hfront, hback, List.take_append_drop]

theorem length_copied (h : s.Fits) {n : ℕ} (hn : n ≤ min (s.capacity - s.readPos) s.used) :
    ((s.buffer.drop s.readPos).take n).length = n := by
  rw [List.length_take, List.length_drop, h.length]
  omega

theorem finishConsumer (h : s.Fits) : (finishConsumer s).Fits where
  length := h.length
  used := Nat.zero_le _
  readPos := h.writePos_lt
  writePos := by
    show (s.writePos + 0) % s.capacity = s.writePos
    exact Nat.mod_eq_of_lt h.writePos_lt

end InstallStream.Fits

/-! ## The invariant -/

/-- The USB thread has a notification of `canRead` to give. -/
def Producer.TellsRead : Producer → Prop
  | push k => k.loc = .notify
  | ending n => n = .canRead
  | idle => False

/-- The installer has a notification of `canWrite` to give. -/
def Consumer.TellsWrite : Consumer → Prop
  | readExact k => k.loc = .notify
  | ending _ => True
  | idle => False

/-- A notification of `canRead` is on its way. -/
def Conf.NoticeRead (c : Conf) : Prop := c.producer.TellsRead ∨ c.other = some .canRead

/-- A notification of `canWrite` is on its way. -/
def Conf.NoticeWrite (c : Conf) : Prop := c.consumer.TellsWrite ∨ c.other ≠ none

theorem Producer.TellsRead.wake {p : Producer} (h : p.TellsRead) : p.wake.TellsRead := by
  cases p with
  | push k =>
    have hk : k.loc = .notify := h
    show k.loc.wake = .notify
    rw [hk]
    rfl
  | _ => exact h

/-- The bytes of the open `push` that are still to go. -/
def Producer.rest : Producer → Bytes
  | push k => k.src.drop k.done
  | _ => []

/-- What an open `readExact` has done since its call. -/
structure Reading (t : List Event) (k : ReadCall) : Prop where
  since : ∃ t', Open Event.ofRead (.readCall k.size) t t' ∧ copied t' = k.dst
  room : k.dst.length ≤ k.size
  more : k.loc = .enter ∨ k.loc = .asleep → k.dst.length < k.size
  all : k.loc = .exit → k.dst.length = k.size

/-- What an open `push` has done since its call. -/
structure Pushing (t : List Event) (k : PushCall) : Prop where
  since : ∃ t', Open Event.ofPush (.pushCall k.src) t t' ∧
    appended t' ++ discarded t' = k.src.take k.done
  room : k.done ≤ k.src.length
  more : k.loc = .enter ∨ k.loc = .asleep → k.done < k.src.length
  all : k.loc = .exit → k.done = k.src.length

/-- The invariant of a run. -/
structure Inv (t : List Event) (c : Conf) : Prop where
  fits : c.stream.Fits
  fifo : c.stream.consumerDone = false → copied t ++ c.stream.contents = appended t
  finished : c.stream.consumerDone = true →
    .finishConsumer ∈ t ∧ c.stream.used = 0 ∧ copied t <+: appended t
  kept : c.stream.consumerDone = false → discarded t = []
  given : appended t ++ discarded t <+: pushed t ∧
    (appended t ++ discarded t ++ c.producer.rest = pushed t ∨ c.stream.cancelledFlag = true)
  closed : c.stream.producerDone = true → .closeProducer ∈ t
  cancelled : c.stream.cancelledFlag = true → .cancel ∈ t
  reading : ∀ k, c.consumer = .readExact k → Reading t k
  pushing : ∀ k, c.producer = .push k → Pushing t k
  readAsleep : ∀ k, c.consumer = .readExact k → k.loc = .asleep →
    c.NoticeRead ∨ c.stream.used = 0 ∧ c.stream.producerDone = false ∧
      c.stream.cancelledFlag = false
  pushAsleep : ∀ k, c.producer = .push k → k.loc = .asleep →
    c.NoticeWrite ∨ c.stream.capacity ≤ c.stream.used ∧ c.stream.consumerDone = false ∧
      c.stream.cancelledFlag = false
  counted : c.stream.consumed = UInt64.ofNat (copied t).length ∧
    c.stream.pushed = UInt64.ofNat ((appended t).length + (discarded t).length)

/-! ## Wake-ups -/

theorem loopHead_ne_asleep (d n : ℕ) : loopHead d n ≠ .asleep := by
  unfold loopHead
  split <;> simp

theorem loopHead_enter {d n : ℕ} (h : loopHead d n = .enter ∨ loopHead d n = .asleep) : d < n := by
  unfold loopHead at h
  split_ifs at h with hd
  · exact hd
  · simp at h

theorem loopHead_exit {d n : ℕ} (h : loopHead d n = .exit) : n ≤ d := by
  unfold loopHead at h
  split_ifs at h with hd
  omega

theorem wake_eq_readExact {q : Consumer} {k : ReadCall} (h : q.wake = .readExact k) :
    ∃ k₀, q = .readExact k₀ ∧ k = { k₀ with loc := k₀.loc.wake } := by
  cases q with
  | readExact k₀ =>
    cases h
    exact ⟨k₀, rfl, rfl⟩
  | _ => cases h

theorem wake_eq_push {p : Producer} {k : PushCall} (h : p.wake = .push k) :
    ∃ k₀, p = .push k₀ ∧ k = { k₀ with loc := k₀.loc.wake } := by
  cases p with
  | push k₀ =>
    cases h
    exact ⟨k₀, rfl, rfl⟩
  | _ => cases h

@[simp] theorem rest_wake (p : Producer) : p.wake.rest = p.rest := by cases p <;> rfl

/-- A woken call is not asleep. -/
theorem not_asleep_of_wake {q : Consumer} {k : ReadCall} (h : q.wake = .readExact k) :
    k.loc ≠ .asleep := by
  obtain ⟨k₀, -, rfl⟩ := wake_eq_readExact h
  exact wake_ne_asleep (by decide) _

theorem not_asleep_of_push_wake {p : Producer} {k : PushCall} (h : p.wake = .push k) :
    k.loc ≠ .asleep := by
  obtain ⟨k₀, -, rfl⟩ := wake_eq_push h
  exact wake_ne_asleep (by decide) _

theorem wake_eq_enter {l : Loc} (h : l.wake = .enter) : l = .enter ∨ l = .asleep := by
  cases l <;> simp_all [Loc.wake, Traces.wake]

/-! ## Open calls -/

namespace Reading

variable {t : List Event} {k : ReadCall}

/-- A label of the other side that delivers nothing leaves an open call as it is. -/
theorem quiet (h : Reading t k) {e : Event} (he : e.ofRead = false) (ho : e.out = []) :
    Reading (t ++ [e]) k := by
  obtain ⟨t', hopen, hc⟩ := h.since
  exact ⟨⟨t' ++ [e], hopen.snoc he, by simp [hc, ho]⟩, h.room, h.more, h.all⟩

theorem wake (h : Reading t k) : Reading t { k with loc := k.loc.wake } where
  since := h.since
  room := h.room
  more := fun hl => h.more
    (hl.elim wake_eq_enter fun hl => absurd hl (wake_ne_asleep (by decide) _))
  all := fun hl => h.all (eq_of_wake hl (by decide))

end Reading

namespace Pushing

variable {t : List Event} {k : PushCall}

theorem quiet (h : Pushing t k) {e : Event} (he : e.ofPush = false) (ha : e.into = [])
    (hd : e.dropped = []) : Pushing (t ++ [e]) k := by
  obtain ⟨t', hopen, hc⟩ := h.since
  exact ⟨⟨t' ++ [e], hopen.snoc he, by simp [hc, ha, hd]⟩, h.room, h.more, h.all⟩

theorem wake (h : Pushing t k) : Pushing t { k with loc := k.loc.wake } where
  since := h.since
  room := h.room
  more := fun hl => h.more
    (hl.elim wake_eq_enter fun hl => absurd hl (wake_ne_asleep (by decide) _))
  all := fun hl => h.all (eq_of_wake hl (by decide))

end Pushing

/-! ## One step -/

variable {t : List Event} {c c' : Conf} {e : Event}

theorem fits_step (hi : Inv t c) (h : Move c e c') : c'.stream.Fits := by
  have hf := hi.fits
  cases h with
  | pushAppend _ _ _ _ _ _ _ _ _ hl => exact hf.store (hl.le.trans (Nat.min_le_right _ _))
  | readCopy _ _ _ _ _ _ _ hm =>
    exact hf.fetch ((hm.le.trans (Nat.min_le_right _ _)).trans (Nat.min_le_right _ _))
  | callFinish => exact hf.finishConsumer
  | pushDiscard => exact ⟨hf.length, hf.used, hf.readPos, hf.writePos⟩
  | callClose => exact ⟨hf.length, hf.used, hf.readPos, hf.writePos⟩
  | cancelProducer => exact ⟨hf.length, hf.used, hf.readPos, hf.writePos⟩
  | cancelConsumer => exact ⟨hf.length, hf.used, hf.readPos, hf.writePos⟩
  | cancelOther => exact ⟨hf.length, hf.used, hf.readPos, hf.writePos⟩
  | _ => exact hf

/-- A step that moves no byte and leaves the ring and the flag of the installer alone. -/
theorem fifo_of_quiet (hi : Inv t c) (ho : e.out = []) (ha : e.into = [])
    (hd : c'.stream.consumerDone = c.stream.consumerDone)
    (hs : c'.stream.contents = c.stream.contents) :
    c'.stream.consumerDone = false →
      copied (t ++ [e]) ++ c'.stream.contents = appended (t ++ [e]) := by
  intro hd'
  rw [hd] at hd'
  simp only [carried_append, carried_single, ho, ha, List.append_nil, hs]
  exact hi.fifo hd'

/-- What was delivered, followed by what the ring holds, is what was stored. -/
theorem fifo_step (hi : Inv t c) (h : Move c e c') :
    c'.stream.consumerDone = false →
      copied (t ++ [e]) ++ c'.stream.contents = appended (t ++ [e]) := by
  cases h with
  | pushAppend s q o src d bs hc hd hb hl =>
    intro _
    simp only [carried_append, carried_single, Event.out, Event.into, List.append_nil]
    have hfifo := hi.fifo hd
    rw [hi.fits.contents_store (hl.le.trans (Nat.min_le_right _ _)), ← List.append_assoc, hfifo]
  | readCopy s p o n dst m hu hm =>
    intro hd
    simp only [carried_append, carried_single, Event.out, Event.into, List.append_nil]
    rw [List.append_assoc, hi.fits.copied_contents (hm.le.trans (Nat.min_le_right _ _))]
    exact hi.fifo hd
  | callFinish =>
    intro hd
    cases hd
  | _ => exact fifo_of_quiet hi rfl rfl rfl rfl

/-- What was delivered is the front of what was stored. -/
theorem Inv.copied_prefix (hi : Inv t c) : copied t <+: appended t := by
  by_cases hd : c.stream.consumerDone = true
  · exact (hi.finished hd).2.2
  · exact ⟨_, hi.fifo (by simpa using hd)⟩

theorem finished_of_quiet (hi : Inv t c) (ho : e.out = []) (ha : e.into = [])
    (hd : c'.stream.consumerDone = c.stream.consumerDone)
    (hu : c'.stream.used = c.stream.used) :
    c'.stream.consumerDone = true →
      .finishConsumer ∈ t ++ [e] ∧ c'.stream.used = 0 ∧
        copied (t ++ [e]) <+: appended (t ++ [e]) := by
  intro hd'
  rw [hd] at hd'
  obtain ⟨hf, hz, hp⟩ := hi.finished hd'
  refine ⟨List.mem_append_left _ hf, by rw [hu]; exact hz, ?_⟩
  simpa [ho, ha] using hp

/-- Once the installer has returned, the ring stays empty. -/
theorem finished_step (hi : Inv t c) (h : Move c e c') :
    c'.stream.consumerDone = true →
      .finishConsumer ∈ t ++ [e] ∧ c'.stream.used = 0 ∧
        copied (t ++ [e]) <+: appended (t ++ [e]) := by
  cases h with
  | pushAppend s q o src d bs hc hd hb hl =>
    intro hd'
    rw [show (s.store bs).consumerDone = s.consumerDone from rfl, hd] at hd'
    cases hd'
  | readCopy s p o n dst m hu hm =>
    intro hd
    have hz : s.used = 0 := (hi.finished hd).2.1
    omega
  | callFinish s p o =>
    intro _
    refine ⟨by simp, rfl, ?_⟩
    simpa [Event.out, Event.into] using hi.copied_prefix
  | _ => exact finished_of_quiet hi rfl rfl rfl rfl

theorem kept_of_quiet (hi : Inv t c) (he : e.dropped = [])
    (hd : c'.stream.consumerDone = false → c.stream.consumerDone = false) :
    c'.stream.consumerDone = false → discarded (t ++ [e]) = [] := by
  intro hd'
  simp [he, hi.kept (hd hd')]

theorem kept_step (hi : Inv t c) (h : Move c e c') :
    c'.stream.consumerDone = false → discarded (t ++ [e]) = [] := by
  cases h with
  | pushDiscard s q o src d hc hd =>
    intro hd'
    rw [hd] at hd'
    cases hd'
  | callFinish => exact kept_of_quiet hi rfl fun hd => by cases hd
  | _ => exact kept_of_quiet hi rfl id

/-- A step that accepts no byte. -/
theorem given_of_quiet (hi : Inv t c) (ha : e.into = []) (hd : e.dropped = []) (hg : e.given = [])
    (hr : c'.producer.rest = c.producer.rest)
    (hc : c.stream.cancelledFlag = true → c'.stream.cancelledFlag = true) :
    appended (t ++ [e]) ++ discarded (t ++ [e]) <+: pushed (t ++ [e]) ∧
      (appended (t ++ [e]) ++ discarded (t ++ [e]) ++ c'.producer.rest = pushed (t ++ [e]) ∨
        c'.stream.cancelledFlag = true) := by
  simp only [carried_append, carried_single, ha, hd, hg, List.append_nil, hr]
  exact ⟨hi.given.1, hi.given.2.imp_right hc⟩

/-- What was accepted is the front of what the USB thread pushed, and all of it until a push
is given up. -/
theorem given_step (hi : Inv t c) (h : Move c e c') :
    appended (t ++ [e]) ++ discarded (t ++ [e]) <+: pushed (t ++ [e]) ∧
      (appended (t ++ [e]) ++ discarded (t ++ [e]) ++ c'.producer.rest = pushed (t ++ [e]) ∨
        c'.stream.cancelledFlag = true) := by
  obtain ⟨hp, hg⟩ := hi.given
  cases h with
  | callPush s q o src =>
    simp only [carried_append, carried_single, Event.into, Event.dropped, Event.given,
      List.append_nil]
    refine ⟨hp.trans (List.prefix_append _ _), hg.imp_left fun hg => ?_⟩
    have hg' : appended t ++ discarded t = pushed t := by simpa [Producer.rest] using hg
    rw [hg']
    rfl
  | pushCancelled s q o src d hc =>
    simp only [carried_append, carried_single, Event.into, Event.dropped, Event.given,
      List.append_nil]
    exact ⟨hp, Or.inr hc⟩
  | pushDiscard s q o src d hc hd =>
    have hg' : appended t ++ discarded t ++ src.drop d = pushed t :=
      hg.resolve_right (by rw [hc]; simp)
    have hall : appended t ++ (discarded t ++ src.drop d) = pushed t := by
      rw [← hg', List.append_assoc]
    simp only [carried_append, carried_single, Event.into, Event.dropped, Event.given,
      List.append_nil, Producer.rest, List.drop_length]
    exact ⟨⟨[], by rw [hall, List.append_nil]⟩, Or.inl hall⟩
  | pushAppend s q o src d bs hc hd hb hl =>
    -- the installer has not returned, so nothing was discarded before
    have hk : discarded t = [] := hi.kept hd
    have hg' : appended t ++ discarded t ++ src.drop d = pushed t :=
      hg.resolve_right (by rw [hc]; simp)
    rw [hk, List.append_nil] at hg'
    have hsrc : bs ++ src.drop (d + bs.length) = src.drop d := by
      have h := List.take_append_drop bs.length (src.drop d)
      rwa [← hb, List.drop_drop] at h
    have hall : appended t ++ bs ++ src.drop (d + bs.length) = pushed t := by
      rw [List.append_assoc, hsrc, hg']
    simp only [carried_append, carried_single, Event.into, Event.dropped, Event.given,
      List.append_nil, Producer.rest, hk]
    exact ⟨⟨_, hall⟩, Or.inl hall⟩
  | pushReturn s q o src d =>
    refine given_of_quiet hi rfl rfl rfl ?_ id
    have hk := (hi.pushing _ rfl).all rfl
    simp only at hk
    simp [Producer.rest, hk]
  | readNotify => exact given_of_quiet hi rfl rfl rfl (rest_wake _) id
  | consumerWrite => exact given_of_quiet hi rfl rfl rfl (rest_wake _) id
  | otherWrite => exact given_of_quiet hi rfl rfl rfl (rest_wake _) id
  | cancelProducer => exact given_of_quiet hi rfl rfl rfl rfl fun _ => rfl
  | cancelConsumer => exact given_of_quiet hi rfl rfl rfl rfl fun _ => rfl
  | cancelOther => exact given_of_quiet hi rfl rfl rfl rfl fun _ => rfl
  | _ => exact given_of_quiet hi rfl rfl rfl rfl id

theorem closed_step (hi : Inv t c) (h : Move c e c') :
    c'.stream.producerDone = true → .closeProducer ∈ t ++ [e] := by
  cases h with
  | callClose => exact fun _ => by simp
  | _ => exact fun hd => List.mem_append_left _ (hi.closed hd)

theorem cancelled_step (hi : Inv t c) (h : Move c e c') :
    c'.stream.cancelledFlag = true → .cancel ∈ t ++ [e] := by
  cases h with
  | cancelProducer => exact fun _ => by simp
  | cancelConsumer => exact fun _ => by simp
  | cancelOther => exact fun _ => by simp
  | _ => exact fun hd => List.mem_append_left _ (hi.cancelled hd)

/-- A notification of `canRead` and a label of the other side leave an open read as it is. -/
theorem reading_of_wake {q : Consumer} (hr : ∀ k, q = .readExact k → Reading t k)
    (he : e.ofRead = false) (ho : e.out = []) (k : ReadCall) (hk : q.wake = .readExact k) :
    Reading (t ++ [e]) k := by
  obtain ⟨k₀, hk₀, rfl⟩ := wake_eq_readExact hk
  exact (hr k₀ hk₀).wake.quiet he ho

/-- The open read, with its bytes, as the label of the step says. -/
theorem reading_step (hi : Inv t c) (h : Move c e c') :
    ∀ k, c'.consumer = .readExact k → Reading (t ++ [e]) k := by
  have hr := hi.reading
  cases h with
  | callRead s p o n =>
    rintro k ⟨⟩
    exact ⟨⟨[], Open.start _ _ _, rfl⟩, Nat.zero_le _, fun hl => loopHead_enter hl,
      fun hl => (Nat.le_zero.mp (loopHead_exit hl)).symm⟩
  | readWait s p o n dst hc hd hu =>
    rintro k ⟨⟩
    have hk := (hr _ rfl).quiet (e := .tau) rfl rfl
    exact ⟨hk.since, hk.room, fun _ => hk.more (Or.inl rfl), by simp⟩
  | readCopy s p o n dst m hu hm =>
    rintro k ⟨⟩
    have hk := hr _ rfl
    have hroom := hk.room
    have hlen := hi.fits.length_copied (hm.le.trans (Nat.min_le_right _ _))
    obtain ⟨t', hopen, hc⟩ := hk.since
    refine ⟨⟨t' ++ [_], hopen.snoc rfl, by simp [hc, Event.out]⟩, ?_, by simp, by simp⟩
    simp only at hroom ⊢
    rw [List.length_append, hlen]
    omega
  | readNotify s p o n dst =>
    rintro k ⟨⟩
    have hk := (hr _ rfl).quiet (e := .tau) rfl rfl
    have hroom : dst.length ≤ n := hk.room
    exact ⟨hk.since, hroom, fun hl => loopHead_enter hl,
      fun hl => le_antisymm hroom (loopHead_exit hl)⟩
  | readSpurious s p o n dst =>
    rintro k ⟨⟩
    have hk := (hr _ rfl).quiet (e := .tau) rfl rfl
    exact ⟨hk.since, hk.room, fun _ => hk.more (Or.inr rfl), by simp⟩
  | pushNotify => exact reading_of_wake hr rfl rfl
  | producerRead => exact reading_of_wake hr rfl rfl
  | otherRead => exact reading_of_wake hr rfl rfl
  | callFinish => rintro k ⟨⟩
  | cancelConsumer => rintro k ⟨⟩
  | readFail => rintro k ⟨⟩
  | readReturn => rintro k ⟨⟩
  | consumerRead => rintro k ⟨⟩
  | consumerWrite => rintro k ⟨⟩
  | _ => exact fun k hk => (hr k hk).quiet rfl rfl

/-- A notification of `canWrite` and a label of the other side leave an open push as it is. -/
theorem pushing_of_wake {p : Producer} (hr : ∀ k, p = .push k → Pushing t k)
    (he : e.ofPush = false) (ha : e.into = []) (hd : e.dropped = []) (k : PushCall)
    (hk : p.wake = .push k) : Pushing (t ++ [e]) k := by
  obtain ⟨k₀, hk₀, rfl⟩ := wake_eq_push hk
  exact (hr k₀ hk₀).wake.quiet he ha hd

/-- The open push, with its bytes, as the label of the step says. -/
theorem pushing_step (hi : Inv t c) (h : Move c e c') :
    ∀ k, c'.producer = .push k → Pushing (t ++ [e]) k := by
  have hr := hi.pushing
  cases h with
  | callPush s q o src =>
    rintro k ⟨⟩
    exact ⟨⟨[], Open.start _ _ _, rfl⟩, Nat.zero_le _, fun hl => loopHead_enter hl,
      fun hl => (Nat.le_zero.mp (loopHead_exit hl)).symm⟩
  | pushWait s q o src d hc hd hu =>
    rintro k ⟨⟩
    have hk := (hr _ rfl).quiet (e := .tau) rfl rfl rfl
    exact ⟨hk.since, hk.room, fun _ => hk.more (Or.inl rfl), by simp⟩
  | pushDiscard s q o src d hc hd =>
    rintro k ⟨⟩
    obtain ⟨t', hopen, hs⟩ := (hr _ rfl).since
    refine ⟨⟨t' ++ [_], hopen.snoc rfl, ?_⟩, le_refl _, by simp, fun _ => rfl⟩
    simp only [carried_append, carried_single, Event.into, Event.dropped, List.append_nil]
    rw [← List.append_assoc, hs, List.take_append_drop, List.take_length]
  | pushAppend s q o src d bs hc hd hb hl =>
    rintro k ⟨⟩
    have hk := hr _ rfl
    have hroom : d ≤ src.length := hk.room
    obtain ⟨t', hopen, hs⟩ := hk.since
    have hkept : discarded t' = [] := hopen.carried_eq_nil (hi.kept hd)
    refine ⟨⟨t' ++ [_], hopen.snoc rfl, ?_⟩, by simp only; omega, by simp, by simp⟩
    rw [hkept, List.append_nil] at hs
    simp only [carried_append, carried_single, Event.into, Event.dropped, List.append_nil, hkept,
      hs]
    rw [List.take_add, ← hb]
  | pushNotify s q o src d =>
    rintro k ⟨⟩
    have hk := (hr _ rfl).quiet (e := .tau) rfl rfl rfl
    have hroom : d ≤ src.length := hk.room
    exact ⟨hk.since, hroom, fun hl => loopHead_enter hl,
      fun hl => le_antisymm hroom (loopHead_exit hl)⟩
  | pushSpurious s q o src d =>
    rintro k ⟨⟩
    have hk := (hr _ rfl).quiet (e := .tau) rfl rfl rfl
    exact ⟨hk.since, hk.room, fun _ => hk.more (Or.inr rfl), by simp⟩
  | readNotify => exact pushing_of_wake hr rfl rfl rfl
  | consumerWrite => exact pushing_of_wake hr rfl rfl rfl
  | otherWrite => exact pushing_of_wake hr rfl rfl rfl
  | callClose => rintro k ⟨⟩
  | cancelProducer => rintro k ⟨⟩
  | pushCancelled => rintro k ⟨⟩
  | pushReturn => rintro k ⟨⟩
  | producerRead => rintro k ⟨⟩
  | producerWrite => rintro k ⟨⟩
  | _ => exact fun k hk => (hr k hk).quiet rfl rfl rfl

/-- Why the installer sleeps, under a step of another thread that moves no byte. -/
theorem readAsleep_of_quiet (hi : Inv t c) (hq : c'.consumer = c.consumer)
    (hs : c'.stream.used = c.stream.used ∧ c'.stream.producerDone = c.stream.producerDone ∧
      c'.stream.cancelledFlag = c.stream.cancelledFlag)
    (hp : c.producer.TellsRead → c'.producer.TellsRead)
    (ho : c.other = some .canRead → c'.other = some .canRead) :
    ∀ k, c'.consumer = .readExact k → k.loc = .asleep →
      c'.NoticeRead ∨ c'.stream.used = 0 ∧ c'.stream.producerDone = false ∧
        c'.stream.cancelledFlag = false := by
  intro k hk hl
  rw [hq] at hk
  rw [hs.1, hs.2.1, hs.2.2]
  exact (hi.readAsleep k hk hl).imp_left (Or.imp hp ho)

/-- The installer sleeps only while the ring is empty and nothing has ended the stream, or a
notification is on its way. -/
theorem readAsleep_step (hi : Inv t c) (h : Move c e c') :
    ∀ k, c'.consumer = .readExact k → k.loc = .asleep →
      c'.NoticeRead ∨ c'.stream.used = 0 ∧ c'.stream.producerDone = false ∧
        c'.stream.cancelledFlag = false := by
  cases h with
  -- the steps that could end its wait have their notification still to give
  | callClose => exact fun k _ _ => Or.inl (Or.inl rfl)
  | cancelProducer => exact fun k _ _ => Or.inl (Or.inl rfl)
  | cancelOther => exact fun k _ _ => Or.inl (Or.inr rfl)
  | pushAppend => exact fun k _ _ => Or.inl (Or.inl rfl)
  -- the steps that give it leave no sleeper
  | pushNotify => exact fun k hk hl => absurd hl (not_asleep_of_wake hk)
  | producerRead => exact fun k hk hl => absurd hl (not_asleep_of_wake hk)
  | otherRead => exact fun k hk hl => absurd hl (not_asleep_of_wake hk)
  -- the steps of the installer itself
  | callRead =>
    rintro k ⟨⟩ hl
    exact absurd hl (loopHead_ne_asleep _ _)
  | readWait s p o n dst hc hd hu => exact fun k _ _ => Or.inr ⟨hu, hd, hc⟩
  | readCopy =>
    rintro k ⟨⟩ hl
    cases hl
  | readNotify =>
    rintro k ⟨⟩ hl
    exact absurd hl (loopHead_ne_asleep _ _)
  | readSpurious =>
    rintro k ⟨⟩ hl
    cases hl
  | callFinish => rintro k ⟨⟩
  | cancelConsumer => rintro k ⟨⟩
  | readFail => rintro k ⟨⟩
  | readReturn => rintro k ⟨⟩
  | consumerRead => rintro k ⟨⟩
  | consumerWrite => rintro k ⟨⟩
  -- the other steps give no notification of `canRead`
  | otherWrite => exact readAsleep_of_quiet hi rfl ⟨rfl, rfl, rfl⟩ Producer.TellsRead.wake nofun
  | _ => exact readAsleep_of_quiet hi rfl ⟨rfl, rfl, rfl⟩ nofun id

/-- Why the USB thread sleeps, under a step of another thread that moves no byte. -/
theorem pushAsleep_of_quiet (hi : Inv t c) (hq : c'.producer = c.producer)
    (hs : c'.stream.capacity = c.stream.capacity ∧ c'.stream.used = c.stream.used ∧
      c'.stream.consumerDone = c.stream.consumerDone ∧
      c'.stream.cancelledFlag = c.stream.cancelledFlag)
    (hp : c.consumer.TellsWrite → c'.consumer.TellsWrite)
    (ho : c.other ≠ none → c'.other ≠ none) :
    ∀ k, c'.producer = .push k → k.loc = .asleep →
      c'.NoticeWrite ∨ c'.stream.capacity ≤ c'.stream.used ∧ c'.stream.consumerDone = false ∧
        c'.stream.cancelledFlag = false := by
  intro k hk hl
  rw [hq] at hk
  rw [hs.1, hs.2.1, hs.2.2.1, hs.2.2.2]
  exact (hi.pushAsleep k hk hl).imp_left (Or.imp hp ho)

/-- The USB thread sleeps only while the ring is full and nothing has ended the stream, or a
notification is on its way. -/
theorem pushAsleep_step (hi : Inv t c) (h : Move c e c') :
    ∀ k, c'.producer = .push k → k.loc = .asleep →
      c'.NoticeWrite ∨ c'.stream.capacity ≤ c'.stream.used ∧ c'.stream.consumerDone = false ∧
        c'.stream.cancelledFlag = false := by
  cases h with
  | callFinish => exact fun k _ _ => Or.inl (Or.inl trivial)
  | cancelConsumer => exact fun k _ _ => Or.inl (Or.inl trivial)
  | cancelOther => exact fun k _ _ => Or.inl (Or.inr nofun)
  | otherRead => exact fun k _ _ => Or.inl (Or.inr nofun)
  | readCopy => exact fun k _ _ => Or.inl (Or.inl rfl)
  | readNotify => exact fun k hk hl => absurd hl (not_asleep_of_push_wake hk)
  | consumerWrite => exact fun k hk hl => absurd hl (not_asleep_of_push_wake hk)
  | otherWrite => exact fun k hk hl => absurd hl (not_asleep_of_push_wake hk)
  | callPush =>
    rintro k ⟨⟩ hl
    exact absurd hl (loopHead_ne_asleep _ _)
  | pushWait s q o src d hc hd hu => exact fun k _ _ => Or.inr ⟨hu, hd, hc⟩
  | pushDiscard =>
    rintro k ⟨⟩ hl
    cases hl
  | pushAppend =>
    rintro k ⟨⟩ hl
    cases hl
  | pushNotify =>
    rintro k ⟨⟩ hl
    exact absurd hl (loopHead_ne_asleep _ _)
  | pushSpurious =>
    rintro k ⟨⟩ hl
    cases hl
  | callClose => rintro k ⟨⟩
  | cancelProducer => rintro k ⟨⟩
  | pushCancelled => rintro k ⟨⟩
  | pushReturn => rintro k ⟨⟩
  | producerRead => rintro k ⟨⟩
  | producerWrite => rintro k ⟨⟩
  -- the installer's call of `cancel` or `finishConsumer` has two notifications to give
  | consumerRead => exact pushAsleep_of_quiet hi rfl ⟨rfl, rfl, rfl, rfl⟩ id id
  | _ => exact pushAsleep_of_quiet hi rfl ⟨rfl, rfl, rfl, rfl⟩ nofun id

/-- The counters count what was delivered and what was accepted. -/
theorem counted_step (hi : Inv t c) (h : Move c e c') :
    c'.stream.consumed = UInt64.ofNat (copied (t ++ [e])).length ∧
      c'.stream.pushed =
        UInt64.ofNat ((appended (t ++ [e])).length + (discarded (t ++ [e])).length) := by
  obtain ⟨hr, hp⟩ := hi.counted
  have hquiet : e.out = [] → e.into = [] → e.dropped = [] →
      c.stream.consumed = UInt64.ofNat (copied (t ++ [e])).length ∧
        c.stream.pushed =
          UInt64.ofNat ((appended (t ++ [e])).length + (discarded (t ++ [e])).length) := by
    intro ho ha hd
    simp only [carried_append, carried_single, ho, ha, hd, List.append_nil]
    exact ⟨hr, hp⟩
  cases h with
  | pushDiscard s q o src d hc hd =>
    simp only [carried_append, carried_single, Event.out, Event.into, Event.dropped,
      List.append_nil, List.length_append, List.length_drop]
    refine ⟨hr, ?_⟩
    rw [← Nat.add_assoc, UInt64.ofNat_add, ← hp]
  | pushAppend s q o src d bs hc hd hb hl =>
    simp only [carried_append, carried_single, Event.out, Event.into, Event.dropped,
      List.append_nil, List.length_append]
    refine ⟨hr, ?_⟩
    rw [Nat.add_right_comm, UInt64.ofNat_add, ← hp]
    rfl
  | readCopy s p o n dst m hu hm =>
    have hlen := hi.fits.length_copied (hm.le.trans (Nat.min_le_right _ _))
    simp only [carried_append, carried_single, Event.out, Event.into, Event.dropped,
      List.append_nil, List.length_append]
    refine ⟨?_, hp⟩
    rw [hlen, UInt64.ofNat_add, ← hr]
    rfl
  | _ => exact hquiet rfl rfl rfl

/-- Every run keeps the invariant. -/
theorem Inv.of_runs (h : Runs t c) : Inv t c := by
  refine h.invariant ?_ ?_
  · rintro _ ⟨capacityBytes, rfl⟩
    exact {
      fits := .new capacityBytes
      fifo := fun _ => by simp [InstallStream.contents, InstallStream.new, copied, appended]
      finished := nofun
      kept := fun _ => rfl
      given := ⟨List.prefix_rfl, Or.inl rfl⟩
      closed := nofun
      cancelled := nofun
      reading := nofun
      pushing := nofun
      readAsleep := nofun
      pushAsleep := nofun
      counted := ⟨rfl, rfl⟩ }
  · intro t c a e c' hi hs
    have hm := step_move hs
    exact {
      fits := fits_step hi hm
      fifo := fifo_step hi hm
      finished := finished_step hi hm
      kept := kept_step hi hm
      given := given_step hi hm
      closed := closed_step hi hm
      cancelled := cancelled_step hi hm
      reading := reading_step hi hm
      pushing := pushing_step hi hm
      readAsleep := readAsleep_step hi hm
      pushAsleep := pushAsleep_step hi hm
      counted := counted_step hi hm }

/-! ## The stream is a faithful queue -/

/-- Without a `finishConsumer` in the trace the installer has not returned. -/
theorem Inv.not_done (hi : Inv t c) (hf : .finishConsumer ∉ t) : c.stream.consumerDone = false := by
  by_contra hd
  exact hf (hi.finished (by simpa using hd)).1

/-- A `push` that returns true before the installer does has stored all of its bytes, once. -/
theorem push_appends (hi : Inv t c) (h : Move c (.pushReturn true) c') (hf : .finishConsumer ∉ t) :
    ∃ src t', Open Event.ofPush (.pushCall src) t t' ∧ appended t' = src := by
  cases h with
  | pushReturn s q o src d =>
    have hk := hi.pushing _ rfl
    obtain ⟨t', hopen, hs⟩ := hk.since
    have hd : d = src.length := hk.all rfl
    have hkept : discarded t' = [] := hopen.carried_eq_nil (hi.kept (hi.not_done hf))
    refine ⟨src, t', hopen, ?_⟩
    simpa [hkept, hd] using hs

/-- A `push` fails only after `cancel`. -/
theorem push_fails (hi : Inv t c) (h : Move c (.pushReturn false) c') : .cancel ∈ t := by
  cases h with
  | pushCancelled s q o src d hc => exact hi.cancelled hc

/-- A read that succeeds returns as many bytes as it was asked for, those copied during it. -/
theorem read_returns {bs : Bytes} (hi : Inv t c) (h : Move c (.readReturn (some bs)) c') :
    ∃ t', Open Event.ofRead (.readCall bs.length) t t' ∧ copied t' = bs := by
  cases h with
  | readReturn s p o n _ =>
    have hk := hi.reading _ rfl
    obtain ⟨t', hopen, hc⟩ := hk.since
    have hn : bs.length = n := hk.all rfl
    refine ⟨t', ?_, hc⟩
    rw [hn]
    exact hopen

/-- A read fails only after `cancel`, or with the stream closed, too few bytes copied during it
and none left. -/
theorem read_fails (hi : Inv t c) (h : Move c (.readReturn none) c') :
    .cancel ∈ t ∨ .closeProducer ∈ t ∧ c.stream.contents = [] ∧
      (.finishConsumer ∉ t → copied t = appended t) ∧
      ∃ n t', Open Event.ofRead (.readCall n) t t' ∧ (copied t').length < n := by
  cases h with
  | readFail s p o n dst h =>
    rcases h with hc | ⟨hu, hd⟩
    · exact Or.inl (hi.cancelled hc)
    have hk := hi.reading _ rfl
    obtain ⟨t', hopen, hc⟩ := hk.since
    have hempty : s.contents = [] := hi.fits.contents_eq_nil.mpr hu
    refine Or.inr ⟨hi.closed hd, hempty, fun hf => ?_, n, t', hopen, ?_⟩
    · have hfifo := hi.fifo (hi.not_done hf)
      rwa [show (⟨s, p, .readExact ⟨.enter, n, dst⟩, o⟩ : Conf).stream.contents = [] from hempty,
        List.append_nil] at hfifo
    · rw [hc]
      exact hk.more (Or.inl rfl)

/-- Of two threads that sleep, one is about to be notified. -/
theorem other_enabled_of_asleep (hi : Inv t c) {k : ReadCall} {k' : PushCall}
    (hr : c.consumer = .readExact k) (hw : c.producer = .push k') (hl : k.loc = .asleep)
    (hl' : k'.loc = .asleep) : step c .other ≠ none := by
  have hsome : c.other ≠ none := by
    rcases hi.readAsleep k hr hl with (h | h) | ⟨hu, -, -⟩
    · rw [hw] at h
      exact absurd (hl'.symm.trans h) (by simp)
    · rw [h]
      simp
    rcases hi.pushAsleep k' hw hl' with (h | h) | ⟨hc, -, -⟩
    · rw [hr] at h
      exact absurd (hl.symm.trans h) (by simp)
    · exact h
    · -- an empty ring is not full
      have hpos := hi.fits.readPos
      omega
  obtain ⟨n, hn⟩ := Option.ne_none_iff_exists'.mp hsome
  simp [step, hn]

/-- The installer does not sleep through bytes, an end or a cancel, unless a notification is
still to be given. -/
theorem reader_woken (hi : Inv t c) {k : ReadCall} (hr : c.consumer = .readExact k)
    (hl : k.loc = .asleep)
    (hc : 0 < c.stream.used ∨ c.stream.producerDone = true ∨ c.stream.cancelledFlag = true) :
    step c .producer ≠ none ∨ step c .other ≠ none := by
  rcases hi.readAsleep k hr hl with (h | h) | ⟨hu, hd, hx⟩
  · left
    obtain ⟨s, p, q, o⟩ := c
    cases p with
    | idle => exact absurd h id
    | push k' =>
      have hk : k'.loc = .notify := h
      simp [step, push, hk]
    | ending n => simp [step]
  · right
    simp [step, h]
  · rcases hc with hc | hc | hc
    · omega
    · rw [hd] at hc
      cases hc
    · rw [hx] at hc
      cases hc

/-- The USB thread does not sleep while there is room, nor through an end or a cancel, unless a
notification is still to be given. -/
theorem writer_woken (hi : Inv t c) {k : PushCall} (hw : c.producer = .push k)
    (hl : k.loc = .asleep)
    (hc : c.stream.used < c.stream.capacity ∨ c.stream.consumerDone = true ∨
      c.stream.cancelledFlag = true) :
    step c .consumer ≠ none ∨ step c .other ≠ none := by
  rcases hi.pushAsleep k hw hl with (h | h) | ⟨hu, hd, hx⟩
  · left
    obtain ⟨s, p, q, o⟩ := c
    cases q with
    | idle => exact absurd h id
    | readExact k' =>
      have hk : k'.loc = .notify := h
      simp [step, readExact, hk]
    | ending n => simp [step]
  · right
    obtain ⟨n, hn⟩ := Option.ne_none_iff_exists'.mp h
    simp [step, hn]
  · rcases hc with hc | hc | hc
    · omega
    · rw [hd] at hc
      cases hc
    · rw [hx] at hc
      cases hc

/-- **The install stream is a faithful queue.** In every run, of every capacity: the bytes
delivered are an in-order front of the bytes pushed, and until the installer returns nothing is
lost between the two; the positions fit the ring; a push that returns true has stored its bytes
once; a read returns what it was asked for, or fails after `cancel` or with the stream closed and
too few bytes left; and two calls never both wait with no step enabled, nor does one wait for
something that has happened unless its notification is still to be given. -/
theorem install_stream_fifo (t : List Event) (c : Conf) (h : Runs t c) :
    copied t <+: pushed t ∧
      (.finishConsumer ∉ t → copied t ++ c.stream.contents = appended t ∧
        (.cancel ∉ t → appended t ++ c.producer.rest = pushed t)) ∧
      c.stream.used ≤ c.stream.capacity ∧
      (c.stream.readPos + c.stream.used) % c.stream.capacity = c.stream.writePos ∧
      (∀ t₁ t₂, t = t₁ ++ .pushReturn true :: t₂ → .finishConsumer ∉ t₁ →
        ∃ src t', Open Event.ofPush (.pushCall src) t₁ t' ∧ appended t' = src) ∧
      (∀ t₁ t₂, t = t₁ ++ .pushReturn false :: t₂ → .cancel ∈ t₁) ∧
      (∀ t₁ t₂ bs, t = t₁ ++ .readReturn (some bs) :: t₂ →
        ∃ t', Open Event.ofRead (.readCall bs.length) t₁ t' ∧ copied t' = bs) ∧
      (∀ t₁ t₂, t = t₁ ++ .readReturn none :: t₂ →
        .cancel ∈ t₁ ∨ .closeProducer ∈ t₁ ∧
          (∃ c₁, Runs t₁ c₁ ∧ c₁.stream.contents = []) ∧
          (.finishConsumer ∉ t₁ → copied t₁ = appended t₁) ∧
          ∃ n t', Open Event.ofRead (.readCall n) t₁ t' ∧ (copied t').length < n) ∧
      (∀ k k', c.consumer = .readExact k → c.producer = .push k' → k.loc = .asleep →
        k'.loc = .asleep → step c .other ≠ none) ∧
      (∀ k, c.consumer = .readExact k → k.loc = .asleep →
        0 < c.stream.used ∨ c.stream.producerDone = true ∨ c.stream.cancelledFlag = true →
        step c .producer ≠ none ∨ step c .other ≠ none) ∧
      (∀ k, c.producer = .push k → k.loc = .asleep →
        c.stream.used < c.stream.capacity ∨ c.stream.consumerDone = true ∨
          c.stream.cancelledFlag = true →
        step c .consumer ≠ none ∨ step c .other ≠ none) := by
  have hi := Inv.of_runs h
  have hpushed : appended t <+: pushed t := (List.prefix_append _ _).trans hi.given.1
  refine ⟨hi.copied_prefix.trans hpushed, fun hf => ⟨hi.fifo (hi.not_done hf), fun hc => ?_⟩,
    hi.fits.used, hi.fits.writePos, ?_, ?_, ?_, ?_, ?_, ?_, ?_⟩
  · have hg := hi.given.2.resolve_right fun hx => hc (hi.cancelled hx)
    rwa [hi.kept (hi.not_done hf), List.append_nil] at hg
  · intro t₁ t₂ ht hf
    obtain ⟨s₁, a, s₂, h₁, hs⟩ := h.split ht
    exact push_appends (Inv.of_runs h₁) (step_move hs) hf
  · intro t₁ t₂ ht
    obtain ⟨s₁, a, s₂, h₁, hs⟩ := h.split ht
    exact push_fails (Inv.of_runs h₁) (step_move hs)
  · intro t₁ t₂ bs ht
    obtain ⟨s₁, a, s₂, h₁, hs⟩ := h.split ht
    exact read_returns (Inv.of_runs h₁) (step_move hs)
  · intro t₁ t₂ ht
    obtain ⟨s₁, a, s₂, h₁, hs⟩ := h.split ht
    rcases read_fails (Inv.of_runs h₁) (step_move hs) with hc | ⟨hc, hempty, hall, hshort⟩
    · exact Or.inl hc
    · exact Or.inr ⟨hc, ⟨s₁, h₁, hempty⟩, hall, hshort⟩
  · exact fun k k' hr hw hl hl' => other_enabled_of_asleep hi hr hw hl hl'
  · exact fun k hr hl hc => reader_woken hi hr hl hc
  · exact fun k hw hl hc => writer_woken hi hw hl hc

/-- Three bytes are read in two calls, the second of which fails at the end of the stream. -/
def shortObject : List Action :=
  [.callRead 2, .consumer, .callPush [1, 2, 3], .producer, .producer, .consumer, .consumer,
    .consumer, .producer, .callRead 2, .consumer, .consumer, .consumer, .callClose, .producer,
    .consumer]

/-- What the short object shows. -/
def shortTrace : List Event :=
  [.readCall 2, .tau, .pushCall [1, 2, 3], .appended [1, 2, 3], .tau, .copied [1, 2], .tau,
    .readReturn (some [1, 2]), .pushReturn true, .readCall 2, .copied [3], .tau, .tau,
    .closeProducer, .tau, .readReturn none]

theorem shortObject_runs : Runs shortTrace
    { stream := { closeProducer ((((InstallStream.new 0).store [1, 2, 3]).fetch 2).fetch 1) with
        pushed := 3, consumed := 3 }
      producer := .ending .canWrite } :=
  Trace.exec shortObject (.nil ⟨0, rfl⟩) (by rfl)

theorem install_stream_fifo_short :
    copied shortTrace <+: pushed shortTrace ∧
      (.cancel ∈ shortTrace.take 15 ∨ .closeProducer ∈ shortTrace.take 15 ∧
        (∃ c₁, Runs (shortTrace.take 15) c₁ ∧ c₁.stream.contents = []) ∧
        (.finishConsumer ∉ shortTrace.take 15 →
          copied (shortTrace.take 15) = appended (shortTrace.take 15)) ∧
        ∃ n t', Open Event.ofRead (.readCall n) (shortTrace.take 15) t' ∧
          (copied t').length < n) := by
  have h := install_stream_fifo shortTrace _ shortObject_runs
  exact ⟨h.1, h.2.2.2.2.2.2.2.1 (shortTrace.take 15) [] rfl⟩

end MtpInstallStream
