/-
# The stream of the native MTP installer

The USB thread pushes an object into a ring, the installer reads from it.  Each section
under the mutex is one step, and so is each notification after it.  A thread in a wait goes
on after a notification or by itself and tests its condition again.  Any thread may cancel.

The labels of the steps record what each call was given, what it moved and what it returned.
-/
import AioMod.FatFs
import AioMod.Traces
import AioMod.RingBuffer

namespace MtpInstallStream

open Traces RingBuffer

/-- The members of `InstallStream` that its mutex protects, and the capacity. -/
structure InstallStream where
  capacity : ℕ
  buffer : Bytes
  readPos : ℕ
  writePos : ℕ
  used : ℕ
  producerDone : Bool
  consumerDone : Bool
  cancelledFlag : Bool
  pushed : UInt64
  consumed : UInt64
  deriving DecidableEq

/-- The constructor. -/
def InstallStream.new (capacityBytes : ℕ) : InstallStream :=
  let capacity := max capacityBytes (64 * 1024)
  { capacity, buffer := List.replicate capacity 0, readPos := 0, writePos := 0, used := 0,
    producerDone := false, consumerDone := false, cancelledFlag := false, pushed := 0,
    consumed := 0 }

/-- Where a thread stands in the loop of its call. -/
inductive Loc where
  /-- About to take the mutex, at the loop's start or after a wake-up. -/
  | enter
  /-- In the wait, not woken. -/
  | asleep
  /-- The mutex is released, the other side not yet notified. -/
  | notify
  /-- At `return true`. -/
  | exit
  deriving DecidableEq

/-- A notification reaches a thread asleep. -/
def Loc.wake (l : Loc) : Loc := Traces.wake asleep enter l

/-- A call of `push`. -/
structure PushCall where
  loc : Loc
  src : Bytes
  done : ℕ
  deriving DecidableEq

/-- A call of `readExact`: its size and what is in `dst` so far. -/
structure ReadCall where
  loc : Loc
  size : ℕ
  dst : Bytes
  deriving DecidableEq

/-- A call that has set its flag and has this notification to give next. -/
inductive Ending where
  | canRead
  | canWrite
  deriving DecidableEq

/-- The USB thread. -/
inductive Producer where
  | idle
  | push (k : PushCall)
  | ending (n : Ending)
  deriving DecidableEq

/-- The installer thread. -/
inductive Consumer where
  | idle
  | readExact (k : ReadCall)
  | ending (n : Ending)
  deriving DecidableEq

/-- The stream, its two threads, and a third one in `cancel`. -/
structure Conf where
  stream : InstallStream
  producer : Producer := .idle
  consumer : Consumer := .idle
  other : Option Ending := none
  deriving DecidableEq

/-- What a step shows. -/
inductive Event where
  | readCall (size : ℕ)
  | copied (bs : Bytes)
  | readReturn (r : Option Bytes)
  | pushCall (src : Bytes)
  | appended (bs : Bytes)
  | discarded (bs : Bytes)
  | pushReturn (ok : Bool)
  | closeProducer
  | cancel
  | finishConsumer
  | tau
  deriving DecidableEq

/-- What may happen next. -/
inductive Action where
  | callPush (src : Bytes)
  | callClose
  | producer
  | producerSpurious
  | callRead (size : ℕ)
  | callFinish
  | consumer
  | consumerSpurious
  | cancelProducer
  | cancelConsumer
  | cancelOther
  | other
  deriving DecidableEq

/-! ## The sections -/

/-- `canRead.notify_one()` and `canRead.notify_all()`: one thread waits there. -/
def Consumer.wake : Consumer → Consumer
  | readExact k => readExact { k with loc := k.loc.wake }
  | t => t

/-- `canWrite.notify_one()` and `canWrite.notify_all()` -/
def Producer.wake : Producer → Producer
  | push k => push { k with loc := k.loc.wake }
  | t => t

/-- The start of the loop `while (done < size)`. -/
def loopHead (done size : ℕ) : Loc := if done < size then .enter else .exit

/-- The section of `push`. -/
def pushSection (c : Conf) (k : PushCall) : Event × Conf :=
  let s := c.stream
  if ¬(s.cancelledFlag ∨ s.consumerDone ∨ s.used < s.capacity) then
    (.tau, { c with producer := .push { k with loc := .asleep } })
  else if s.cancelledFlag then (.pushReturn false, { c with producer := .idle })
  else if s.consumerDone then
    (.discarded (k.src.drop k.done),
      { c with
        stream := { s with pushed := s.pushed + UInt64.ofNat (k.src.length - k.done) }
        producer := .push { k with loc := .exit, done := k.src.length } })
  else
    let room := s.capacity - s.used
    let contiguous := min (s.capacity - s.writePos) room
    let chunk := min (k.src.length - k.done) contiguous
    let bs := (k.src.drop k.done).take chunk
    (.appended bs,
      { c with
        stream := { s with
          buffer := overwrite s.buffer s.writePos bs
          writePos := (s.writePos + chunk) % s.capacity
          used := s.used + chunk
          pushed := s.pushed + UInt64.ofNat chunk }
        producer := .push { k with loc := .notify, done := k.done + chunk } })

/-- One step of a call of `push`. -/
def push (c : Conf) (k : PushCall) : Option (Event × Conf) :=
  match k.loc with
  | .enter => some (pushSection c k)
  | .asleep => none
  | .notify =>
    some (.tau, { c with
      producer := .push { k with loc := loopHead k.done k.src.length }
      consumer := c.consumer.wake })
  | .exit => some (.pushReturn true, { c with producer := .idle })

/-- The section of `readExact`. -/
def readSection (c : Conf) (k : ReadCall) : Event × Conf :=
  let s := c.stream
  if ¬(s.cancelledFlag ∨ 0 < s.used ∨ s.producerDone) then
    (.tau, { c with consumer := .readExact { k with loc := .asleep } })
  else if s.cancelledFlag then (.readReturn none, { c with consumer := .idle })
  else if s.used = 0 ∧ s.producerDone then (.readReturn none, { c with consumer := .idle })
  else
    let contiguous := min (s.capacity - s.readPos) s.used
    let chunk := min (k.size - k.dst.length) contiguous
    let bs := (s.buffer.drop s.readPos).take chunk
    (.copied bs,
      { c with
        stream := { s with
          readPos := (s.readPos + chunk) % s.capacity
          used := s.used - chunk
          consumed := s.consumed + UInt64.ofNat chunk }
        consumer := .readExact { k with loc := .notify, dst := k.dst ++ bs } })

/-- One step of a call of `readExact`. -/
def readExact (c : Conf) (k : ReadCall) : Option (Event × Conf) :=
  match k.loc with
  | .enter => some (readSection c k)
  | .asleep => none
  | .notify =>
    some (.tau, { c with
      consumer := .readExact { k with loc := loopHead k.dst.length k.size }
      producer := c.producer.wake })
  | .exit => some (.readReturn (some k.dst), { c with consumer := .idle })

/-- The section of `closeProducer`. -/
def closeProducer (s : InstallStream) : InstallStream := { s with producerDone := true }

/-- The section of `cancel`. -/
def cancel (s : InstallStream) : InstallStream := { s with cancelledFlag := true }

/-- The section of `finishConsumer`. -/
def finishConsumer (s : InstallStream) : InstallStream :=
  { s with consumerDone := true, used := 0, readPos := s.writePos }

/-- One notification after a section that set a flag, and what comes after it. -/
def Ending.notify (c : Conf) : Ending → Conf × Option Ending
  | canRead => ({ c with consumer := c.consumer.wake }, some .canWrite)
  | canWrite => ({ c with producer := c.producer.wake }, none)

/-- A thread behind its call, or at the next notification. -/
def Producer.after : Option Ending → Producer
  | none => idle
  | some n => ending n

/-- A thread behind its call, or at the next notification. -/
def Consumer.after : Option Ending → Consumer
  | none => idle
  | some n => ending n

/-- The next step under an action, when it is enabled. -/
def step (c : Conf) : Action → Option (Event × Conf)
  | .callPush src =>
    match c.producer with
    | .idle => some (.pushCall src,
        { c with producer := .push { loc := loopHead 0 src.length, src, done := 0 } })
    | _ => none
  | .callClose =>
    match c.producer with
    | .idle => some (.closeProducer,
        { c with stream := closeProducer c.stream, producer := .ending .canRead })
    | _ => none
  | .cancelProducer =>
    match c.producer with
    | .idle => some (.cancel, { c with stream := cancel c.stream, producer := .ending .canRead })
    | _ => none
  | .producer =>
    match c.producer with
    | .idle => none
    | .push k => push c k
    | .ending n => some (.tau, { (n.notify c).1 with producer := .after (n.notify c).2 })
  | .producerSpurious =>
    match c.producer with
    | .push k =>
      if k.loc = .asleep then some (.tau, { c with producer := c.producer.wake }) else none
    | _ => none
  | .callRead size =>
    match c.consumer with
    | .idle => some (.readCall size,
        { c with consumer := .readExact { loc := loopHead 0 size, size, dst := [] } })
    | _ => none
  | .callFinish =>
    match c.consumer with
    | .idle => some (.finishConsumer,
        { c with stream := finishConsumer c.stream, consumer := .ending .canRead })
    | _ => none
  | .cancelConsumer =>
    match c.consumer with
    | .idle => some (.cancel, { c with stream := cancel c.stream, consumer := .ending .canRead })
    | _ => none
  | .consumer =>
    match c.consumer with
    | .idle => none
    | .readExact k => readExact c k
    | .ending n => some (.tau, { (n.notify c).1 with consumer := .after (n.notify c).2 })
  | .consumerSpurious =>
    match c.consumer with
    | .readExact k =>
      if k.loc = .asleep then some (.tau, { c with consumer := c.consumer.wake }) else none
    | _ => none
  | .cancelOther =>
    match c.other with
    | none => some (.cancel, { c with stream := cancel c.stream, other := some .canRead })
    | some _ => none
  | .other => c.other.map fun n => (.tau, { (n.notify c).1 with other := (n.notify c).2 })

/-- A new stream, with no call open. -/
def Start (c : Conf) : Prop := ∃ capacityBytes, c = { stream := .new capacityBytes }

/-- The traces of the stream. -/
abbrev Runs (t : List Event) (c : Conf) : Prop := Trace step Start t c

/-! ## What a trace says -/

namespace Event

/-- The bytes a step copies out of the ring. -/
def out : Event → Bytes
  | copied bs => bs
  | _ => []

/-- The bytes a step stores in the ring. -/
def into : Event → Bytes
  | appended bs => bs
  | _ => []

/-- The bytes a step accepts without storing them. -/
def dropped : Event → Bytes
  | discarded bs => bs
  | _ => []

/-- The bytes a `push` is called with. -/
def given : Event → Bytes
  | pushCall src => src
  | _ => []

/-- Whether the label opens or closes a `readExact`. -/
def ofRead : Event → Bool
  | readCall _ => true
  | readReturn _ => true
  | _ => false

/-- Whether the label opens or closes a `push`. -/
def ofPush : Event → Bool
  | pushCall _ => true
  | pushReturn _ => true
  | _ => false

end Event

/-- The bytes delivered to the installer. -/
abbrev copied (t : List Event) : Bytes := carried Event.out t

/-- The bytes that went through the ring. -/
abbrev appended (t : List Event) : Bytes := carried Event.into t

/-- The bytes accepted after the installer had returned. -/
abbrev discarded (t : List Event) : Bytes := carried Event.dropped t

/-- The bytes the USB thread was asked to push. -/
abbrev pushed (t : List Event) : Bytes := carried Event.given t

/-! ## What a step can do -/

/-- The ring after a chunk was stored. -/
def InstallStream.store (s : InstallStream) (bs : Bytes) : InstallStream :=
  { s with
    buffer := overwrite s.buffer s.writePos bs
    writePos := (s.writePos + bs.length) % s.capacity
    used := s.used + bs.length
    pushed := s.pushed + UInt64.ofNat bs.length }

/-- The ring after `n` bytes were copied out. -/
def InstallStream.fetch (s : InstallStream) (n : ℕ) : InstallStream :=
  { s with
    readPos := (s.readPos + n) % s.capacity
    used := s.used - n
    consumed := s.consumed + UInt64.ofNat n }

/-- The steps one by one, with their guards. -/
inductive Move : Conf → Event → Conf → Prop where
  | callPush (s : InstallStream) (q : Consumer) (o : Option Ending) (src : Bytes) :
      Move ⟨s, .idle, q, o⟩ (.pushCall src) ⟨s, .push ⟨loopHead 0 src.length, src, 0⟩, q, o⟩
  | callClose (s : InstallStream) (q : Consumer) (o : Option Ending) :
      Move ⟨s, .idle, q, o⟩ .closeProducer ⟨closeProducer s, .ending .canRead, q, o⟩
  | cancelProducer (s : InstallStream) (q : Consumer) (o : Option Ending) :
      Move ⟨s, .idle, q, o⟩ .cancel ⟨cancel s, .ending .canRead, q, o⟩
  | pushWait (s : InstallStream) (q : Consumer) (o : Option Ending) (src : Bytes) (d : ℕ)
      (hc : s.cancelledFlag = false) (hd : s.consumerDone = false) (hu : s.capacity ≤ s.used) :
      Move ⟨s, .push ⟨.enter, src, d⟩, q, o⟩ .tau ⟨s, .push ⟨.asleep, src, d⟩, q, o⟩
  | pushCancelled (s : InstallStream) (q : Consumer) (o : Option Ending) (src : Bytes) (d : ℕ)
      (hc : s.cancelledFlag = true) :
      Move ⟨s, .push ⟨.enter, src, d⟩, q, o⟩ (.pushReturn false) ⟨s, .idle, q, o⟩
  | pushDiscard (s : InstallStream) (q : Consumer) (o : Option Ending) (src : Bytes) (d : ℕ)
      (hc : s.cancelledFlag = false) (hd : s.consumerDone = true) :
      Move ⟨s, .push ⟨.enter, src, d⟩, q, o⟩ (.discarded (src.drop d))
        ⟨{ s with pushed := s.pushed + UInt64.ofNat (src.length - d) },
          .push ⟨.exit, src, src.length⟩, q, o⟩
  | pushAppend (s : InstallStream) (q : Consumer) (o : Option Ending) (src : Bytes) (d : ℕ)
      (bs : Bytes) (hc : s.cancelledFlag = false) (hd : s.consumerDone = false)
      (hb : bs = (src.drop d).take bs.length)
      (hl : bs.length =
        min (src.length - d) (min (s.capacity - s.writePos) (s.capacity - s.used))) :
      Move ⟨s, .push ⟨.enter, src, d⟩, q, o⟩ (.appended bs)
        ⟨s.store bs, .push ⟨.notify, src, d + bs.length⟩, q, o⟩
  | pushNotify (s : InstallStream) (q : Consumer) (o : Option Ending) (src : Bytes) (d : ℕ) :
      Move ⟨s, .push ⟨.notify, src, d⟩, q, o⟩ .tau
        ⟨s, .push ⟨loopHead d src.length, src, d⟩, q.wake, o⟩
  | pushReturn (s : InstallStream) (q : Consumer) (o : Option Ending) (src : Bytes) (d : ℕ) :
      Move ⟨s, .push ⟨.exit, src, d⟩, q, o⟩ (.pushReturn true) ⟨s, .idle, q, o⟩
  | pushSpurious (s : InstallStream) (q : Consumer) (o : Option Ending) (src : Bytes) (d : ℕ) :
      Move ⟨s, .push ⟨.asleep, src, d⟩, q, o⟩ .tau ⟨s, .push ⟨.enter, src, d⟩, q, o⟩
  | producerRead (s : InstallStream) (q : Consumer) (o : Option Ending) :
      Move ⟨s, .ending .canRead, q, o⟩ .tau ⟨s, .ending .canWrite, q.wake, o⟩
  | producerWrite (s : InstallStream) (q : Consumer) (o : Option Ending) :
      Move ⟨s, .ending .canWrite, q, o⟩ .tau ⟨s, .idle, q, o⟩
  | callRead (s : InstallStream) (p : Producer) (o : Option Ending) (n : ℕ) :
      Move ⟨s, p, .idle, o⟩ (.readCall n) ⟨s, p, .readExact ⟨loopHead 0 n, n, []⟩, o⟩
  | callFinish (s : InstallStream) (p : Producer) (o : Option Ending) :
      Move ⟨s, p, .idle, o⟩ .finishConsumer ⟨finishConsumer s, p, .ending .canRead, o⟩
  | cancelConsumer (s : InstallStream) (p : Producer) (o : Option Ending) :
      Move ⟨s, p, .idle, o⟩ .cancel ⟨cancel s, p, .ending .canRead, o⟩
  | readWait (s : InstallStream) (p : Producer) (o : Option Ending) (n : ℕ) (dst : Bytes)
      (hc : s.cancelledFlag = false) (hd : s.producerDone = false) (hu : s.used = 0) :
      Move ⟨s, p, .readExact ⟨.enter, n, dst⟩, o⟩ .tau ⟨s, p, .readExact ⟨.asleep, n, dst⟩, o⟩
  | readFail (s : InstallStream) (p : Producer) (o : Option Ending) (n : ℕ) (dst : Bytes)
      (h : s.cancelledFlag = true ∨ s.used = 0 ∧ s.producerDone = true) :
      Move ⟨s, p, .readExact ⟨.enter, n, dst⟩, o⟩ (.readReturn none) ⟨s, p, .idle, o⟩
  | readCopy (s : InstallStream) (p : Producer) (o : Option Ending) (n : ℕ) (dst : Bytes) (m : ℕ)
      (hu : 0 < s.used) (hm : m = min (n - dst.length) (min (s.capacity - s.readPos) s.used)) :
      Move ⟨s, p, .readExact ⟨.enter, n, dst⟩, o⟩ (.copied ((s.buffer.drop s.readPos).take m))
        ⟨s.fetch m, p, .readExact ⟨.notify, n, dst ++ (s.buffer.drop s.readPos).take m⟩, o⟩
  | readNotify (s : InstallStream) (p : Producer) (o : Option Ending) (n : ℕ) (dst : Bytes) :
      Move ⟨s, p, .readExact ⟨.notify, n, dst⟩, o⟩ .tau
        ⟨s, p.wake, .readExact ⟨loopHead dst.length n, n, dst⟩, o⟩
  | readReturn (s : InstallStream) (p : Producer) (o : Option Ending) (n : ℕ) (dst : Bytes) :
      Move ⟨s, p, .readExact ⟨.exit, n, dst⟩, o⟩ (.readReturn (some dst)) ⟨s, p, .idle, o⟩
  | readSpurious (s : InstallStream) (p : Producer) (o : Option Ending) (n : ℕ) (dst : Bytes) :
      Move ⟨s, p, .readExact ⟨.asleep, n, dst⟩, o⟩ .tau ⟨s, p, .readExact ⟨.enter, n, dst⟩, o⟩
  | consumerRead (s : InstallStream) (p : Producer) (o : Option Ending) :
      Move ⟨s, p, .ending .canRead, o⟩ .tau ⟨s, p, .ending .canWrite, o⟩
  | consumerWrite (s : InstallStream) (p : Producer) (o : Option Ending) :
      Move ⟨s, p, .ending .canWrite, o⟩ .tau ⟨s, p.wake, .idle, o⟩
  | cancelOther (s : InstallStream) (p : Producer) (q : Consumer) :
      Move ⟨s, p, q, none⟩ .cancel ⟨cancel s, p, q, some .canRead⟩
  | otherRead (s : InstallStream) (p : Producer) (q : Consumer) :
      Move ⟨s, p, q, some .canRead⟩ .tau ⟨s, p, q.wake, some .canWrite⟩
  | otherWrite (s : InstallStream) (p : Producer) (q : Consumer) :
      Move ⟨s, p, q, some .canWrite⟩ .tau ⟨s, p.wake, q, none⟩

/-- The steps of an open `push`. -/
theorem push_move {s : InstallStream} {k : PushCall} {q : Consumer} {o : Option Ending} {e : Event}
    {c' : Conf} (h : push ⟨s, .push k, q, o⟩ k = some (e, c')) : Move ⟨s, .push k, q, o⟩ e c' := by
  obtain ⟨l, src, d⟩ := k
  cases l with
  | enter =>
    simp only [push, pushSection, Option.some.injEq] at h
    split_ifs at h with hw hc hd
    · cases h
      exact .pushCancelled s q o src d hc
    · cases h
      exact .pushDiscard s q o src d (by simpa using hc) hd
    · have hlen : ((src.drop d).take (min (src.length - d)
          (min (s.capacity - s.writePos) (s.capacity - s.used)))).length =
          min (src.length - d) (min (s.capacity - s.writePos) (s.capacity - s.used)) := by
        rw [List.length_take, List.length_drop]
        omega
      have hm := Move.pushAppend s q o src d _ (by simpa using hc) (by simpa using hd)
        (by rw [hlen]) hlen
      simp only [InstallStream.store, hlen] at hm
      cases h
      exact hm
    · -- the wait goes on
      cases h
      simp only [not_or, Bool.not_eq_true, not_lt] at hw
      exact .pushWait s q o src d hw.1 hw.2.1 hw.2.2
  | asleep => cases h
  | notify =>
    cases h
    exact .pushNotify s q o src d
  | exit =>
    cases h
    exact .pushReturn s q o src d

/-- The steps of an open `readExact`. -/
theorem readExact_move {s : InstallStream} {p : Producer} {k : ReadCall} {o : Option Ending}
    {e : Event} {c' : Conf} (h : readExact ⟨s, p, .readExact k, o⟩ k = some (e, c')) :
    Move ⟨s, p, .readExact k, o⟩ e c' := by
  obtain ⟨l, n, dst⟩ := k
  cases l with
  | enter =>
    simp only [readExact, readSection, Option.some.injEq] at h
    split_ifs at h with hw hc hd
    · cases h
      exact .readFail s p o n dst (Or.inl hc)
    · cases h
      exact .readFail s p o n dst (Or.inr hd)
    · cases h
      refine .readCopy s p o n dst _ ?_ rfl
      rcases hw with h | h | h
      · exact absurd h hc
      · exact h
      · exact Nat.pos_of_ne_zero fun h0 => hd ⟨h0, h⟩
    · cases h
      simp only [not_or, Bool.not_eq_true, not_lt, Nat.le_zero] at hw
      exact .readWait s p o n dst hw.1 hw.2.2 hw.2.1
  | asleep => cases h
  | notify =>
    cases h
    exact .readNotify s p o n dst
  | exit =>
    cases h
    exact .readReturn s p o n dst

/-- The steps of the USB thread. -/
theorem producer_move {s : InstallStream} {p : Producer} {q : Consumer} {o : Option Ending}
    {e : Event} {c' : Conf} (h : step ⟨s, p, q, o⟩ .producer = some (e, c')) :
    Move ⟨s, p, q, o⟩ e c' := by
  cases p with
  | idle => cases h
  | push k => exact push_move h
  | ending n =>
    cases n with
    | canRead =>
      cases h
      exact .producerRead s q o
    | canWrite =>
      cases h
      exact .producerWrite s q o

/-- The steps of the installer thread. -/
theorem consumer_move {s : InstallStream} {p : Producer} {q : Consumer} {o : Option Ending}
    {e : Event} {c' : Conf} (h : step ⟨s, p, q, o⟩ .consumer = some (e, c')) :
    Move ⟨s, p, q, o⟩ e c' := by
  cases q with
  | idle => cases h
  | readExact k => exact readExact_move h
  | ending n =>
    cases n with
    | canRead =>
      cases h
      exact .consumerRead s p o
    | canWrite =>
      cases h
      exact .consumerWrite s p o

/-- Every step is one of the moves. -/
theorem step_move {c : Conf} {a : Action} {e : Event} {c' : Conf} (h : step c a = some (e, c')) :
    Move c e c' := by
  obtain ⟨s, p, q, o⟩ := c
  cases a with
  | callPush src =>
    cases p <;> cases h
    exact .callPush s q o src
  | callClose =>
    cases p <;> cases h
    exact .callClose s q o
  | cancelProducer =>
    cases p <;> cases h
    exact .cancelProducer s q o
  | producer => exact producer_move h
  | producerSpurious =>
    cases p with
    | push k =>
      obtain ⟨l, src, d⟩ := k
      simp only [step] at h
      split_ifs at h with hl
      cases h
      cases hl
      exact .pushSpurious s q o src d
    | _ => cases h
  | callRead n =>
    cases q <;> cases h
    exact .callRead s p o n
  | callFinish =>
    cases q <;> cases h
    exact .callFinish s p o
  | cancelConsumer =>
    cases q <;> cases h
    exact .cancelConsumer s p o
  | consumer => exact consumer_move h
  | consumerSpurious =>
    cases q with
    | readExact k =>
      obtain ⟨l, n, dst⟩ := k
      simp only [step] at h
      split_ifs at h with hl
      cases h
      cases hl
      exact .readSpurious s p o n dst
    | _ => cases h
  | cancelOther =>
    cases o <;> cases h
    exact .cancelOther s p q
  | other =>
    cases o with
    | none => cases h
    | some n =>
      cases n with
      | canRead =>
        cases h
        exact .otherRead s p q
      | canWrite =>
        cases h
        exact .otherWrite s p q

end MtpInstallStream
