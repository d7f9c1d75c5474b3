/-
# The stream of the live MTP engine

One thread pushes the chunks of a transfer into a bounded buffer, another reads from it in
sizes of its own.  Each section under the mutex is one step; a test of the stop token is a
step of its own; a thread in `condvarWaitTimeout` goes on after a wake-up or by itself.
Disabling, finishing and the stop request come at any time.

The labels of the steps record what each call was given, what it moved and what it returned.
-/
import AioMod.FatFs
import AioMod.Traces

namespace MtpStream

open Traces

/-- The capacity of the buffer. -/
def MAX_BUFFER_SIZE : ℕ := 1024 * 1024

/-- `Stream`: the members both sides see, and the stop token. -/
structure Stream where
  m_buffer : Bytes := []
  m_active : Bool := true
  m_finished : Bool := false
  stop_requested : Bool := false
  deriving DecidableEq

/-- Where a thread stands in the loop of its call. -/
inductive Loc where
  /-- At the test of the loop, outside the mutex. -/
  | test
  /-- Past the test, about to take the mutex. -/
  | body
  /-- In `condvarWaitTimeout`, not woken. -/
  | asleep
  /-- In `condvarWaitTimeout`, woken: it has the mutex to take and goes back to the test. -/
  | woken
  /-- Behind the loop. -/
  | exit
  /-- At a return inside the loop. -/
  | done
  deriving DecidableEq

/-- A wake-up reaches the threads asleep. -/
def Loc.wake (l : Loc) : Loc := Traces.wake asleep woken l

/-- A call of `ReadChunk`: the bytes still wanted and the bytes copied out so far. -/
structure ReadCall where
  loc : Loc
  size : ℕ
  buf : Bytes
  deriving DecidableEq

/-- A call of `Push`: the bytes not yet taken over. -/
structure PushCall where
  loc : Loc
  buf : Bytes
  deriving DecidableEq

/-- The stream and its two threads; a thread outside a call is `none`. -/
structure Conf where
  stream : Stream
  reader : Option ReadCall := none
  writer : Option PushCall := none
  deriving DecidableEq

/-- What a step shows. -/
inductive Event where
  | readCall (size : ℕ)
  | copied (bs : Bytes)
  | readReturn (r : Option Bytes)
  | pushCall (chunk : Bytes)
  | appended (bs : Bytes)
  | pushReturn (ok : Bool)
  | disable
  | finish
  | stop
  | tau
  deriving DecidableEq

/-- What may happen next. -/
inductive Action where
  | readChunk (size : ℕ)
  | reader
  | readerTimeout
  | push (chunk : Bytes)
  | writer
  | writerTimeout
  | disable
  | finish
  | stop
  deriving DecidableEq

/-! ## The sections -/

/-- `condvarWakeAll(&m_can_read)` -/
def wakeReader (c : Conf) : Conf :=
  { c with reader := c.reader.map fun k => { k with loc := k.loc.wake } }

/-- `condvarWakeAll(&m_can_write)` -/
def wakeWriter (c : Conf) : Conf :=
  { c with writer := c.writer.map fun k => { k with loc := k.loc.wake } }

/-- The loop body of `ReadChunk`, under the mutex. -/
def readSection (c : Conf) (k : ReadCall) : Event × Conf :=
  if c.stream.m_buffer = [] then
    if c.stream.m_active then (.tau, { c with reader := some { k with loc := .asleep } })
    else (.tau, { c with reader := some { k with loc := .exit } })
  else
    let rsize := min k.size c.stream.m_buffer.length
    let bs := c.stream.m_buffer.take rsize
    let stream := { c.stream with m_buffer := c.stream.m_buffer.drop rsize }
    let size := k.size - rsize
    let loc := if size = 0 then .done else .test
    (.copied bs, wakeWriter { c with stream, reader := some { loc, size, buf := k.buf ++ bs } })

/-- One step of a call of `ReadChunk`. -/
def ReadChunk (c : Conf) (k : ReadCall) : Option (Event × Conf) :=
  match k.loc with
  | .test =>
    let loc := if c.stream.stop_requested then .exit else .body
    some (.tau, { c with reader := some { k with loc } })
  | .body => some (readSection c k)
  | .asleep => none
  | .woken => some (.tau, { c with reader := some { k with loc := .test } })
  | .exit =>
    let ok := k.buf ≠ [] ∧ c.stream.stop_requested = false
    some (.readReturn (if ok then some k.buf else none), { c with reader := none })
  | .done => some (.readReturn (some k.buf), { c with reader := none })

/-- The loop body of `Push`, under the mutex. -/
def pushSection (c : Conf) (k : PushCall) : Event × Conf :=
  if c.stream.m_finished then (.tau, { c with writer := some { k with loc := .done } })
  else if !c.stream.m_active then (.tau, { c with writer := some { k with loc := .exit } })
  else if MAX_BUFFER_SIZE ≤ c.stream.m_buffer.length then
    (.tau, { c with writer := some { k with loc := .asleep } })
  else
    let wsize := min k.buf.length (MAX_BUFFER_SIZE - c.stream.m_buffer.length)
    let bs := k.buf.take wsize
    let stream := { c.stream with m_buffer := c.stream.m_buffer ++ bs }
    let buf := k.buf.drop wsize
    let loc := if buf = [] then .done else .test
    (.appended bs, wakeReader { c with stream, writer := some { loc, buf } })

/-- One step of a call of `Push`. -/
def Push (c : Conf) (k : PushCall) : Option (Event × Conf) :=
  match k.loc with
  | .test =>
    let loc := if c.stream.stop_requested then .exit else .body
    some (.tau, { c with writer := some { k with loc } })
  | .body => some (pushSection c k)
  | .asleep => none
  | .woken => some (.tau, { c with writer := some { k with loc := .test } })
  | .exit => some (.pushReturn false, { c with writer := none })
  | .done => some (.pushReturn true, { c with writer := none })

/-- `Finish` -/
def Finish (c : Conf) : Conf :=
  wakeWriter (wakeReader { c with stream := { c.stream with m_finished := true } })

/-- `Disable` -/
def Disable (c : Conf) : Conf :=
  wakeWriter (wakeReader { c with stream := { c.stream with m_active := false } })

/-- The next step under an action, when it is enabled. -/
def step (c : Conf) : Action → Option (Event × Conf)
  | .readChunk size =>
    match c.reader with
    | none => some (.readCall size, { c with reader := some { loc := .test, size, buf := [] } })
    | some _ => none
  | .reader => c.reader.bind (ReadChunk c)
  | .readerTimeout =>
    match c.reader with
    | some k =>
      if k.loc = .asleep then some (.tau, { c with reader := some { k with loc := .woken } })
      else none
    | none => none
  | .push chunk =>
    match c.writer with
    | none =>
      -- an empty chunk returns before the loop
      let loc := if chunk = [] then .done else .test
      some (.pushCall chunk, { c with writer := some { loc, buf := chunk } })
    | some _ => none
  | .writer => c.writer.bind (Push c)
  | .writerTimeout =>
    match c.writer with
    | some k =>
      if k.loc = .asleep then some (.tau, { c with writer := some { k with loc := .woken } })
      else none
    | none => none
  | .disable => some (.disable, Disable c)
  | .finish => some (.finish, Finish c)
  | .stop => some (.stop, { c with stream := { c.stream with stop_requested := true } })

/-- A new stream, with no call open; its token may have been stopped already. -/
def Start (c : Conf) : Prop := ∃ b, c = { stream := { stop_requested := b } }

/-- The traces of the stream. -/
abbrev Runs (t : List Event) (c : Conf) : Prop := Trace step Start t c

/-! ## What a trace says -/

namespace Event

/-- The bytes a step copies out of the buffer. -/
def out : Event → Bytes
  | copied bs => bs
  | _ => []

/-- The bytes a successful `ReadChunk` hands to its caller. -/
def handed : Event → Bytes
  | readReturn (some bs) => bs
  | _ => []

/-- The bytes a step appends to the buffer. -/
def into : Event → Bytes
  | appended bs => bs
  | _ => []

/-- The bytes a `Push` is called with. -/
def given : Event → Bytes
  | pushCall chunk => chunk
  | _ => []

/-- Whether the label opens or closes a `ReadChunk`. -/
def ofRead : Event → Bool
  | readCall _ => true
  | readReturn _ => true
  | _ => false

/-- Whether the label opens or closes a `Push`. -/
def ofPush : Event → Bool
  | pushCall _ => true
  | pushReturn _ => true
  | _ => false

end Event

/-- The bytes taken out of the buffer. -/
abbrev copied (t : List Event) : Bytes := carried Event.out t

/-- The bytes handed to the installer. -/
abbrev delivered (t : List Event) : Bytes := carried Event.handed t

/-- The bytes put into the buffer. -/
abbrev appended (t : List Event) : Bytes := carried Event.into t

/-- The bytes the transport was asked to push. -/
abbrev pushed (t : List Event) : Bytes := carried Event.given t

/-! ## What a step can do -/

/-- A reader after a wake-up. -/
abbrev wokenReader (r : Option ReadCall) : Option ReadCall :=
  r.map fun k => { k with loc := k.loc.wake }

/-- A writer after a wake-up. -/
abbrev wokenWriter (w : Option PushCall) : Option PushCall :=
  w.map fun k => { k with loc := k.loc.wake }

/-- The steps one by one, with their guards. -/
inductive Move : Conf → Event → Conf → Prop where
  | readCall (s : Stream) (w : Option PushCall) (n : ℕ) :
      Move ⟨s, none, w⟩ (.readCall n) ⟨s, some ⟨.test, n, []⟩, w⟩
  | readStop (s : Stream) (w : Option PushCall) (n : ℕ) (b : Bytes)
      (hs : s.stop_requested = true) :
      Move ⟨s, some ⟨.test, n, b⟩, w⟩ .tau ⟨s, some ⟨.exit, n, b⟩, w⟩
  | readGo (s : Stream) (w : Option PushCall) (n : ℕ) (b : Bytes)
      (hs : s.stop_requested = false) :
      Move ⟨s, some ⟨.test, n, b⟩, w⟩ .tau ⟨s, some ⟨.body, n, b⟩, w⟩
  | readInactive (s : Stream) (w : Option PushCall) (n : ℕ) (b : Bytes)
      (hb : s.m_buffer = []) (ha : s.m_active = false) :
      Move ⟨s, some ⟨.body, n, b⟩, w⟩ .tau ⟨s, some ⟨.exit, n, b⟩, w⟩
  | readWait (s : Stream) (w : Option PushCall) (n : ℕ) (b : Bytes) (hb : s.m_buffer = []) :
      Move ⟨s, some ⟨.body, n, b⟩, w⟩ .tau ⟨s, some ⟨.asleep, n, b⟩, w⟩
  | readCopy (s : Stream) (w : Option PushCall) (n : ℕ) (b : Bytes) (i : ℕ) (l : Loc)
      (hi : i ≤ n) (hb : i ≤ s.m_buffer.length) (hl : l = .test ∨ l = .done ∧ i = n) :
      Move ⟨s, some ⟨.body, n, b⟩, w⟩ (.copied (s.m_buffer.take i))
        ⟨{ s with m_buffer := s.m_buffer.drop i },
          some ⟨l, n - i, b ++ s.m_buffer.take i⟩, wokenWriter w⟩
  | readWoken (s : Stream) (w : Option PushCall) (n : ℕ) (b : Bytes) :
      Move ⟨s, some ⟨.asleep, n, b⟩, w⟩ .tau ⟨s, some ⟨.woken, n, b⟩, w⟩
  | readAgain (s : Stream) (w : Option PushCall) (n : ℕ) (b : Bytes) :
      Move ⟨s, some ⟨.woken, n, b⟩, w⟩ .tau ⟨s, some ⟨.test, n, b⟩, w⟩
  | readShort (s : Stream) (w : Option PushCall) (n : ℕ) (b : Bytes)
      (hs : s.stop_requested = false) :
      Move ⟨s, some ⟨.exit, n, b⟩, w⟩ (.readReturn (some b)) ⟨s, none, w⟩
  | readFail (s : Stream) (w : Option PushCall) (n : ℕ) (b : Bytes)
      (hs : b = [] ∨ s.stop_requested = true) :
      Move ⟨s, some ⟨.exit, n, b⟩, w⟩ (.readReturn none) ⟨s, none, w⟩
  | readDone (s : Stream) (w : Option PushCall) (n : ℕ) (b : Bytes) :
      Move ⟨s, some ⟨.done, n, b⟩, w⟩ (.readReturn (some b)) ⟨s, none, w⟩
  | pushCall (s : Stream) (r : Option ReadCall) (b : Bytes) (l : Loc)
      (hl : l = .test ∨ l = .done ∧ b = []) :
      Move ⟨s, r, none⟩ (.pushCall b) ⟨s, r, some ⟨l, b⟩⟩
  | pushStop (s : Stream) (r : Option ReadCall) (b : Bytes) (hs : s.stop_requested = true) :
      Move ⟨s, r, some ⟨.test, b⟩⟩ .tau ⟨s, r, some ⟨.exit, b⟩⟩
  | pushGo (s : Stream) (r : Option ReadCall) (b : Bytes) (hs : s.stop_requested = false) :
      Move ⟨s, r, some ⟨.test, b⟩⟩ .tau ⟨s, r, some ⟨.body, b⟩⟩
  | pushFinished (s : Stream) (r : Option ReadCall) (b : Bytes) (hf : s.m_finished = true) :
      Move ⟨s, r, some ⟨.body, b⟩⟩ .tau ⟨s, r, some ⟨.done, b⟩⟩
  | pushInactive (s : Stream) (r : Option ReadCall) (b : Bytes) (ha : s.m_active = false) :
      Move ⟨s, r, some ⟨.body, b⟩⟩ .tau ⟨s, r, some ⟨.exit, b⟩⟩
  | pushWait (s : Stream) (r : Option ReadCall) (b : Bytes)
      (hm : MAX_BUFFER_SIZE ≤ s.m_buffer.length) :
      Move ⟨s, r, some ⟨.body, b⟩⟩ .tau ⟨s, r, some ⟨.asleep, b⟩⟩
  | pushAppend (s : Stream) (r : Option ReadCall) (b : Bytes) (i : ℕ) (l : Loc)
      (hf : s.m_finished = false) (ha : s.m_active = true)
      (hi : s.m_buffer.length + i ≤ MAX_BUFFER_SIZE) (hl : l = .test ∨ l = .done ∧ b.drop i = []) :
      Move ⟨s, r, some ⟨.body, b⟩⟩ (.appended (b.take i))
        ⟨{ s with m_buffer := s.m_buffer ++ b.take i }, wokenReader r, some ⟨l, b.drop i⟩⟩
  | pushWoken (s : Stream) (r : Option ReadCall) (b : Bytes) :
      Move ⟨s, r, some ⟨.asleep, b⟩⟩ .tau ⟨s, r, some ⟨.woken, b⟩⟩
  | pushAgain (s : Stream) (r : Option ReadCall) (b : Bytes) :
      Move ⟨s, r, some ⟨.woken, b⟩⟩ .tau ⟨s, r, some ⟨.test, b⟩⟩
  | pushFail (s : Stream) (r : Option ReadCall) (b : Bytes) :
      Move ⟨s, r, some ⟨.exit, b⟩⟩ (.pushReturn false) ⟨s, r, none⟩
  | pushDone (s : Stream) (r : Option ReadCall) (b : Bytes) :
      Move ⟨s, r, some ⟨.done, b⟩⟩ (.pushReturn true) ⟨s, r, none⟩
  | disable (s : Stream) (r : Option ReadCall) (w : Option PushCall) :
      Move ⟨s, r, w⟩ .disable ⟨{ s with m_active := false }, wokenReader r, wokenWriter w⟩
  | finish (s : Stream) (r : Option ReadCall) (w : Option PushCall) :
      Move ⟨s, r, w⟩ .finish ⟨{ s with m_finished := true }, wokenReader r, wokenWriter w⟩
  | stop (s : Stream) (r : Option ReadCall) (w : Option PushCall) :
      Move ⟨s, r, w⟩ .stop ⟨{ s with stop_requested := true }, r, w⟩

/-- The steps of an open `ReadChunk`. -/
theorem ReadChunk_move {s : Stream} {k : ReadCall} {w : Option PushCall} {e : Event} {c' : Conf}
    (h : ReadChunk ⟨s, some k, w⟩ k = some (e, c')) : Move ⟨s, some k, w⟩ e c' := by
  obtain ⟨l, n, b⟩ := k
  cases l with
  | test =>
    cases h
    by_cases hs : s.stop_requested = true
    · simp only [hs, if_true]
      exact .readStop s w n b hs
    · simp only [hs]
      exact .readGo s w n b (by simpa using hs)
  | body =>
    simp only [ReadChunk, readSection, Option.some.injEq] at h
    by_cases hb : s.m_buffer = []
    · by_cases ha : s.m_active = true
      · rw [if_pos hb, if_pos ha] at h
        cases h
        exact .readWait s w n b hb
      · rw [if_neg ha, if_pos hb] at h
        cases h
        exact .readInactive s w n b hb (by simpa using ha)
    · rw [if_neg hb] at h
      cases h
      refine .readCopy s w n b _ _ (Nat.min_le_left _ _) (Nat.min_le_right _ _) ?_
      by_cases h0 : n - min n s.m_buffer.length = 0
      · right
        rw [if_pos h0]
        exact ⟨rfl, by omega⟩
      · left
        rw [if_neg h0]
  | asleep => cases h
  | woken =>
    cases h
    exact .readAgain s w n b
  | exit =>
    cases h
    by_cases hok : b ≠ [] ∧ s.stop_requested = false
    · rw [if_pos hok]
      exact .readShort s w n b hok.2
    · rw [if_neg hok]
      refine .readFail s w n b ?_
      by_cases hb : b = []
      · exact Or.inl hb
      · exact Or.inr (by simpa [hb] using hok)
  | done =>
    cases h
    exact .readDone s w n b

/-- The steps of an open `Push`. -/
theorem Push_move {s : Stream} {r : Option ReadCall} {k : PushCall} {e : Event} {c' : Conf}
    (h : Push ⟨s, r, some k⟩ k = some (e, c')) : Move ⟨s, r, some k⟩ e c' := by
  obtain ⟨l, b⟩ := k
  cases l with
  | test =>
    cases h
    by_cases hs : s.stop_requested = true
    · simp only [hs, if_true]
      exact .pushStop s r b hs
    · simp only [hs]
      exact .pushGo s r b (by simpa using hs)
  | body =>
    simp only [Push, pushSection, Option.some.injEq] at h
    by_cases hf : s.m_finished = true
    · rw [if_pos hf] at h
      cases h
      exact .pushFinished s r b hf
    · rw [if_neg hf] at h
      by_cases ha : s.m_active = true
      · rw [if_neg (by simp [ha])] at h
        by_cases hm : MAX_BUFFER_SIZE ≤ s.m_buffer.length
        · rw [if_pos hm] at h
          cases h
          exact .pushWait s r b hm
        · rw [if_neg hm] at h
          cases h
          refine .pushAppend s r b _ _ (by simpa using hf) ha (by omega) ?_
          split
          · exact Or.inr ⟨rfl, ‹_›⟩
          · exact Or.inl rfl
      · rw [if_pos (by simpa using ha)] at h
        cases h
        exact .pushInactive s r b (by simpa using ha)
  | asleep => cases h
  | woken =>
    cases h
    exact .pushAgain s r b
  | exit =>
    cases h
    exact .pushFail s r b
  | done =>
    cases h
    exact .pushDone s r b

/-- Every step is one of the moves. -/
theorem step_move {c : Conf} {a : Action} {e : Event} {c' : Conf} (h : step c a = some (e, c')) :
    Move c e c' := by
  obtain ⟨s, r, w⟩ := c
  cases a with
  | readChunk n =>
    cases r with
    | none =>
      cases h
      exact .readCall s w n
    | some k => cases h
  | reader =>
    cases r with
    | none => cases h
    | some k => exact ReadChunk_move h
  | readerTimeout =>
    cases r with
    | none => cases h
    | some k =>
      obtain ⟨l, n, b⟩ := k
      simp only [step] at h
      split at h
      · next hl =>
        cases h
        cases hl
        exact .readWoken s w n b
      · cases h
  | push chunk =>
    cases w with
    | none =>
      cases h
      refine .pushCall s r chunk _ ?_
      by_cases hc : chunk = []
      · exact Or.inr ⟨if_pos hc, hc⟩
      · exact Or.inl (if_neg hc)
    | some k => cases h
  | writer =>
    cases w with
    | none => cases h
    | some k => exact Push_move h
  | writerTimeout =>
    cases w with
    | none => cases h
    | some k =>
      obtain ⟨l, b⟩ := k
      simp only [step] at h
      split at h
      · next hl =>
        cases h
        cases hl
        exact .pushWoken s r b
      · cases h
  | disable =>
    cases h
    exact .disable s r w
  | finish =>
    cases h
    exact .finish s r w
  | stop =>
    cases h
    exact .stop s r w

/-! ## The invariant -/

/-- The bytes of the open `Push` that are still to go. -/
def Conf.rest (c : Conf) : Bytes := (c.writer.map PushCall.buf).getD []

/-- The bytes the open `ReadChunk` has copied out. -/
def Conf.held (c : Conf) : Bytes := (c.reader.map ReadCall.buf).getD []

/-- Nothing will be appended any more. -/
def Shut (c : Conf) : Prop :=
  c.stream.m_active = false ∨ c.stream.m_finished = true ∨
    c.stream.stop_requested = true ∧ ∀ k, c.writer = some k → k.loc ≠ .body

/-- No read will succeed any more. -/
def Cut (c : Conf) : Prop :=
  c.stream.stop_requested = true ∧ ∀ k, c.reader = some k → k.loc ≠ .body ∧ k.loc ≠ .done

/-- What an open `ReadChunk` has done since its call. -/
structure Reading (t : List Event) (s : Stream) (k : ReadCall) : Prop where
  since : ∃ n t', Open Event.ofRead (.readCall n) t t' ∧ k.size + k.buf.length = n ∧
    copied t' = k.buf
  exit : k.loc = .exit → s.stop_requested = true ∨ s.m_active = false ∧ s.m_buffer = []
  done : k.loc = .done → k.size = 0
  asleep : k.loc = .asleep → s.m_buffer = []

/-- What an open `Push` has done since its call. -/
structure Pushing (t : List Event) (s : Stream) (k : PushCall) : Prop where
  since : ∃ chunk t', Open Event.ofPush (.pushCall chunk) t t' ∧ appended t' ++ k.buf = chunk
  done : k.loc = .done → k.buf = [] ∨ s.m_finished = true
  exit : k.loc = .exit → s.stop_requested = true ∨ s.m_active = false
  asleep : k.loc = .asleep → MAX_BUFFER_SIZE ≤ s.m_buffer.length

/-- The invariant of a run. -/
structure Inv (t : List Event) (c : Conf) : Prop where
  fifo : copied t ++ c.stream.m_buffer = appended t
  room : c.stream.m_buffer.length ≤ MAX_BUFFER_SIZE
  disabled : c.stream.m_active = false → .disable ∈ t
  finished : c.stream.m_finished = true → .finish ∈ t
  reading : ∀ k, c.reader = some k → Reading t c.stream k
  pushing : ∀ k, c.writer = some k → Pushing t c.stream k
  taken : delivered t <+: copied t ∧ (delivered t ++ c.held = copied t ∨ Cut c)
  given : appended t <+: pushed t ∧ (appended t ++ c.rest = pushed t ∨ Shut c)

theorem fifo_step {t : List Event} {c c' : Conf} {e : Event} (hi : Inv t c) (h : Move c e c') :
    copied (t ++ [e]) ++ c'.stream.m_buffer = appended (t ++ [e]) := by
  have hf := hi.fifo
  cases h with
  | readCopy s w n b i l _ _ _ =>
    -- what goes out is the front of the buffer
    simpa [Event.out, Event.into] using hf
  | pushAppend s r b i l _ _ _ _ =>
    simp only [carried_append, carried_single, Event.out, Event.into, List.append_nil]
    rw [← List.append_assoc, hf]
  | _ => simpa [Event.out, Event.into] using hf

theorem room_step {t : List Event} {c c' : Conf} {e : Event} (hi : Inv t c) (h : Move c e c') :
    c'.stream.m_buffer.length ≤ MAX_BUFFER_SIZE := by
  have hr := hi.room
  cases h with
  | readCopy s w n b i l _ _ _ =>
    simp only [List.length_drop]
    exact (Nat.sub_le _ _).trans hr
  | pushAppend s r b i l _ _ hm _ =>
    simp only [List.length_append, List.length_take]
    omega
  | _ => exact hr

theorem disabled_step {t : List Event} {c c' : Conf} {e : Event} (hi : Inv t c)
    (h : Move c e c') : c'.stream.m_active = false → .disable ∈ t ++ [e] := by
  intro ha
  cases h with
  | disable => simp
  | _ => exact List.mem_append_left _ (hi.disabled ha)

theorem finished_step {t : List Event} {c c' : Conf} {e : Event} (hi : Inv t c)
    (h : Move c e c') : c'.stream.m_finished = true → .finish ∈ t ++ [e] := by
  intro hf
  cases h with
  | finish => simp
  | _ => exact List.mem_append_left _ (hi.finished hf)

/-- An open read sees the steps of the other side. -/
theorem Reading.snoc {t : List Event} {s s' : Stream} {k k' : ReadCall} {e : Event}
    (h : Reading t s k) (he : e.ofRead = false) (ho : e.out = []) (hsize : k'.size = k.size)
    (hbuf : k'.buf = k.buf)
    (hexit : k'.loc = .exit → s'.stop_requested = true ∨ s'.m_active = false ∧ s'.m_buffer = [])
    (hdone : k'.loc = .done → k'.size = 0) (hasleep : k'.loc = .asleep → s'.m_buffer = []) :
    Reading (t ++ [e]) s' k' := by
  obtain ⟨n, t', hopen, hn, hc⟩ := h.since
  refine ⟨⟨n, t' ++ [e], hopen.snoc he, by rw [hsize, hbuf]; exact hn, ?_⟩, hexit, hdone, hasleep⟩
  simp only [carried_append, carried_single, ho, hc, hbuf, List.append_nil]

/-- An open push sees the steps of the other side. -/
theorem Pushing.snoc {t : List Event} {s s' : Stream} {k k' : PushCall} {e : Event}
    (h : Pushing t s k) (he : e.ofPush = false) (ho : e.into = []) (hbuf : k'.buf = k.buf)
    (hdone : k'.loc = .done → k'.buf = [] ∨ s'.m_finished = true)
    (hexit : k'.loc = .exit → s'.stop_requested = true ∨ s'.m_active = false)
    (hasleep : k'.loc = .asleep → MAX_BUFFER_SIZE ≤ s'.m_buffer.length) :
    Pushing (t ++ [e]) s' k' := by
  obtain ⟨chunk, t', hopen, hc⟩ := h.since
  refine ⟨⟨chunk, t' ++ [e], hopen.snoc he, ?_⟩, hdone, hexit, hasleep⟩
  simp only [carried_append, carried_single, ho, hbuf, List.append_nil]
  exact hc

theorem reading_step {t : List Event} {c c' : Conf} {e : Event} (hi : Inv t c) (h : Move c e c') :
    ∀ k, c'.reader = some k → Reading (t ++ [e]) c'.stream k := by
  intro k hk
  have hr := hi.reading
  cases h with
  | readCall s w n =>
    cases hk
    exact ⟨⟨n, [], Open.start _ _ _, by simp, rfl⟩, by simp, by simp, by simp⟩
  | readStop s w n b hs =>
    cases hk
    exact (hr _ rfl).snoc rfl rfl rfl rfl (fun _ => Or.inl hs) (by simp) (by simp)
  | readGo s w n b _ =>
    cases hk
    exact (hr _ rfl).snoc rfl rfl rfl rfl (by simp) (by simp) (by simp)
  | readInactive s w n b hb ha =>
    cases hk
    exact (hr _ rfl).snoc rfl rfl rfl rfl (fun _ => Or.inr ⟨ha, hb⟩) (by simp) (by simp)
  | readWait s w n b hb =>
    cases hk
    exact (hr _ rfl).snoc rfl rfl rfl rfl (by simp) (by simp) (fun _ => hb)
  | readCopy s w n b i l hin hib hl =>
    -- the call has `i` bytes more and waits for `i` bytes less
    cases hk
    obtain ⟨m, t', hopen, hm, hc⟩ := (hr _ rfl).since
    refine ⟨⟨m, t' ++ [.copied ((s.m_buffer.take i))], hopen.snoc rfl, ?_, ?_⟩, ?_, ?_, ?_⟩
    · simp only [List.length_append, List.length_take] at hm ⊢
      omega
    · simp only [carried_append, carried_single, hc]
      rfl
    · rcases hl with rfl | ⟨rfl, _⟩ <;> simp
    · rcases hl with rfl | ⟨rfl, rfl⟩ <;> simp
    · rcases hl with rfl | ⟨rfl, _⟩ <;> simp
  | readWoken s w n b =>
    cases hk
    exact (hr _ rfl).snoc rfl rfl rfl rfl (by simp) (by simp) (by simp)
  | readAgain s w n b =>
    cases hk
    exact (hr _ rfl).snoc rfl rfl rfl rfl (by simp) (by simp) (by simp)
  | readShort => cases hk
  | readFail => cases hk
  | readDone => cases hk
  | pushAppend s r b i l _ ha _ _ =>
    -- an append wakes the reader; the stream is active
    obtain ⟨k₀, hk₀, rfl⟩ := Option.map_eq_some_iff.mp hk
    have h₀ := hr k₀ hk₀
    refine h₀.snoc rfl rfl rfl rfl ?_ ?_ ?_
    · intro hx
      rcases h₀.exit (eq_of_wake hx (by decide)) with hs | ⟨hs, -⟩
      · exact Or.inl hs
      · rw [ha] at hs
        cases hs
    · exact fun hx => h₀.done (eq_of_wake hx (by decide))
    · exact fun hx => absurd hx (wake_ne_asleep (by decide) _)
  | disable s r w =>
    obtain ⟨k₀, hk₀, rfl⟩ := Option.map_eq_some_iff.mp hk
    have h₀ := hr k₀ hk₀
    refine h₀.snoc rfl rfl rfl rfl ?_ (fun hx => h₀.done (eq_of_wake hx (by decide)))
      fun hx => absurd hx (wake_ne_asleep (by decide) _)
    intro hx
    rcases h₀.exit (eq_of_wake hx (by decide)) with hs | ⟨_, hb⟩
    · exact Or.inl hs
    · exact Or.inr ⟨rfl, hb⟩
  | finish s r w =>
    obtain ⟨k₀, hk₀, rfl⟩ := Option.map_eq_some_iff.mp hk
    have h₀ := hr k₀ hk₀
    exact h₀.snoc rfl rfl rfl rfl (fun hx => h₀.exit (eq_of_wake hx (by decide)))
      (fun hx => h₀.done (eq_of_wake hx (by decide)))
      fun hx => absurd hx (wake_ne_asleep (by decide) _)
  | stop s r w =>
    have h₀ := hr k hk
    exact h₀.snoc rfl rfl rfl rfl (fun _ => Or.inl rfl) h₀.done h₀.asleep
  | _ =>
    have h₀ := hr k hk
    exact h₀.snoc rfl rfl rfl rfl h₀.exit h₀.done h₀.asleep

theorem pushing_step {t : List Event} {c c' : Conf} {e : Event} (hi : Inv t c) (h : Move c e c') :
    ∀ k, c'.writer = some k → Pushing (t ++ [e]) c'.stream k := by
  intro k hk
  have hw := hi.pushing
  cases h with
  | pushCall s r b l hl =>
    cases hk
    refine ⟨⟨b, [], Open.start _ _ _, rfl⟩, ?_, ?_, ?_⟩
    · rcases hl with rfl | ⟨rfl, hb⟩
      · simp
      · exact fun _ => Or.inl hb
    · rcases hl with rfl | ⟨rfl, _⟩ <;> simp
    · rcases hl with rfl | ⟨rfl, _⟩ <;> simp
  | pushStop s r b hs =>
    cases hk
    exact (hw _ rfl).snoc rfl rfl rfl (by simp) (fun _ => Or.inl hs) (by simp)
  | pushGo s r b _ =>
    cases hk
    exact (hw _ rfl).snoc rfl rfl rfl (by simp) (by simp) (by simp)
  | pushFinished s r b hf =>
    cases hk
    exact (hw _ rfl).snoc rfl rfl rfl (fun _ => Or.inr hf) (by simp) (by simp)
  | pushInactive s r b ha =>
    cases hk
    exact (hw _ rfl).snoc rfl rfl rfl (by simp) (fun _ => Or.inr ha) (by simp)
  | pushWait s r b hm =>
    cases hk
    exact (hw _ rfl).snoc rfl rfl rfl (by simp) (by simp) (fun _ => hm)
  | pushAppend s r b i l _ _ _ hl =>
    -- the front of the rest goes into the buffer
    cases hk
    obtain ⟨chunk, t', hopen, hc⟩ := (hw _ rfl).since
    refine ⟨⟨chunk, t' ++ [.appended (b.take i)], hopen.snoc rfl, ?_⟩, ?_, ?_, ?_⟩
    · simp only [carried_append, carried_single, List.append_assoc, Event.into,
        List.take_append_drop]
      exact hc
    · rcases hl with rfl | ⟨rfl, hb⟩
      · simp
      · exact fun _ => Or.inl hb
    · rcases hl with rfl | ⟨rfl, _⟩ <;> simp
    · rcases hl with rfl | ⟨rfl, _⟩ <;> simp
  | pushWoken s r b =>
    cases hk
    exact (hw _ rfl).snoc rfl rfl rfl (by simp) (by simp) (by simp)
  | pushAgain s r b =>
    cases hk
    exact (hw _ rfl).snoc rfl rfl rfl (by simp) (by simp) (by simp)
  | pushFail => cases hk
  | pushDone => cases hk
  | readCopy s w n b i l _ _ _ =>
    obtain ⟨k₀, hk₀, rfl⟩ := Option.map_eq_some_iff.mp hk
    have h₀ := hw k₀ hk₀
    exact h₀.snoc rfl rfl rfl (fun hx => h₀.done (eq_of_wake hx (by decide)))
      (fun hx => h₀.exit (eq_of_wake hx (by decide)))
      fun hx => absurd hx (wake_ne_asleep (by decide) _)
  | disable s r w =>
    obtain ⟨k₀, hk₀, rfl⟩ := Option.map_eq_some_iff.mp hk
    have h₀ := hw k₀ hk₀
    exact h₀.snoc rfl rfl rfl (fun hx => h₀.done (eq_of_wake hx (by decide)))
      (fun _ => Or.inr rfl) fun hx => absurd hx (wake_ne_asleep (by decide) _)
  | finish s r w =>
    obtain ⟨k₀, hk₀, rfl⟩ := Option.map_eq_some_iff.mp hk
    have h₀ := hw k₀ hk₀
    exact h₀.snoc rfl rfl rfl (fun _ => Or.inr rfl)
      (fun hx => h₀.exit (eq_of_wake hx (by decide)))
      fun hx => absurd hx (wake_ne_asleep (by decide) _)
  | stop s r w =>
    have h₀ := hw k hk
    exact h₀.snoc rfl rfl rfl h₀.done (fun _ => Or.inl rfl) h₀.asleep
  | _ =>
    have h₀ := hw k hk
    exact h₀.snoc rfl rfl rfl h₀.done h₀.exit h₀.asleep

/-- A waking reader keeps what it holds. -/
@[simp] theorem held_woken (s s' : Stream) (r : Option ReadCall) (w w' : Option PushCall) :
    Conf.held ⟨s, wokenReader r, w⟩ = Conf.held ⟨s', r, w'⟩ := by
  cases r <;> rfl

/-- A waking writer keeps what it has to go. -/
@[simp] theorem rest_woken (s s' : Stream) (r r' : Option ReadCall) (w : Option PushCall) :
    Conf.rest ⟨s, r, wokenWriter w⟩ = Conf.rest ⟨s', r', w⟩ := by
  cases w <;> rfl

theorem Cut.woken {s s' : Stream} {r : Option ReadCall} {w w' : Option PushCall}
    (h : Cut ⟨s, r, w⟩) (hs : s'.stop_requested = s.stop_requested) :
    Cut ⟨s', wokenReader r, w'⟩ := by
  refine ⟨hs.trans h.1, fun k hk => ?_⟩
  obtain ⟨k₀, hk₀, rfl⟩ := Option.map_eq_some_iff.mp hk
  obtain ⟨h1, h2⟩ := h.2 k₀ hk₀
  exact ⟨fun hx => h1 (eq_of_wake hx (by decide)), fun hx => h2 (eq_of_wake hx (by decide))⟩

/-- The reader's part of the invariant under a step that moves nothing on its side. -/
theorem taken_of_quiet {t : List Event} {c c' : Conf} {e : Event} (hi : Inv t c)
    (hh : e.handed = []) (ho : e.out = []) (hheld : c'.held = c.held) (hcut : Cut c → Cut c') :
    delivered (t ++ [e]) <+: copied (t ++ [e]) ∧
      (delivered (t ++ [e]) ++ c'.held = copied (t ++ [e]) ∨ Cut c') := by
  simp only [carried_append, carried_single, hh, ho, List.append_nil, hheld]
  exact ⟨hi.taken.1, hi.taken.2.imp_right hcut⟩

/-- What was handed over is the front of what was copied out, and all of it until a read
gives up on the stop request. -/
theorem taken_step {t : List Event} {c c' : Conf} {e : Event} (hi : Inv t c) (h : Move c e c') :
    delivered (t ++ [e]) <+: copied (t ++ [e]) ∧
      (delivered (t ++ [e]) ++ c'.held = copied (t ++ [e]) ∨ Cut c') := by
  obtain ⟨hp, hd⟩ := hi.taken
  cases h with
  | readCall s w n => exact taken_of_quiet hi rfl rfl rfl fun hc => ⟨hc.1, by simp⟩
  | readStop s w n b _ => exact taken_of_quiet hi rfl rfl rfl fun hc => ⟨hc.1, by simp⟩
  | readGo s w n b hs =>
    refine taken_of_quiet hi rfl rfl rfl fun hc => ?_
    rw [hc.1] at hs
    cases hs
  | readInactive => exact taken_of_quiet hi rfl rfl rfl fun hc => absurd rfl (hc.2 _ rfl).1
  | readWait => exact taken_of_quiet hi rfl rfl rfl fun hc => absurd rfl (hc.2 _ rfl).1
  | readCopy s w n b i l _ _ _ =>
    simp only [carried_append, carried_single, Event.handed, Event.out, List.append_nil]
    rcases hd with hd | hd
    · have hd' : delivered t ++ (b ++ s.m_buffer.take i) = copied t ++ s.m_buffer.take i := by
        rw [← List.append_assoc, ← hd]
        rfl
      exact ⟨hp.trans (List.prefix_append _ _), Or.inl hd'⟩
    · exact absurd rfl (hd.2 _ rfl).1
  | readWoken => exact taken_of_quiet hi rfl rfl rfl fun hc => ⟨hc.1, by simp⟩
  | readAgain => exact taken_of_quiet hi rfl rfl rfl fun hc => ⟨hc.1, by simp⟩
  | readShort s w n b hs =>
    rcases hd with hd | hd
    · have hd' : delivered t ++ b = copied t := hd
      refine ⟨?_, Or.inl ?_⟩ <;> simp [Event.handed, Event.out, Conf.held, hd']
    · rw [hd.1] at hs
      cases hs
  | readFail s w n b hs =>
    simp only [carried_append, carried_single, Event.handed, Event.out, List.append_nil]
    refine ⟨hp, ?_⟩
    rcases hd with hd | hd
    · rcases hs with rfl | hs
      · exact Or.inl hd
      · exact Or.inr ⟨hs, by simp⟩
    · exact Or.inr ⟨hd.1, by simp⟩
  | readDone s w n b =>
    rcases hd with hd | hd
    · have hd' : delivered t ++ b = copied t := hd
      refine ⟨?_, Or.inl ?_⟩ <;> simp [Event.handed, Event.out, Conf.held, hd']
    · exact absurd rfl (hd.2 _ rfl).2
  | pushAppend => exact taken_of_quiet hi rfl rfl (held_woken _ _ _ _ _) fun hc => hc.woken rfl
  | disable => exact taken_of_quiet hi rfl rfl (held_woken _ _ _ _ _) fun hc => hc.woken rfl
  | finish => exact taken_of_quiet hi rfl rfl (held_woken _ _ _ _ _) fun hc => hc.woken rfl
  | stop => exact taken_of_quiet hi rfl rfl rfl fun hc => ⟨rfl, hc.2⟩
  | _ => exact taken_of_quiet hi rfl rfl rfl id

theorem Shut.woken {s s' : Stream} {r r' : Option ReadCall} {w : Option PushCall}
    (h : Shut ⟨s, r, w⟩) (hs : s'.stop_requested = s.stop_requested)
    (ha : s.m_active = false → s'.m_active = false)
    (hf : s.m_finished = true → s'.m_finished = true) : Shut ⟨s', r', wokenWriter w⟩ := by
  rcases h with h | h | ⟨h, hb⟩
  · exact Or.inl (ha h)
  · exact Or.inr (Or.inl (hf h))
  · refine Or.inr (Or.inr ⟨hs.trans h, fun k hk => ?_⟩)
    obtain ⟨k₀, hk₀, rfl⟩ := Option.map_eq_some_iff.mp hk
    exact fun hx => hb k₀ hk₀ (eq_of_wake hx (by decide))

/-- The stream stays shut while the writer is not past its test. -/
theorem Shut.move {s : Stream} {r r' : Option ReadCall} {w w' : Option PushCall}
    (h : Shut ⟨s, r, w⟩) (hw : ∀ k, w' = some k → k.loc ≠ .body) : Shut ⟨s, r', w'⟩ := by
  rcases h with h | h | ⟨h, -⟩
  · exact Or.inl h
  · exact Or.inr (Or.inl h)
  · exact Or.inr (Or.inr ⟨h, hw⟩)

/-- The writer's part of the invariant under a step that moves nothing on its side. -/
theorem given_of_quiet {t : List Event} {c c' : Conf} {e : Event} (hi : Inv t c)
    (hh : e.into = []) (ho : e.given = []) (hrest : c'.rest = c.rest) (hshut : Shut c → Shut c') :
    appended (t ++ [e]) <+: pushed (t ++ [e]) ∧
      (appended (t ++ [e]) ++ c'.rest = pushed (t ++ [e]) ∨ Shut c') := by
  simp only [carried_append, carried_single, hh, ho, List.append_nil, hrest]
  exact ⟨hi.given.1, hi.given.2.imp_right hshut⟩

/-- A `Push` that returns leaves nothing behind, or the stream is shut. -/
theorem given_of_return {t : List Event} {s : Stream} {r : Option ReadCall} {k : PushCall}
    {e : Event} (hi : Inv t ⟨s, r, some k⟩) (hh : e.into = []) (ho : e.given = [])
    (hk : k.buf = [] ∨ s.m_finished = true ∨ s.m_active = false ∨ s.stop_requested = true) :
    appended (t ++ [e]) <+: pushed (t ++ [e]) ∧
      (appended (t ++ [e]) ++ Conf.rest ⟨s, r, none⟩ = pushed (t ++ [e]) ∨ Shut ⟨s, r, none⟩) := by
  simp only [carried_append, carried_single, hh, ho, List.append_nil]
  refine ⟨hi.given.1, ?_⟩
  rcases hk with hk | hk | hk | hk
  · refine hi.given.2.imp (fun hg => ?_) fun hg => hg.move (by simp)
    have hg' : appended t ++ k.buf = pushed t := hg
    rw [hk] at hg'
    exact hg'
  · exact Or.inr (Or.inr (Or.inl hk))
  · exact Or.inr (Or.inl hk)
  · exact Or.inr (Or.inr (Or.inr ⟨hk, by simp⟩))

/-- What was appended is the front of what the transport pushed, and all of it until a push
is given up. -/
theorem given_step {t : List Event} {c c' : Conf} {e : Event} (hi : Inv t c) (h : Move c e c') :
    appended (t ++ [e]) <+: pushed (t ++ [e]) ∧
      (appended (t ++ [e]) ++ c'.rest = pushed (t ++ [e]) ∨ Shut c') := by
  obtain ⟨hp, hd⟩ := hi.given
  cases h with
  | pushCall s r b l hl =>
    simp only [carried_append, carried_single, Event.into, Event.given, List.append_nil]
    refine ⟨hp.trans (List.prefix_append _ _), hd.imp (fun hg => ?_) fun hg => hg.move ?_⟩
    · have hg' : carried Event.into t = carried Event.given t := by simpa [Conf.rest] using hg
      rw [hg']
      rfl
    · intro k hk
      cases hk
      rcases hl with rfl | ⟨rfl, _⟩ <;> simp
  | pushStop => exact given_of_quiet hi rfl rfl rfl fun hc => hc.move (by simp)
  | pushGo s r b hs =>
    refine given_of_quiet hi rfl rfl rfl fun hc => ?_
    rcases hc with hc | hc | hc
    · exact Or.inl hc
    · exact Or.inr (Or.inl hc)
    · rw [hc.1] at hs
      cases hs
  | pushFinished => exact given_of_quiet hi rfl rfl rfl fun hc => hc.move (by simp)
  | pushInactive => exact given_of_quiet hi rfl rfl rfl fun hc => hc.move (by simp)
  | pushWait => exact given_of_quiet hi rfl rfl rfl fun hc => hc.move (by simp)
  | pushAppend s r b i l hf ha _ _ =>
    -- the stream is not shut: the writer is past its test, and both flags were read
    have hnot : ¬ Shut ⟨s, r, some ⟨.body, b⟩⟩ := by
      rintro (h | h | h)
      · rw [ha] at h
        cases h
      · rw [hf] at h
        cases h
      · exact h.2 _ rfl rfl
    have hg : appended t ++ b = pushed t := hd.resolve_right hnot
    simp only [carried_append, carried_single, Event.into, Event.given, List.append_nil]
    have hall : appended t ++ b.take i ++ b.drop i = pushed t := by
      rw [List.append_assoc, List.take_append_drop, hg]
    exact ⟨⟨b.drop i, hall⟩, Or.inl hall⟩
  | pushWoken => exact given_of_quiet hi rfl rfl rfl fun hc => hc.move (by simp)
  | pushAgain => exact given_of_quiet hi rfl rfl rfl fun hc => hc.move (by simp)
  | pushFail s r b =>
    refine given_of_return hi rfl rfl ?_
    rcases (hi.pushing _ rfl).exit rfl with h | h
    · exact Or.inr (Or.inr (Or.inr h))
    · exact Or.inr (Or.inr (Or.inl h))
  | pushDone s r b =>
    refine given_of_return hi rfl rfl ?_
    rcases (hi.pushing _ rfl).done rfl with h | h
    · exact Or.inl h
    · exact Or.inr (Or.inl h)
  | readCopy =>
    exact given_of_quiet hi rfl rfl (rest_woken _ _ _ _ _) fun hc => hc.woken rfl id id
  | disable =>
    exact given_of_quiet hi rfl rfl (rest_woken _ _ _ _ _) fun hc => hc.woken rfl (fun _ => rfl) id
  | finish =>
    exact given_of_quiet hi rfl rfl (rest_woken _ _ _ _ _) fun hc => hc.woken rfl id fun _ => rfl
  | stop s r w =>
    refine given_of_quiet hi rfl rfl rfl fun hc => ?_
    rcases hc with hc | hc | hc
    · exact Or.inl hc
    · exact Or.inr (Or.inl hc)
    · exact Or.inr (Or.inr ⟨rfl, hc.2⟩)
  | _ => exact given_of_quiet hi rfl rfl rfl id

/-- Every run keeps the invariant. -/
theorem Inv.of_runs {t : List Event} {c : Conf} (h : Runs t c) : Inv t c := by
  refine h.invariant ?_ ?_
  · rintro _ ⟨b, rfl⟩
    exact ⟨rfl, Nat.zero_le _, by simp, by simp, by simp, by simp, by simp [Conf.held],
      by simp [Conf.rest]⟩
  · intro t c a e c' hi hs
    have hm := step_move hs
    exact ⟨fifo_step hi hm, room_step hi hm, disabled_step hi hm, finished_step hi hm,
      reading_step hi hm, pushing_step hi hm, taken_step hi hm, given_step hi hm⟩

/-! ## The stream is a faithful queue -/

/-- A successful push appended all of its chunk, once, unless the install had finished. -/
theorem push_appends {t : List Event} {c c' : Conf} (hi : Inv t c) (h : Move c (.pushReturn true) c')
    (hf : .finish ∉ t) :
    ∃ chunk t', Open Event.ofPush (.pushCall chunk) t t' ∧ appended t' = chunk := by
  cases h with
  | pushDone s r b =>
    have hk := hi.pushing _ rfl
    obtain ⟨chunk, t', hopen, hc⟩ := hk.since
    refine ⟨chunk, t', hopen, ?_⟩
    rcases hk.done rfl with hb | hb
    · simpa [show b = [] from hb] using hc
    · exact absurd (hi.finished hb) hf

/-- What a successful read returns was copied out during the call; it is short only after
`Disable`, with everything appended so far handed over. -/
theorem read_returns {t : List Event} {c c' : Conf} {bs : Bytes} (hi : Inv t c)
    (h : Move c (.readReturn (some bs)) c') :
    ∃ n t', Open Event.ofRead (.readCall n) t t' ∧ copied t' = bs ∧ bs.length ≤ n ∧
      (bs.length < n → .disable ∈ t ∧ delivered t ++ bs = appended t) := by
  cases h with
  | readShort s w n _ hs =>
    have hk := hi.reading _ rfl
    obtain ⟨m, t', hopen, hm, hc⟩ := hk.since
    refine ⟨m, t', hopen, hc, by simp only at hm; omega, fun _ => ?_⟩
    have hcut : ¬ Cut ⟨s, some ⟨.exit, n, bs⟩, w⟩ := fun hx => by
      rw [hx.1] at hs
      cases hs
    have hd : delivered t ++ bs = copied t := hi.taken.2.resolve_right hcut
    rcases hk.exit rfl with hx | ⟨ha, hb⟩
    · rw [hx] at hs
      cases hs
    · refine ⟨hi.disabled ha, ?_⟩
      have hf := hi.fifo
      rw [hb, List.append_nil] at hf
      rw [hd, hf]
  | readDone s w n _ =>
    have hk := hi.reading _ rfl
    obtain ⟨m, t', hopen, hm, hc⟩ := hk.since
    have hz : n = 0 := hk.done rfl
    have hlen : bs.length = m := by simpa [hz] using hm
    exact ⟨m, t', hopen, hc, by omega, fun hlt => by omega⟩

/-- Both threads wait for each other in no state of a run. -/
theorem not_both_asleep {t : List Event} {c : Conf} (hi : Inv t c) {k : ReadCall} {k' : PushCall}
    (hr : c.reader = some k) (hw : c.writer = some k') :
    k.loc ≠ .asleep ∨ k'.loc ≠ .asleep := by
  by_contra h
  rw [not_or, not_not, not_not] at h
  have h0 := (hi.reading k hr).asleep h.1
  have hm := (hi.pushing k' hw).asleep h.2
  rw [h0] at hm
  exact absurd hm (by decide)

/-- A thread that is not asleep in its call can go on. -/
theorem reader_enabled {c : Conf} {k : ReadCall} (hr : c.reader = some k) (hl : k.loc ≠ .asleep) :
    step c .reader ≠ none := by
  obtain ⟨l, n, b⟩ := k
  simp only [step, hr, Option.bind_some]
  cases l <;> simp_all [ReadChunk]

theorem writer_enabled {c : Conf} {k : PushCall} (hw : c.writer = some k) (hl : k.loc ≠ .asleep) :
    step c .writer ≠ none := by
  obtain ⟨l, b⟩ := k
  simp only [step, hw, Option.bind_some]
  cases l <;> simp_all [Push]

/-- **The stream is a faithful queue.** In every run the bytes handed over are an in-order
front of the bytes pushed, the buffer keeps its bound, a successful push before `Finish`
appended its chunk once, a short read comes only after `Disable` and with nothing appended
left out, and two open calls never wait for each other: one of the threads can go on without
its timeout. -/
theorem stream_is_fifo (t : List Event) (c : Conf) (h : Runs t c) :
    delivered t <+: pushed t ∧ copied t <+: pushed t ∧
      c.stream.m_buffer.length ≤ MAX_BUFFER_SIZE ∧
      (∀ t₁ t₂, t = t₁ ++ .pushReturn true :: t₂ → .finish ∉ t₁ →
        ∃ chunk t', Open Event.ofPush (.pushCall chunk) t₁ t' ∧ appended t' = chunk) ∧
      (∀ t₁ t₂ bs, t = t₁ ++ .readReturn (some bs) :: t₂ →
        ∃ n t', Open Event.ofRead (.readCall n) t₁ t' ∧ copied t' = bs ∧ bs.length ≤ n ∧
          (bs.length < n → .disable ∈ t₁ ∧ delivered t₁ ++ bs = appended t₁)) ∧
      (c.reader ≠ none → c.writer ≠ none → step c .reader ≠ none ∨ step c .writer ≠ none) := by
  have hi := Inv.of_runs h
  have hcopied : copied t <+: pushed t := by
    refine List.IsPrefix.trans ?_ hi.given.1
    rw [← hi.fifo]
    exact List.prefix_append _ _
  refine ⟨hi.taken.1.trans hcopied, hcopied, hi.room, ?_, ?_, ?_⟩
  · intro t₁ t₂ ht hf
    obtain ⟨s₁, a, s₂, h₁, hs⟩ := h.split ht
    exact push_appends (Inv.of_runs h₁) (step_move hs) hf
  · intro t₁ t₂ bs ht
    obtain ⟨s₁, a, s₂, h₁, hs⟩ := h.split ht
    exact read_returns (Inv.of_runs h₁) (step_move hs)
  · intro hr hw
    obtain ⟨k, hk⟩ := Option.ne_none_iff_exists'.mp hr
    obtain ⟨k', hk'⟩ := Option.ne_none_iff_exists'.mp hw
    rcases not_both_asleep hi hk hk' with hl | hl
    · exact Or.inl (reader_enabled hk hl)
    · exact Or.inr (writer_enabled hk' hl)

/-- A transfer of three bytes, read by one call that asks for five and is ended by `Disable`
while it waits. -/
def shortTransfer : List Action :=
  [.push [1, 2, 3], .writer, .writer, .writer, .readChunk 5, .reader, .reader, .reader, .reader,
    .disable, .reader, .reader, .reader, .reader]

/-- What the short transfer shows. -/
def shortTrace : List Event :=
  [.pushCall [1, 2, 3], .tau, .appended [1, 2, 3], .pushReturn true, .readCall 5, .tau,
    .copied [1, 2, 3], .tau, .tau, .disable, .tau, .tau, .tau, .readReturn (some [1, 2, 3])]

theorem shortTransfer_runs : Runs shortTrace { stream := { m_active := false } } :=
  Trace.exec shortTransfer (.nil ⟨false, rfl⟩) (by decide)

theorem stream_is_fifo_short :
    delivered shortTrace <+: pushed shortTrace ∧
      ∃ n t', Open Event.ofRead (.readCall n) (shortTrace.take 13) t' ∧ copied t' = [1, 2, 3] ∧
        3 ≤ n ∧ (3 < n → .disable ∈ shortTrace.take 13 ∧
          delivered (shortTrace.take 13) ++ [1, 2, 3] = appended (shortTrace.take 13)) := by
  have h := stream_is_fifo shortTrace _ shortTransfer_runs
  exact ⟨h.1, h.2.2.2.2.1 (shortTrace.take 13) [] [1, 2, 3] rfl⟩

end MtpStream
