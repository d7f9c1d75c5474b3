/-
# A stopped menu lets its callbacks return

Once the stop of the menu has been requested, the transport thread goes on by itself until the
callback it is in returns: `WaitForIdle` looks at the token in every round, and a `Push` that sleeps
goes on by its timeout.
-/
import AioMod.MtpMenuSpec

namespace MtpMenu

open Traces

/-! ## What a step of a stream leaves alone -/

/-- The actions of the thread that pushes. -/
def ofWriter : MtpStream.Action → Bool
  | .push _ => true
  | .writer => true
  | .writerTimeout => true
  | _ => false

/-- The other side leaves an open `Push` open. -/
theorem writer_kept {s s' : MtpStream.Conf} {a : MtpStream.Action} {e : MtpStream.Event}
    (h : MtpStream.step s a = some (e, s')) (ha : ofWriter a = false) :
    s'.writer.isSome = s.writer.isSome := by
  cases a with
  | readChunk n =>
    simp only [MtpStream.step] at h
    split at h <;> cases h
    rfl
  | reader =>
    obtain ⟨k, -, h⟩ := Option.bind_eq_some_iff.mp h
    unfold MtpStream.ReadChunk at h
    split at h
    · cases h
      rfl
    · have h := Option.some.inj h
      unfold MtpStream.readSection at h
      split at h
      · split at h <;> cases h <;> rfl
      · cases h
        exact Option.isSome_map
    · cases h
    · cases h
      rfl
    · cases h
      rfl
    · cases h
      rfl
  | readerTimeout =>
    simp only [MtpStream.step] at h
    split at h
    · split at h <;> cases h
      rfl
    · cases h
  | push chunk => cases ha
  | writer => cases ha
  | writerTimeout => cases ha
  | disable =>
    cases h
    exact Option.isSome_map
  | finish =>
    cases h
    exact Option.isSome_map
  | stop =>
    cases h
    rfl

theorem writer_push {s s' : MtpStream.Conf} {chunk : Bytes} {e : MtpStream.Event}
    (h : MtpStream.step s (.push chunk) = some (e, s')) : s'.writer.isSome = true := by
  simp only [MtpStream.step] at h
  split at h <;> cases h
  rfl

/-- An open `Push` is open until it returns. -/
theorem writer_open {s s' : MtpStream.Conf} {e : MtpStream.Event} (h : MtpStream.Move s e s')
    (hw : s.writer.isSome = true) : s'.writer.isSome = false ↔ ∃ ok, e = .pushReturn ok := by
  cases h with
  | pushCall => cases hw
  | pushFail s r b => exact ⟨fun _ => ⟨false, rfl⟩, fun _ => rfl⟩
  | pushDone s r b => exact ⟨fun _ => ⟨true, rfl⟩, fun _ => rfl⟩
  | readCopy => simp_all
  | disable => simp_all
  | finish => simp_all
  | _ => simp_all

/-- A stop request stays. -/
theorem stop_kept {s s' : MtpStream.Conf} {e : MtpStream.Event} (h : MtpStream.Move s e s')
    (hs : s.stream.stop_requested = true) : s'.stream.stop_requested = true := by
  cases h with
  | stop => rfl
  | _ => exact hs

/-! ## The streams of a menu -/

/-- The stream a call is going to use. -/
def Transport.target : Transport → Option ℕ
  | writeTo _ s _ => s
  | pushing _ i => some i
  | disabling _ s => s
  | _ => none

/-- The transport thread is in no callback. -/
def Transport.quiet : Transport → Bool
  | idle => true
  | opened _ => true
  | _ => false

/-- The sources that are known are there, the open `Push` is the one of the transport thread, and
a stop request has reached every stream. -/
structure Wired (c : Conf) : Prop where
  source : ∀ i, c.m_source = some i → i < c.sources.length
  target : ∀ i, c.transport.target = some i → i < c.sources.length
  writer : ∀ i s, c.sources[i]? = some s →
    (s.conf.writer.isSome = true ↔ ∃ f, c.transport = .pushing f i)
  stopped : c.stop_requested = true → ∀ s ∈ c.sources, s.conf.stream.stop_requested = true

theorem Wired.initial : Wired {} := ⟨nofun, nofun, nofun, fun _ => nofun⟩

/-- The entry of a callback, when none is running. -/
theorem Wired.enter {c : Conf} (h : Wired c) (hq : c.transport.quiet = true) {tr : Transport}
    (ht : tr.target = none) : Wired { c with transport := tr } := by
  refine ⟨h.source, ?_, ?_, h.stopped⟩
  · intro i hi
    exact absurd (ht.symm.trans hi) nofun
  · intro i s hs
    rw [h.writer i s hs]
    constructor
    · rintro ⟨f, hf⟩
      rw [hf] at hq
      cases hq
    · rintro ⟨f, hf⟩
      dsimp only at hf
      rw [hf] at ht
      cases ht

/-- The stream of a step and the ones beside it. -/
theorem StreamStep.get {c : Conf} {i j : ℕ} {a : MtpStream.Action} {e : MtpStream.Event}
    {sources : List Source} (h : StreamStep c i a e sources) {s : Source}
    (hs : sources[j]? = some s) :
    (j ≠ i ∧ c.sources[j]? = some s) ∨
      (j = i ∧ ∃ s₀, c.sources[i]? = some s₀ ∧ MtpStream.step s₀.conf a = some (e, s.conf)) := by
  obtain ⟨s₀, conf, hs₀, hm, rfl⟩ := h.step
  by_cases hj : j = i
  · right
    subst hj
    rw [List.getElem?_set_self (List.getElem?_eq_some_iff.mp hs₀).1] at hs
    cases hs
    exact ⟨rfl, s₀, hs₀, hm⟩
  · left
    rw [List.getElem?_set_ne (Ne.symm hj)] at hs
    exact ⟨hj, hs⟩

/-- A stop request stays in every stream. -/
theorem StreamStep.stopped {c : Conf} {i : ℕ} {a : MtpStream.Action} {e : MtpStream.Event}
    {sources : List Source} (h : StreamStep c i a e sources)
    (hc : ∀ s ∈ c.sources, s.conf.stream.stop_requested = true) :
    ∀ s ∈ sources, s.conf.stream.stop_requested = true := by
  intro s hs
  obtain ⟨j, hj⟩ := List.mem_iff_getElem?.mp hs
  rcases h.get hj with ⟨-, hs₀⟩ | ⟨-, s₀, hs₀, hm⟩
  · exact hc s (List.mem_of_getElem? hs₀)
  · exact stop_kept (MtpStream.step_move hm) (hc s₀ (List.mem_of_getElem? hs₀))

/-- A step of a stream that is not one of the pushing thread. -/
theorem Wired.stream {c : Conf} (h : Wired c) {i : ℕ} {a : MtpStream.Action} {e : MtpStream.Event}
    {sources : List Source} (hs : StreamStep c i a e sources) (ha : ofWriter a = false) :
    Wired { c with sources } := by
  refine ⟨?_, ?_, ?_, fun hst => hs.stopped (h.stopped hst)⟩
  · intro j hj
    exact hs.length ▸ h.source j hj
  · intro j hj
    exact hs.length ▸ h.target j hj
  · intro j s hj
    rcases hs.get hj with ⟨-, hs₀⟩ | ⟨rfl, s₀, hs₀, hm⟩
    · exact h.writer j s hs₀
    · rw [writer_kept hm ha]
      exact h.writer j s₀ hs₀

/-- A change of the transport thread that is not about a `Push`. -/
theorem Wired.transport {c : Conf} (h : Wired c) {tr : Transport}
    (hc : ∀ f i, c.transport ≠ .pushing f i) (hp : ∀ f i, tr ≠ .pushing f i)
    (ht : ∀ i, tr.target = some i → i < c.sources.length) : Wired { c with transport := tr } := by
  refine ⟨h.source, ht, ?_, h.stopped⟩
  intro i s hs
  rw [h.writer i s hs]
  constructor
  · rintro ⟨f, hf⟩
    exact absurd hf (hc f i)
  · rintro ⟨f, hf⟩
    exact absurd hf (hp f i)

theorem behindPush_target {file i j : ℕ} {e : MtpStream.Event}
    (h : (behindPush file i e).target = some j) : j = i := by
  cases e <;> cases h <;> rfl

theorem behindPush_pushing {file i f j : ℕ} {e : MtpStream.Event} :
    behindPush file i e = .pushing f j ↔ f = file ∧ j = i ∧ ∀ ok, e ≠ .pushReturn ok := by
  cases e <;> simp [behindPush, eq_comm]

/-- The menu stays wired. -/
theorem Wired.step {c c' : Conf} {e : Event} (h : Wired c) (hm : Move c e c') : Wired c' := by
  cases hm with
  | callStart path ht => exact h.transport (by rw [ht]; exact nofun) nofun nofun
  | startWait path l l' ht => exact h.transport (by rw [ht]; exact nofun) nofun nofun
  | startIdle path l ht hb => exact h.transport (by rw [ht]; exact nofun) nofun nofun
  | startRefused ht hs =>
    refine h.transport ?_ nofun nofun
    intro f i hp
    rw [hp] at ht
    cases ht
  -- the new stream has no writer yet
  | connect path ht hs =>
    refine ⟨?_, nofun, ?_, fun hst => absurd (hs.symm.trans hst) nofun⟩
    · rintro i ⟨⟩
      rw [List.length_append, List.length_singleton]
      exact Nat.lt_succ_self _
    · intro i s hi
      rcases Nat.lt_or_ge i c.sources.length with hlt | hge
      · rw [List.getElem?_append_left hlt] at hi
        rw [h.writer i s hi, ht]
        exact ⟨nofun, nofun⟩
      · rw [List.getElem?_append_right hge, List.getElem?_singleton] at hi
        split at hi <;> cases hi
        exact ⟨nofun, nofun⟩
  | callWrite file buf ht => exact h.transport (by rw [ht]; exact nofun) nofun nofun
  | writeSource file buf ht =>
    exact h.transport (by rw [ht]; exact nofun) nofun h.source
  | writeNone file buf ht => exact h.transport (by rw [ht]; exact nofun) nofun nofun
  | pushCall file i buf e sources ht hs =>
    have hi : i < c.sources.length := h.target i (by rw [ht]; rfl)
    refine ⟨?_, ?_, ?_, fun hst => hs.stopped (h.stopped hst)⟩
    · intro j hj
      exact hs.length ▸ h.source j hj
    · rintro j ⟨⟩
      exact hs.length ▸ hi
    · intro j s hj
      rcases hs.get hj with ⟨hji, hs₀⟩ | ⟨rfl, s₀, hs₀, hm⟩
      · rw [h.writer j s hs₀, ht]
        constructor
        · exact nofun
        · rintro ⟨f, hf⟩
          cases hf
          exact absurd rfl hji
      · -- the call opens the `Push`
        refine ⟨fun _ => ⟨file, rfl⟩, fun _ => ?_⟩
        exact writer_push hm
  -- the stream has its writer, and the transport thread pushes, until `Push` returns
  | push file i a e sources ht ha hs =>
    have hi : i < c.sources.length := h.target i (by rw [ht]; rfl)
    refine ⟨?_, ?_, ?_, fun hst => hs.stopped (h.stopped hst)⟩
    · intro j hj
      exact hs.length ▸ h.source j hj
    · intro j hj
      rw [behindPush_target hj]
      exact hs.length ▸ hi
    · intro j s hj
      simp only [behindPush_pushing]
      rcases hs.get hj with ⟨hji, hs₀⟩ | ⟨rfl, s₀, hs₀, hm⟩
      · rw [h.writer j s hs₀, ht]
        constructor
        · rintro ⟨f, hf⟩
          cases hf
          exact absurd rfl hji
        · rintro ⟨f, -, hf, -⟩
          exact absurd hf hji
      · have hopen : s₀.conf.writer.isSome = true := (h.writer j s₀ hs₀).mpr ⟨file, ht⟩
        have hret := writer_open (MtpStream.step_move hm) hopen
        constructor
        · intro hw
          refine ⟨file, rfl, rfl, ?_⟩
          intro ok hok
          rw [hret.mpr ⟨ok, hok⟩] at hw
          cases hw
        · rintro ⟨f, -, -, hne⟩
          by_contra hw
          obtain ⟨ok, hok⟩ := hret.mp (eq_false_of_ne_true hw)
          exact hne ok hok
  | callClose file ht => exact h.transport (by rw [ht]; exact nofun) nofun nofun
  | closeSource file ht => exact h.transport (by rw [ht]; exact nofun) nofun h.source
  | closeNone file ht => exact h.transport (by rw [ht]; exact nofun) nofun nofun
  | disable file i e sources ht hs =>
    have hw : Wired { c with transport := .closeWait file .state } :=
      h.transport (by rw [ht]; exact nofun) nofun nofun
    exact hw.stream ⟨hs.step⟩ rfl
  | closeWait file l l' ht => exact h.transport (by rw [ht]; exact nofun) nofun nofun
  | closeIdle file l ht hb => exact h.transport (by rw [ht]; exact nofun) nofun nofun
  | closeStopped file l ht hs => exact h.transport (by rw [ht]; exact nofun) nofun nofun
  | cancelDisable i e sources hu hs =>
    have hw := h.stream hs rfl
    exact ⟨hw.source, hw.target, hw.writer, hw.stopped⟩
  | cancelFinish i e sources hu hs =>
    have hw := h.stream hs rfl
    exact ⟨hw.source, hw.target, hw.writer, hw.stopped⟩
  | read k i a e sources hk ha hs =>
    refine h.stream hs ?_
    cases a <;> first | rfl | cases ha
  | finish k i rc e sources hk hs =>
    have hw := h.stream hs rfl
    exact ⟨hw.source, hw.target, hw.writer, hw.stopped⟩
  | stop hu =>
    refine ⟨?_, ?_, ?_, ?_⟩
    · intro i hi
      rw [List.length_map]
      exact h.source i hi
    · intro i hi
      rw [List.length_map]
      exact h.target i hi
    · intro i s hs
      rw [List.getElem?_map, Option.map_eq_some_iff] at hs
      obtain ⟨s₀, hs₀, rfl⟩ := hs
      exact h.writer i s₀ hs₀
    · intro _ s hs
      obtain ⟨s₀, -, rfl⟩ := List.mem_map.mp hs
      rfl
  | _ => exact ⟨h.source, h.target, h.writer, h.stopped⟩

/-! ## The way to the return -/

/-- The steps that `WaitForIdle` may have left. -/
def WaitLoc.left : WaitLoc → ℕ
  | state => 2
  | token => 1
  | sleep => 3

/-- The steps that a stopped `Push` may have left. -/
def pushLeft : MtpStream.Loc → ℕ
  | .test => 2
  | .body => 5
  | .asleep => 4
  | .woken => 3
  | .exit => 1
  | .done => 1

/-- The `Push` that is open on a stream. -/
def writerLeft (sources : List Source) (i : ℕ) : ℕ :=
  match sources[i]? with
  | none => 0
  | some s =>
    match s.conf.writer with
    | none => 0
    | some k => pushLeft k.loc

/-- The steps that a stopped callback may have left. -/
def left (c : Conf) : ℕ :=
  match c.transport with
  | .idle => 0
  | .starting _ l => l.left + 1
  | .connecting _ => 1
  | .opened _ => 0
  | .writing _ _ => 7
  | .writeTo _ _ _ => 6
  | .pushing _ i => writerLeft c.sources i
  | .closing _ => 6
  | .disabling _ _ => 5
  | .closeWait _ l => l.left + 1

theorem pushLeft_le (l : MtpStream.Loc) : pushLeft l ≤ 5 := by
  cases l <;> simp [pushLeft]

theorem writerLeft_le (sources : List Source) (i : ℕ) : writerLeft sources i ≤ 5 := by
  unfold writerLeft
  split
  · exact Nat.zero_le 5
  · split
    · exact Nat.zero_le 5
    · exact pushLeft_le _

/-- The section of `Push` does not return, and is not taken twice in a row. -/
theorem pushSection_left (s : MtpStream.Conf) (k : MtpStream.PushCall) :
    (∀ ok, (MtpStream.pushSection s k).1 ≠ .pushReturn ok) ∧
      ∃ k', (MtpStream.pushSection s k).2.writer = some k' ∧ pushLeft k'.loc < 5 := by
  unfold MtpStream.pushSection
  split
  · exact ⟨nofun, _, rfl, by simp [pushLeft]⟩
  · split
    · exact ⟨nofun, _, rfl, by simp [pushLeft]⟩
    · split
      · exact ⟨nofun, _, rfl, by simp [pushLeft]⟩
      · refine ⟨nofun, _, rfl, ?_⟩
        dsimp only
        split <;> simp [pushLeft]

/-- A `Push` that is asleep goes on by its timeout, and after the stop request it leaves the loop
at its next test. -/
theorem push_step {s : MtpStream.Conf} {k : MtpStream.PushCall} (hw : s.writer = some k)
    (hs : s.stream.stop_requested = true) :
    ∃ a e s', (a = .writer ∨ a = .writerTimeout) ∧ MtpStream.step s a = some (e, s') ∧
      ((∃ ok, e = .pushReturn ok) ∨ (∀ ok, e ≠ .pushReturn ok) ∧
        ∃ k', s'.writer = some k' ∧ pushLeft k'.loc < pushLeft k.loc) := by
  have hwriter : MtpStream.step s .writer = MtpStream.Push s k := by
    simp only [MtpStream.step]
    rw [hw]
    rfl
  obtain ⟨l, buf⟩ := k
  cases l with
  | test =>
    refine ⟨.writer, _, _, .inl rfl, hwriter, .inr ⟨by rintro _ ⟨⟩, _, rfl, ?_⟩⟩
    simp [hs, pushLeft]
  | body =>
    exact ⟨.writer, _, _, .inl rfl, hwriter, .inr (pushSection_left s ⟨.body, buf⟩)⟩
  | asleep =>
    refine ⟨.writerTimeout, .tau, { s with writer := some ⟨.woken, buf⟩ }, .inr rfl, ?_, ?_⟩
    · simp [MtpStream.step, hw]
    · exact .inr ⟨by rintro _ ⟨⟩, _, rfl, by simp [pushLeft]⟩
  | woken =>
    exact ⟨.writer, _, _, .inl rfl, hwriter, .inr ⟨by rintro _ ⟨⟩, _, rfl, by simp [pushLeft]⟩⟩
  | exit => exact ⟨.writer, _, _, .inl rfl, hwriter, .inl ⟨false, rfl⟩⟩
  | done => exact ⟨.writer, _, _, .inl rfl, hwriter, .inl ⟨true, rfl⟩⟩

theorem onSource_some {c : Conf} {i : ℕ} {s : Source} {a : MtpStream.Action}
    {e : MtpStream.Event} {conf : MtpStream.Conf} (hs : c.sources[i]? = some s)
    (hm : MtpStream.step s.conf a = some (e, conf)) :
    onSource c i a =
      some (.stream i e, { c with sources := c.sources.set i { s with conf } }) := by
  unfold onSource
  rw [hs]
  dsimp only
  rw [hm]

/-- `WaitForIdle` does not wait for ever. -/
theorem WaitForIdle_left {c : Conf} (hs : c.stop_requested = true) (l : WaitLoc) :
    (∃ l', WaitForIdle c l = .inl l' ∧ l'.left < l.left) ∨ ∃ b, WaitForIdle c l = .inr b := by
  cases l with
  | state =>
    cases hb : c.m_state.busy
    · exact .inr ⟨true, by simp [WaitForIdle, hb]⟩
    · exact .inl ⟨.token, by simp [WaitForIdle, hb], by simp [WaitLoc.left]⟩
  | token => exact .inr ⟨false, by simp [WaitForIdle, hs]⟩
  | sleep => exact .inl ⟨.state, rfl, by simp [WaitLoc.left]⟩

/-- While its menu is stopped, a callback has a step that returns or brings it closer to its
return. -/
theorem callback_step {c : Conf} (h : Wired c) (hs : c.stop_requested = true)
    (hq : c.transport.quiet = false) :
    ∃ a e c', (a = .transport ∨ a = .transportTimeout) ∧ step c a = some (e, c') ∧
      (c'.transport.quiet = true ∨ left c' < left c) := by
  cases ht : c.transport with
  | idle =>
    rw [ht] at hq
    cases hq
  | opened f =>
    rw [ht] at hq
    cases hq
  | starting path l =>
    rcases WaitForIdle_left hs l with ⟨l', hw, hl⟩ | ⟨b, hw⟩
    · refine ⟨.transport, .tau, { c with transport := .starting path l' }, .inl rfl, ?_, .inr ?_⟩
      · simp only [step, transportStep, ht, hw]
      · simp only [left, ht]
        omega
    · cases b
      · refine ⟨.transport, .startRefused, { c with transport := .idle }, .inl rfl, ?_, .inl rfl⟩
        simp only [step, transportStep, ht, hw]
      · refine ⟨.transport, .tau, { c with transport := .connecting path }, .inl rfl, ?_, .inr ?_⟩
        · simp only [step, transportStep, ht, hw]
        · have hpos : 0 < l.left := by cases l <;> simp [WaitLoc.left]
          simp only [left, ht]
          omega
  | connecting path =>
    refine ⟨.transport, .startRefused, { c with transport := .idle }, .inl rfl, ?_, .inl rfl⟩
    simp only [step, transportStep, ht, connect, hs, if_true]
  | writing f buf =>
    refine ⟨.transport, .tau, { c with transport := .writeTo f c.m_source buf }, .inl rfl, ?_, ?_⟩
    · simp only [step, transportStep, ht]
    · right
      simp [left, ht]
  | writeTo f src buf =>
    cases src with
    | none =>
      refine ⟨.transport, .writeReturn f false, { c with transport := .opened f }, .inl rfl, ?_,
        .inl rfl⟩
      simp only [step, transportStep, ht]
    | some i =>
      have hi : i < c.sources.length := h.target i (by rw [ht]; rfl)
      have hget := List.getElem?_eq_getElem hi
      -- no `Push` is open
      have hnone : c.sources[i].conf.writer = none := by
        rw [← Option.not_isSome_iff_eq_none, h.writer i _ hget, ht]
        rintro ⟨_, ⟨⟩⟩
      have hm : ∃ conf, MtpStream.step c.sources[i].conf (.push buf) =
          some (.pushCall buf, conf) := by
        simp only [MtpStream.step]
        rw [hnone]
        exact ⟨_, rfl⟩
      obtain ⟨conf, hm⟩ := hm
      have hstep : step c .transport = some (.stream i (.pushCall buf),
          { c with
            transport := .pushing f i,
            sources := c.sources.set i { c.sources[i] with conf } }) := by
        simp only [step, transportStep, ht]
        exact onSource_some hget hm
      refine ⟨.transport, _, _, .inl rfl, hstep, .inr ?_⟩
      simp only [left, ht]
      exact Nat.lt_succ_of_le (writerLeft_le _ i)
  | pushing f i =>
    have hi : i < c.sources.length := h.target i (by rw [ht]; rfl)
    have hget := List.getElem?_eq_getElem hi
    obtain ⟨k, hk⟩ := Option.isSome_iff_exists.mp ((h.writer i _ hget).mpr ⟨f, ht⟩)
    have hstop := h.stopped hs _ (List.mem_of_getElem? hget)
    obtain ⟨a, e, conf, ha, hm, hret⟩ := push_step hk hstop
    have hon := onSource_some (c := c) hget hm
    have hleft : left c = pushLeft k.loc := by
      simp only [left, ht, writerLeft, hget, hk]
    have hstep : ∃ a', (a' = .transport ∨ a' = .transportTimeout) ∧
        step c a' = pushStep c f i a := by
      rcases ha with rfl | rfl
      · exact ⟨.transport, .inl rfl, by simp only [step, transportStep, ht]⟩
      · exact ⟨.transportTimeout, .inr rfl, by simp only [step, ht]⟩
    obtain ⟨a', ha', hstep⟩ := hstep
    rcases hret with ⟨ok, rfl⟩ | ⟨hne, k', hk', hlt⟩
    · have hpush : pushStep c f i a = some (.stream i (.pushReturn ok), { c with
          sources := c.sources.set i { c.sources[i] with conf }, transport := .opened f }) := by
        unfold pushStep
        rw [hon]
      exact ⟨a', _, _, ha', hstep.trans hpush, .inl rfl⟩
    · refine ⟨a', .stream i e, { c with sources := c.sources.set i { c.sources[i] with conf } },
        ha', ?_, .inr ?_⟩
      · rw [hstep]
        unfold pushStep
        rw [hon]
        split
        · rename_i heq
          cases heq
        · rename_i j ok c₁ heq
          cases heq
          exact absurd rfl (hne ok)
        · rename_i r _ heq
          exact heq.symm
      · rw [hleft]
        simp only [left, ht, writerLeft, List.getElem?_set_self hi, hk']
        exact hlt
  | closing f =>
    refine ⟨.transport, .tau, { c with transport := .disabling f c.m_source }, .inl rfl, ?_, ?_⟩
    · simp only [step, transportStep, ht]
    · right
      simp [left, ht]
  | disabling f src =>
    cases src with
    | none =>
      refine ⟨.transport, .tau, { c with transport := .closeWait f .state }, .inl rfl, ?_, .inr ?_⟩
      · simp only [step, transportStep, ht]
      · simp [left, ht, WaitLoc.left]
    | some i =>
      have hi : i < c.sources.length := h.target i (by rw [ht]; rfl)
      have hget := List.getElem?_eq_getElem hi
      have hstep : step c .transport = some (.stream i .disable, { c with
          transport := .closeWait f .state
          sources := c.sources.set i
            { c.sources[i] with conf := MtpStream.Disable c.sources[i].conf } }) := by
        simp only [step, transportStep, ht]
        exact onSource_some hget rfl
      refine ⟨.transport, _, _, .inl rfl, hstep, .inr ?_⟩
      simp [left, ht, WaitLoc.left]
  | closeWait f l =>
    rcases WaitForIdle_left hs l with ⟨l', hw, hl⟩ | ⟨b, hw⟩
    · refine ⟨.transport, .tau, { c with transport := .closeWait f l' }, .inl rfl, ?_, .inr ?_⟩
      · simp only [step, transportStep, ht, hw]
      · simp only [left, ht]
        omega
    · refine ⟨.transport, .closeReturn f b, { c with transport := .idle }, .inl rfl, ?_, .inl rfl⟩
      simp only [step, transportStep, ht, hw]

end MtpMenu
