/-
# One installation for each file

The labels about a file come in one order: it is connected, its state becomes `Progress`, its
job starts and ends, and the done callback has the job's result.  While the menu is busy no
other file is connected, and a job reads from the stream of its own file only.
-/
import AioMod.MtpMenu

namespace MtpMenu

open Traces

/-! ## What a trace says of a file -/

/-- The labels about the life of a file. -/
def Event.ofFile (i : ℕ) : Event → Bool
  | connected j _ => j == i
  | progress j => j == i
  | jobStart j => j == i
  | jobEnd j _ => j == i
  | done j _ => j == i
  | _ => false

/-- The life of a file. -/
def life (i : ℕ) (t : List Event) : List Event := t.filter (Event.ofFile i)

/-- The whole life of a file. -/
def fullLife (i : ℕ) (path : Bytes) (rc : Result) : List Event :=
  [.connected i path, .progress i, .jobStart i, .jobEnd i rc, .done i rc]

/-- The bytes of a label that `OnInstallWrite` has for a file. -/
def Event.bytesWritten (i : ℕ) : Event → Bytes
  | write j buf => if j = i then buf else []
  | _ => []

/-- The bytes that are written for a file. -/
abbrev written (i : ℕ) (t : List Event) : Bytes := carried (Event.bytesWritten i) t

/-- The bytes of a label that are pushed into a stream. -/
def Event.bytesPushed (i : ℕ) : Event → Bytes
  | stream j e => if j = i then e.given else []
  | _ => []

/-- The bytes that are pushed into a stream. -/
abbrev pushedTo (i : ℕ) (t : List Event) : Bytes := carried (Event.bytesPushed i) t

/-- The bytes of a label that are copied out of a stream. -/
def Event.bytesRead (i : ℕ) : Event → Bytes
  | stream j e => if j = i then e.out else []
  | _ => []

/-- The bytes that are read from a stream. -/
abbrev readFrom (i : ℕ) (t : List Event) : Bytes := carried (Event.bytesRead i) t

/-- The state after a label. -/
def Event.state (s : State) : Event → State
  | connected _ _ => .Connected
  | progress _ => .Progress
  | done _ rc => .ofResult rc
  | _ => s

/-- The state after a trace. -/
def stateAfter (t : List Event) : State := t.foldl Event.state .None

@[simp] theorem life_append (i : ℕ) (t u : List Event) : life i (t ++ u) = life i t ++ life i u :=
  List.filter_append t u

theorem stateAfter_snoc (t : List Event) (e : Event) :
    stateAfter (t ++ [e]) = e.state (stateAfter t) := by
  unfold stateAfter
  rw [List.foldl_append]
  rfl

theorem life_snoc_of_false {i : ℕ} {t : List Event} {e : Event} (h : e.ofFile i = false) :
    life i (t ++ [e]) = life i t := by
  rw [life_append]
  unfold life
  rw [List.filter_cons_of_neg (by rw [h]; exact Bool.false_ne_true), List.filter_nil,
    List.append_nil]

theorem life_snoc_of_true {i : ℕ} {t : List Event} {e : Event} (h : e.ofFile i = true) :
    life i (t ++ [e]) = life i t ++ [e] := by
  rw [life_append]
  unfold life
  rw [List.filter_cons_of_pos h, List.filter_nil]

/-! ## What a step can do -/

/-- A step of a stream, and what the rest of the menu makes of it. -/
structure StreamStep (c : Conf) (i : ℕ) (a : MtpStream.Action) (e : MtpStream.Event)
    (sources : List Source) : Prop where
  step : ∃ s conf, c.sources[i]? = some s ∧ MtpStream.step s.conf a = some (e, conf) ∧
    sources = c.sources.set i { s with conf }

theorem onSource_eq {c c' : Conf} {i : ℕ} {a : MtpStream.Action} {e : Event}
    (h : onSource c i a = some (e, c')) :
    ∃ e₀ sources, StreamStep c i a e₀ sources ∧ e = .stream i e₀ ∧ c' = { c with sources } := by
  unfold onSource at h
  rcases hs : c.sources[i]? with _ | s
  · rw [hs] at h
    cases h
  · rw [hs] at h
    dsimp only at h
    rcases hm : MtpStream.step s.conf a with _ | ⟨e₀, conf⟩
    · rw [hm] at h
      cases h
    · rw [hm] at h
      cases h
      exact ⟨e₀, _, ⟨s, conf, hs, hm, rfl⟩, rfl, rfl⟩

/-- The file that is open. -/
def Transport.file : Transport → Option ℕ
  | opened f => some f
  | writing f _ => some f
  | writeTo f _ _ => some f
  | pushing f _ => some f
  | closing f => some f
  | disabling f _ => some f
  | closeWait f _ => some f
  | _ => none

/-- Where the transport thread is behind a step of a `Push`. -/
def behindPush (file i : ℕ) : MtpStream.Event → Transport
  | .pushReturn _ => .opened file
  | _ => .pushing file i

/-- The actions of a job on its stream. -/
def reading : MtpStream.Action → Bool
  | .readChunk _ => true
  | .reader => true
  | .readerTimeout => true
  | _ => false

/-- The steps one by one, with their guards. -/
inductive Move : Conf → Event → Conf → Prop where
  | callStart (c : Conf) (path : Bytes) (h : c.transport = .idle) :
      Move c .tau { c with transport := .starting path .state }
  | startWait (c : Conf) (path : Bytes) (l l' : WaitLoc) (h : c.transport = .starting path l) :
      Move c .tau { c with transport := .starting path l' }
  | startIdle (c : Conf) (path : Bytes) (l : WaitLoc) (h : c.transport = .starting path l)
      (hb : c.m_state.busy = false) :
      Move c .tau { c with transport := .connecting path }
  | startRefused (c : Conf) (h : c.transport.file = none) (hs : c.stop_requested = true) :
      Move c .startRefused { c with transport := .idle }
  | connect (c : Conf) (path : Bytes) (h : c.transport = .connecting path)
      (hs : c.stop_requested = false) :
      Move c (.connected c.sources.length path) { c with
        sources := c.sources ++ [⟨path, { stream := { stop_requested := c.stop_requested } }⟩]
        m_source := some c.sources.length, m_last_result := 0, m_state := .Connected
        transport := .opened c.sources.length }
  | callWrite (c : Conf) (file : ℕ) (buf : Bytes) (h : c.transport = .opened file) :
      Move c (.write file buf) { c with transport := .writing file buf }
  | writeSource (c : Conf) (file : ℕ) (buf : Bytes) (h : c.transport = .writing file buf) :
      Move c .tau { c with transport := .writeTo file c.m_source buf }
  | writeNone (c : Conf) (file : ℕ) (buf : Bytes) (h : c.transport = .writeTo file none buf) :
      Move c (.writeReturn file false) { c with transport := .opened file }
  | pushCall (c : Conf) (file i : ℕ) (buf : Bytes) (e : MtpStream.Event) (sources : List Source)
      (h : c.transport = .writeTo file (some i) buf) (hs : StreamStep c i (.push buf) e sources) :
      Move c (.stream i e) { c with sources, transport := .pushing file i }
  | push (c : Conf) (file i : ℕ) (a : MtpStream.Action) (e : MtpStream.Event)
      (sources : List Source) (h : c.transport = .pushing file i)
      (ha : a = .writer ∨ a = .writerTimeout) (hs : StreamStep c i a e sources) :
      Move c (.stream i e) { c with sources, transport := behindPush file i e }
  | callClose (c : Conf) (file : ℕ) (h : c.transport = .opened file) :
      Move c .tau { c with transport := .closing file }
  | closeSource (c : Conf) (file : ℕ) (h : c.transport = .closing file) :
      Move c .tau { c with transport := .disabling file c.m_source }
  | closeNone (c : Conf) (file : ℕ) (h : c.transport = .disabling file none) :
      Move c .tau { c with transport := .closeWait file .state }
  | disable (c : Conf) (file i : ℕ) (e : MtpStream.Event) (sources : List Source)
      (h : c.transport = .disabling file (some i)) (hs : StreamStep c i .disable e sources) :
      Move c (.stream i e) { c with sources, transport := .closeWait file .state }
  | closeWait (c : Conf) (file : ℕ) (l l' : WaitLoc) (h : c.transport = .closeWait file l) :
      Move c .tau { c with transport := .closeWait file l' }
  | closeIdle (c : Conf) (file : ℕ) (l : WaitLoc) (h : c.transport = .closeWait file l)
      (hb : c.m_state.busy = false) :
      Move c (.closeReturn file true) { c with transport := .idle }
  | closeStopped (c : Conf) (file : ℕ) (l : WaitLoc) (h : c.transport = .closeWait file l)
      (hs : c.stop_requested = true) :
      Move c (.closeReturn file false) { c with transport := .idle }
  | update (c : Conf) (h : c.ui = .frame) : Move c .tau c
  | progress (c : Conf) (i : ℕ) (h : c.ui = .frame) (hst : c.m_state = .Connected)
      (hi : c.m_source = some i) :
      Move c (.progress i) { c with m_state := .Progress, m_last_result := 0, ui := .push i }
  | jobStart (c : Conf) (i : ℕ) (h : c.ui = .push i) :
      Move c (.jobStart i) { c with jobs := c.jobs ++ [⟨i, .running⟩], ui := .frame }
  | cancelNone (c : Conf) (h : c.ui = .cancelSource) : Move c .tau { c with ui := .frame }
  | cancelSource (c : Conf) (i : ℕ) (h : c.ui = .cancelSource) :
      Move c .tau { c with ui := .cancelDisable i }
  | cancelDisable (c : Conf) (i : ℕ) (e : MtpStream.Event) (sources : List Source)
      (h : c.ui = .cancelDisable i) (hs : StreamStep c i .disable e sources) :
      Move c (.stream i e) { c with sources, ui := .cancelFinish i }
  | cancelFinish (c : Conf) (i : ℕ) (e : MtpStream.Event) (sources : List Source)
      (h : c.ui = .cancelFinish i) (hs : StreamStep c i .finish e sources) :
      Move c (.stream i e) { c with sources, ui := .frame }
  | done (c : Conf) (k i : ℕ) (rc : Result) (h : c.ui = .frame)
      (hk : c.jobs[k]? = some ⟨i, .exited rc⟩) :
      Move c (.done i rc) { c with
        jobs := c.jobs.eraseIdx k, m_last_result := rc, m_state := .ofResult rc }
  | stop (c : Conf) (h : c.ui = .frame) :
      Move c .stop { c with
        stop_requested := true, sources := c.sources.map Source.stop, ui := .cancelSource }
  | read (c : Conf) (k i : ℕ) (a : MtpStream.Action) (e : MtpStream.Event) (sources : List Source)
      (hk : c.jobs[k]? = some ⟨i, .running⟩) (ha : reading a = true)
      (hs : StreamStep c i a e sources) : Move c (.stream i e) { c with sources }
  | finish (c : Conf) (k i : ℕ) (rc : Result) (e : MtpStream.Event) (sources : List Source)
      (hk : c.jobs[k]? = some ⟨i, .finishing rc⟩) (hs : StreamStep c i .finish e sources) :
      Move c (.stream i e) { c with jobs := c.jobs.set k ⟨i, .exited rc⟩, sources }
  | jobReturn (c : Conf) (k i : ℕ) (rc : Result) (hk : c.jobs[k]? = some ⟨i, .running⟩) :
      Move c (.jobEnd i rc) { c with jobs := c.jobs.set k ⟨i, .finishing rc⟩ }

/-- The outcomes of a step of `WaitForIdle`. -/
theorem WaitForIdle_cases (c : Conf) (l : WaitLoc) :
    (∃ l', WaitForIdle c l = .inl l') ∨
      (WaitForIdle c l = .inr true ∧ c.m_state.busy = false) ∨
      (WaitForIdle c l = .inr false ∧ c.stop_requested = true) := by
  cases l with
  | state =>
    cases hb : c.m_state.busy
    · right; left
      refine ⟨?_, rfl⟩
      simp [WaitForIdle, hb]
    · left
      exact ⟨.token, by simp [WaitForIdle, hb]⟩
  | token =>
    cases hs : c.stop_requested
    · left
      exact ⟨.sleep, by simp [WaitForIdle, hs]⟩
    · right; right
      refine ⟨?_, rfl⟩
      simp [WaitForIdle, hs]
  | sleep => exact .inl ⟨.state, rfl⟩

theorem pushStep_move {c c' : Conf} {file i : ℕ} {a : MtpStream.Action} {e : Event}
    (ht : c.transport = .pushing file i) (ha : a = .writer ∨ a = .writerTimeout)
    (h : pushStep c file i a = some (e, c')) : Move c e c' := by
  unfold pushStep at h
  rcases ho : onSource c i a with _ | ⟨e₁, c₁⟩
  · rw [ho] at h
    cases h
  · obtain ⟨e₀, sources, hs, rfl, rfl⟩ := onSource_eq ho
    rw [ho] at h
    have hm := Move.push c file i a e₀ sources ht ha hs
    cases e₀ with
    | pushReturn ok =>
      cases h
      exact hm
    | _ =>
      cases h
      simp only [behindPush] at hm
      rw [← ht] at hm
      exact hm

/-- A step of the transport thread is one of the moves. -/
theorem transportStep_move {c c' : Conf} {e : Event} (h : transportStep c = some (e, c')) :
    Move c e c' := by
  unfold transportStep at h
  cases ht : c.transport with
  | idle =>
    rw [ht] at h
    cases h
  | starting path l =>
    rw [ht] at h
    dsimp only at h
    rcases WaitForIdle_cases c l with ⟨l', hw⟩ | ⟨hw, hb⟩ | ⟨hw, hs⟩ <;> rw [hw] at h <;> cases h
    · exact .startWait c path l l' ht
    · exact .startIdle c path l ht hb
    · exact .startRefused c (by rw [ht]; rfl) hs
  | connecting path =>
    rw [ht] at h
    have h := Option.some.inj h
    unfold connect at h
    split at h
    · rename_i hs
      cases h
      exact .startRefused c (by rw [ht]; rfl) hs
    · rename_i hs
      cases h
      exact .connect c path ht (eq_false_of_ne_true hs)
  | opened file =>
    rw [ht] at h
    cases h
  | writing file buf =>
    rw [ht] at h
    cases h
    exact .writeSource c file buf ht
  | writeTo file src buf =>
    rw [ht] at h
    cases src with
    | none =>
      cases h
      exact .writeNone c file buf ht
    | some i =>
      obtain ⟨e₀, sources, hs, rfl, rfl⟩ := onSource_eq h
      exact .pushCall c file i buf e₀ sources ht ⟨hs.step⟩
  | pushing file i =>
    rw [ht] at h
    exact pushStep_move ht (.inl rfl) h
  | closing file =>
    rw [ht] at h
    cases h
    exact .closeSource c file ht
  | disabling file src =>
    rw [ht] at h
    cases src with
    | none =>
      cases h
      exact .closeNone c file ht
    | some i =>
      obtain ⟨e₀, sources, hs, rfl, rfl⟩ := onSource_eq h
      exact .disable c file i e₀ sources ht ⟨hs.step⟩
  | closeWait file l =>
    rw [ht] at h
    dsimp only at h
    rcases WaitForIdle_cases c l with ⟨l', hw⟩ | ⟨hw, hb⟩ | ⟨hw, hs⟩ <;> rw [hw] at h <;> cases h
    · exact .closeWait c file l l' ht
    · exact .closeIdle c file l ht hb
    · exact .closeStopped c file l ht hs

/-- A step of the UI thread is one of the moves. -/
theorem uiStep_move {c c' : Conf} {e : Event} (h : uiStep c = some (e, c')) : Move c e c' := by
  unfold uiStep at h
  cases hu : c.ui with
  | frame =>
    rw [hu] at h
    cases h
  | push i =>
    rw [hu] at h
    cases h
    exact .jobStart c i hu
  | cancelSource =>
    rw [hu] at h
    dsimp only at h
    cases hm : c.m_source <;> rw [hm] at h <;> cases h
    · exact hm ▸ .cancelNone c hu
    · exact hm ▸ .cancelSource c _ hu
  | cancelDisable i =>
    rw [hu] at h
    obtain ⟨e₀, sources, hs, rfl, rfl⟩ := onSource_eq h
    exact .cancelDisable c i e₀ sources hu ⟨hs.step⟩
  | cancelFinish i =>
    rw [hu] at h
    obtain ⟨e₀, sources, hs, rfl, rfl⟩ := onSource_eq h
    exact .cancelFinish c i e₀ sources hu ⟨hs.step⟩

/-- A step of a job that reads its stream. -/
theorem read_move {c c' : Conf} {k i : ℕ} {a : MtpStream.Action} {e : Event}
    (hk : c.jobs[k]? = some ⟨i, .running⟩) (ha : reading a = true)
    (h : onSource c i a = some (e, c')) : Move c e c' := by
  obtain ⟨e₀, sources, hs, rfl, rfl⟩ := onSource_eq h
  exact .read c k i a e₀ sources hk ha hs

/-- Every step is one of the moves. -/
theorem step_move {c c' : Conf} {a : Action} {e : Event} (h : step c a = some (e, c')) :
    Move c e c' := by
  cases a with
  | callStart path =>
    simp only [step] at h
    split at h
    · rename_i ht
      cases h
      exact .callStart c path ht
    · cases h
  | callWrite buf =>
    simp only [step] at h
    split at h
    · rename_i file ht
      cases h
      exact .callWrite c file buf ht
    · cases h
  | callClose =>
    simp only [step] at h
    split at h
    · rename_i file ht
      cases h
      exact .callClose c file ht
    · cases h
  | transport => exact transportStep_move h
  | transportTimeout =>
    simp only [step] at h
    split at h
    · rename_i file i ht
      exact pushStep_move ht (.inr rfl) h
    · cases h
  | update =>
    simp only [step] at h
    split at h
    · rename_i hu
      unfold Update at h
      split at h
      · cases h
        exact .update c hu
      · rename_i hst
        rw [not_not] at hst
        split at h
        · cases h
        · rename_i i hm
          cases h
          exact .progress c i hu hst hm
    · cases h
  | ui => exact uiStep_move h
  | done k =>
    simp only [step] at h
    split at h
    · rename_i i rc hu hk
      cases h
      exact .done c k i rc hu hk
    · cases h
  | stop =>
    simp only [step] at h
    split at h
    · rename_i hu
      cases h
      exact .stop c hu
    · cases h
  | readChunk k size =>
    simp only [step] at h
    split at h
    · rename_i i hk
      exact read_move hk rfl h
    · cases h
  -- a job reads its stream, or finishes it with the result it has
  | job k =>
    simp only [step] at h
    split at h
    · rename_i i hk
      exact read_move hk rfl h
    · rename_i i rc hk
      obtain ⟨e₀, sources, hs, rfl, rfl⟩ := onSource_eq h
      exact .finish c k i rc e₀ sources hk ⟨hs.step⟩
    · cases h
  | jobTimeout k =>
    simp only [step] at h
    split at h
    · rename_i i hk
      exact read_move hk rfl h
    · cases h
  | jobReturn k rc =>
    simp only [step] at h
    split at h
    · rename_i i hk
      split at h
      · split at h
        · cases h
          exact .jobReturn c k i rc hk
        · cases h
      · cases h
    · cases h

/-! ## The life of every file -/

/-- The file whose progress box is about to be pushed. -/
def Ui.pushing : Ui → Option ℕ
  | push i => some i
  | _ => none

/-- How far the current file is. -/
inductive Stage (c : Conf) (i : ℕ) (path : Bytes) (l : List Event) : Prop where
  | connected (hs : c.m_state = .Connected) (hu : c.ui.pushing = none) (hj : c.jobs = [])
      (hl : l = [.connected i path])
  | progress (hs : c.m_state = .Progress) (hu : c.ui.pushing = some i) (hj : c.jobs = [])
      (hl : l = [.connected i path, .progress i])
  | running (hs : c.m_state = .Progress) (hu : c.ui.pushing = none) (hj : c.jobs = [⟨i, .running⟩])
      (hl : l = [.connected i path, .progress i, .jobStart i])
  | returned (rc : Result) (phase : Phase) (hp : phase = .finishing rc ∨ phase = .exited rc)
      (hs : c.m_state = .Progress) (hu : c.ui.pushing = none) (hj : c.jobs = [⟨i, phase⟩])
      (hl : l = [.connected i path, .progress i, .jobStart i, .jobEnd i rc])
  | done (rc : Result) (hs : c.m_state = .ofResult rc) (hu : c.ui.pushing = none)
      (hj : c.jobs = []) (hl : l = fullLife i path rc)

/-- The last file that was connected is the current one; the earlier ones are through. -/
structure Lives (t : List Event) (c : Conf) : Prop where
  past : ∀ i, i + 1 < c.sources.length → ∃ path rc, life i t = fullLife i path rc
  current : ∀ i, c.sources.length = i + 1 →
    c.m_source = some i ∧ ∃ path, Stage c i path (life i t)
  future : ∀ i, c.sources.length ≤ i → life i t = []
  fresh : c.sources = [] →
    c.m_source = none ∧ c.m_state = .None ∧ c.ui.pushing = none ∧ c.jobs = []

/-- A stage reads the state, the pending push and the jobs only. -/
theorem Stage.congr {c c' : Conf} {i : ℕ} {path : Bytes} {l : List Event} (h : Stage c i path l)
    (hs : c'.m_state = c.m_state) (hu : c'.ui.pushing = c.ui.pushing) (hj : c'.jobs = c.jobs) :
    Stage c' i path l := by
  cases h with
  | connected h₁ h₂ h₃ hl => exact .connected (hs.trans h₁) (hu.trans h₂) (hj.trans h₃) hl
  | progress h₁ h₂ h₃ hl => exact .progress (hs.trans h₁) (hu.trans h₂) (hj.trans h₃) hl
  | running h₁ h₂ h₃ hl => exact .running (hs.trans h₁) (hu.trans h₂) (hj.trans h₃) hl
  | returned rc phase hp h₁ h₂ h₃ hl =>
    exact .returned rc phase hp (hs.trans h₁) (hu.trans h₂) (hj.trans h₃) hl
  | done rc h₁ h₂ h₃ hl => exact .done rc (hs.trans h₁) (hu.trans h₂) (hj.trans h₃) hl

/-- A step that shows no label of a file. -/
theorem Lives.frame {t : List Event} {c c' : Conf} {e : Event} (h : Lives t c)
    (he : ∀ i, e.ofFile i = false) (hn : c'.sources.length = c.sources.length)
    (hm : c'.m_source = c.m_source) (hs : c'.m_state = c.m_state)
    (hu : c'.ui.pushing = c.ui.pushing) (hj : c'.jobs = c.jobs) : Lives (t ++ [e]) c' := by
  have hlife : ∀ i, life i (t ++ [e]) = life i t := fun i => life_snoc_of_false (he i)
  constructor
  · intro i hi
    rw [hlife]
    exact h.past i (hn ▸ hi)
  · intro i hi
    obtain ⟨hsrc, path, hst⟩ := h.current i (hn ▸ hi)
    rw [hlife]
    exact ⟨hm.trans hsrc, path, hst.congr hs hu hj⟩
  · intro i hi
    rw [hlife]
    exact h.future i (hn ▸ hi)
  · intro hnil
    have h0 : c.sources = [] := by
      rw [← List.length_eq_zero_iff, ← hn, hnil]
      rfl
    obtain ⟨h₁, h₂, h₃, h₄⟩ := h.fresh h0
    exact ⟨hm.trans h₁, hs.trans h₂, hu.trans h₃, hj.trans h₄⟩

/-- A step that shows a label of the current file or nothing. -/
theorem Lives.advance {t : List Event} {c c' : Conf} {e : Event} {i : ℕ} (h : Lives t c)
    (hi : c.sources.length = i + 1) (he : ∀ j, j ≠ i → e.ofFile j = false)
    (hn : c'.sources.length = c.sources.length) (hm : c'.m_source = c.m_source)
    (hstage : ∀ path, Stage c i path (life i t) → Stage c' i path (life i (t ++ [e]))) :
    Lives (t ++ [e]) c' := by
  constructor
  · intro j hj
    rw [life_snoc_of_false (he j (by omega))]
    exact h.past j (by omega)
  · intro j hj
    obtain rfl : j = i := by omega
    obtain ⟨hsrc, path, hst⟩ := h.current j hi
    exact ⟨hm.trans hsrc, path, hstage path hst⟩
  · intro j hj
    rw [life_snoc_of_false (he j (by omega))]
    exact h.future j (by omega)
  · intro hnil
    rw [hnil, hi] at hn
    cases hn

/-- The file of a job is the current one. -/
theorem Lives.of_job {t : List Event} {c : Conf} {k : ℕ} {j : Job} (h : Lives t c)
    (hk : c.jobs[k]? = some j) : k = 0 ∧ c.jobs = [j] ∧ c.sources.length = j.source + 1 := by
  rcases hn : c.sources.length with _ | i
  · rw [(h.fresh (List.length_eq_zero_iff.mp hn)).2.2.2] at hk
    cases hk
  · obtain ⟨-, path, hst⟩ := h.current i hn
    have hone : ∀ phase, c.jobs = [⟨i, phase⟩] →
        k = 0 ∧ c.jobs = [j] ∧ i + 1 = j.source + 1 := by
      intro phase hj
      rw [hj] at hk ⊢
      rcases k with _ | k
      · cases hk
        exact ⟨rfl, rfl, rfl⟩
      · cases hk
    cases hst with
    | connected _ _ hj _ =>
      rw [hj] at hk
      cases hk
    | progress _ _ hj _ =>
      rw [hj] at hk
      cases hk
    | running _ _ hj _ => exact hone _ hj
    | returned rc phase _ _ _ hj _ => exact hone phase hj
    | done rc _ _ hj _ =>
      rw [hj] at hk
      cases hk

/-- The file of a pending push is the current one. -/
theorem Lives.of_push {t : List Event} {c : Conf} {j : ℕ} (h : Lives t c) (hu : c.ui = .push j) :
    c.sources.length = j + 1 := by
  have hp : c.ui.pushing = some j := by rw [hu]; rfl
  rcases hn : c.sources.length with _ | i
  · rw [(h.fresh (List.length_eq_zero_iff.mp hn)).2.2.1] at hp
    cases hp
  · obtain ⟨-, path, hst⟩ := h.current i hn
    cases hst with
    | progress _ hu' _ _ =>
      rw [hu'] at hp
      cases hp
      rfl
    | connected _ hu' _ _ => exact absurd (hu'.symm.trans hp) nofun
    | running _ hu' _ _ => exact absurd (hu'.symm.trans hp) nofun
    | returned _ _ _ _ hu' _ _ => exact absurd (hu'.symm.trans hp) nofun
    | done _ _ hu' _ _ => exact absurd (hu'.symm.trans hp) nofun

/-- When the menu is idle, the current file is through as well. -/
theorem Lives.of_idle {t : List Event} {c : Conf} (h : Lives t c) (hb : c.m_state.busy = false) :
    c.jobs = [] ∧ c.ui.pushing = none ∧
      ∀ i, i < c.sources.length → ∃ path rc, life i t = fullLife i path rc := by
  rcases hn : c.sources.length with _ | n
  · obtain ⟨-, -, hu, hj⟩ := h.fresh (List.length_eq_zero_iff.mp hn)
    exact ⟨hj, hu, fun i hi => absurd hi (Nat.not_lt_zero i)⟩
  · obtain ⟨-, path, hst⟩ := h.current n hn
    cases hst with
    | done rc _ hu hj hl =>
      refine ⟨hj, hu, ?_⟩
      intro i hi
      rcases Nat.lt_succ_iff_lt_or_eq.mp hi with hi | rfl
      · exact h.past i (by omega)
      · exact ⟨path, rc, hl⟩
    | connected hs _ _ _ =>
      rw [hs] at hb
      cases hb
    | progress hs _ _ _ =>
      rw [hs] at hb
      cases hb
    | running hs _ _ _ =>
      rw [hs] at hb
      cases hb
    | returned _ _ _ hs _ _ _ =>
      rw [hs] at hb
      cases hb

/-! ## The streams of the files -/

/-- Only the call of `Push` gives bytes to a stream. -/
theorem given_of_step {s s' : MtpStream.Conf} {a : MtpStream.Action} {e : MtpStream.Event}
    (h : MtpStream.step s a = some (e, s')) (ha : ∀ chunk, a ≠ .push chunk) : e.given = [] := by
  cases a with
  | readChunk n =>
    simp only [MtpStream.step] at h
    split at h <;> cases h
    rfl
  -- `ReadChunk` only takes from the buffer
  | reader =>
    obtain ⟨k, -, h⟩ := Option.bind_eq_some_iff.mp h
    unfold MtpStream.ReadChunk at h
    split at h
    · cases h
      rfl
    · have h := Option.some.inj h
      unfold MtpStream.readSection at h
      split at h
      · split at h <;> cases h <;> rfl
      · cases h
        rfl
    · cases h
    · cases h
      rfl
    · cases h
      rfl
    · cases h
      rfl
  | readerTimeout =>
    simp only [MtpStream.step] at h
    split at h
    · split at h <;> cases h
      rfl
    · cases h
  | push chunk => exact absurd rfl (ha chunk)
  -- what `Push` copies was given by its call
  | writer =>
    obtain ⟨k, -, h⟩ := Option.bind_eq_some_iff.mp h
    unfold MtpStream.Push at h
    split at h
    · cases h
      rfl
    · have h := Option.some.inj h
      unfold MtpStream.pushSection at h
      split at h
      · cases h
        rfl
      · split at h
        · cases h
          rfl
        · split at h <;> cases h <;> rfl
    · cases h
    · cases h
      rfl
    · cases h
      rfl
    · cases h
      rfl
  | writerTimeout =>
    simp only [MtpStream.step] at h
    split at h
    · split at h <;> cases h
      rfl
    · cases h
  | disable =>
    cases h
    rfl
  | finish =>
    cases h
    rfl
  | stop =>
    cases h
    rfl

theorem StreamStep.length {c : Conf} {i : ℕ} {a : MtpStream.Action} {e : MtpStream.Event}
    {sources : List Source} (h : StreamStep c i a e sources) :
    sources.length = c.sources.length := by
  obtain ⟨s, conf, -, -, rfl⟩ := h.step
  exact List.length_set

theorem StreamStep.given {c : Conf} {i : ℕ} {a : MtpStream.Action} {e : MtpStream.Event}
    {sources : List Source} (h : StreamStep c i a e sources) (ha : ∀ chunk, a ≠ .push chunk) :
    e.given = [] := by
  obtain ⟨s, conf, -, hm, -⟩ := h.step
  exact given_of_step hm ha

theorem StreamStep.given_push {c : Conf} {i : ℕ} {chunk : Bytes} {e : MtpStream.Event}
    {sources : List Source} (h : StreamStep c i (.push chunk) e sources) : e.given = chunk := by
  obtain ⟨s, conf, -, hm, -⟩ := h.step
  simp only [MtpStream.step] at hm
  split at hm <;> cases hm
  rfl

/-- Every stream has a run of its own. -/
structure Streams (t : List Event) (sources : List Source) : Prop where
  runs : ∀ i s, sources[i]? = some s → ∃ ts, MtpStream.Runs ts s.conf ∧
    MtpStream.pushed ts = pushedTo i t ∧ MtpStream.copied ts = readFrom i t
  unborn : ∀ i, sources.length ≤ i → pushedTo i t = [] ∧ readFrom i t = []

/-- A label that is not of a stream. -/
theorem Streams.frame {t : List Event} {sources : List Source} {e : Event} (h : Streams t sources)
    (hp : ∀ i, e.bytesPushed i = []) (hr : ∀ i, e.bytesRead i = []) :
    Streams (t ++ [e]) sources := by
  have hpush : ∀ i, pushedTo i (t ++ [e]) = pushedTo i t := fun i => by simp [hp]
  have hread : ∀ i, readFrom i (t ++ [e]) = readFrom i t := fun i => by simp [hr]
  constructor
  · intro i s hs
    rw [hpush, hread]
    exact h.runs i s hs
  · intro i hi
    rw [hpush, hread]
    exact h.unborn i hi

theorem Streams.stream {t : List Event} {c : Conf} {i : ℕ} {a : MtpStream.Action}
    {e : MtpStream.Event} {sources : List Source} (h : Streams t c.sources)
    (hs : StreamStep c i a e sources) : Streams (t ++ [.stream i e]) sources := by
  have hother : ∀ j, j ≠ i → pushedTo j (t ++ [.stream i e]) = pushedTo j t ∧
      readFrom j (t ++ [.stream i e]) = readFrom j t := by
    intro j hj
    simp [Event.bytesPushed, Event.bytesRead, Ne.symm hj]
  have hlen := hs.length
  obtain ⟨s₀, conf, hs₀, hm, rfl⟩ := hs.step
  have hi : i < c.sources.length := (List.getElem?_eq_some_iff.mp hs₀).1
  constructor
  · intro j s hj
    by_cases hji : j = i
    · subst hji
      rw [List.getElem?_set_self hi] at hj
      cases hj
      obtain ⟨ts, hrun, hpush, hread⟩ := h.runs j s₀ hs₀
      refine ⟨ts ++ [e], hrun.snoc hm, ?_, ?_⟩
      · simp [hpush, Event.bytesPushed]
      · simp [hread, Event.bytesRead]
    · rw [List.getElem?_set_ne (Ne.symm hji)] at hj
      rw [(hother j hji).1, (hother j hji).2]
      exact h.runs j s hj
  · intro j hj
    rw [hlen] at hj
    have hji : j ≠ i := by omega
    rw [(hother j hji).1, (hother j hji).2]
    exact h.unborn j hj

theorem Streams.connect {t : List Event} {sources : List Source} (h : Streams t sources)
    (path : Bytes) (b : Bool) :
    Streams (t ++ [.connected sources.length path])
      (sources ++ [⟨path, { stream := { stop_requested := b } }⟩]) := by
  have h' : Streams (t ++ [.connected sources.length path]) sources :=
    h.frame (fun _ => rfl) fun _ => rfl
  constructor
  · intro i s hi
    rcases Nat.lt_trichotomy i sources.length with hlt | rfl | hgt
    · rw [List.getElem?_append_left hlt] at hi
      exact h'.runs i s hi
    · rw [List.getElem?_concat_length] at hi
      cases hi
      obtain ⟨hp, hr⟩ := h'.unborn _ le_rfl
      exact ⟨[], .nil ⟨b, rfl⟩, hp.symm, hr.symm⟩
    · rw [List.getElem?_eq_none (by rw [List.length_append, List.length_singleton]; omega)] at hi
      cases hi
  · intro i hi
    rw [List.length_append] at hi
    exact h'.unborn i (by omega)

/-- The stop request is a step of every stream. -/
theorem Streams.stop {t : List Event} {sources : List Source} (h : Streams t sources) :
    Streams (t ++ [.stop]) (sources.map Source.stop) := by
  have h' : Streams (t ++ [.stop]) sources := h.frame (fun _ => rfl) fun _ => rfl
  constructor
  · intro i s hi
    rw [List.getElem?_map, Option.map_eq_some_iff] at hi
    obtain ⟨s₀, hs₀, rfl⟩ := hi
    obtain ⟨ts, hrun, hpush, hread⟩ := h'.runs i s₀ hs₀
    refine ⟨ts ++ [.stop], hrun.snoc (a := .stop) rfl, ?_, ?_⟩
    · simp only [carried_append, carried_single, hpush, MtpStream.Event.given]
      exact List.append_nil _
    · simp only [carried_append, carried_single, hread, MtpStream.Event.out]
      exact List.append_nil _
  · intro i hi
    rw [List.length_map] at hi
    exact h'.unborn i hi

/-- What is read from a stream was pushed into it, and comes in the same order. -/
theorem Streams.read_prefix {t : List Event} {sources : List Source} (h : Streams t sources)
    (i : ℕ) : readFrom i t <+: pushedTo i t := by
  rcases Nat.lt_or_ge i sources.length with hi | hi
  · obtain ⟨ts, hrun, hpush, hread⟩ := h.runs i _ (List.getElem?_eq_getElem hi)
    have hinv := MtpStream.Inv.of_runs hrun
    rw [← hpush, ← hread]
    exact (List.prefix_append _ _).trans (hinv.fifo ▸ hinv.given.1)
  · rw [(h.unborn i hi).2]
    exact List.nil_prefix

/-! ## The invariant -/

/-- The bytes of the open `OnInstallWrite` that no stream has been given. -/
def Transport.pending (i : ℕ) : Transport → Bytes
  | writing f buf => if f = i then buf else []
  | writeTo f _ buf => if f = i then buf else []
  | _ => []

/-- Whether the UI thread is in `CancelInstallMode`. -/
def Ui.cancels : Ui → Bool
  | cancelSource => true
  | cancelDisable _ => true
  | cancelFinish _ => true
  | _ => false

/-- The source `OnInstallWrite` has got. -/
def Transport.source : Transport → Option (Option ℕ)
  | writeTo _ s _ => some s
  | pushing _ i => some (some i)
  | _ => none

/-- The invariant of a run. -/
structure Inv (t : List Event) (c : Conf) : Prop where
  lives : Lives t c
  streams : Streams t c.sources
  connecting : ∀ path, c.transport = .connecting path → c.m_state.busy = false
  opened : ∀ f, c.transport.file = some f → c.sources.length = f + 1
  source : ∀ s, c.transport.source = some s → s = c.transport.file
  sent : ∀ i, written i t = pushedTo i t ++ c.transport.pending i
  state : c.m_state = stateAfter t
  stopped : c.stop_requested = true → .stop ∈ t
  cancels : c.ui.cancels = true → .stop ∈ t

theorem pending_of_file {tr : Transport} (h : tr.file = none) (i : ℕ) : tr.pending i = [] := by
  cases tr <;> first | rfl | cases h

theorem behindPush_file (file i : ℕ) (e : MtpStream.Event) :
    (behindPush file i e).file = some file := by
  cases e <;> rfl

theorem behindPush_ne_connecting (file i : ℕ) (e : MtpStream.Event) (path : Bytes) :
    behindPush file i e ≠ .connecting path := by
  cases e <;> exact nofun

theorem behindPush_source {file i : ℕ} {e : MtpStream.Event} {s : Option ℕ}
    (h : (behindPush file i e).source = some s) : s = some i := by
  cases e <;> cases h <;> rfl

theorem behindPush_pending (file i : ℕ) (e : MtpStream.Event) (j : ℕ) :
    (behindPush file i e).pending j = [] := by
  cases e <;> rfl

theorem ofResult_idle (rc : Result) : (State.ofResult rc).busy = false := by
  unfold State.ofResult
  split <;> rfl

theorem lives_step {t : List Event} {c c' : Conf} {e : Event} (hi : Inv t c) (h : Move c e c') :
    Lives (t ++ [e]) c' := by
  have hl := hi.lives
  cases h with
  | connect path ht hs =>
    -- the file before is through, and the new one has no label yet
    obtain ⟨hj, hu, hpast⟩ := hl.of_idle (hi.connecting path ht)
    have hother : ∀ i, i ≠ c.sources.length →
        life i (t ++ [.connected c.sources.length path]) = life i t := by
      intro i hne
      refine life_snoc_of_false ?_
      exact beq_eq_false_iff_ne.mpr (Ne.symm hne)
    constructor
    · intro i hlt
      rw [List.length_append, List.length_singleton] at hlt
      rw [hother i (by omega)]
      exact hpast i (by omega)
    · intro i hlen
      rw [List.length_append, List.length_singleton] at hlen
      obtain rfl : c.sources.length = i := by omega
      refine ⟨rfl, path, .connected rfl hu hj ?_⟩
      rw [life_snoc_of_true (beq_self_eq_true _), hl.future _ le_rfl]
      rfl
    · intro i hle
      rw [List.length_append, List.length_singleton] at hle
      rw [hother i (by omega)]
      exact hl.future i (by omega)
    · intro hnil
      simp at hnil
  | progress i hu hst hsrc =>
    obtain ⟨n, hn⟩ : ∃ n, c.sources.length = n + 1 := by
      rcases hn : c.sources.length with _ | n
      · rw [(hl.fresh (List.length_eq_zero_iff.mp hn)).1] at hsrc
        cases hsrc
      · exact ⟨n, rfl⟩
    obtain rfl : n = i := Option.some.inj ((hl.current n hn).1.symm.trans hsrc)
    refine hl.advance hn (fun j hj => beq_eq_false_iff_ne.mpr (Ne.symm hj)) rfl rfl ?_
    intro path hstage
    rw [life_snoc_of_true (beq_self_eq_true _)]
    cases hstage with
    | connected _ _ hj hlife => exact .progress rfl rfl hj (by rw [hlife]; rfl)
    | progress hs _ _ _ => exact absurd (hst.symm.trans hs) nofun
    | running hs _ _ _ => exact absurd (hst.symm.trans hs) nofun
    | returned _ _ _ hs _ _ _ => exact absurd (hst.symm.trans hs) nofun
    | done rc hs _ _ _ =>
      have hb := ofResult_idle rc
      rw [← hs, hst] at hb
      cases hb
  | jobStart i hu =>
    have hp : c.ui.pushing = some i := by rw [hu]; rfl
    refine hl.advance (hl.of_push hu) (fun j hj => beq_eq_false_iff_ne.mpr (Ne.symm hj)) rfl rfl ?_
    intro path hstage
    rw [life_snoc_of_true (beq_self_eq_true _)]
    cases hstage with
    | progress hs _ hj hlife =>
      exact .running hs rfl (by rw [hj]; rfl) (by rw [hlife]; rfl)
    | connected _ hu' _ _ => exact absurd (hu'.symm.trans hp) nofun
    | running _ hu' _ _ => exact absurd (hu'.symm.trans hp) nofun
    | returned _ _ _ _ hu' _ _ => exact absurd (hu'.symm.trans hp) nofun
    | done _ _ hu' _ _ => exact absurd (hu'.symm.trans hp) nofun
  | jobReturn k i rc hk =>
    obtain ⟨rfl, hjobs, hn⟩ := hl.of_job hk
    refine hl.advance hn (fun j hj => beq_eq_false_iff_ne.mpr (Ne.symm hj)) rfl rfl ?_
    intro path hstage
    rw [life_snoc_of_true (beq_self_eq_true _)]
    cases hstage with
    | running hs hu _ hlife =>
      exact .returned rc _ (.inl rfl) hs hu (by rw [hjobs]; rfl) (by rw [hlife]; rfl)
    | returned rc' phase hp _ _ hj _ =>
      rw [hjobs] at hj
      rcases hp with rfl | rfl <;> cases hj
    | connected _ _ hj _ => exact absurd (hjobs.symm.trans hj) nofun
    | progress _ _ hj _ => exact absurd (hjobs.symm.trans hj) nofun
    | done _ _ _ hj _ => exact absurd (hjobs.symm.trans hj) nofun
  | finish k i rc e sources hk hs =>
    obtain ⟨rfl, hjobs, hn⟩ := hl.of_job hk
    refine hl.advance hn (fun _ _ => rfl) hs.length rfl ?_
    intro path hstage
    rw [life_snoc_of_false rfl]
    cases hstage with
    | returned rc' phase hp hst hu hj hlife =>
      rw [hjobs] at hj
      rcases hp with rfl | rfl <;> cases hj
      exact .returned rc _ (.inr rfl) hst hu (by rw [hjobs]; rfl) hlife
    | connected _ _ hj _ => exact absurd (hjobs.symm.trans hj) nofun
    | progress _ _ hj _ => exact absurd (hjobs.symm.trans hj) nofun
    | running _ _ hj _ => exact absurd (hjobs.symm.trans hj) nofun
    | done _ _ _ hj _ => exact absurd (hjobs.symm.trans hj) nofun
  | done k i rc hu hk =>
    obtain ⟨rfl, hjobs, hn⟩ := hl.of_job hk
    refine hl.advance hn (fun j hj => beq_eq_false_iff_ne.mpr (Ne.symm hj)) rfl rfl ?_
    intro path hstage
    rw [life_snoc_of_true (beq_self_eq_true _)]
    cases hstage with
    | returned rc' phase hp hst hu' hj hlife =>
      rw [hjobs] at hj
      rcases hp with rfl | rfl <;> cases hj
      exact .done rc rfl hu' (by rw [hjobs]; rfl) (by rw [hlife]; rfl)
    | connected _ _ hj _ => exact absurd (hjobs.symm.trans hj) nofun
    | progress _ _ hj _ => exact absurd (hjobs.symm.trans hj) nofun
    | running _ _ hj _ => exact absurd (hjobs.symm.trans hj) nofun
    | done _ _ _ hj _ => exact absurd (hjobs.symm.trans hj) nofun
  | pushCall file i buf e sources ht hs =>
    exact hl.frame (fun _ => rfl) hs.length rfl rfl rfl rfl
  | push file i a e sources ht ha hs =>
    exact hl.frame (fun _ => rfl) hs.length rfl rfl rfl rfl
  | disable file i e sources ht hs =>
    exact hl.frame (fun _ => rfl) hs.length rfl rfl rfl rfl
  | read k i a e sources hk ha hs =>
    exact hl.frame (fun _ => rfl) hs.length rfl rfl rfl rfl
  | cancelDisable i e sources hu hs =>
    exact hl.frame (fun _ => rfl) hs.length rfl rfl (by rw [hu]; rfl) rfl
  | cancelFinish i e sources hu hs =>
    exact hl.frame (fun _ => rfl) hs.length rfl rfl (by rw [hu]; rfl) rfl
  | cancelNone hu => exact hl.frame (fun _ => rfl) rfl rfl rfl (by rw [hu]; rfl) rfl
  | cancelSource i hu => exact hl.frame (fun _ => rfl) rfl rfl rfl (by rw [hu]; rfl) rfl
  | stop hu => exact hl.frame (fun _ => rfl) (List.length_map _) rfl rfl (by rw [hu]; rfl) rfl
  | _ => exact hl.frame (fun _ => rfl) rfl rfl rfl rfl rfl

theorem streams_step {t : List Event} {c c' : Conf} {e : Event} (hi : Inv t c) (h : Move c e c') :
    Streams (t ++ [e]) c'.sources := by
  have hst := hi.streams
  cases h with
  | connect path _ _ => exact hst.connect path _
  | stop _ => exact hst.stop
  | pushCall _ _ _ _ _ _ hs => exact hst.stream hs
  | push _ _ _ _ _ _ _ hs => exact hst.stream hs
  | disable _ _ _ _ _ hs => exact hst.stream hs
  | cancelDisable _ _ _ _ hs => exact hst.stream hs
  | cancelFinish _ _ _ _ hs => exact hst.stream hs
  | read _ _ _ _ _ _ _ hs => exact hst.stream hs
  | finish _ _ _ _ _ _ hs => exact hst.stream hs
  | _ => exact hst.frame (fun _ => rfl) fun _ => rfl

theorem connecting_step {t : List Event} {c c' : Conf} {e : Event} (hi : Inv t c)
    (h : Move c e c') : ∀ path, c'.transport = .connecting path → c'.m_state.busy = false := by
  have hc := hi.connecting
  cases h with
  | startIdle _ _ _ hb => exact fun _ _ => hb
  | progress i _ hst _ =>
    intro path ht
    have hb := hc path ht
    rw [hst] at hb
    cases hb
  | done _ _ rc _ _ => exact fun _ _ => ofResult_idle rc
  | push file i _ e sources _ _ _ =>
    intro path hp
    exact absurd hp (behindPush_ne_connecting file i e path)
  | update => exact hc
  | jobStart => exact hc
  | cancelNone => exact hc
  | cancelSource => exact hc
  | cancelDisable => exact hc
  | cancelFinish => exact hc
  | stop => exact hc
  | read => exact hc
  | finish => exact hc
  | jobReturn => exact hc
  | _ => exact nofun

theorem opened_step {t : List Event} {c c' : Conf} {e : Event} (hi : Inv t c) (h : Move c e c') :
    ∀ f, c'.transport.file = some f → c'.sources.length = f + 1 := by
  have ho := hi.opened
  -- the step of a call leaves the file open
  have hkeep : ∀ {tr : Transport} {f : ℕ} {n : ℕ}, c.transport.file = some f →
      tr.file = some f ∨ tr.file = none → n = c.sources.length →
      ∀ g, tr.file = some g → n = g + 1 := by
    intro tr f n hf htr hn g hg
    rcases htr with htr | htr
    · rw [htr] at hg
      cases hg
      exact hn.trans (ho f hf)
    · rw [htr] at hg
      cases hg
  cases h with
  | connect path _ _ =>
    intro f hf
    cases hf
    rw [List.length_append, List.length_singleton]
  | callWrite file buf h => exact hkeep (by rw [h]; rfl) (.inl rfl) rfl
  | writeSource file buf h => exact hkeep (by rw [h]; rfl) (.inl rfl) rfl
  | writeNone file buf h => exact hkeep (by rw [h]; rfl) (.inl rfl) rfl
  | pushCall file i buf e sources h hs => exact hkeep (by rw [h]; rfl) (.inl rfl) hs.length
  | push file i a e sources h ha hs =>
    exact hkeep (by rw [h]; rfl) (.inl (behindPush_file file i e)) hs.length
  | callClose file h => exact hkeep (by rw [h]; rfl) (.inl rfl) rfl
  | closeSource file h => exact hkeep (by rw [h]; rfl) (.inl rfl) rfl
  | closeNone file h => exact hkeep (by rw [h]; rfl) (.inl rfl) rfl
  | disable file i e sources h hs => exact hkeep (by rw [h]; rfl) (.inl rfl) hs.length
  | closeWait file l l' h => exact hkeep (by rw [h]; rfl) (.inl rfl) rfl
  | closeIdle => exact nofun
  | closeStopped => exact nofun
  | callStart => exact nofun
  | startWait => exact nofun
  | startIdle => exact nofun
  | startRefused => exact nofun
  | stop hu =>
    intro f hf
    rw [List.length_map]
    exact ho f hf
  | cancelDisable i e sources _ hs => exact fun f hf => hs.length.trans (ho f hf)
  | cancelFinish i e sources _ hs => exact fun f hf => hs.length.trans (ho f hf)
  | read k i a e sources _ _ hs => exact fun f hf => hs.length.trans (ho f hf)
  | finish k i rc e sources _ hs => exact fun f hf => hs.length.trans (ho f hf)
  | _ => exact ho

theorem source_step {t : List Event} {c c' : Conf} {e : Event} (hi : Inv t c) (h : Move c e c') :
    ∀ s, c'.transport.source = some s → s = c'.transport.file := by
  have hs := hi.source
  cases h with
  | writeSource file buf h =>
    -- the source of the current file
    intro s hs'
    cases hs'
    exact (hi.lives.current file (hi.opened file (by rw [h]; rfl))).1
  | pushCall file i buf e sources h _ =>
    intro s hs'
    cases hs'
    have hfile := hs (some i) (by rw [h]; rfl)
    rwa [h] at hfile
  | push file i a e sources h ha _ =>
    intro s hs'
    have hfile := hs (some i) (by rw [h]; rfl)
    rw [h] at hfile
    rw [behindPush_file]
    exact (behindPush_source hs').trans hfile
  | update => exact hs
  | progress => exact hs
  | done => exact hs
  | jobStart => exact hs
  | cancelNone => exact hs
  | cancelSource => exact hs
  | cancelDisable => exact hs
  | cancelFinish => exact hs
  | stop => exact hs
  | read => exact hs
  | finish => exact hs
  | jobReturn => exact hs
  | _ => exact nofun

/-- A step that neither takes bytes from the transport nor gives any to a stream. -/
theorem sent_frame {t : List Event} {c : Conf} {e : Event} {i : ℕ} {tr : Transport}
    (h : written i t = pushedTo i t ++ c.transport.pending i) (hw : e.bytesWritten i = [])
    (hp : e.bytesPushed i = []) (ht : tr.pending i = c.transport.pending i) :
    written i (t ++ [e]) = pushedTo i (t ++ [e]) ++ tr.pending i := by
  simp only [carried_append, carried_single, hw, hp, ht, List.append_nil]
  exact h

/-- The bytes of a label of a stream that is not the call of `Push`. -/
theorem bytesPushed_of_ne {c : Conf} {i j : ℕ} {a : MtpStream.Action} {e : MtpStream.Event}
    {sources : List Source} (hs : StreamStep c i a e sources) (ha : ∀ chunk, a ≠ .push chunk) :
    (Event.stream i e).bytesPushed j = [] := by
  show (if i = j then e.given else []) = []
  split
  · exact hs.given ha
  · rfl

theorem sent_step {t : List Event} {c c' : Conf} {e : Event} (hi : Inv t c) (h : Move c e c')
    (i : ℕ) : written i (t ++ [e]) = pushedTo i (t ++ [e]) ++ c'.transport.pending i := by
  have hw := hi.sent i
  cases h with
  | callWrite file buf h =>
    rw [h] at hw
    simp only [carried_append, carried_single, Event.bytesWritten, Event.bytesPushed,
      Transport.pending, List.append_nil] at hw ⊢
    exact congrArg (· ++ _) hw
  | pushCall file j buf e sources h hs =>
    -- the source of the write is the stream of the file
    have hj : some j = some file := by
      have hfile := hi.source (some j) (by rw [h]; rfl)
      rwa [h] at hfile
    cases hj
    rw [h] at hw
    simp only [carried_append, carried_single, Event.bytesWritten, Event.bytesPushed,
      Transport.pending, List.append_nil] at hw ⊢
    rw [hs.given_push]
    exact hw
  | writeNone file buf h =>
    have hfile := hi.source none (by rw [h]; rfl)
    rw [h] at hfile
    cases hfile
  | push file j a e sources h ha hs =>
    refine sent_frame hw rfl (bytesPushed_of_ne hs ?_) ?_
    · rcases ha with rfl | rfl <;> exact nofun
    · rw [h]
      exact behindPush_pending file j e i
  | disable file j e sources h hs =>
    exact sent_frame hw rfl (bytesPushed_of_ne hs nofun) (by rw [h]; rfl)
  | cancelDisable j e sources h hs => exact sent_frame hw rfl (bytesPushed_of_ne hs nofun) rfl
  | cancelFinish j e sources h hs => exact sent_frame hw rfl (bytesPushed_of_ne hs nofun) rfl
  | finish k j rc e sources h hs => exact sent_frame hw rfl (bytesPushed_of_ne hs nofun) rfl
  | read k j a e sources h ha hs =>
    refine sent_frame hw rfl (bytesPushed_of_ne hs ?_) rfl
    intro chunk hc
    rw [hc] at ha
    cases ha
  | startRefused h hs => exact sent_frame hw rfl rfl (pending_of_file h i).symm
  | callStart path h => exact sent_frame hw rfl rfl (by rw [h]; rfl)
  | startWait path l l' h => exact sent_frame hw rfl rfl (by rw [h]; rfl)
  | startIdle path l h hb => exact sent_frame hw rfl rfl (by rw [h]; rfl)
  | connect path h hs => exact sent_frame hw rfl rfl (by rw [h]; rfl)
  | writeSource file buf h => exact sent_frame hw rfl rfl (by rw [h]; rfl)
  | callClose file h => exact sent_frame hw rfl rfl (by rw [h]; rfl)
  | closeSource file h => exact sent_frame hw rfl rfl (by rw [h]; rfl)
  | closeNone file h => exact sent_frame hw rfl rfl (by rw [h]; rfl)
  | closeWait file l l' h => exact sent_frame hw rfl rfl (by rw [h]; rfl)
  | closeIdle file l h hb => exact sent_frame hw rfl rfl (by rw [h]; rfl)
  | closeStopped file l h hs => exact sent_frame hw rfl rfl (by rw [h]; rfl)
  | _ => exact sent_frame hw rfl rfl rfl

theorem state_step {t : List Event} {c c' : Conf} {e : Event} (hi : Inv t c) (h : Move c e c') :
    c'.m_state = stateAfter (t ++ [e]) := by
  rw [stateAfter_snoc, ← hi.state]
  cases h <;> rfl

theorem stopped_step {t : List Event} {c c' : Conf} {e : Event} (hi : Inv t c) (h : Move c e c') :
    c'.stop_requested = true → .stop ∈ t ++ [e] := by
  intro hs
  cases h with
  | stop _ => exact List.mem_append_right _ (List.mem_singleton_self _)
  | _ => exact List.mem_append_left _ (hi.stopped hs)

theorem cancels_step {t : List Event} {c c' : Conf} {e : Event} (hi : Inv t c) (h : Move c e c') :
    c'.ui.cancels = true → .stop ∈ t ++ [e] := by
  intro hu
  cases h with
  | stop _ => exact List.mem_append_right _ (List.mem_singleton_self _)
  | progress => cases hu
  | jobStart => cases hu
  | cancelNone => cases hu
  | cancelFinish => cases hu
  | cancelSource i h => exact List.mem_append_left _ (hi.cancels (by rw [h]; rfl))
  | cancelDisable i e sources h _ => exact List.mem_append_left _ (hi.cancels (by rw [h]; rfl))
  | _ => exact List.mem_append_left _ (hi.cancels hu)

/-- The invariant holds along every run. -/
theorem Inv.of_runs {t : List Event} {c : Conf} (h : Runs t c) : Inv t c := by
  refine Trace.invariant ?_ ?_ h
  · rintro s rfl
    exact
      { lives := ⟨nofun, nofun, fun _ _ => rfl, fun _ => ⟨rfl, rfl, rfl, rfl⟩⟩
        streams := ⟨nofun, fun _ _ => ⟨rfl, rfl⟩⟩
        connecting := nofun
        opened := nofun
        source := nofun
        sent := fun _ => rfl
        state := rfl
        stopped := nofun
        cancels := nofun }
  · intro t s a e s' hi hs
    have hm := step_move hs
    exact
      { lives := lives_step hi hm
        streams := streams_step hi hm
        connecting := connecting_step hi hm
        opened := opened_step hi hm
        source := source_step hi hm
        sent := sent_step hi hm
        state := state_step hi hm
        stopped := stopped_step hi hm
        cancels := cancels_step hi hm }

/-! ## The runs of the menu -/

/-- The life of a file is a beginning of one whole life. -/
theorem Lives.of_fullLife {t : List Event} {c : Conf} (h : Lives t c) (i : ℕ) :
    ∃ path rc, life i t <+: fullLife i path rc := by
  rcases Nat.lt_trichotomy (i + 1) c.sources.length with hlt | heq | hgt
  · obtain ⟨path, rc, hl⟩ := h.past i hlt
    exact ⟨path, rc, hl ▸ List.prefix_rfl⟩
  · obtain ⟨-, path, hst⟩ := h.current i heq.symm
    cases hst with
    | connected _ _ _ hl => exact ⟨path, 0, hl ▸ ⟨_, rfl⟩⟩
    | progress _ _ _ hl => exact ⟨path, 0, hl ▸ ⟨_, rfl⟩⟩
    | running _ _ _ hl => exact ⟨path, 0, hl ▸ ⟨_, rfl⟩⟩
    | returned rc _ _ _ _ _ hl => exact ⟨path, rc, hl ▸ ⟨_, rfl⟩⟩
    | done rc _ _ _ hl => exact ⟨path, rc, hl ▸ List.prefix_rfl⟩
  · rw [h.future i (by omega)]
    exact ⟨[], 0, List.nil_prefix⟩

/-- A file that was connected has been given a stream. -/
theorem Lives.lt_of_connected {t : List Event} {c : Conf} (h : Lives t c) {i : ℕ} {path : Bytes}
    (hc : .connected i path ∈ t) : i < c.sources.length := by
  by_contra hn
  have hmem : .connected i path ∈ life i t := List.mem_filter.mpr ⟨hc, beq_self_eq_true i⟩
  rw [h.future i (by omega)] at hmem
  cases hmem

/-- A source is replaced when the job of the file before has ended. -/
theorem source_replaced {t : List Event} {c c' : Conf} {e : Event} (hi : Inv t c)
    (h : Move c e c') (hm : c'.m_source ≠ c.m_source) :
    c.jobs = [] ∧ c.ui.pushing = none ∧
      ∀ i path, .connected i path ∈ t → ∃ path rc, life i t = fullLife i path rc := by
  cases h with
  | connect path ht hs =>
    obtain ⟨hj, hu, hfull⟩ := hi.lives.of_idle (hi.connecting path ht)
    exact ⟨hj, hu, fun i _ hc => hfull i (hi.lives.lt_of_connected hc)⟩
  | _ => exact absurd rfl hm

/-- When the closing of a file returns, its job has ended or a stop was requested. -/
theorem close_returned {t : List Event} {c c' : Conf} {i : ℕ} {idle : Bool} (hi : Inv t c)
    (h : Move c (.closeReturn i idle) c') :
    (∃ path rc, life i t = fullLife i path rc) ∨ .stop ∈ t := by
  cases h with
  | closeIdle _ l ht hb =>
    left
    have hn := hi.opened i (by rw [ht]; rfl)
    exact (hi.lives.of_idle hb).2.2 i (by omega)
  | closeStopped _ l ht hs =>
    right
    exact hi.stopped hs

/-- While no stop is requested, a connected file whose job was not started has a step of the UI
thread ahead, which pushes its progress box or starts the job. -/
theorem start_ahead {t : List Event} {c : Conf} (hi : Inv t c) (hstop : .stop ∉ t) {i : ℕ}
    {path : Bytes} (hc : .connected i path ∈ t) :
    .jobStart i ∈ t ∨ (∃ c', step c .update = some (.progress i, c')) ∨
      ∃ c', step c .ui = some (.jobStart i, c') := by
  have hof : ∀ {l : List Event}, life i t = l → .jobStart i ∈ l → .jobStart i ∈ t := by
    intro l hl hmem
    rw [← hl] at hmem
    exact (List.mem_filter.mp hmem).1
  have hlt := hi.lives.lt_of_connected hc
  rcases Nat.lt_or_ge (i + 1) c.sources.length with hpast | hlast
  · obtain ⟨p, rc, hl⟩ := hi.lives.past i hpast
    exact .inl (hof hl (by simp [fullLife]))
  · obtain ⟨hsrc, p, hst⟩ := hi.lives.current i (by omega)
    cases hst with
    | connected hs hu _ _ =>
      right; left
      have hframe : c.ui = .frame := by
        have hcan : c.ui.cancels ≠ true := fun h => hstop (hi.cancels h)
        cases hui : c.ui with
        | frame => rfl
        | push j =>
          rw [hui] at hu
          cases hu
        | cancelSource => exact absurd (by rw [hui]; rfl) hcan
        | cancelDisable j => exact absurd (by rw [hui]; rfl) hcan
        | cancelFinish j => exact absurd (by rw [hui]; rfl) hcan
      simp [step, Update, hframe, hs, hsrc]
    | progress _ hu _ _ =>
      right; right
      have hpush : c.ui = .push i := by
        cases hui : c.ui with
        | push j =>
          rw [hui] at hu
          cases hu
          rfl
        | frame =>
          rw [hui] at hu
          cases hu
        | cancelSource =>
          rw [hui] at hu
          cases hu
        | cancelDisable j =>
          rw [hui] at hu
          cases hu
        | cancelFinish j =>
          rw [hui] at hu
          cases hu
      simp [step, uiStep, hpush]
    | running _ _ _ hl => exact .inl (hof hl (by simp))
    | returned _ _ _ _ _ _ hl => exact .inl (hof hl (by simp))
    | done _ _ _ _ hl => exact .inl (hof hl (by simp [fullLife]))

/-- In every run of the menu the labels about a file are a beginning of its whole life: it is
connected once, its progress box is pushed, its job starts and returns a result, and the done
callback gets that result; the state of the menu is the one of the last of these labels.  What is
read from the stream of a file was written for that file, in this order.  The source is replaced
only when no job is running or about to be started and every file before is through, and the
closing of a file returns when the file is through or a stop was requested.  As long as no stop is
requested, the UI thread has the start of the job ahead of it. -/
theorem one_install_each {t : List Event} {c : Conf} (h : Runs t c) :
    (∀ i, ∃ path rc, life i t <+: fullLife i path rc) ∧
    c.m_state = stateAfter t ∧
    (∀ i, readFrom i t <+: written i t) ∧
    (∀ a e c', step c a = some (e, c') → c'.m_source ≠ c.m_source →
      c.jobs = [] ∧ c.ui.pushing = none ∧
        ∀ i path, .connected i path ∈ t → ∃ path rc, life i t = fullLife i path rc) ∧
    (∀ t₁ i idle t₂, t = t₁ ++ .closeReturn i idle :: t₂ →
      (∃ path rc, life i t₁ = fullLife i path rc) ∨ .stop ∈ t₁) ∧
    (.stop ∉ t → ∀ i path, .connected i path ∈ t →
      .jobStart i ∈ t ∨ (∃ c', step c .update = some (.progress i, c')) ∨
        ∃ c', step c .ui = some (.jobStart i, c')) := by
  have hi := Inv.of_runs h
  refine ⟨hi.lives.of_fullLife, hi.state, ?_, ?_, ?_, ?_⟩
  · intro i
    refine (hi.streams.read_prefix i).trans ?_
    rw [hi.sent i]
    exact List.prefix_append _ _
  · intro a e c' hs hm
    exact source_replaced hi (step_move hs) hm
  · intro t₁ i idle t₂ ht
    obtain ⟨s₁, a, s₂, h₁, hs⟩ := h.split ht
    exact close_returned (Inv.of_runs h₁) (step_move hs)
  · intro hstop i path hc
    exact start_ahead hi hstop hc

/-- Two files of three bytes; the job of the first fails before it has read a byte. -/
def twoFiles : List Action :=
  [.callStart [97], .transport, .transport, .callWrite [1, 2, 3], .transport, .transport,
    .transport, .transport, .transport, .callClose, .transport, .transport, .transport, .transport,
    .update, .ui, .transport, .jobReturn 0 7, .job 0, .done 0, .transport,
    .callStart [98], .transport, .transport, .update, .ui, .callWrite [4, 5, 6], .transport,
    .transport, .readChunk 0 2, .job 0, .transport, .transport, .transport, .job 0, .job 0,
    .jobReturn 0 0, .callClose, .job 0, .transport, .done 0, .transport, .transport]

/-- The first file is through with the result of its own job, and the job of the second has read
two of its three bytes. -/
theorem one_install_each_twoFiles :
    ∃ t c, Runs t c ∧ life 0 t = fullLife 0 [97] 7 ∧ life 1 t = fullLife 1 [98] 0 ∧
      readFrom 1 t = [4, 5] ∧ readFrom 1 t <+: written 1 t := by
  have hsome : (exec step twoFiles [] {}).isSome = true := by decide
  obtain ⟨⟨t, c⟩, hexec⟩ := Option.isSome_iff_exists.mp hsome
  have hrun : Runs t c := Trace.exec twoFiles (.nil rfl) hexec
  have hsays : (exec step twoFiles [] {}).map (fun r => (life 0 r.1, life 1 r.1, readFrom 1 r.1)) =
      some (fullLife 0 [97] 7, fullLife 1 [98] 0, [4, 5]) := by decide
  rw [hexec, Option.map_some, Option.some.injEq, Prod.mk.injEq, Prod.mk.injEq] at hsays
  exact ⟨t, c, hrun, hsays.1, hsays.2.1, hsays.2.2, (one_install_each hrun).2.2.1 1⟩

end MtpMenu
