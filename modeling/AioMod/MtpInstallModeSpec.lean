/-
# No callback outlives the install mode

`in_flight` counts the guards; when `DisableInstallMode` has returned no guard is left and no new
one comes before the next `InitInstallMode`.  The state of a file is cleared by its `CloseFile`,
and the UI thread never waits for ever once its menus are stopped.
-/
import AioMod.MtpInstallMode
import AioMod.MtpMenuStop

namespace MtpInstallMode

open Traces

/-! ## What a step can do -/

/-- The steps one by one, with their guards. -/
inductive Move : Conf → Event → Conf → Prop where
  | call (c : Conf) (call : Call) (h : c.transport = .idle) (hf : call.enabled c.files = true) :
      Move c (.call call) { c with transport := .guard call }
  | guardOn (c : Conf) (call : Call) (h : c.transport = .guard call)
      (hg : c.g_shared_data.g_install_enabled = true) :
      Move c .tau { c with
        g_shared_data := { c.g_shared_data with in_flight := c.g_shared_data.in_flight + 1 }
        transport := .copy call }
  | guardStart (c : Conf) (path : Bytes) (h : c.transport = .guard (.start path)) :
      Move c .startRefused { c with transport := .idle }
  | guardWrite (c : Conf) (f : ℕ) (buf : Bytes) (h : c.transport = .guard (.write f buf)) :
      Move c (.writeReturn f false) { c with transport := .idle }
  | guardClose (c : Conf) (f : ℕ) (h : c.transport = .guard (.close f)) :
      Move c .tau { c with transport := .clear f }
  | busy (c : Conf) (path : Bytes) (h : c.transport = .copy (.start path))
      (hb : c.g_shared_data.in_progress = true ∨ c.g_shared_data.current_file ≠ []) :
      Move c .startBusy { c with transport := .release (.start path) false }
  | noCallback (c : Conf) (call : Call) (ok : Bool) (h : c.transport = .copy call)
      (hok : ∀ path, call = .start path → ok = false) :
      Move c .tau { c with transport := .release call ok }
  | enterStart (c : Conf) (path : Bytes) (m : ℕ) (h : c.transport = .copy (.start path))
      (hb : c.g_shared_data.in_progress = false ∧ c.g_shared_data.current_file = [])
      (hm : c.g_shared_data.on_start = some m) :
      Move c (.callback (.start path) m) { c with
        g_shared_data := { c.g_shared_data with current_file := path }
        menus := c.menus.modify m fun menu => { menu with transport := (Call.start path).entry }
        transport := .running (.start path) m }
  | enter (c : Conf) (call : Call) (m : ℕ) (h : c.transport = .copy call)
      (hc : ∀ path, call ≠ .start path)
      (hm : c.g_shared_data.on_write = some m ∨ c.g_shared_data.on_close = some m) :
      Move c (.callback call m) { c with
        menus := c.menus.modify m fun menu => { menu with transport := call.entry }
        transport := .running call m }
  | inCallback (c : Conf) (call : Call) (m : ℕ) (menu menu' : MtpMenu.Conf) (a : MtpMenu.Action)
      (e : MtpMenu.Event) (h : c.transport = .running call m) (hm : c.menus[m]? = some menu)
      (ha : a = .transport ∨ a = .transportTimeout) (hs : MtpMenu.step menu a = some (e, menu'))
      (hr : returned e = none) :
      Move c (.inCallback m e) { c with menus := c.menus.set m menu', transport := .running call m }
  | behind (c : Conf) (call : Call) (m : ℕ) (menu menu' : MtpMenu.Conf) (a : MtpMenu.Action)
      (e : MtpMenu.Event) (ok : Bool) (h : c.transport = .running call m)
      (hm : c.menus[m]? = some menu) (ha : a = .transport ∨ a = .transportTimeout)
      (hs : MtpMenu.step menu a = some (e, menu')) (hr : returned e = some ok) :
      Move c (.inCallback m e) { c with menus := c.menus.set m menu', transport := call.behind ok }
  | startedOk (c : Conf) (path : Bytes) (h : c.transport = .started path true) :
      Move c .tau { c with
        g_shared_data := { c.g_shared_data with in_progress := true }
        transport := .release (.start path) true }
  | startedFail (c : Conf) (path : Bytes) (h : c.transport = .started path false) :
      Move c .tau { c with
        g_shared_data := { c.g_shared_data with current_file := [] }
        transport := .release (.start path) false }
  | releaseStart (c : Conf) (path : Bytes) (h : c.transport = .release (.start path) true) :
      Move c (.started c.opened) { c with
        g_shared_data := { c.g_shared_data with in_flight := c.g_shared_data.in_flight - 1 }
        transport := .idle, opened := c.opened + 1, files := c.files ++ [c.opened] }
  | releaseRefused (c : Conf) (path : Bytes) (h : c.transport = .release (.start path) false) :
      Move c .startRefused { c with
        g_shared_data := { c.g_shared_data with in_flight := c.g_shared_data.in_flight - 1 }
        transport := .idle }
  | releaseWrite (c : Conf) (f : ℕ) (buf : Bytes) (ok : Bool)
      (h : c.transport = .release (.write f buf) ok) :
      Move c (.writeReturn f ok) { c with
        g_shared_data := { c.g_shared_data with in_flight := c.g_shared_data.in_flight - 1 }
        transport := .idle }
  | releaseClose (c : Conf) (f : ℕ) (ok : Bool) (h : c.transport = .release (.close f) ok) :
      Move c .tau { c with
        g_shared_data := { c.g_shared_data with in_flight := c.g_shared_data.in_flight - 1 }
        transport := .clear f }
  | clear (c : Conf) (f : ℕ) (h : c.transport = .clear f) :
      Move c (.closed f) { c with
        g_shared_data := { c.g_shared_data with in_progress := false, current_file := [] }
        transport := .idle, files := c.files.erase f }
  | init (c : Conf) (h : c.ui = .free) :
      Move c (.init c.menus.length) { c with
        g_shared_data := { c.g_shared_data with
          on_start := some c.menus.length, on_write := some c.menus.length
          on_close := some c.menus.length, in_progress := false, current_file := []
          g_install_enabled := true }
        menus := c.menus ++ [{}] }
  | disable (c : Conf) (h : c.ui = .free) :
      Move c .disable { c with
        g_shared_data := { c.g_shared_data with g_install_enabled := false }, ui := .disabling }
  | wait (c : Conf) (h : c.ui = .disabling) : Move c .tau { c with ui := .waiting }
  | again (c : Conf) (h : c.ui = .waiting) : Move c .tau { c with ui := .disabling }
  | disabled (c : Conf) (h : c.ui = .disabling) (hf : c.g_shared_data.in_flight = 0) :
      Move c .disableReturn { c with
        g_shared_data := { c.g_shared_data with
          on_start := none, on_write := none, on_close := none
          in_progress := false, current_file := [] }
        ui := .free }
  | menu (c : Conf) (m : ℕ) (menu menu' : MtpMenu.Conf) (a : MtpMenu.Action) (e : MtpMenu.Event)
      (hm : c.menus[m]? = some menu) (ha : (ofUi a).isSome = true)
      (hs : MtpMenu.step menu a = some (e, menu')) :
      Move c (.menu m e) { c with menus := c.menus.set m menu' }

theorem guardStep_move {c : Conf} {call : Call} (ht : c.transport = .guard call) :
    Move c (guardStep c call).1 (guardStep c call).2 := by
  unfold guardStep
  by_cases hg : c.g_shared_data.g_install_enabled = true
  · rw [if_pos hg]
    exact .guardOn c call ht hg
  · rw [if_neg hg]
    cases call with
    | start path => exact .guardStart c path ht
    | write f buf => exact .guardWrite c f buf ht
    | close f => exact .guardClose c f ht

theorem copyStep_move {c : Conf} {call : Call} (ht : c.transport = .copy call) :
    Move c (copyStep c call).1 (copyStep c call).2 := by
  unfold copyStep
  cases call with
  | start path =>
    dsimp only
    by_cases hb : c.g_shared_data.in_progress = true ∨ c.g_shared_data.current_file ≠ []
    · rw [if_pos hb]
      exact .busy c path ht hb
    · rw [if_neg hb]
      have hfree : c.g_shared_data.in_progress = false ∧ c.g_shared_data.current_file = [] := by
        simpa using hb
      split
      · exact .noCallback c _ false ht fun _ _ => rfl
      · rename_i m hm
        exact .enterStart c path m ht hfree hm
  | write f buf =>
    dsimp only
    split
    · exact .noCallback c _ false ht fun _ _ => rfl
    · rename_i m hm
      exact .enter c _ m ht nofun (.inl hm)
  | close f =>
    dsimp only
    split
    · exact .noCallback c _ true ht nofun
    · rename_i m hm
      exact .enter c _ m ht nofun (.inr hm)

theorem callbackStep_move {c c' : Conf} {call : Call} {m : ℕ} {a : MtpMenu.Action} {e : Event}
    (ht : c.transport = .running call m) (ha : a = .transport ∨ a = .transportTimeout)
    (h : callbackStep c call m a = some (e, c')) : Move c e c' := by
  unfold callbackStep at h
  split at h
  · cases h
  · rename_i menu hm
    split at h
    · cases h
    · rename_i e₀ menu' hs
      cases h
      cases hr : returned e₀ with
      | none => exact .inCallback c call m menu menu' a e₀ ht hm ha hs hr
      | some ok => exact .behind c call m menu menu' a e₀ ok ht hm ha hs hr

theorem releaseStep_move {c : Conf} {call : Call} {ok : Bool}
    (ht : c.transport = .release call ok) :
    Move c (releaseStep c call ok).1 (releaseStep c call ok).2 := by
  unfold releaseStep
  cases call with
  | start path =>
    cases ok with
    | false => exact .releaseRefused c path ht
    | true => exact .releaseStart c path ht
  | write f buf => exact .releaseWrite c f buf ok ht
  | close f => exact .releaseClose c f ok ht

theorem menuStep_move {c c' : Conf} {m : ℕ} {a : MtpMenu.Action} {e : Event}
    (ha : (ofUi a).isSome = true) (h : menuStep c m a = some (e, c')) : Move c e c' := by
  unfold menuStep at h
  split at h
  · cases h
  · rename_i menu hm
    split at h
    · cases h
    · rename_i e₀ menu' hs
      cases h
      exact .menu c m menu menu' a e₀ hm ha hs

theorem transportStep_move {c c' : Conf} {e : Event} (h : transportStep c = some (e, c')) :
    Move c e c' := by
  unfold transportStep at h
  split at h
  · cases h
  · rename_i call ht
    rw [Option.some.injEq] at h
    have hm := guardStep_move ht
    rwa [h] at hm
  · rename_i call ht
    rw [Option.some.injEq] at h
    have hm := copyStep_move ht
    rwa [h] at hm
  · rename_i call m ht
    exact callbackStep_move ht (.inl rfl) h
  · rename_i path ok ht
    cases ok <;> cases h
    · exact .startedFail c path ht
    · exact .startedOk c path ht
  · rename_i call ok ht
    rw [Option.some.injEq] at h
    have hm := releaseStep_move ht
    rwa [h] at hm
  · rename_i f ht
    cases h
    exact .clear c f ht

theorem disableStep_move {c c' : Conf} {e : Event} (h : disableStep c = some (e, c')) :
    Move c e c' := by
  unfold disableStep at h
  split at h
  · cases h
  · rename_i hu
    split at h
    · cases h
      exact .wait c hu
    · rename_i hf
      rw [not_not] at hf
      cases h
      exact .disabled c hu hf
  · rename_i hu
    cases h
    exact .again c hu

/-- Every step is one of the moves. -/
theorem step_move {c c' : Conf} {a : Action} {e : Event} (h : step c a = some (e, c')) :
    Move c e c' := by
  cases a with
  | call call =>
    simp only [step] at h
    split at h
    · rename_i hc
      cases h
      exact .call c call hc.1 hc.2
    · cases h
  | transport => exact transportStep_move h
  | transportTimeout =>
    simp only [step] at h
    split at h
    · rename_i call m ht
      exact callbackStep_move ht (.inr rfl) h
    · cases h
  | InitInstallMode =>
    simp only [step] at h
    split at h
    · rename_i hu
      cases h
      exact .init c hu
    · cases h
  | DisableInstallMode =>
    simp only [step] at h
    split at h
    · rename_i hu
      cases h
      exact .disable c hu
    · cases h
  | ui => exact disableStep_move h
  | menu m a =>
    simp only [step] at h
    split at h
    · rename_i ho
      split at h
      · exact menuStep_move (by rw [ho]; rfl) h
      · cases h
    · rename_i ho
      exact menuStep_move (by rw [ho]; rfl) h
    · cases h

/-! ## What a trace says -/

/-- Whether the install mode is on after a label. -/
def Event.mode (b : Bool) : Event → Bool
  | init _ => true
  | disableReturn => false
  | _ => b

/-- Whether the install mode is on after a trace. -/
def modeOn (t : List Event) : Bool := t.foldl Event.mode false

/-- The files between a successful `StartInstall` and the end of their `CloseFile`. -/
def Event.opens (fs : List ℕ) : Event → List ℕ
  | started f => fs ++ [f]
  | closed f => fs.erase f
  | _ => fs

/-- The files that are open after a trace. -/
def openFiles (t : List Event) : List ℕ := t.foldl Event.opens []

/-- Whether a `StartInstall` has entered its callback and not returned, after a label. -/
def Event.starts (b : Bool) : Event → Bool
  | callback (.start _) _ => true
  | started _ => false
  | startRefused => false
  | _ => b

/-- Whether a `StartInstall` has entered its callback and not returned, after a trace. -/
def startOpen (t : List Event) : Bool := t.foldl Event.starts false

/-- Whether a file was opened since the last `CloseFile`. -/
def Event.since (b : Bool) : Event → Bool
  | started _ => true
  | closed _ => false
  | _ => b

/-- Whether a file was opened since the last `CloseFile` of a trace. -/
def openedSince (t : List Event) : Bool := t.foldl Event.since false

/-- The install mode is set while no file is open and no callback is opening one. -/
def InitApart (t : List Event) : Prop :=
  ∀ t₁ m t₂, t = t₁ ++ .init m :: t₂ → openFiles t₁ = [] ∧ startOpen t₁ = false

/-- The labels in a callback. -/
def Event.ofCallback : Event → Bool
  | callback _ _ => true
  | inCallback _ _ => true
  | _ => false

theorem modeOn_snoc (t : List Event) (e : Event) : modeOn (t ++ [e]) = e.mode (modeOn t) := by
  unfold modeOn
  rw [List.foldl_append]
  rfl

theorem openFiles_snoc (t : List Event) (e : Event) :
    openFiles (t ++ [e]) = e.opens (openFiles t) := by
  unfold openFiles
  rw [List.foldl_append]
  rfl

theorem startOpen_snoc (t : List Event) (e : Event) :
    startOpen (t ++ [e]) = e.starts (startOpen t) := by
  unfold startOpen
  rw [List.foldl_append]
  rfl

theorem openedSince_snoc (t : List Event) (e : Event) :
    openedSince (t ++ [e]) = e.since (openedSince t) := by
  unfold openedSince
  rw [List.foldl_append]
  rfl

/-- The mode stays off until the next `InitInstallMode`. -/
theorem modeOn_of_disabled (t₁ t₂ : List Event) (h : ∀ m, .init m ∉ t₂) :
    modeOn (t₁ ++ .disableReturn :: t₂) = false := by
  induction t₂ using List.reverseRecOn with
  | nil =>
    rw [modeOn_snoc]
    rfl
  | append_singleton t e ih =>
    have ht : modeOn (t₁ ++ .disableReturn :: t) = false :=
      ih fun m hm => h m (List.mem_append_left _ hm)
    have hsplit : t₁ ++ .disableReturn :: (t ++ [e]) = (t₁ ++ .disableReturn :: t) ++ [e] := by
      rw [List.append_assoc]
      rfl
    rw [hsplit, modeOn_snoc, ht]
    cases e with
    | init m => exact absurd (List.mem_append_right t (List.mem_singleton_self _)) (h m)
    | _ => rfl

/-- The file that was opened since the last `CloseFile`. -/
theorem openedSince_iff (t : List Event) :
    openedSince t = true ↔ ∃ t₁ f t₂, t = t₁ ++ .started f :: t₂ ∧ ∀ g, .closed g ∉ t₂ := by
  induction t using List.reverseRecOn with
  | nil => simp [openedSince]
  | append_singleton t e ih =>
    rw [openedSince_snoc]
    have hother : e.since (openedSince t) = openedSince t → (∀ f, e ≠ .started f) →
        (∀ g, e ≠ .closed g) → (e.since (openedSince t) = true ↔
          ∃ t₁ f t₂, t ++ [e] = t₁ ++ .started f :: t₂ ∧ ∀ g, .closed g ∉ t₂) := by
      intro hs hne hnc
      rw [hs, ih]
      constructor
      · rintro ⟨t₁, f, t₂, rfl, hc⟩
        refine ⟨t₁, f, t₂ ++ [e], by simp, ?_⟩
        intro g hg
        rcases List.mem_append.mp hg with hg | hg
        · exact hc g hg
        · exact hnc g (List.mem_singleton.mp hg).symm
      · rintro ⟨t₁, f, t₂, ht, hc⟩
        rcases List.eq_nil_or_concat' t₂ with rfl | ⟨t₃, e₃, rfl⟩
        · obtain ⟨-, he⟩ := List.append_inj' ht rfl
          cases he
          exact absurd rfl (hne f)
        · have ht' : t ++ [e] = (t₁ ++ .started f :: t₃) ++ [e₃] := by simpa using ht
          obtain ⟨ht', -⟩ := List.append_inj' ht' rfl
          exact ⟨t₁, f, t₃, ht', fun g hg => hc g (List.mem_append_left _ hg)⟩
    cases e with
    | started f => exact ⟨fun _ => ⟨t, f, [], rfl, fun _ => nofun⟩, fun _ => rfl⟩
    | closed g =>
      constructor
      · intro h
        cases h
      · rintro ⟨t₁, f, t₂, ht, hc⟩
        rcases List.eq_nil_or_concat' t₂ with rfl | ⟨t₃, e₃, rfl⟩
        · obtain ⟨-, he⟩ := List.append_inj' ht rfl
          cases he
        · have ht' : t ++ [.closed g] = (t₁ ++ .started f :: t₃) ++ [e₃] := by simpa using ht
          obtain ⟨-, he⟩ := List.append_inj' ht' rfl
          cases he
          exact absurd (List.mem_append_right _ (List.mem_singleton_self _)) (hc g)
    | _ => exact hother rfl nofun nofun

theorem InitApart.init {t : List Event} {e : Event} (h : InitApart (t ++ [e])) : InitApart t := by
  rintro t₁ m t₂ rfl
  exact h t₁ m (t₂ ++ [e]) (by simp)

/-! ## The invariant -/

/-- The guard the transport thread holds. -/
def Transport.guards : Transport → ℤ
  | idle => 0
  | guard _ => 0
  | copy _ => 1
  | running _ _ => 1
  | started _ _ => 1
  | release _ _ => 1
  | clear _ => 0

/-- `StartInstall` has set the file and has not given it up. -/
def Transport.sets : Transport → Bool
  | running (.start _) _ => true
  | started _ _ => true
  | release (.start _) ok => ok
  | _ => false

/-- `StartInstall` has set `in_progress`. -/
def Transport.marks : Transport → Bool
  | release (.start _) ok => ok
  | _ => false

/-- The file a `CloseFile` is about. -/
def Transport.closes : Transport → Option ℕ
  | guard (.close f) => some f
  | copy (.close f) => some f
  | running (.close f) _ => some f
  | release (.close f) _ => some f
  | clear f => some f
  | _ => none

/-- At most one file is open, and while it is `in_progress` says so or there is no callback that
could open another. -/
structure OneFile (c : Conf) : Prop where
  one : c.files = [] ∨ ∃ f, c.files = [f] ∧
    (c.g_shared_data.in_progress = true ∨ c.g_shared_data.on_start = none)
  sets : c.transport.sets = true → c.files = []
  done : ∀ path, c.transport = .release (.start path) true → c.g_shared_data.in_progress = true

/-- The invariant of a run. -/
structure Inv (t : List Event) (c : Conf) : Prop where
  flight : c.g_shared_data.in_flight = c.transport.guards
  disabling : c.ui ≠ .free → c.g_shared_data.g_install_enabled = false
  off : modeOn t = false → c.g_shared_data.g_install_enabled = false ∧ c.transport.guards = 0
  leftover : c.g_shared_data.in_progress = true ∨ c.g_shared_data.current_file ≠ [] →
    openedSince t = true ∨ c.transport.sets = true
  fresh : c.transport.sets = true → c.transport.marks = false →
    c.g_shared_data.in_progress = false
  files : c.files = openFiles t
  starts : c.transport.sets = true → startOpen t = true
  closes : ∀ f, c.transport.closes = some f → f ∈ c.files
  one : InitApart t → OneFile c

theorem guards_nonneg (tr : Transport) : 0 ≤ tr.guards := by
  cases tr <;> simp [Transport.guards]

theorem Call.behind_guards (ok : Bool) (call : Call) : (call.behind ok).guards = 1 := by
  cases call <;> rfl

theorem Call.behind_sets (ok : Bool) (call : Call) (m : ℕ) :
    (call.behind ok).sets = (Transport.running call m).sets := by
  cases call <;> rfl

theorem Call.behind_closes (ok : Bool) (call : Call) (m : ℕ) :
    (call.behind ok).closes = (Transport.running call m).closes := by
  cases call <;> rfl

theorem flight_step {t : List Event} {c c' : Conf} {e : Event} (hi : Inv t c) (h : Move c e c') :
    c'.g_shared_data.in_flight = c'.transport.guards := by
  have hf := hi.flight
  cases h with
  | guardOn call ht _ =>
    rw [ht] at hf
    simp [hf, Transport.guards]
  | releaseStart path ht =>
    rw [ht] at hf
    simp [hf, Transport.guards]
  | releaseRefused path ht =>
    rw [ht] at hf
    simp [hf, Transport.guards]
  | releaseWrite f buf ok ht =>
    rw [ht] at hf
    simp [hf, Transport.guards]
  | releaseClose f ok ht =>
    rw [ht] at hf
    simp [hf, Transport.guards]
  -- the guard is held until it is given back, also behind the callback
  | behind call m menu menu' a e ok ht _ _ _ _ =>
    rw [ht] at hf
    exact hf.trans (Call.behind_guards ok call).symm
  | call call ht _ =>
    rw [ht] at hf
    exact hf
  | guardStart path ht =>
    rw [ht] at hf
    exact hf
  | guardWrite f buf ht =>
    rw [ht] at hf
    exact hf
  | guardClose f ht =>
    rw [ht] at hf
    exact hf
  | busy path ht _ =>
    rw [ht] at hf
    exact hf
  | noCallback call ok ht _ =>
    rw [ht] at hf
    exact hf
  | enterStart path m ht _ _ =>
    rw [ht] at hf
    exact hf
  | enter call m ht _ _ =>
    rw [ht] at hf
    exact hf
  | inCallback call m menu menu' a e ht _ _ _ _ =>
    rw [ht] at hf
    exact hf
  | startedOk path ht =>
    rw [ht] at hf
    exact hf
  | startedFail path ht =>
    rw [ht] at hf
    exact hf
  | clear f ht =>
    rw [ht] at hf
    exact hf
  | _ => exact hf

theorem disabling_step {t : List Event} {c c' : Conf} {e : Event} (hi : Inv t c)
    (h : Move c e c') : c'.ui ≠ .free → c'.g_shared_data.g_install_enabled = false := by
  intro hu
  cases h with
  | init h => exact absurd h hu
  | disable => rfl
  | disabled => exact absurd rfl hu
  | wait h => exact hi.disabling (by rw [h]; exact nofun)
  | again h => exact hi.disabling (by rw [h]; exact nofun)
  | _ => exact hi.disabling hu

/-- The label changes neither the mode nor the flag, and no guard is new. -/
theorem off_frame {t : List Event} {c c' : Conf} {e : Event} (hi : Inv t c)
    (he : e.mode (modeOn t) = modeOn t)
    (hg : c'.g_shared_data.g_install_enabled = c.g_shared_data.g_install_enabled)
    (ht : c.transport.guards = 0 → c'.transport.guards = 0) :
    modeOn (t ++ [e]) = false →
      c'.g_shared_data.g_install_enabled = false ∧ c'.transport.guards = 0 := by
  intro hm
  rw [modeOn_snoc, he] at hm
  obtain ⟨h₁, h₂⟩ := hi.off hm
  exact ⟨hg.trans h₁, ht h₂⟩

theorem off_step {t : List Event} {c c' : Conf} {e : Event} (hi : Inv t c) (h : Move c e c') :
    modeOn (t ++ [e]) = false →
      c'.g_shared_data.g_install_enabled = false ∧ c'.transport.guards = 0 := by
  cases h with
  | guardOn call ht hg =>
    -- the flag is set, so the mode is on
    intro hm
    rw [modeOn_snoc] at hm
    exact absurd (hg.symm.trans (hi.off hm).1) nofun
  | init hu =>
    intro hm
    rw [modeOn_snoc] at hm
    cases hm
  | disable hu =>
    intro hm
    rw [modeOn_snoc] at hm
    exact ⟨rfl, (hi.off hm).2⟩
  | disabled hu hf =>
    intro _
    exact ⟨hi.disabling (by rw [hu]; exact nofun), hi.flight.symm.trans hf⟩
  | call call ht _ => exact off_frame hi rfl rfl fun _ => rfl
  | busy path ht _ => exact off_frame hi rfl rfl (by rw [ht]; exact nofun)
  | noCallback call ok ht _ => exact off_frame hi rfl rfl (by rw [ht]; exact nofun)
  | enterStart path m ht _ _ => exact off_frame hi rfl rfl (by rw [ht]; exact nofun)
  | enter call m ht _ _ => exact off_frame hi rfl rfl (by rw [ht]; exact nofun)
  | inCallback call m menu menu' a e ht _ _ _ _ =>
    exact off_frame hi rfl rfl (by rw [ht]; exact nofun)
  | behind call m menu menu' a e ok ht _ _ _ _ =>
    exact off_frame hi rfl rfl (by rw [ht]; exact nofun)
  | startedOk path ht => exact off_frame hi rfl rfl (by rw [ht]; exact nofun)
  | startedFail path ht => exact off_frame hi rfl rfl (by rw [ht]; exact nofun)
  | guardStart path ht => exact off_frame hi rfl rfl fun _ => rfl
  | guardWrite f buf ht => exact off_frame hi rfl rfl fun _ => rfl
  | guardClose f ht => exact off_frame hi rfl rfl fun _ => rfl
  | releaseStart path ht => exact off_frame hi rfl rfl fun _ => rfl
  | releaseRefused path ht => exact off_frame hi rfl rfl fun _ => rfl
  | releaseWrite f buf ok ht => exact off_frame hi rfl rfl fun _ => rfl
  | releaseClose f ok ht => exact off_frame hi rfl rfl fun _ => rfl
  | clear f ht => exact off_frame hi rfl rfl fun _ => rfl
  | wait => exact off_frame hi rfl rfl id
  | again => exact off_frame hi rfl rfl id
  | menu => exact off_frame hi rfl rfl id

/-- The state of a file is not set anew, and the call goes on. -/
theorem leftover_frame {t : List Event} {c c' : Conf} {e : Event} (hi : Inv t c)
    (he : e.since (openedSince t) = openedSince t)
    (hp : c'.g_shared_data.in_progress = true → c.g_shared_data.in_progress = true)
    (hf : c'.g_shared_data.current_file ≠ [] → c.g_shared_data.current_file ≠ [])
    (ht : c.transport.sets = true → c'.transport.sets = true) :
    c'.g_shared_data.in_progress = true ∨ c'.g_shared_data.current_file ≠ [] →
      openedSince (t ++ [e]) = true ∨ c'.transport.sets = true := by
  intro hb
  rw [openedSince_snoc, he]
  exact (hi.leftover (hb.imp hp hf)).imp id ht

theorem leftover_step {t : List Event} {c c' : Conf} {e : Event} (hi : Inv t c)
    (h : Move c e c') : c'.g_shared_data.in_progress = true ∨ c'.g_shared_data.current_file ≠ [] →
      openedSince (t ++ [e]) = true ∨ c'.transport.sets = true := by
  cases h with
  | enterStart path m ht _ _ => exact fun _ => .inr rfl
  | startedOk path ht => exact fun _ => .inr rfl
  | startedFail path ht =>
    -- without the file only an older `in_progress` is left
    intro hb
    rcases hb with hb | hb
    · rcases hi.leftover (.inl hb) with hs | hs
      · left
        rw [openedSince_snoc]
        exact hs
      · have hfree := hi.fresh hs (by rw [ht]; rfl)
        exact absurd (hfree.symm.trans hb) nofun
    · exact absurd rfl hb
  | releaseStart path ht =>
    intro _
    left
    rw [openedSince_snoc]
    rfl
  | clear f ht =>
    rintro (hb | hb)
    · cases hb
    · exact absurd rfl hb
  | init hu =>
    rintro (hb | hb)
    · cases hb
    · exact absurd rfl hb
  | disabled hu hf =>
    rintro (hb | hb)
    · cases hb
    · exact absurd rfl hb
  | call call ht _ => exact leftover_frame hi rfl id id (by rw [ht]; exact nofun)
  | guardOn call ht _ => exact leftover_frame hi rfl id id (by rw [ht]; exact nofun)
  | guardStart path ht => exact leftover_frame hi rfl id id (by rw [ht]; exact nofun)
  | guardWrite f buf ht => exact leftover_frame hi rfl id id (by rw [ht]; exact nofun)
  | guardClose f ht => exact leftover_frame hi rfl id id (by rw [ht]; exact nofun)
  | busy path ht _ => exact leftover_frame hi rfl id id (by rw [ht]; exact nofun)
  | noCallback call ok ht _ => exact leftover_frame hi rfl id id (by rw [ht]; exact nofun)
  | enter call m ht _ _ => exact leftover_frame hi rfl id id (by rw [ht]; exact nofun)
  | inCallback call m menu menu' a e ht _ _ _ _ =>
    exact leftover_frame hi rfl id id (by rw [ht]; exact id)
  | behind call m menu menu' a e ok ht _ _ _ _ =>
    exact leftover_frame hi rfl id id (by rw [ht, call.behind_sets ok m]; exact id)
  | releaseRefused path ht => exact leftover_frame hi rfl id id (by rw [ht]; exact nofun)
  | releaseWrite f buf ok ht => exact leftover_frame hi rfl id id (by rw [ht]; exact nofun)
  | releaseClose f ok ht => exact leftover_frame hi rfl id id (by rw [ht]; exact nofun)
  | disable => exact leftover_frame hi rfl id id id
  | wait => exact leftover_frame hi rfl id id id
  | again => exact leftover_frame hi rfl id id id
  | menu => exact leftover_frame hi rfl id id id

theorem fresh_step {t : List Event} {c c' : Conf} {e : Event} (hi : Inv t c) (h : Move c e c') :
    c'.transport.sets = true → c'.transport.marks = false →
      c'.g_shared_data.in_progress = false := by
  intro hs hm
  cases h with
  | enterStart path m ht hb _ => exact hb.1
  | inCallback call m menu menu' a e ht _ _ _ _ =>
    exact hi.fresh (by rw [ht]; exact hs) (by rw [ht]; exact hm)
  | behind call m menu menu' a e ok ht _ _ _ _ =>
    rw [call.behind_sets ok m] at hs
    exact hi.fresh (by rw [ht]; exact hs) (by rw [ht]; rfl)
  | startedOk => cases hm
  | startedFail => cases hs
  | enter call m ht hc _ =>
    cases call with
    | start path => exact absurd rfl (hc path)
    | write f buf => cases hs
    | close f => cases hs
  | noCallback call ok ht hok =>
    cases call with
    | start path =>
      cases hok path rfl
      cases hs
    | write f buf => cases hs
    | close f => cases hs
  | init => rfl
  | disabled => rfl
  | disable => exact hi.fresh hs hm
  | wait => exact hi.fresh hs hm
  | again => exact hi.fresh hs hm
  | menu => exact hi.fresh hs hm
  | _ => cases hs

theorem files_step {t : List Event} {c c' : Conf} {e : Event} (hi : Inv t c) (h : Move c e c') :
    c'.files = openFiles (t ++ [e]) := by
  rw [openFiles_snoc, ← hi.files]
  cases h <;> rfl

/-- The label opens and ends no `StartInstall`, and the call goes on. -/
theorem starts_frame {t : List Event} {c c' : Conf} {e : Event} (hi : Inv t c)
    (he : e.starts (startOpen t) = startOpen t)
    (ht : c'.transport.sets = true → c.transport.sets = true) :
    c'.transport.sets = true → startOpen (t ++ [e]) = true := by
  intro hs
  rw [startOpen_snoc, he]
  exact hi.starts (ht hs)

theorem starts_step {t : List Event} {c c' : Conf} {e : Event} (hi : Inv t c) (h : Move c e c') :
    c'.transport.sets = true → startOpen (t ++ [e]) = true := by
  cases h with
  | enterStart path m ht _ _ =>
    intro _
    rw [startOpen_snoc]
    rfl
  | startedOk path ht => exact starts_frame hi rfl fun _ => by rw [ht]; rfl
  | inCallback call m menu menu' a e ht _ _ _ _ => exact starts_frame hi rfl (by rw [ht]; exact id)
  | behind call m menu menu' a e ok ht _ _ _ _ =>
    exact starts_frame hi rfl (by rw [ht, call.behind_sets ok m]; exact id)
  | enter call m ht hc _ =>
    intro hs
    cases call with
    | start path => exact absurd rfl (hc path)
    | write f buf => cases hs
    | close f => cases hs
  | noCallback call ok ht hok =>
    intro hs
    cases call with
    | start path =>
      cases hok path rfl
      cases hs
    | write f buf => cases hs
    | close f => cases hs
  | init => exact starts_frame hi rfl id
  | disable => exact starts_frame hi rfl id
  | wait => exact starts_frame hi rfl id
  | again => exact starts_frame hi rfl id
  | disabled => exact starts_frame hi rfl id
  | menu => exact starts_frame hi rfl id
  | _ => exact nofun

theorem closes_step {t : List Event} {c c' : Conf} {e : Event} (hi : Inv t c) (h : Move c e c') :
    ∀ f, c'.transport.closes = some f → f ∈ c'.files := by
  have hc := hi.closes
  cases h with
  | call call ht hf =>
    intro f hf'
    cases call with
    | start path => cases hf'
    | write g buf => cases hf'
    | close g =>
      cases hf'
      exact List.contains_iff_mem.mp hf
  | guardOn call ht _ =>
    rw [ht] at hc
    cases call <;> exact hc
  | noCallback call ok ht _ =>
    rw [ht] at hc
    cases call <;> exact hc
  | enter call m ht _ _ =>
    rw [ht] at hc
    cases call <;> exact hc
  | inCallback call m menu menu' a e ht _ _ _ _ =>
    rw [ht] at hc
    exact hc
  | behind call m menu menu' a e ok ht _ _ _ _ =>
    rw [ht] at hc
    intro f hf
    rw [call.behind_closes ok m] at hf
    exact hc f hf
  | guardClose f ht =>
    rw [ht] at hc
    exact hc
  | releaseClose f ok ht =>
    rw [ht] at hc
    exact hc
  | init => exact hc
  | disable => exact hc
  | wait => exact hc
  | again => exact hc
  | disabled => exact hc
  | menu => exact hc
  | _ => exact nofun

/-- A step that leaves the files, what `StartInstall` looks at and a `StartInstall` under way
alone. -/
theorem OneFile.frame {c c' : Conf} (h : OneFile c) (hf : c'.files = c.files)
    (hp : c'.g_shared_data.in_progress = c.g_shared_data.in_progress)
    (ho : c'.g_shared_data.on_start = c.g_shared_data.on_start)
    (hs : c'.transport.sets = true → c.transport.sets = true)
    (hd : ∀ path, c'.transport ≠ .release (.start path) true) : OneFile c' := by
  constructor
  · rw [hf, hp, ho]
    exact h.one
  · intro hs'
    rw [hf]
    exact h.sets (hs hs')
  · exact fun path hpath => absurd hpath (hd path)

theorem one_step {t : List Event} {c c' : Conf} {e : Event} (hi : Inv t c) (h : Move c e c')
    (ha : InitApart (t ++ [e])) : OneFile c' := by
  have ho := hi.one ha.init
  cases h with
  | enterStart path m ht hb hm =>
    -- an open file leaves no way in: the state is taken, or the callback is gone
    have hfiles : c.files = [] := by
      rcases ho.one with hf | ⟨f, -, hp | hnone⟩
      · exact hf
      · exact absurd (hb.1.symm.trans hp) nofun
      · exact absurd (hm.symm.trans hnone) nofun
    exact ⟨.inl hfiles, fun _ => hfiles, nofun⟩
  | startedOk path ht =>
    have hfiles := ho.sets (by rw [ht]; rfl)
    exact ⟨.inl hfiles, fun _ => hfiles, fun _ _ => rfl⟩
  | releaseStart path ht =>
    have hfiles := ho.sets (by rw [ht]; rfl)
    refine ⟨.inr ⟨c.opened, ?_, .inl (ho.done path ht)⟩, nofun, nofun⟩
    rw [hfiles]
    rfl
  | clear f ht =>
    -- the file that is closed is the one that is open
    have hmem := hi.closes f (by rw [ht]; rfl)
    refine ⟨.inl ?_, nofun, nofun⟩
    rcases ho.one with hf | ⟨g, hg, -⟩
    · rw [hf] at hmem
      cases hmem
    · rw [hg, List.mem_singleton] at hmem
      rw [hg, hmem]
      exact List.erase_cons_head g []
  | init hu =>
    -- here `in_progress` is cleared, and the mode is on again
    obtain ⟨hf, hs⟩ := ha t c.menus.length [] rfl
    rw [← hi.files] at hf
    have hsets : c.transport.sets = false := by
      by_contra hc
      exact absurd ((hi.starts (eq_true_of_ne_false hc)).symm.trans hs) nofun
    refine ⟨.inl hf, fun _ => hf, ?_⟩
    intro path hp
    dsimp only at hp
    rw [hp] at hsets
    cases hsets
  | disabled hu hf =>
    -- no guard is left, so no `StartInstall` is past its guard; without a callback none gets far
    have hguards : c.transport.guards = 0 := hi.flight.symm.trans hf
    refine ⟨ho.one.imp id fun ⟨f, hfiles, _⟩ => ⟨f, hfiles, .inr rfl⟩, ho.sets, ?_⟩
    intro path hp
    dsimp only at hp
    rw [hp] at hguards
    cases hguards
  | inCallback call m menu menu' a e ht _ _ _ _ =>
    exact ho.frame rfl rfl rfl (by rw [ht]; exact id) nofun
  | behind call m menu menu' a e ok ht _ _ _ _ =>
    refine ho.frame rfl rfl rfl (by rw [ht, call.behind_sets ok m]; exact id) ?_
    intro path hp
    cases call <;> cases hp
  | enter call m ht hc _ =>
    refine ho.frame rfl rfl rfl ?_ nofun
    intro hs
    cases call with
    | start path => exact absurd rfl (hc path)
    | write f buf => cases hs
    | close f => cases hs
  | noCallback call ok ht hok =>
    have hnot : ∀ path, Transport.release call ok ≠ .release (.start path) true := by
      intro path hp
      cases hp
      exact absurd (hok path rfl) nofun
    refine ho.frame rfl rfl rfl ?_ hnot
    intro hs
    cases call with
    | start path =>
      cases hok path rfl
      cases hs
    | write f buf => cases hs
    | close f => cases hs
  | disable => exact ⟨ho.one, ho.sets, ho.done⟩
  | wait => exact ⟨ho.one, ho.sets, ho.done⟩
  | again => exact ⟨ho.one, ho.sets, ho.done⟩
  | menu => exact ⟨ho.one, ho.sets, ho.done⟩
  | _ => exact ho.frame rfl rfl rfl nofun nofun

/-- The invariant holds along every run. -/
theorem Inv.of_runs {t : List Event} {c : Conf} (h : Runs t c) : Inv t c := by
  refine Trace.invariant ?_ ?_ h
  · rintro s rfl
    exact
      { flight := rfl
        disabling := fun _ => rfl
        off := fun _ => ⟨rfl, rfl⟩
        leftover := fun hb => hb.elim nofun fun hf => absurd rfl hf
        fresh := nofun
        files := rfl
        starts := nofun
        closes := nofun
        one := fun _ => ⟨.inl rfl, nofun, nofun⟩ }
  · intro t s a e s' hi hs
    have hm := step_move hs
    exact
      { flight := flight_step hi hm
        disabling := disabling_step hi hm
        off := off_step hi hm
        leftover := leftover_step hi hm
        fresh := fresh_step hi hm
        files := files_step hi hm
        starts := starts_step hi hm
        closes := closes_step hi hm
        one := one_step hi hm }

/-! ## The callbacks of the menus -/

/-- A step of the transport thread returns from the callback or stays in it. -/
theorem returned_quiet {c c' : MtpMenu.Conf} {a : MtpMenu.Action} {e : MtpMenu.Event}
    (ha : a = .transport ∨ a = .transportTimeout) (h : MtpMenu.step c a = some (e, c')) :
    (returned e).isSome = c'.transport.quiet := by
  have hpush : ∀ {file i : ℕ} {b : MtpStream.Action},
      MtpMenu.pushStep c file i b = some (e, c') → c.transport = .pushing file i →
      (returned e).isSome = c'.transport.quiet := by
    intro file i b hp ht
    unfold MtpMenu.pushStep at hp
    split at hp
    · cases hp
    · cases hp
      rfl
    · rename_i r hne heq
      obtain ⟨e₀, sources, -, rfl, rfl⟩ := MtpMenu.onSource_eq (heq.trans hp)
      dsimp only
      rw [ht]
      cases e₀ with
      | pushReturn ok => exact absurd (Option.some.inj hp) (hne i ok _)
      | _ => rfl
  -- `Push` aside, the place shows whether the step was the last one
  rcases ha with rfl | rfl
  · have h : MtpMenu.transportStep c = some (e, c') := h
    unfold MtpMenu.transportStep at h
    split at h
    · cases h
    · split at h <;> cases h <;> rfl
    · have h := Option.some.inj h
      unfold MtpMenu.connect at h
      split at h <;> cases h <;> rfl
    · cases h
    · cases h
      rfl
    · cases h
      rfl
    · -- the call of `Push` is not its return
      rename_i file i buf ht
      obtain ⟨e₀, sources, hs, rfl, rfl⟩ := MtpMenu.onSource_eq h
      obtain ⟨s, conf, -, hm, -⟩ := hs.step
      simp only [MtpStream.step] at hm
      split at hm <;> cases hm
      rfl
    · rename_i file i ht
      exact hpush h ht
    · cases h
      rfl
    · cases h
      rfl
    · obtain ⟨e₀, sources, hs, rfl, rfl⟩ := MtpMenu.onSource_eq h
      obtain ⟨s, conf, -, hm, -⟩ := hs.step
      cases hm
      rfl
    · split at h <;> cases h <;> rfl
  · simp only [MtpMenu.step] at h
    split at h
    · rename_i file i ht
      exact hpush h ht
    · cases h

/-- A step outside the callbacks leaves the transport thread of its menu alone. -/
theorem menu_transport {c c' : MtpMenu.Conf} {a : MtpMenu.Action} {e : MtpMenu.Event}
    (ha : (ofUi a).isSome = true) (h : MtpMenu.step c a = some (e, c')) :
    c'.transport = c.transport := by
  have hon : ∀ {c₁ : MtpMenu.Conf} {i : ℕ} {b : MtpStream.Action},
      MtpMenu.onSource c₁ i b = some (e, c') → c₁.transport = c.transport →
      c'.transport = c.transport := by
    intro c₁ i b ho ht
    obtain ⟨e₀, sources, -, rfl, rfl⟩ := MtpMenu.onSource_eq ho
    exact ht
  cases a with
  | callStart => cases ha
  | callWrite => cases ha
  | callClose => cases ha
  | transport => cases ha
  | transportTimeout => cases ha
  | update =>
    simp only [MtpMenu.step] at h
    split at h
    · unfold MtpMenu.Update at h
      split at h
      · cases h
        rfl
      · split at h <;> cases h
        rfl
    · cases h
  | ui =>
    simp only [MtpMenu.step, MtpMenu.uiStep] at h
    split at h
    · cases h
    · cases h
      rfl
    · split at h <;> cases h <;> rfl
    · exact hon h rfl
    · exact hon h rfl
  | done k =>
    simp only [MtpMenu.step] at h
    split at h <;> cases h
    rfl
  | stop =>
    simp only [MtpMenu.step] at h
    split at h <;> cases h
    rfl
  | readChunk k size =>
    simp only [MtpMenu.step] at h
    split at h
    · exact hon h rfl
    · cases h
  | job k =>
    simp only [MtpMenu.step] at h
    split at h
    · exact hon h rfl
    · exact hon h rfl
    · cases h
  | jobTimeout k =>
    simp only [MtpMenu.step] at h
    split at h
    · exact hon h rfl
    · cases h
  | jobReturn k rc =>
    simp only [MtpMenu.step] at h
    split at h
    · split at h
      · split at h <;> cases h
        rfl
      · cases h
    · cases h

/-- Every callback is one of a menu, and the transport thread is in the callback of one menu at
most. -/
structure Menus (c : Conf) : Prop where
  registered : ∀ m, c.g_shared_data.on_start = some m ∨ c.g_shared_data.on_write = some m ∨
    c.g_shared_data.on_close = some m → m < c.menus.length
  running : ∀ call m, c.transport = .running call m → m < c.menus.length
  wired : ∀ (m : ℕ) (menu : MtpMenu.Conf), c.menus[m]? = some menu → MtpMenu.Wired menu
  quiet : ∀ (m : ℕ) (menu : MtpMenu.Conf), c.menus[m]? = some menu →
    (menu.transport.quiet = false ↔ ∃ call, c.transport = .running call m)

/-- A step that is in no callback before and after. -/
theorem Menus.frame {c c' : Conf} (h : Menus c) (hmenus : c'.menus = c.menus)
    (hreg : ∀ m, c'.g_shared_data.on_start = some m ∨ c'.g_shared_data.on_write = some m ∨
      c'.g_shared_data.on_close = some m → m < c.menus.length)
    (ht : ∀ call m, c.transport = .running call m ↔ c'.transport = .running call m) : Menus c' := by
  constructor
  · intro m hm
    rw [hmenus]
    exact hreg m hm
  · intro call m hr
    rw [hmenus]
    exact h.running call m ((ht call m).mpr hr)
  · rw [hmenus]
    exact h.wired
  · intro m menu hm
    rw [hmenus] at hm
    rw [h.quiet m menu hm]
    simp only [ht]

/-- One menu takes a step. -/
theorem Menus.set {c : Conf} (h : Menus c) {m : ℕ} {menu menu' : MtpMenu.Conf} (tr : Transport)
    (hm : c.menus[m]? = some menu) (hw : MtpMenu.Wired menu')
    (hq : menu'.transport.quiet = false ↔ ∃ call, tr = .running call m)
    (ht : ∀ call m', m' ≠ m → (c.transport = .running call m' ↔ tr = .running call m')) :
    Menus { c with menus := c.menus.set m menu', transport := tr } := by
  have hlt : m < c.menus.length := (List.getElem?_eq_some_iff.mp hm).1
  have hget : ∀ m' menu₁, (c.menus.set m menu')[m']? = some menu₁ →
      m' = m ∧ menu₁ = menu' ∨ m' ≠ m ∧ c.menus[m']? = some menu₁ := by
    intro m' menu₁ hget
    by_cases hmm : m' = m
    · subst hmm
      rw [List.getElem?_set_self hlt] at hget
      cases hget
      exact .inl ⟨rfl, rfl⟩
    · rw [List.getElem?_set_ne (Ne.symm hmm)] at hget
      exact .inr ⟨hmm, hget⟩
  constructor
  · intro m' hm'
    rw [List.length_set]
    exact h.registered m' hm'
  · intro call m' hr
    rw [List.length_set]
    by_cases hmm : m' = m
    · rw [hmm]
      exact hlt
    · exact h.running call m' ((ht call m' hmm).mpr hr)
  · intro m' menu₁ hg
    rcases hget m' menu₁ hg with ⟨-, rfl⟩ | ⟨-, hg⟩
    · exact hw
    · exact h.wired m' menu₁ hg
  · intro m' menu₁ hg
    rcases hget m' menu₁ hg with ⟨rfl, rfl⟩ | ⟨hmm, hg⟩
    · exact hq
    · rw [h.quiet m' menu₁ hg]
      simp only [ht _ m' hmm]

theorem Call.entry_quiet (call : Call) : call.entry.quiet = false := by
  cases call <;> rfl

theorem Call.entry_target (call : Call) : call.entry.target = none := by
  cases call <;> rfl

theorem Call.behind_running (ok : Bool) (call call' : Call) (m : ℕ) :
    call.behind ok ≠ .running call' m := by
  cases call <;> exact nofun

/-- A callback is entered. -/
theorem Menus.enter {c : Conf} (h : Menus c) {call : Call} {m : ℕ} {g : Shared}
    (ht : c.transport = .copy call) (hm : m < c.menus.length)
    (hreg : ∀ m, g.on_start = some m ∨ g.on_write = some m ∨ g.on_close = some m →
      m < c.menus.length) :
    Menus { c with
      g_shared_data := g
      menus := c.menus.modify m fun menu => { menu with transport := call.entry }
      transport := .running call m } := by
  have hget := List.getElem?_eq_getElem hm
  have hquiet : c.menus[m].transport.quiet = true := by
    by_contra hq
    obtain ⟨call', hr⟩ := (h.quiet m _ hget).mp (eq_false_of_ne_true hq)
    rw [ht] at hr
    cases hr
  have hset := h.set (.running call m) hget
    ((h.wired m _ hget).enter hquiet call.entry_target)
    ⟨fun _ => ⟨call, rfl⟩, fun _ => call.entry_quiet⟩ (by
      intro call' m' hmm
      rw [ht]
      constructor
      · exact nofun
      · intro hr
        cases hr
        exact absurd rfl hmm)
  have hmod : (c.menus.modify m fun menu => { menu with transport := call.entry }) =
      c.menus.set m { c.menus[m] with transport := call.entry } := by
    rw [List.modify_eq_set_getElem?, hget]
    rfl
  rw [hmod]
  refine ⟨?_, hset.running, hset.wired, hset.quiet⟩
  intro m' hm'
  rw [List.length_set]
  exact hreg m' hm'

theorem Menus.step {c c' : Conf} {e : Event} (h : Menus c) (hmove : Move c e c') : Menus c' := by
  cases hmove with
  | enterStart path m ht hb hm =>
    exact h.enter ht (h.registered m (.inl hm)) h.registered
  | enter call m ht hc hm => exact h.enter ht (h.registered m (.inr hm)) h.registered
  | inCallback call m menu menu' a e ht hm ha hs hr =>
    have hq := returned_quiet ha hs
    rw [hr] at hq
    refine h.set _ hm ((h.wired m menu hm).step (MtpMenu.step_move hs)) ?_ ?_
    · exact ⟨fun _ => ⟨call, rfl⟩, fun _ => hq.symm⟩
    · intro call' m' _
      rw [ht]
  -- the callback has returned, and its menu is quiet again
  | behind call m menu menu' a e ok ht hm ha hs hr =>
    have hq := returned_quiet ha hs
    rw [hr] at hq
    refine h.set _ hm ((h.wired m menu hm).step (MtpMenu.step_move hs)) ?_ ?_
    · constructor
      · intro hf
        rw [← hq] at hf
        cases hf
      · rintro ⟨call', hc⟩
        exact absurd hc (call.behind_running ok call' m)
    · intro call' m' hmm
      rw [ht]
      constructor
      · intro hr'
        cases hr'
        exact absurd rfl hmm
      · intro hc
        exact absurd hc (call.behind_running ok call' m')
  | menu m menu menu' a e hm ha hs =>
    refine h.set _ hm ((h.wired m menu hm).step (MtpMenu.step_move hs)) ?_ fun _ _ _ => Iff.rfl
    rw [menu_transport ha hs]
    exact h.quiet m menu hm
  -- the new menu is wired, and no callback of it runs
  | init hu =>
    have hlen : (c.menus ++ [({} : MtpMenu.Conf)]).length = c.menus.length + 1 := by simp
    constructor
    · have hnew : c.menus.length < (c.menus ++ [({} : MtpMenu.Conf)]).length := by omega
      rintro m (hm | hm | hm) <;> cases hm <;> exact hnew
    · intro call m hr
      exact (h.running call m hr).trans_le (by rw [hlen]; exact Nat.le_succ _)
    · intro m menu hm
      rcases Nat.lt_or_ge m c.menus.length with hlt | hge
      · rw [List.getElem?_append_left hlt] at hm
        exact h.wired m menu hm
      · rw [List.getElem?_append_right hge, List.getElem?_singleton] at hm
        split at hm <;> cases hm
        exact MtpMenu.Wired.initial
    · intro m menu hm
      rcases Nat.lt_or_ge m c.menus.length with hlt | hge
      · rw [List.getElem?_append_left hlt] at hm
        exact h.quiet m menu hm
      · rw [List.getElem?_append_right hge, List.getElem?_singleton] at hm
        split at hm <;> cases hm
        constructor
        · exact nofun
        · rintro ⟨call, hr⟩
          have hlt := h.running call m hr
          omega
  | disabled hu hf => exact h.frame rfl (by rintro m (hm | hm | hm) <;> cases hm) fun _ _ => Iff.rfl
  | disable hu => exact h.frame rfl h.registered fun _ _ => Iff.rfl
  | wait hu => exact h.frame rfl h.registered fun _ _ => Iff.rfl
  | again hu => exact h.frame rfl h.registered fun _ _ => Iff.rfl
  | call call ht _ => exact h.frame rfl h.registered (by rw [ht]; simp)
  | guardOn call ht _ => exact h.frame rfl h.registered (by rw [ht]; simp)
  | guardStart path ht => exact h.frame rfl h.registered (by rw [ht]; simp)
  | guardWrite f buf ht => exact h.frame rfl h.registered (by rw [ht]; simp)
  | guardClose f ht => exact h.frame rfl h.registered (by rw [ht]; simp)
  | busy path ht _ => exact h.frame rfl h.registered (by rw [ht]; simp)
  | noCallback call ok ht _ => exact h.frame rfl h.registered (by rw [ht]; simp)
  | startedOk path ht => exact h.frame rfl h.registered (by rw [ht]; simp)
  | startedFail path ht => exact h.frame rfl h.registered (by rw [ht]; simp)
  | releaseStart path ht => exact h.frame rfl h.registered (by rw [ht]; simp)
  | releaseRefused path ht => exact h.frame rfl h.registered (by rw [ht]; simp)
  | releaseWrite f buf ok ht => exact h.frame rfl h.registered (by rw [ht]; simp)
  | releaseClose f ok ht => exact h.frame rfl h.registered (by rw [ht]; simp)
  | clear f ht => exact h.frame rfl h.registered (by rw [ht]; simp)

theorem Menus.of_runs {t : List Event} {c : Conf} (h : Runs t c) : Menus c := by
  refine Trace.invariant (I := fun _ c => Menus c) ?_ ?_ h
  · rintro s rfl
    have hnone : ∀ (m : ℕ) (menu : MtpMenu.Conf), ({} : Conf).menus[m]? ≠ some menu := by
      intro m menu hm
      exact absurd hm (by simp)
    refine ⟨?_, nofun, fun m menu hm => absurd hm (hnone m menu),
      fun m menu hm => absurd hm (hnone m menu)⟩
    rintro m (hm | hm | hm) <;> cases hm
  · intro t s a e s' hi hs
    exact hi.step (step_move hs)

/-! ## `DisableInstallMode` returns -/

/-- The actions of the transport thread, and of the UI thread in `DisableInstallMode`. -/
def Own (a : Action) : Prop := a = .transport ∨ a = .transportTimeout ∨ a = .ui

/-- The steps the transport thread may have left under its guard. -/
def guardLeft (c : Conf) : ℕ :=
  match c.transport with
  | .copy _ => 11
  | .running _ m =>
    match c.menus[m]? with
    | none => 3
    | some menu => MtpMenu.left menu + 3
  | .started _ _ => 2
  | .release _ _ => 1
  | _ => 0

theorem Call.entry_left (call : Call) (menu : MtpMenu.Conf) :
    MtpMenu.left { menu with transport := call.entry } ≤ 7 := by
  cases call <;> simp [MtpMenu.left, Call.entry, MtpMenu.WaitLoc.left]

/-- A callback is entered with its own steps left. -/
theorem guardLeft_enter (c : Conf) (call : Call) (m : ℕ) :
    guardLeft (enter c call m).2 ≤ 10 := by
  show (match (c.menus.modify m _)[m]? with
    | none => 3
    | some menu => MtpMenu.left menu + 3) ≤ 10
  rw [List.getElem?_modify_eq]
  cases c.menus[m]? with
  | none => exact Nat.le_of_ble_eq_true rfl
  | some menu => exact Nat.add_le_add_right (call.entry_left menu) 3

theorem guardLeft_copy (c : Conf) (call : Call) : guardLeft (copyStep c call).2 ≤ 10 := by
  have hrel : ∀ ok, guardLeft { c with transport := .release call ok } ≤ 10 :=
    fun _ => Nat.le_of_ble_eq_true rfl
  unfold copyStep
  cases call with
  | start path =>
    dsimp only
    split
    · exact hrel false
    · split
      · exact hrel false
      · exact guardLeft_enter _ _ _
  | write f buf =>
    dsimp only
    split
    · exact hrel false
    · exact guardLeft_enter _ _ _
  | close f =>
    dsimp only
    split
    · exact hrel true
    · exact guardLeft_enter _ _ _

/-- Every menu has been stopped. -/
def Stopped (c : Conf) : Prop :=
  ∀ (m : ℕ) (menu : MtpMenu.Conf), c.menus[m]? = some menu → menu.stop_requested = true

/-- The stop request of a menu stays. -/
theorem menu_stop_kept {c c' : MtpMenu.Conf} {e : MtpMenu.Event} (h : MtpMenu.Move c e c')
    (hs : c.stop_requested = true) : c'.stop_requested = true := by
  cases h with
  | stop => rfl
  | _ => exact hs

theorem Stopped.set {c : Conf} (h : Stopped c) {m : ℕ} {menu' : MtpMenu.Conf}
    (hs : menu'.stop_requested = true) {tr : Transport} :
    Stopped { c with menus := c.menus.set m menu', transport := tr } := by
  intro m' menu hm
  dsimp only at hm
  rw [List.getElem?_set] at hm
  split at hm
  · split at hm
    · cases hm
      exact hs
    · cases hm
  · exact h m' menu hm

theorem Stopped.modify {c : Conf} (h : Stopped c) {m : ℕ} {tr : MtpMenu.Transport} {g : Shared}
    {tr' : Transport} :
    Stopped { c with
      g_shared_data := g
      menus := c.menus.modify m fun menu => { menu with transport := tr }, transport := tr' } := by
  intro m' menu hm
  dsimp only at hm
  rw [List.getElem?_modify] at hm
  obtain ⟨menu₀, hm₀, rfl⟩ := Option.map_eq_some_iff.mp hm
  split
  · exact h m' menu₀ hm₀
  · exact h m' menu₀ hm₀

theorem Stopped.copyStep {c : Conf} (h : Stopped c) (call : Call) :
    Stopped (copyStep c call).2 ∧ (copyStep c call).2.ui = c.ui := by
  unfold MtpInstallMode.copyStep
  cases call with
  | start path =>
    dsimp only
    split
    · exact ⟨h, rfl⟩
    · split
      · exact ⟨h, rfl⟩
      · exact ⟨h.modify, rfl⟩
  | write f buf =>
    dsimp only
    split
    · exact ⟨h, rfl⟩
    · exact ⟨h.modify, rfl⟩
  | close f =>
    dsimp only
    split
    · exact ⟨h, rfl⟩
    · exact ⟨h.modify, rfl⟩

/-- While its menus are stopped, the transport thread has a step that brings it closer to the end
of its guard. -/
theorem guard_step {c : Conf} (h : Menus c) (hs : Stopped c) (hg : c.transport.guards ≠ 0) :
    ∃ a e c', (a = .transport ∨ a = .transportTimeout) ∧ step c a = some (e, c') ∧
      guardLeft c' < guardLeft c ∧ Stopped c' ∧ c'.ui = c.ui := by
  cases ht : c.transport with
  | idle =>
    rw [ht] at hg
    exact absurd rfl hg
  | guard call =>
    rw [ht] at hg
    exact absurd rfl hg
  | clear f =>
    rw [ht] at hg
    exact absurd rfl hg
  | copy call =>
    refine ⟨.transport, (copyStep c call).1, (copyStep c call).2, .inl rfl, ?_, ?_,
      hs.copyStep call⟩
    · simp only [step, transportStep, ht]
    · have hle := guardLeft_copy c call
      have hleft : guardLeft c = 11 := by simp only [guardLeft, ht]
      omega
  -- the stopped menu has a step left, or its callback returns by this one
  | running call m =>
    have hlt := h.running call m ht
    have hget := List.getElem?_eq_getElem hlt
    have hq : (c.menus[m]).transport.quiet = false := (h.quiet m _ hget).mpr ⟨call, ht⟩
    have hstop := hs m _ hget
    obtain ⟨a, e, menu', ha, hm, hleft⟩ := MtpMenu.callback_step (h.wired m _ hget) hstop hq
    have hret := returned_quiet ha hm
    have hcall : ∃ a', (a' = .transport ∨ a' = .transportTimeout) ∧
        step c a' = callbackStep c call m a := by
      rcases ha with rfl | rfl
      · exact ⟨.transport, .inl rfl, by simp only [step, transportStep, ht]⟩
      · exact ⟨.transportTimeout, .inr rfl, by simp only [step, ht]⟩
    obtain ⟨a', ha', hstep⟩ := hcall
    have hguard : guardLeft c = MtpMenu.left c.menus[m] + 3 := by
      simp only [guardLeft, ht, hget]
    have hstop' := menu_stop_kept (MtpMenu.step_move hm) hstop
    cases hr : returned e with
    | none =>
      rw [hr] at hret
      have hlt' : MtpMenu.left menu' < MtpMenu.left c.menus[m] := by
        rcases hleft with hq' | hlt'
        · exact absurd (hret.trans hq') nofun
        · exact hlt'
      refine ⟨a', .inCallback m e, { c with
        menus := c.menus.set m menu', transport := .running call m }, ha', ?_, ?_,
        hs.set hstop', rfl⟩
      · rw [hstep]
        unfold callbackStep
        rw [hget]
        dsimp only
        rw [hm]
        dsimp only
        rw [hr]
      · rw [hguard]
        simp only [guardLeft, List.getElem?_set_self hlt]
        omega
    | some ok =>
      refine ⟨a', .inCallback m e, { c with
        menus := c.menus.set m menu', transport := call.behind ok }, ha', ?_, ?_,
        hs.set hstop', rfl⟩
      · rw [hstep]
        unfold callbackStep
        rw [hget]
        dsimp only
        rw [hm]
        dsimp only
        rw [hr]
      · rw [hguard]
        have hle : guardLeft { c with
            menus := c.menus.set m menu', transport := call.behind ok } ≤ 2 := by
          cases call <;> simp [guardLeft, Call.behind]
        omega
  | started path ok =>
    refine ⟨.transport, .tau, (startedStep c path ok).2, .inl rfl, ?_, ?_, hs, rfl⟩
    · simp only [step, transportStep, ht]
      rfl
    · simp [guardLeft, ht, startedStep]
  | release call ok =>
    refine ⟨.transport, (releaseStep c call ok).1, (releaseStep c call ok).2, .inl rfl, ?_, ?_⟩
    · simp only [step, transportStep, ht]
    · cases call with
      | start path =>
        cases ok
        · exact ⟨by simp [guardLeft, ht, releaseStep], hs, rfl⟩
        · exact ⟨by simp [guardLeft, ht, releaseStep], hs, rfl⟩
      | write f buf => exact ⟨by simp [guardLeft, ht, releaseStep], hs, rfl⟩
      | close f => exact ⟨by simp [guardLeft, ht, releaseStep], hs, rfl⟩

/-- When every menu has been stopped, `DisableInstallMode` returns: the transport thread gives its
guard back by its own steps. -/
theorem disable_returns {n : ℕ} : ∀ {t : List Event} {c : Conf}, Runs t c → Stopped c →
    c.ui ≠ .free → guardLeft c ≤ n → ∃ u c', Steps step Own c u c' ∧ .disableReturn ∈ u := by
  -- without a guard the UI thread goes on by itself
  have hfree : ∀ {t : List Event} {c : Conf}, Runs t c → c.ui ≠ .free →
      c.transport.guards = 0 → ∃ u c', Steps step Own c u c' ∧ .disableReturn ∈ u := by
    intro t c h hu hg
    have hf := (Inv.of_runs h).flight.trans hg
    cases hui : c.ui with
    | free => exact absurd hui hu
    | disabling =>
      have hs : ∃ c', step c .ui = some (.disableReturn, c') := by
        simp [step, disableStep, hui, hf]
      obtain ⟨c', hs⟩ := hs
      exact ⟨_, c', .head (.inr (.inr rfl)) hs (.refl c'), List.mem_singleton_self _⟩
    | waiting =>
      have hs₁ : step c .ui = some (.tau, { c with ui := .disabling }) := by
        simp only [step, disableStep, hui]
      have hs₂ : ∃ c', step { c with ui := .disabling } .ui = some (.disableReturn, c') := by
        simp [step, disableStep, hf]
      obtain ⟨c', hs₂⟩ := hs₂
      exact ⟨_, c', .head (.inr (.inr rfl)) hs₁ (.head (.inr (.inr rfl)) hs₂ (.refl c')), by simp⟩
  induction n with
  | zero =>
    intro t c h hs hu hn
    by_cases hg : c.transport.guards = 0
    · exact hfree h hu hg
    · obtain ⟨a, e, c', -, -, hlt, -⟩ := guard_step (Menus.of_runs h) hs hg
      omega
  | succ n ih =>
    intro t c h hs hu hn
    by_cases hg : c.transport.guards = 0
    · exact hfree h hu hg
    · obtain ⟨a, e, c', ha, hstep, hlt, hs', hu'⟩ := guard_step (Menus.of_runs h) hs hg
      obtain ⟨u, c₂, hu₂, hmem⟩ := ih (h.snoc hstep) hs' (by rw [hu']; exact hu) (by omega)
      exact ⟨e :: u, c₂, .head (ha.imp id .inl) hstep hu₂, List.mem_cons_of_mem _ hmem⟩

/-! ## The runs of the service -/

/-- A label in a callback is one under a guard. -/
theorem guards_of_callback {c c' : Conf} {e : Event} (h : Move c e c')
    (he : e.ofCallback = true) : c.transport.guards = 1 := by
  cases h with
  | enterStart path m ht _ _ =>
    rw [ht]
    rfl
  | enter call m ht _ _ =>
    rw [ht]
    rfl
  | inCallback call m menu menu' a e ht _ _ _ _ =>
    rw [ht]
    rfl
  | behind call m menu menu' a e ok ht _ _ _ _ =>
    rw [ht]
    rfl
  | _ => cases he

/-- `StartInstall` is refused for the state of another file when that state is there. -/
theorem busy_of_move {c c' : Conf} (h : Move c .startBusy c') :
    (c.g_shared_data.in_progress = true ∨ c.g_shared_data.current_file ≠ []) ∧
      c.transport.sets = false := by
  cases h with
  | busy path ht hb =>
    rw [ht]
    exact ⟨hb, rfl⟩

/-- In every run of the service: when `DisableInstallMode` has returned and no `InitInstallMode` has
followed, no callback has run since and none is running; `in_flight` is the number of guards, and
never negative; at most one file is open as long as the install mode is set while no file is open
and no callback is opening one; a `StartInstall` that is refused for the state of another file comes
after the opening of a file with no `CloseFile` since; and when every menu has been stopped,
`DisableInstallMode` returns after steps of its own and of the transport thread. -/
theorem install_mode {t : List Event} {c : Conf} (h : Runs t c) :
    (∀ t₁ t₂, t = t₁ ++ .disableReturn :: t₂ → (∀ m, .init m ∉ t₂) →
      (∀ e ∈ t₂, e.ofCallback = false) ∧ c.transport.guards = 0) ∧
    (c.g_shared_data.in_flight = c.transport.guards ∧ 0 ≤ c.g_shared_data.in_flight) ∧
    (InitApart t → (openFiles t).length ≤ 1) ∧
    (∀ t₁ t₂, t = t₁ ++ .startBusy :: t₂ →
      ∃ u f v, t₁ = u ++ .started f :: v ∧ ∀ g, .closed g ∉ v) ∧
    (Stopped c → c.ui ≠ .free → ∃ u c', Steps step Own c u c' ∧ .disableReturn ∈ u) := by
  have hi := Inv.of_runs h
  refine ⟨?_, ⟨hi.flight, ?_⟩, ?_, ?_, ?_⟩
  · intro t₁ t₂ ht hinit
    have hoff : modeOn t = false := by
      rw [ht]
      exact modeOn_of_disabled t₁ t₂ hinit
    refine ⟨?_, (hi.off hoff).2⟩
    intro e he
    obtain ⟨u, v, rfl⟩ := List.append_of_mem he
    by_contra hc
    -- the mode was off before the label as well
    have hsplit : t = (t₁ ++ .disableReturn :: u) ++ e :: v := by simp [ht]
    obtain ⟨s₁, a, s₂, h₁, hs⟩ := h.split hsplit
    have hoff₁ := modeOn_of_disabled t₁ u fun m hm => hinit m (List.mem_append_left _ hm)
    have hzero := ((Inv.of_runs h₁).off hoff₁).2
    rw [guards_of_callback (step_move hs) (eq_true_of_ne_false hc)] at hzero
    cases hzero
  · rw [hi.flight]
    exact guards_nonneg c.transport
  · intro ha
    rw [← hi.files]
    rcases (hi.one ha).one with hf | ⟨f, hf, -⟩
    · rw [hf]
      exact Nat.zero_le 1
    · rw [hf]
      exact le_rfl
  · intro t₁ t₂ ht
    obtain ⟨s₁, a, s₂, h₁, hs⟩ := h.split ht
    obtain ⟨hb, hsets⟩ := busy_of_move (step_move hs)
    rw [← openedSince_iff]
    rcases (Inv.of_runs h₁).leftover hb with ho | ho
    · exact ho
    · exact absurd (hsets.symm.trans ho) nofun
  · intro hs hu
    exact disable_returns h hs hu le_rfl

/-- A file is opened; the menu is left and opened again, and a second file is opened while the first
is still open. -/
def reopened : List Action :=
  [.InitInstallMode, .call (.start [97]), .transport, .transport, .transport, .transport,
    .transport, .transport, .menu 0 .stop, .menu 0 .ui, .menu 0 .ui, .menu 0 .ui,
    .DisableInstallMode, .ui, .InitInstallMode, .call (.start [98]), .transport, .transport,
    .transport, .transport, .transport, .transport]

/-- Two files are open at once. -/
theorem two_files_open : ∃ t c, Runs t c ∧ openFiles t = [0, 1] := by
  have hsome : (exec step reopened [] {}).isSome = true := by decide
  obtain ⟨⟨t, c⟩, hexec⟩ := Option.isSome_iff_exists.mp hsome
  have hopen : (exec step reopened [] {}).map (fun r => openFiles r.1) = some [0, 1] := by decide
  rw [hexec, Option.map_some, Option.some.injEq] at hopen
  exact ⟨t, c, Trace.exec reopened (.nil rfl) hexec, hopen⟩

/-- The transport thread waits in the closing of a file when the menu is stopped and the UI thread
waits for its guard. -/
def leftInClose : List Action :=
  [.InitInstallMode, .call (.start [97]), .transport, .transport, .transport, .transport,
    .transport, .transport, .call (.close 0), .transport, .transport, .transport, .transport,
    .transport, .menu 0 .stop, .menu 0 .ui, .menu 0 .ui, .menu 0 .ui, .DisableInstallMode, .ui]

theorem stopped_of_all {c : Conf} (h : c.menus.all (fun menu => menu.stop_requested) = true) :
    Stopped c := by
  intro m menu hm
  exact List.all_eq_true.mp h menu (List.mem_of_getElem? hm)

/-- There the UI thread is asleep, and its call returns. -/
theorem install_mode_leftInClose :
    ∃ t c, Runs t c ∧ c.ui = .waiting ∧ c.transport = .running (.close 0) 0 ∧
      c.g_shared_data.in_flight = 1 ∧
      ∃ u c', Steps step Own c u c' ∧ .disableReturn ∈ u := by
  have hsome : (exec step leftInClose [] {}).isSome = true := by decide
  obtain ⟨⟨t, c⟩, hexec⟩ := Option.isSome_iff_exists.mp hsome
  have hrun : Runs t c := Trace.exec leftInClose (.nil rfl) hexec
  have hsays : (exec step leftInClose [] {}).map (fun r =>
      (r.2.ui, r.2.transport, r.2.g_shared_data.in_flight,
        r.2.menus.all (fun menu => menu.stop_requested))) =
      some (.waiting, .running (.close 0) 0, 1, true) := by decide
  rw [hexec, Option.map_some, Option.some.injEq] at hsays
  simp only [Prod.mk.injEq] at hsays
  obtain ⟨hui, htransport, hflight, hall⟩ := hsays
  have hreturn := (install_mode hrun).2.2.2.2 (stopped_of_all hall) (by rw [hui]; exact nofun)
  exact ⟨t, c, hrun, hui, htransport, hflight, hreturn⟩

end MtpInstallMode
