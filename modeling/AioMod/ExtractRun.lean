/-
# What the extraction of an archive leaves on the card

The user may interrupt at any time, and an interrupt is not taken back.  Only the entries that are
selected touch the card: each its own file, and the directories that lead to it where there were
none.  An entry whose extraction was not interrupted leaves its bytes, and they stay unless a later
entry goes to the same place.
-/
import AioMod.ExplorerFiles
import AioMod.Extract

namespace Extract

open Explorer Throws TextLines IniEditor

variable {fold : Name → Name}

/-! ## What is touched -/

/-- A place is as before, or one of `files`, or a directory of `dirs` that was not there. -/
def Touched (v v' : Volume fold) (files dirs : FsPath → Prop) : Prop :=
  ∀ q, v'.at_ q = v.at_ q ∨ files q ∨
    (dirs q ∧ v.tree.get q = none ∧ v'.tree.get q = some .dir)

variable {v v' v'' : Volume fold} {files dirs files' dirs' : FsPath → Prop}

theorem Touched.refl (v : Volume fold) (files dirs : FsPath → Prop) : Touched v v files dirs :=
  fun _ => Or.inl rfl

theorem Touched.trans (h : Touched v v' files dirs) (h' : Touched v' v'' files dirs) :
    Touched v v'' files dirs := by
  intro q
  rcases h' q with heq' | hfile | ⟨hdir, hnone', hnew'⟩
  · rcases h q with heq | hfile | ⟨hdir, hnone, hnew⟩
    · exact Or.inl (heq'.trans heq)
    · exact Or.inr (Or.inl hfile)
    · exact Or.inr (Or.inr ⟨hdir, hnone, (Volume.get_of_at heq').trans hnew⟩)
  · exact Or.inr (Or.inl hfile)
  · rcases h q with heq | hfile | ⟨-, -, hnew⟩
    · exact Or.inr (Or.inr ⟨hdir, (Volume.get_of_at heq).symm.trans hnone', hnew'⟩)
    · exact Or.inr (Or.inl hfile)
    · -- a directory that was created is there
      rw [hnone'] at hnew
      cases hnew

theorem Touched.mono (h : Touched v v' files dirs) (hfiles : ∀ q, files q → files' q)
    (hdirs : ∀ q, dirs q → dirs' q) : Touched v v' files' dirs' := by
  intro q
  rcases h q with heq | hfile | ⟨hdir, hnew⟩
  · exact Or.inl heq
  · exact Or.inr (Or.inl (hfiles q hfile))
  · exact Or.inr (Or.inr ⟨hdirs q hdir, hnew⟩)

theorem Touched.of_sameBut (h : v.SameBut v' files) : Touched v v' files dirs := by
  intro q
  by_cases hq : files q
  · exact Or.inr (Or.inl hq)
  · exact Or.inl (h q hq)

/-- What stands outside of `files` is still there. -/
theorem Touched.at_eq (h : Touched v v' files dirs) {q : FsPath} (hq : ¬files q)
    (hthere : v.tree.get q ≠ none) : v'.at_ q = v.at_ q := by
  rcases h q with heq | hfile | ⟨-, hnone, -⟩
  · exact heq
  · exact absurd hfile hq
  · exact absurd hnone hthere

theorem Touched.contents (h : Touched v v' files dirs) {p : FsPath} {b : Bytes}
    (hp : ¬files (key fold p)) (hb : v.contents p = some b) : v'.contents p = some b := by
  have hget := Volume.contents_eq_some.mp hb
  have hat : v'.at_ (key fold p) = v.at_ (key fold p) :=
    h.at_eq hp (by rw [hget]; exact Option.some_ne_none _)
  exact (Volume.contents_of_at hat).trans hb

/-- No file is touched, and no directory. -/
def nothing : FsPath → Prop := fun _ => False

theorem touched_mkdir (v : Volume fold) (p : FsPath) :
    Touched v (v.mkdir p).2 nothing (· = key fold p) := by
  unfold Volume.mkdir
  split
  · rename_i hall
    intro q
    have hat := v.at_put (key fold p) (lastName p) .dir hall.2.1
      (spells_last hall.2.2 hall.2.1.1) q
    by_cases hq : q = key fold p
    · rw [if_pos hq] at hat
      obtain ⟨e, he, heq⟩ := Option.map_eq_some_iff.mp hat
      refine Or.inr (Or.inr ⟨hq, ?_, ?_⟩)
      · rw [hq]
        exact hall.1
      · rw [he, (Prod.mk.inj heq).2]
    · rw [if_neg hq] at hat
      exact Or.inl hat
  · exact .refl v _ _

theorem touched_mkdirs {ps : List FsPath} (h : ∀ p ∈ ps, dirs (key fold p)) (v : Volume fold) :
    Touched v (v.mkdirs ps).2 nothing dirs := by
  induction ps generalizing v with
  | nil => exact .refl v _ _
  | cons p ps ih =>
    have hp : Touched v (v.mkdir p).2 nothing dirs :=
      (touched_mkdir v p).mono (fun _ => id) (by
        rintro q rfl
        exact h p List.mem_cons_self)
    unfold Volume.mkdirs
    split
    · exact hp.trans (ih (fun p' hp' => h p' (List.mem_cons_of_mem _ hp')) _)
    · exact .refl v _ _

/-! ## The machine -/

/-- A question after an interrupt gets the answer. -/
def Hears : (fn : Explorer.Fn) → fn.Res → Bool → Prop
  | .load, r, interrupted => r = interrupted
  | _, _, _ => True

/-- The calls of the card, and whether the user has interrupted, which is not taken back. -/
def interruptible (may : Volume fold → Explorer.Fn → Prop) : Machine FsI (Volume fold × Bool) :=
  fun s fn r s' => failing may s.1 fn r s'.1 ∧ (s.2 = true → s'.2 = true) ∧ Hears fn r s'.2

/-- From one state to another nothing but these is touched, and no interrupt is taken back. -/
structure Reaches (files dirs : FsPath → Prop) (s s' : Volume fold × Bool) : Prop where
  touched : Touched s.1 s'.1 files dirs
  interrupted : s.2 = true → s'.2 = true

variable {s s' s'' : Volume fold × Bool}

theorem Reaches.refl (files dirs : FsPath → Prop) (s : Volume fold × Bool) :
    Reaches files dirs s s := ⟨.refl _ _ _, id⟩

theorem Reaches.trans (h : Reaches files dirs s s') (h' : Reaches files dirs s' s'') :
    Reaches files dirs s s'' :=
  ⟨h.touched.trans h'.touched, fun hs => h'.interrupted (h.interrupted hs)⟩

theorem Reaches.mono (h : Reaches files dirs s s') (hfiles : ∀ q, files q → files' q)
    (hdirs : ∀ q, dirs q → dirs' q) : Reaches files' dirs' s s' :=
  ⟨h.touched.mono hfiles hdirs, h.interrupted⟩

/-- Nothing is changed, but there may be an interrupt. -/
theorem Reaches.still (hv : s'.1 = s.1) (hs : s.2 = true → s'.2 = true) :
    Reaches files dirs s s' := by
  refine ⟨?_, hs⟩
  rw [hv]
  exact .refl _ _ _

/-- What is not interrupted in the end was not before. -/
theorem Reaches.running (h : Reaches files dirs s s') (hs : s'.2 = false) : s.2 = false := by
  cases hb : s.2 with
  | false => rfl
  | true => exact absurd (h.interrupted hb) (by rw [hs]; decide)

section calls

variable {may : Volume fold → Explorer.Fn → Prop} {E : String → Volume fold × Bool → Prop}

theorem wpx_interruptible {fn : Explorer.Fn} {Q : fn.Res → Volume fold × Bool → Prop} :
    wpx (interruptible may) Q E (fs fn) s ↔ ∀ r s', interruptible may s fn r s' → Q r s' := wpx_call

/-- Calls that only ask. -/
def Asks : Explorer.Fn → Prop
  | .exists_ _ => True
  | .status _ => True
  | .space _ => True
  | .ifstream _ => True
  | .read _ _ _ => True
  | .close _ => True
  | .minizip => True
  | .load => True
  | _ => False

theorem failing_asks {fn : Explorer.Fn} {r : fn.Res} (h : failing may v fn r v') (hfn : Asks fn) :
    v' = v := by
  cases fn with
  | exists_ p => exact (failing_exists h).1
  | ifstream p => exact (failing_ifstream h).1
  | read p offset size => exact (failing_read h).1
  | status p =>
    rcases h with h | ⟨-, -, hv⟩
    · exact (card_status h).1
    · exact hv
  | minizip =>
    rcases h with h | ⟨-, -, hv⟩
    · exact (card_minizip h).1
    · exact hv
  | load =>
    rcases h with h | ⟨-, -, hv⟩
    · exact (card_load h).1
    · exact hv
  | space p =>
    rcases h with (⟨r₀, h, -⟩ | ⟨hF, -⟩) | ⟨-, hv, -⟩
    · exact (Prod.mk.inj h).2
    · exact hF.elim
    · exact hv
  | close p =>
    rcases h with (⟨r₀, h, -⟩ | ⟨hF, -⟩) | ⟨-, -, hv⟩
    · exact (Prod.mk.inj h).2
    · exact hF.elim
    · exact hv
  | _ => exact hfn.elim

/-- A call that only asks. -/
theorem wpx_asks {fn : Explorer.Fn} {Q : fn.Res → Volume fold × Bool → Prop} (hfn : Asks fn)
    (h : ∀ r s', s'.1 = s.1 → (s.2 = true → s'.2 = true) → Hears fn r s'.2 → Q r s') :
    wpx (interruptible may) Q E (fs fn) s := by
  rw [wpx_interruptible]
  intro r s' hs
  exact h r s' (failing_asks hs.1 hfn) hs.2.1 hs.2.2

/-- A step of minizip that must succeed. -/
theorem wpx_checkZip {operation : String} {Q : Unit → Volume fold × Bool → Prop}
    (hQ : ∀ s', Reaches nothing nothing s s' → s'.1 = s.1 → Q () s')
    (hE : ∀ s', Reaches nothing nothing s s' → s'.1 = s.1 → E operation s') :
    wpx (interruptible may) Q E (checkZip operation) s := by
  unfold checkZip
  rw [wpx_bind]
  refine wpx_asks trivial fun r s' hv hs _ => ?_
  rw [wpx_require]
  exact ⟨fun _ => hQ s' (.still hv hs) hv, fun _ => hE s' (.still hv hs) hv⟩

/-- Asking for an interrupt. -/
theorem wpx_getInterupt {Q : Bool → Volume fold × Bool → Prop}
    (h : ∀ s', Reaches nothing nothing s s' → s'.1 = s.1 → Q s'.2 s') :
    wpx (interruptible may) Q E getInterupt s := by
  unfold getInterupt
  refine wpx_asks trivial fun r s' hv hs hr => ?_
  have hr' : r = s'.2 := hr
  rw [hr']
  exact h s' (.still hv hs) hv

theorem failing_create_directories {p : FsPath} {r : Bool}
    (h : failing may v (.create_directories p) r v') :
    Touched v v' nothing (· <+: key fold p) := by
  have hprefixes : ∀ q ∈ prefixes p, key fold q <+: key fold p := by
    intro q hq
    obtain ⟨i, -, rfl⟩ := List.mem_map.mp hq
    exact Volume.key_prefix (List.take_prefix _ _)
  rcases h with (⟨r₀, h, -⟩ | ⟨hF, -⟩) | ⟨-, -, n, rfl⟩
  · have hv : v' = (v.mkdirs (prefixes p)).2 := congrArg Prod.snd h
    rw [hv]
    exact touched_mkdirs hprefixes v
  · exact hF.elim
  · exact touched_mkdirs (fun q hq => hprefixes q (List.mem_of_mem_take hq)) v

end calls

/-! ## Directories -/

/-- Up to a separator a path has the components it begins with. -/
theorem getlines_append_terminated (nl : UInt8) (p q : Bytes) :
    getlines nl (p ++ nl :: q) = getlines nl (p ++ [nl]) ++ getlines nl q := by
  induction p with
  | nil =>
    rw [List.nil_append, List.nil_append, getlines_terminator, getlines_terminator]
    rfl
  | cons c p ih =>
    have hne : getlines nl (p ++ [nl]) ≠ [] := by
      intro hnil
      rw [getlines_eq_nil] at hnil
      simp at hnil
    obtain ⟨l, ls, hl⟩ := List.exists_cons_of_ne_nil hne
    rw [hl] at ih
    by_cases hc : c = nl
    · subst hc
      rw [List.cons_append, List.cons_append, getlines_terminator, getlines_terminator, ih, hl]
      rfl
    · simp only [List.cons_append, getlines, if_neg hc, ih, hl]

/-- The directories that lead to a path stand above it. -/
theorem key_directory {cwd : FsPath} {path directory : Bytes} (h : directory ∈ directories path) :
    key fold (place cwd directory) <+: key fold (place cwd path) := by
  obtain ⟨hinit, hslash⟩ := List.mem_filter.mp h
  obtain ⟨q, rfl⟩ := (List.mem_inits _ _).mp hinit
  have hlast : directory.getLast? = some SLASH := of_decide_eq_true hslash
  obtain ⟨p, rfl⟩ := List.getLast?_eq_some_iff.mp hlast
  have hhead : (p ++ [SLASH] ++ q).head? = (p ++ [SLASH]).head? := by
    cases p with
    | nil => rfl
    | cons c p => rfl
  have hlines : getlines SLASH (p ++ [SLASH] ++ q)
      = getlines SLASH (p ++ [SLASH]) ++ getlines SLASH q := by
    rw [List.append_assoc]
    exact getlines_append_terminated SLASH p q
  unfold place
  rw [hhead, hlines, List.map_append, ← List.append_assoc]
  exact Volume.key_prefix (List.prefix_append _ _)

section entries

variable {may : Volume fold → Explorer.Fn → Prop}

/-- `createTree` creates directories that lead to the path. -/
theorem createTree_spec (cwd : FsPath) (path : Bytes) (s : Volume fold × Bool) :
    wpx (interruptible may)
      (fun _ => Reaches nothing (· <+: key fold (place cwd path)) s)
      (fun _ => Reaches nothing (· <+: key fold (place cwd path)) s) (createTree cwd path) s := by
  unfold createTree
  refine wpx_forEach (fun _ => Reaches nothing (· <+: key fold (place cwd path)) s) _ ?_
    (fun _ => id) (.refl _ _ s)
  intro pre directory post s' hl hs
  have hmem : directory ∈ directories path := by
    rw [hl]
    exact List.mem_append_right _ List.mem_cons_self
  rw [wpx_bind, wpx_interruptible]
  rintro ok s'' ⟨hcall, hint, -⟩
  have hreach : Reaches nothing (· <+: key fold (place cwd path)) s' s'' := by
    refine ⟨(failing_create_directories hcall).mono (fun _ => id) ?_, hint⟩
    exact fun q hq => hq.trans (key_directory hmem)
  rw [wpx_require]
  exact ⟨fun _ => hs.trans hreach, fun _ => hs.trans hreach⟩

/-- The loop of `extractEntry` writes to its file, and to the end unless it is interrupted. -/
theorem writeChunks_spec (file : FsPath) (filename : Bytes) (chunks : List Bytes) :
    ∀ (fileNow : ℕ) (s : Volume fold × Bool) (b : Bytes), s.1.contents file = some b →
      wpx (interruptible may)
        (fun n s' => Reaches (· = key fold file) nothing s s' ∧ (s'.2 = false →
          n = fileNow + chunks.flatten.length ∧ s'.1.contents file = some (b ++ chunks.flatten)))
        (fun _ => Reaches (· = key fold file) nothing s) (writeChunks file filename chunks fileNow)
        s := by
  have hsub : ∀ q, nothing q → q = key fold file := fun q hq => hq.elim
  induction chunks with
  | nil =>
    intro fileNow s b hb
    unfold writeChunks
    rw [wpx_bind]
    apply wpx_getInterupt
    intro s₁ h₁ hv₁
    cases hi : s₁.2 with
    | true =>
      rw [if_pos rfl, wpx_pure]
      refine ⟨h₁.mono hsub (fun _ => id), fun hrun => ?_⟩
      rw [hi] at hrun
      cases hrun
    | false =>
      rw [if_neg (by decide), wpx_bind]
      refine wpx_asks trivial fun r s₂ hv₂ hs₂ _ => ?_
      have h₂ : Reaches nothing nothing s s₂ := h₁.trans (.still hv₂ hs₂)
      rw [wpx_bind, wpx_require]
      refine ⟨fun _ => ?_, fun _ => h₂.mono hsub (fun _ => id)⟩
      rw [wpx_pure]
      refine ⟨h₂.mono hsub (fun _ => id), fun _ => ?_⟩
      rw [hv₂, hv₁]
      simpa using hb
  | cons chunk chunks ih =>
    intro fileNow s b hb
    unfold writeChunks
    rw [wpx_bind]
    apply wpx_getInterupt
    intro s₁ h₁ hv₁
    cases hi : s₁.2 with
    | true =>
      rw [if_pos rfl, wpx_pure]
      refine ⟨h₁.mono hsub (fun _ => id), fun hrun => ?_⟩
      rw [hi] at hrun
      cases hrun
    | false =>
      rw [if_neg (by decide), wpx_bind]
      refine wpx_asks trivial fun r s₂ hv₂ hs₂ _ => ?_
      have h₂ : Reaches (· = key fold file) nothing s s₂ :=
        (h₁.trans (.still hv₂ hs₂)).mono hsub (fun _ => id)
      rw [wpx_bind, wpx_require]
      refine ⟨fun _ => ?_, fun _ => h₂⟩
      rw [wpx_bind, wpx_interruptible]
      -- the chunk is behind what was written, or the write is reported
      rintro written s₃ ⟨hcall, hint, -⟩
      have h₃ : Reaches (· = key fold file) nothing s s₃ :=
        h₂.trans ⟨.of_sameBut (sameBut_write hcall), hint⟩
      rw [wpx_bind, wpx_require]
      refine ⟨fun hwritten => ?_, fun _ => h₃⟩
      have hb₂ : s₂.1.contents file = some b := by rw [hv₂, hv₁, hb]
      have hb₃ : s₃.1.contents file = some (b ++ chunk) := by
        rcases failing_write hcall with ⟨-, b', hb', hset⟩ | ⟨hfailed, -⟩
        · rw [hb₂] at hb'
          cases hb'
          exact Volume.contents_setFile hset
        · rw [hfailed] at hwritten
          cases hwritten
      refine wpx_conseq (ih (fileNow + chunk.length) s₃ _ hb₃) ?_ fun _ _ h => h₃.trans h
      rintro n s₄ ⟨h₄, hall⟩
      refine ⟨h₃.trans h₄, fun hrun => ?_⟩
      obtain ⟨hn, hcontents⟩ := hall hrun
      rw [List.flatten_cons, List.length_append, ← List.append_assoc]
      exact ⟨by omega, hcontents⟩

variable {E : String → Volume fold × Bool → Prop}

theorem wpx_entrySize {e : ZipEntry} {Q : Unit → Volume fold × Bool → Prop}
    (hQ : ∀ s', Reaches nothing nothing s s' → s'.1 = s.1 → Q () s')
    (hE : ∀ message s', Reaches nothing nothing s s' → s'.1 = s.1 → E message s') :
    wpx (interruptible may) Q E (entrySize e) s := by
  unfold entrySize
  rw [wpx_bind]
  refine wpx_checkZip (fun s₁ h₁ hv₁ => ?_) (fun s₁ h₁ hv₁ => hE _ s₁ h₁ hv₁)
  rw [wpx_require]
  exact ⟨fun _ => hQ s₁ h₁ hv₁, fun _ => hE _ s₁ h₁ hv₁⟩

/-- An entry that is looked at has a name that is let pass. -/
theorem wpx_entryInfo {e : ZipEntry} {Q : Unit → Volume fold × Bool → Prop}
    (hQ : ∀ s', Reaches nothing nothing s s' → s'.1 = s.1 → safeName e.filename → Q () s')
    (hE : ∀ message s', Reaches nothing nothing s s' → s'.1 = s.1 → E message s') :
    wpx (interruptible may) Q E (entryInfo e) s := by
  unfold entryInfo
  rw [wpx_bind]
  refine wpx_entrySize (fun s₁ h₁ hv₁ => ?_) hE
  rw [wpx_bind, wpx_require]
  refine ⟨fun _ => ?_, fun _ => hE _ s₁ h₁ hv₁⟩
  rw [wpx_bind]
  refine wpx_checkZip (fun s₂ h₂ hv₂ => ?_) (fun s₂ h₂ hv₂ => hE _ s₂ (h₁.trans h₂) (hv₂.trans hv₁))
  rw [wpx_require]
  exact ⟨fun hsafe => hQ s₂ (h₁.trans h₂) (hv₂.trans hv₁) hsafe,
    fun _ => hE _ s₂ (h₁.trans h₂) (hv₂.trans hv₁)⟩

theorem wpx_goToNext {rest : List ZipEntry} {Q : Unit → Volume fold × Bool → Prop}
    (hQ : ∀ s', Reaches nothing nothing s s' → s'.1 = s.1 → Q () s')
    (hE : ∀ message s', Reaches nothing nothing s s' → s'.1 = s.1 → E message s') :
    wpx (interruptible may) Q E (goToNext rest) s := by
  unfold goToNext
  split
  · rw [wpx_pure]
    exact hQ s (.refl _ _ s) rfl
  · exact wpx_checkZip hQ fun s' => hE _ s'

/-- A name that does not end in a separator is the name of a file. -/
def IsFile (filename : Bytes) : Prop := filename.getLast? ≠ some SLASH

instance (filename : Bytes) : Decidable (IsFile filename) := inferInstanceAs (Decidable (¬_))

/-- The file that extracting to a path writes. -/
def fileAt (fold : Name → Name) (cwd : FsPath) (filename : Bytes) (q : FsPath) : Prop :=
  IsFile filename ∧ q = key fold (place cwd filename)

/-- The directories that lead to a path. -/
def leadsTo (fold : Name → Name) (cwd : FsPath) (filename : Bytes) (q : FsPath) : Prop :=
  q <+: key fold (place cwd filename)

/-- The bytes of an entry are at a path. -/
def Holds (cwd : FsPath) (filename : Bytes) (e : ZipEntry) (v : Volume fold) : Prop :=
  IsFile filename → v.contents (place cwd filename) = some e.data

/-- `extractEntry` touches its file only, which holds the bytes of the entry unless there is an
interrupt. -/
theorem extractEntry_spec (cwd : FsPath) (filename : Bytes) (e : ZipEntry)
    (s : Volume fold × Bool) :
    wpx (interruptible may)
      (fun _ s' => Reaches (fileAt fold cwd filename) (leadsTo fold cwd filename) s s' ∧
        (s'.2 = false → Holds cwd filename e s'.1))
      (fun _ => Reaches (fileAt fold cwd filename) (leadsTo fold cwd filename) s)
      (extractEntry cwd filename e) s := by
  have hsub : ∀ {files : FsPath → Prop} {q : FsPath}, nothing q → files q := fun h => h.elim
  unfold extractEntry
  rw [wpx_bind]
  refine wpx_entrySize (fun s₁ h₁ _ => ?_) (fun _ s₁ h₁ _ => h₁.mono (fun _ => hsub) fun _ => hsub)
  rw [wpx_bind]
  apply wpx_getInterupt
  intro s₂ h₂ _
  have h₁₂ : Reaches (fileAt fold cwd filename) (leadsTo fold cwd filename) s s₂ :=
    (h₁.trans h₂).mono (fun _ => hsub) fun _ => hsub
  cases hi : s₂.2 with
  | true =>
    rw [if_pos rfl, wpx_pure]
    refine ⟨h₁₂, fun hrun => ?_⟩
    rw [hi] at hrun
    cases hrun
  | false =>
    rw [if_neg (by decide), wpx_bind, wpx_require]
    refine ⟨fun _ => ?_, fun _ => h₁₂⟩
    have htree : ∀ s' : Volume fold × Bool, Reaches nothing (leadsTo fold cwd filename) s₂ s' →
        Reaches (fileAt fold cwd filename) (leadsTo fold cwd filename) s s' :=
      fun s' h => h₁₂.trans (h.mono (fun _ => hsub) fun _ => id)
    -- a folder is created, a file is created and filled
    by_cases hdir : filename.getLast? = some SLASH
    · rw [if_pos hdir]
      refine wpx_conseq (createTree_spec cwd filename s₂) ?_ fun _ s' => htree s'
      exact fun _ s' h => ⟨htree s' h, fun _ hfile => absurd hdir hfile⟩
    · rw [if_neg hdir]
      dsimp only
      have hfile : ∀ q, q = key fold (place cwd filename) → fileAt fold cwd filename q :=
        fun q hq => ⟨hdir, hq⟩
      rw [wpx_bind]
      refine wpx_conseq (createTree_spec cwd filename s₂) (fun _ s₃ h₃ => ?_) fun _ s' => htree s'
      rw [wpx_bind]
      refine wpx_checkZip (fun s₄ h₄ _ => ?_) (fun s₄ h₄ _ => (htree s₃ h₃).trans
        (h₄.mono (fun _ => hsub) fun _ => hsub))
      have hto₄ : Reaches (fileAt fold cwd filename) (leadsTo fold cwd filename) s s₄ :=
        (htree s₃ h₃).trans (h₄.mono (fun _ => hsub) fun _ => hsub)
      rw [wpx_bind, wpx_interruptible]
      rintro outfile s₅ ⟨hopen, hint₅, -⟩
      have hto₅ : Reaches (fileAt fold cwd filename) (leadsTo fold cwd filename) s s₅ :=
        hto₄.trans ⟨.of_sameBut ((sameBut_ofstream hopen).mono hfile), hint₅⟩
      rw [wpx_bind, wpx_require]
      refine ⟨fun hopened => ?_, fun _ => hto₅⟩
      have hempty : s₅.1.contents (place cwd filename) = some [] := by
        rcases failing_ofstream hopen with ⟨-, hset⟩ | ⟨hno, -⟩ | ⟨hno, -⟩
        · exact Volume.contents_setFile hset
        · rw [hno] at hopened
          cases hopened
        · rw [hno] at hopened
          cases hopened
      rw [wpx_bind]
      refine wpx_conseq (writeChunks_spec (place cwd filename) filename e.chunks 0 s₅ [] hempty) ?_
        fun _ s' h => hto₅.trans (h.mono hfile fun _ => hsub)
      rintro n s₆ ⟨h₆, hwritten⟩
      have hto₆ := hto₅.trans (h₆.mono hfile fun _ => hsub)
      rw [wpx_bind]
      refine wpx_asks trivial fun closed s₇ hv₇ hs₇ _ => ?_
      rw [wpx_bind]
      refine wpx_asks trivial fun crc s₈ hv₈ hs₈ _ => ?_
      have hto₈ : Reaches (fileAt fold cwd filename) (leadsTo fold cwd filename) s s₈ :=
        hto₆.trans ((Reaches.still hv₇ hs₇).trans (.still hv₈ hs₈))
      rw [wpx_bind, wpx_require]
      refine ⟨fun _ => ?_, fun _ => hto₈⟩
      rw [wpx_bind]
      apply wpx_getInterupt
      intro s₉ h₉ hv₉
      have hto₉ := hto₈.trans (h₉.mono (fun _ => hsub) fun _ => hsub)
      -- nothing behind the chunks changes the card
      have hholds : s₉.2 = false → Holds cwd filename e s₉.1 := by
        intro hrun _
        have hrun₆ : s₆.2 = false := by
          have hlater : Reaches (fileAt fold cwd filename) (leadsTo fold cwd filename) s₆ s₉ :=
            ((Reaches.still hv₇ hs₇).trans (.still hv₈ hs₈)).trans
              (h₉.mono (fun _ => hsub) fun _ => hsub)
          exact hlater.running hrun
        rw [hv₉, hv₈, hv₇]
        exact (hwritten hrun₆).2
      cases hi₉ : s₉.2 with
      | true =>
        rw [if_pos rfl, wpx_pure]
        refine ⟨hto₉, fun hrun => ?_⟩
        rw [hi₉] at hrun
        cases hrun
      | false =>
        rw [if_neg (by decide), wpx_bind, wpx_require]
        refine ⟨fun _ => ?_, fun _ => hto₉⟩
        rw [wpx_require]
        exact ⟨fun _ => ⟨hto₉, hholds⟩, fun _ => hto₉⟩

end entries

/-! ## The loop over the entries -/

section walks

variable {may : Volume fold → Explorer.Fn → Prop} {select : ZipEntry → Op Unit}

/-- What selected entries leave stays where no later entry goes. -/
def Lasting (own files : ZipEntry → FsPath → Prop) (Done : ZipEntry → Volume fold → Prop)
    (archive : List ZipEntry) (v : Volume fold) : Prop :=
  ∀ before e after, archive = before ++ e :: after →
    (∀ later ∈ after, ∀ q, own e q → ¬files later q) → Done e v

/-- A place of some entry. -/
def Of (files : ZipEntry → FsPath → Prop) (archive : List ZipEntry) (q : FsPath) : Prop :=
  ∃ e ∈ archive, files e q

/-- What one entry does to the card, `walk` does for all of them, and it comes to the end unless
there is an interrupt. -/
theorem walk_spec {own files dirs : ZipEntry → FsPath → Prop} {Done : ZipEntry → Volume fold → Prop}
    (archive : List ZipEntry)
    (hselect : ∀ e ∈ archive, ∀ s : Volume fold × Bool, safeName e.filename →
      wpx (interruptible may)
        (fun _ s' => Reaches (files e) (dirs e) s s' ∧ (s'.2 = false → Done e s'.1))
        (fun _ => Reaches (files e) (dirs e) s) (select e) s)
    (hstable : ∀ e ∈ archive, ∀ (v v' : Volume fold) (files' dirs' : FsPath → Prop),
      Touched v v' files' dirs' → (∀ q, own e q → ¬files' q) → Done e v → Done e v')
    (s : Volume fold × Bool) :
    wpx (interruptible may)
      (fun ended s' => Reaches (Of files archive) (Of dirs archive) s s' ∧
        (s'.2 = false → ended = true ∧ Lasting own files Done archive s'.1))
      (fun _ => Reaches (Of files archive) (Of dirs archive) s) (walk select archive) s := by
  induction archive generalizing s with
  | nil =>
    unfold walk
    rw [wpx_pure]
    refine ⟨.refl _ _ s, fun _ => ⟨rfl, ?_⟩⟩
    intro before e after h
    simp at h
  | cons e rest ih =>
    have hsub : ∀ {places : FsPath → Prop} {q : FsPath}, nothing q → places q := fun h => h.elim
    have hhead : ∀ {places : ZipEntry → FsPath → Prop} {q : FsPath}, places e q →
        Of places (e :: rest) q := fun hq => ⟨e, List.mem_cons_self, hq⟩
    have htail : ∀ {places : ZipEntry → FsPath → Prop} {q : FsPath}, Of places rest q →
        Of places (e :: rest) q := by
      rintro places q ⟨e', he', hq⟩
      exact ⟨e', List.mem_cons_of_mem _ he', hq⟩
    have hrest := ih (fun e' he' => hselect e' (List.mem_cons_of_mem _ he'))
      (fun e' he' => hstable e' (List.mem_cons_of_mem _ he'))
    unfold walk
    rw [wpx_bind]
    refine wpx_entryInfo (fun s₁ h₁ _ hsafe => ?_)
      (fun _ s₁ h₁ _ => h₁.mono (fun _ => hsub) fun _ => hsub)
    rw [wpx_bind]
    apply wpx_getInterupt
    intro s₂ h₂ _
    have h₁₂ : Reaches (Of files (e :: rest)) (Of dirs (e :: rest)) s s₂ :=
      (h₁.trans h₂).mono (fun _ => hsub) fun _ => hsub
    cases hi₂ : s₂.2 with
    | true =>
      rw [if_pos rfl, wpx_pure]
      refine ⟨h₁₂, fun hrun => ?_⟩
      rw [hi₂] at hrun
      cases hrun
    | false =>
      rw [if_neg (by decide), wpx_bind]
      refine wpx_conseq (hselect e List.mem_cons_self s₂ hsafe) ?_
        fun _ s' h => h₁₂.trans (h.mono (fun _ => hhead) fun _ => hhead)
      rintro _ s₃ ⟨h₃, hdone⟩
      have hto₃ := h₁₂.trans (h₃.mono (fun _ => hhead) fun _ => hhead)
      rw [wpx_bind]
      apply wpx_getInterupt
      intro s₄ h₄ hv₄
      have hto₄ := hto₃.trans (h₄.mono (fun _ => hsub) fun _ => hsub)
      cases hi₄ : s₄.2 with
      | true =>
        rw [if_pos rfl, wpx_pure]
        refine ⟨hto₄, fun hrun => ?_⟩
        rw [hi₄] at hrun
        cases hrun
      | false =>
        rw [if_neg (by decide), wpx_bind]
        refine wpx_goToNext (fun s₅ h₅ hv₅ => ?_)
          (fun _ s₅ h₅ _ => hto₄.trans (h₅.mono (fun _ => hsub) fun _ => hsub))
        have hto₅ := hto₄.trans (h₅.mono (fun _ => hsub) fun _ => hsub)
        have hdone₅ : Done e s₅.1 := by
          rw [hv₅, hv₄]
          exact hdone (h₄.running hi₄)
        refine wpx_conseq (hrest s₅) ?_
          fun _ s' h => hto₅.trans (h.mono (fun _ => htail) fun _ => htail)
        rintro ended s₆ ⟨h₆, hlast⟩
        refine ⟨hto₅.trans (h₆.mono (fun _ => htail) fun _ => htail), fun hrun => ?_⟩
        obtain ⟨hended, hlast⟩ := hlast hrun
        refine ⟨hended, ?_⟩
        -- the first entry lasts by its own places, a later one by the rest of the walk
        intro before e' after hsplit hlater
        cases before with
        | nil =>
          obtain ⟨rfl, rfl⟩ := List.cons.inj hsplit
          refine hstable e List.mem_cons_self _ _ _ _ h₆.touched ?_ hdone₅
          rintro q hq ⟨later, hmem, hfile⟩
          exact hlater later hmem q hq hfile
        | cons b before =>
          obtain ⟨-, hsplit⟩ := List.cons.inj hsplit
          exact hlast before e' after hsplit hlater

/-- What every selected entry keeps, `walk` keeps. -/
theorem walk_invariant {inv : Volume fold → Prop} (archive : List ZipEntry)
    (hselect : ∀ e ∈ archive, ∀ s : Volume fold × Bool, safeName e.filename → inv s.1 →
      wpx (interruptible may) (fun _ s' => inv s'.1) (fun _ s' => inv s'.1) (select e) s)
    (s : Volume fold × Bool) (h : inv s.1) :
    wpx (interruptible may) (fun _ s' => inv s'.1) (fun _ s' => inv s'.1) (walk select archive)
      s := by
  induction archive generalizing s with
  | nil =>
    unfold walk
    rw [wpx_pure]
    exact h
  | cons e rest ih =>
    unfold walk
    rw [wpx_bind]
    refine wpx_entryInfo (fun s₁ _ hv₁ hsafe => ?_) (fun _ s₁ _ hv₁ => by rwa [hv₁])
    rw [wpx_bind]
    apply wpx_getInterupt
    intro s₂ _ hv₂
    have h₂ : inv s₂.1 := by rwa [hv₂, hv₁]
    split
    · rw [wpx_pure]
      exact h₂
    rw [wpx_bind]
    refine wpx_conseq (hselect e List.mem_cons_self s₂ hsafe h₂) (fun _ s₃ h₃ => ?_) fun _ _ => id
    rw [wpx_bind]
    apply wpx_getInterupt
    intro s₄ _ hv₄
    split
    · rw [wpx_pure, hv₄]
      exact h₃
    rw [wpx_bind]
    refine wpx_goToNext (fun s₅ _ hv₅ => ?_) (fun _ s₅ _ hv₅ => by rwa [hv₅, hv₄])
    exact ih (fun e' he' => hselect e' (List.mem_cons_of_mem _ he')) s₅ (by rwa [hv₅, hv₄])

/-- An invariant of the entries that were looked at, which is kept while there is no interrupt. -/
theorem walk_loop {inv : List ZipEntry → Volume fold → Prop} (archive : List ZipEntry)
    (hselect : ∀ pre e post (s : Volume fold × Bool), archive = pre ++ e :: post →
      safeName e.filename → inv pre s.1 →
      wpx (interruptible may) (fun _ s' => s'.2 = false → inv (pre ++ [e]) s'.1)
        (fun _ _ => True) (select e) s)
    (s : Volume fold × Bool) (h : inv [] s.1) :
    wpx (interruptible may) (fun ended s' => s'.2 = false → ended = true ∧ inv archive s'.1)
      (fun _ _ => True) (walk select archive) s := by
  have go : ∀ post pre (s : Volume fold × Bool), archive = pre ++ post → inv pre s.1 →
      wpx (interruptible may) (fun ended s' => s'.2 = false → ended = true ∧ inv archive s'.1)
        (fun _ _ => True) (walk select post) s := by
    intro post
    induction post with
    | nil =>
      intro pre s hsplit hinv
      unfold walk
      rw [wpx_pure]
      rw [List.append_nil] at hsplit
      exact fun _ => ⟨rfl, by rwa [hsplit]⟩
    | cons e post ih =>
      intro pre s hsplit hinv
      unfold walk
      rw [wpx_bind]
      refine wpx_entryInfo (fun s₁ _ hv₁ hsafe => ?_) (fun _ _ _ _ => trivial)
      rw [wpx_bind]
      apply wpx_getInterupt
      intro s₂ _ hv₂
      cases hi₂ : s₂.2 with
      | true =>
        rw [if_pos rfl, wpx_pure]
        intro hrun
        rw [hi₂] at hrun
        cases hrun
      | false =>
        rw [if_neg (by decide), wpx_bind]
        have hinv₂ : inv pre s₂.1 := by rwa [hv₂, hv₁]
        refine wpx_conseq (hselect pre e post s₂ hsplit hsafe hinv₂) (fun _ s₃ h₃ => ?_)
          fun _ _ => id
        rw [wpx_bind]
        apply wpx_getInterupt
        intro s₄ h₄ hv₄
        cases hi₄ : s₄.2 with
        | true =>
          rw [if_pos rfl, wpx_pure]
          intro hrun
          rw [hi₄] at hrun
          cases hrun
        | false =>
          rw [if_neg (by decide), wpx_bind]
          refine wpx_goToNext (fun s₅ _ hv₅ => ?_) (fun _ _ _ _ => trivial)
          refine ih (pre ++ [e]) s₅ (by rw [hsplit]; simp) ?_
          rw [hv₅, hv₄]
          exact h₃ (h₄.running hi₄)
  exact go archive [] s rfl h

/-! ## Before the loop -/

theorem sumSizes_spec (archive : List ZipEntry) (size : ℕ) (s : Volume fold × Bool) :
    wpx (interruptible may)
      (fun r s' => Reaches nothing nothing s s' ∧ s'.1 = s.1 ∧ (r = none → s'.2 = true))
      (fun _ s' => Reaches nothing nothing s s' ∧ s'.1 = s.1) (sumSizes archive size) s := by
  induction archive generalizing size s with
  | nil =>
    unfold sumSizes
    rw [wpx_pure]
    exact ⟨.refl _ _ s, rfl, by rintro ⟨⟩⟩
  | cons e rest ih =>
    unfold sumSizes
    rw [wpx_bind]
    apply wpx_getInterupt
    intro s₁ h₁ hv₁
    cases hi : s₁.2 with
    | true =>
      rw [if_pos rfl, wpx_pure]
      exact ⟨h₁, hv₁, fun _ => hi⟩
    | false =>
      rw [if_neg (by decide), wpx_bind]
      refine wpx_entryInfo (fun s₂ h₂ hv₂ _ => ?_)
        (fun _ s₂ h₂ hv₂ => ⟨h₁.trans h₂, hv₂.trans hv₁⟩)
      rw [wpx_bind, wpx_require]
      refine ⟨fun _ => ?_, fun _ => ⟨h₁.trans h₂, hv₂.trans hv₁⟩⟩
      rw [wpx_bind]
      refine wpx_goToNext (fun s₃ h₃ hv₃ => ?_)
        (fun _ s₃ h₃ hv₃ => ⟨(h₁.trans h₂).trans h₃, hv₃.trans (hv₂.trans hv₁)⟩)
      have hto := (h₁.trans h₂).trans h₃
      have hv := hv₃.trans (hv₂.trans hv₁)
      refine wpx_conseq (ih _ s₃) ?_ fun _ s' h => ⟨hto.trans h.1, h.2.trans hv⟩
      exact fun r s' h => ⟨hto.trans h.1, h.2.1.trans hv, h.2.2⟩

theorem openArchive_spec (s : Volume fold × Bool) :
    wpx (interruptible may) (fun _ s' => Reaches nothing nothing s s' ∧ s'.1 = s.1)
      (fun _ s' => Reaches nothing nothing s s' ∧ s'.1 = s.1) openArchive s := by
  unfold openArchive
  rw [wpx_bind]
  refine wpx_asks trivial fun r s₁ hv₁ hs₁ _ => ?_
  have h₁ : Reaches nothing nothing s s₁ := .still hv₁ hs₁
  rw [wpx_bind, wpx_require]
  refine ⟨fun _ => ?_, fun _ => ⟨h₁, hv₁⟩⟩
  exact wpx_checkZip (fun s₂ h₂ hv₂ => ⟨h₁.trans h₂, hv₂.trans hv₁⟩)
    fun s₂ h₂ hv₂ => ⟨h₁.trans h₂, hv₂.trans hv₁⟩

/-- Before the loop nothing is touched, and there is no size only after an interrupt. -/
theorem ensureAvailableStorage_spec (archive : List ZipEntry) (s : Volume fold × Bool) :
    wpx (interruptible may)
      (fun r s' => Reaches nothing nothing s s' ∧ s'.1 = s.1 ∧ (r = none → s'.2 = true))
      (fun _ s' => Reaches nothing nothing s s' ∧ s'.1 = s.1) (ensureAvailableStorage archive)
      s := by
  unfold ensureAvailableStorage
  rw [wpx_bind]
  refine wpx_conseq (openArchive_spec s) (fun _ s₁ h₁ => ?_) fun _ _ => id
  obtain ⟨h₁, hv₁⟩ := h₁
  rw [wpx_bind]
  refine wpx_conseq (sumSizes_spec archive 0 s₁) ?_
    fun _ s' h => ⟨h₁.trans h.1, h.2.trans hv₁⟩
  rintro r s₂ ⟨h₂, hv₂, hnone⟩
  have h₁₂ := h₁.trans h₂
  have hv₁₂ := hv₂.trans hv₁
  cases r with
  | none =>
    rw [wpx_pure]
    exact ⟨h₁₂, hv₁₂, hnone⟩
  | some size =>
    rw [wpx_bind]
    refine wpx_asks trivial fun free s₃ hv₃ hs₃ _ => ?_
    have h₃ := h₁₂.trans (Reaches.still hv₃ hs₃)
    have hv := hv₃.trans hv₁₂
    cases free with
    | none =>
      rw [wpx_pure]
      exact ⟨h₃, hv, by rintro ⟨⟩⟩
    | some free =>
      rw [wpx_bind, wpx_require]
      refine ⟨fun _ => ?_, fun _ => ⟨h₃, hv⟩⟩
      rw [wpx_pure]
      exact ⟨h₃, hv, by rintro ⟨⟩⟩

end walks

/-! ## A console on which nothing fails -/

/-- The calls that work, and an interrupt that is heard. -/
def undisturbed (s : Volume id × Bool) : (fn : Explorer.Fn) → fn.Res × (Volume id × Bool)
  | .load => (s.2, s)
  | fn => ((answer s.1 fn).1, ((answer s.1 fn).2, s.2))

/-- Nothing fails, but the user may interrupt. -/
def onlyInterrupts (_ : Volume id) (fn : Explorer.Fn) : Prop := fn = .load

theorem interruptible_undisturbed (s : Volume id × Bool) (fn : Explorer.Fn) :
    interruptible onlyInterrupts s fn (undisturbed s fn).1 (undisturbed s fn).2 := by
  cases fn with
  | load =>
    refine ⟨?_, id, rfl⟩
    cases hs : s.2 with
    | false => exact .inl (.inl ⟨false, rfl, hs⟩)
    | true => exact .inr ⟨rfl, hs, rfl⟩
  | _ => exact ⟨failing_of_card (card_answer False _ _), id, trivial⟩

/-- An archive with one file of one byte. -/
def oneEntry (filename : Bytes) : List ZipEntry :=
  [{ filename, uncompressed_size := 1, chunks := [[1]], nonempty := nil_not_mem_singleton }]

end Extract
