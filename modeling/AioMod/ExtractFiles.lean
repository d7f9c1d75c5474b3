/-
# What the extraction of a package writes

Whether interrupted, failing or complete, the extraction touches what is below the folder it works
in, the directories that lead there, and the two copies of a payload.  What is there stays as it is
if only entries go to it that are protected or are the running application.  Complete, it leaves the
bytes of every other file, unless something goes to its place later.
-/
import AioMod.ExtractPaths
import AioMod.ExtractSpec

namespace Extract

open Explorer Throws TextLines IniEditor

variable {fold : Name → Name}

/-! ## What is added and what is replaced -/

/-- A place is as before, or one of `files`, or was empty and is one of `fresh`, or was empty and is
a directory of `dirs`. -/
def Added (v v' : Volume fold) (files fresh dirs : FsPath → Prop) : Prop :=
  ∀ q, v'.at_ q = v.at_ q ∨ files q ∨ (fresh q ∧ v.tree.get q = none) ∨
    (dirs q ∧ v.tree.get q = none ∧ v'.tree.get q = some .dir)

variable {v v' v'' : Volume fold} {files fresh dirs files' fresh' dirs' : FsPath → Prop}

theorem Added.refl (v : Volume fold) (files fresh dirs : FsPath → Prop) :
    Added v v files fresh dirs := fun _ => Or.inl rfl

theorem Added.trans (h : Added v v' files fresh dirs) (h' : Added v' v'' files fresh dirs) :
    Added v v'' files fresh dirs := by
  intro q
  rcases h q with heq | hfile | hfresh | ⟨hdir, hnone, hnew⟩
  · have hget := Volume.get_of_at heq
    rcases h' q with heq' | hfile | ⟨hfresh, hnone⟩ | ⟨hdir, hnone, hnew⟩
    · exact Or.inl (heq'.trans heq)
    · exact Or.inr (Or.inl hfile)
    · exact Or.inr (Or.inr (Or.inl ⟨hfresh, hget.symm.trans hnone⟩))
    · exact Or.inr (Or.inr (Or.inr ⟨hdir, hget.symm.trans hnone, hnew⟩))
  · exact Or.inr (Or.inl hfile)
  · exact Or.inr (Or.inr (Or.inl hfresh))
  · -- a directory that was created is there
    rcases h' q with heq' | hfile | ⟨-, hnone'⟩ | ⟨-, hnone', -⟩
    · exact Or.inr (Or.inr (Or.inr ⟨hdir, hnone, (Volume.get_of_at heq').trans hnew⟩))
    · exact Or.inr (Or.inl hfile)
    · rw [hnew] at hnone'
      cases hnone'
    · rw [hnew] at hnone'
      cases hnone'

theorem Added.mono (h : Added v v' files fresh dirs) (hfiles : ∀ q, files q → files' q)
    (hfresh : ∀ q, fresh q → fresh' q) (hdirs : ∀ q, dirs q → dirs' q) :
    Added v v' files' fresh' dirs' := by
  intro q
  rcases h q with heq | hfile | ⟨hq, hnone⟩ | ⟨hq, hnew⟩
  · exact Or.inl heq
  · exact Or.inr (Or.inl (hfiles q hfile))
  · exact Or.inr (Or.inr (Or.inl ⟨hfresh q hq, hnone⟩))
  · exact Or.inr (Or.inr (Or.inr ⟨hdirs q hq, hnew⟩))

theorem Touched.added (h : Touched v v' files dirs) : Added v v' files fresh dirs := by
  intro q
  rcases h q with heq | hfile | hdir
  · exact Or.inl heq
  · exact Or.inr (Or.inl hfile)
  · exact Or.inr (Or.inr (Or.inr hdir))

/-- What is there and is not replaced stays. -/
theorem Added.at_eq (h : Added v v' files fresh dirs) {q : FsPath} (hq : ¬files q)
    (hthere : v.tree.get q ≠ none) : v'.at_ q = v.at_ q := by
  rcases h q with heq | hfile | ⟨-, hnone⟩ | ⟨-, hnone, -⟩
  · exact heq
  · exact absurd hfile hq
  · exact absurd hnone hthere
  · exact absurd hnone hthere

/-- What is not there is not there afterwards, where nothing goes. -/
theorem Added.get_none (h : Added v v' files fresh dirs) {q : FsPath} (hq : ¬files q)
    (hfresh : ¬fresh q) (hdirs : ¬dirs q) (hnone : v.tree.get q = none) :
    v'.tree.get q = none := by
  rcases h q with heq | hfile | ⟨hf, -⟩ | ⟨hd, -⟩
  · exact (Volume.get_of_at heq).trans hnone
  · exact absurd hfile hq
  · exact absurd hf hfresh
  · exact absurd hd hdirs

theorem Added.contents (h : Added v v' files fresh dirs) {p : FsPath} {b : Bytes}
    (hp : ¬files (key fold p)) (hb : v.contents p = some b) : v'.contents p = some b := by
  have hget := Volume.contents_eq_some.mp hb
  have hat : v'.at_ (key fold p) = v.at_ (key fold p) :=
    h.at_eq hp (by rw [hget]; exact Option.some_ne_none _)
  exact (Volume.contents_of_at hat).trans hb

/-! ## Where an entry goes -/

section entry

variable (env : Env) (preserveInis : Bool) (ignoreList : Finset Bytes)

/-- The path of an entry is protected, or it is that of the running application. -/
def Spared (filename : Bytes) : Prop :=
  env.appPath = filename ∨ preserved preserveInis ignoreList filename

instance (filename : Bytes) : Decidable (Spared env preserveInis ignoreList filename) :=
  inferInstanceAs (Decidable (_ ∨ _))

/-- The path that is written for an entry. -/
def output (filename : Bytes) : Bytes :=
  if ¬preserved preserveInis ignoreList filename ∧ inUse filename then filename ++ ascii ".aio"
  else filename

/-- The entry is a payload, which is copied. -/
def IsPayload (filename : Bytes) : Prop :=
  ¬Spared env preserveInis ignoreList filename ∧ ¬inUse filename ∧
    ascii "/hekate_ctcaer" <+: filename

instance (filename : Bytes) : Decidable (IsPayload env preserveInis ignoreList filename) :=
  inferInstanceAs (Decidable (_ ∧ _ ∧ _))

/-- The places of the copies of a payload. -/
def copies (fold : Name → Name) (q : FsPath) : Prop :=
  q = key fold (place [] UPDATE_BIN_PATH) ∨ q = key fold (place [] REBOOT_PAYLOAD_PATH)

/-- What an entry replaces. -/
def replaces (fold : Name → Name) (filename : Bytes) (q : FsPath) : Prop :=
  (¬Spared env preserveInis ignoreList filename ∧
    fileAt fold env.cwd (output preserveInis ignoreList filename) q) ∨
  (IsPayload env preserveInis ignoreList filename ∧ copies fold q)

/-- What is done for an entry. -/
structure Placed (filename : Bytes) (s s' : Volume fold × Bool) : Prop where
  added : Added s.1 s'.1 (replaces env preserveInis ignoreList fold filename)
    (fileAt fold env.cwd (output preserveInis ignoreList filename))
    (leadsTo fold env.cwd (output preserveInis ignoreList filename))
  interrupted : s.2 = true → s'.2 = true

end entry

section specs

variable {may : Volume fold → Explorer.Fn → Prop} {env : Env} {preserveInis : Bool}
  {ignoreList : Finset Bytes} {filename : Bytes}

/-- `copyFile` writes its target only. -/
theorem copyFile_spec (cwd : FsPath) (source target : Bytes) (s : Volume fold × Bool) :
    wpx (interruptible may) (fun _ => Reaches (· = key fold (place cwd target)) nothing s)
      (fun _ => Reaches (· = key fold (place cwd target)) nothing s) (copyFile cwd source target)
      s := by
  unfold copyFile
  rw [wpx_bind]
  refine wpx_asks trivial fun src s₁ hv₁ hs₁ _ => ?_
  have h₁ : Reaches (· = key fold (place cwd target)) nothing s s₁ := .still hv₁ hs₁
  rw [wpx_bind, wpx_interruptible]
  rintro dst s₂ ⟨hopen, hint₂, -⟩
  have h₂ := h₁.trans ⟨.of_sameBut (sameBut_ofstream hopen), hint₂⟩
  split
  · rw [wpx_bind]
    refine wpx_asks trivial fun data s₃ hv₃ hs₃ _ => ?_
    have h₃ := h₂.trans (.still hv₃ hs₃)
    cases data with
    | none =>
      rw [wpx_pure]
      exact h₃
    | some data =>
      rw [wpx_bind, wpx_interruptible]
      rintro written s₄ ⟨hwrite, hint₄, -⟩
      rw [wpx_pure]
      exact h₃.trans ⟨.of_sameBut (sameBut_write hwrite), hint₄⟩
  · rw [wpx_pure]
    exact h₂

theorem copyPayload_spec (env : Env) (filename : Bytes) (s : Volume fold × Bool) :
    wpx (interruptible may) (fun _ => Reaches (copies fold) nothing s)
      (fun _ => Reaches (copies fold) nothing s) (copyPayload env filename) s := by
  have hupdate : ∀ q, q = key fold (place env.cwd UPDATE_BIN_PATH) → copies fold q :=
    fun _ => Or.inl
  have hreboot : ∀ q, q = key fold (place env.cwd REBOOT_PAYLOAD_PATH) → copies fold q :=
    fun _ => Or.inr
  unfold copyPayload
  rw [wpx_bind]
  refine wpx_conseq (copyFile_spec env.cwd filename UPDATE_BIN_PATH s) (fun _ s₁ h₁ => ?_)
    fun _ s₁ h₁ => h₁.mono hupdate fun _ => id
  have hto₁ := h₁.mono hupdate fun _ => id
  split
  · rw [wpx_bind]
    refine wpx_conseq (copyFile_spec env.cwd UPDATE_BIN_PATH REBOOT_PAYLOAD_PATH s₁)
      (fun _ s₂ h₂ => ?_) fun _ s₂ h₂ => hto₁.trans (h₂.mono hreboot fun _ => id)
    rw [wpx_pure]
    exact hto₁.trans (h₂.mono hreboot fun _ => id)
  · rw [wpx_pure]
    exact hto₁

theorem Placed.refl (s : Volume fold × Bool) : Placed env preserveInis ignoreList filename s s :=
  ⟨.refl _ _ _ _, id⟩

theorem Placed.trans {s s' s'' : Volume fold × Bool}
    (h : Placed env preserveInis ignoreList filename s s')
    (h' : Placed env preserveInis ignoreList filename s' s'') :
    Placed env preserveInis ignoreList filename s s'' :=
  ⟨h.added.trans h'.added, fun hs => h'.interrupted (h.interrupted hs)⟩

/-- An entry that replaces what is at its place. -/
theorem Placed.of_reaches {s s' : Volume fold × Bool}
    (h : Reaches (fileAt fold env.cwd (output preserveInis ignoreList filename))
      (leadsTo fold env.cwd (output preserveInis ignoreList filename)) s s')
    (hspared : ¬Spared env preserveInis ignoreList filename) :
    Placed env preserveInis ignoreList filename s s' :=
  ⟨h.touched.added.mono (fun _ hq => Or.inl ⟨hspared, hq⟩) (fun _ => id) fun _ => id,
    h.interrupted⟩

/-- An entry that is put where nothing is. -/
theorem Placed.of_new {s s' : Volume fold × Bool}
    (h : Reaches (fileAt fold env.cwd filename) (leadsTo fold env.cwd filename) s s')
    (houtput : output preserveInis ignoreList filename = filename)
    (hnone : s.1.tree.get (key fold (place env.cwd filename)) = none) :
    Placed env preserveInis ignoreList filename s s' := by
  refine ⟨?_, h.interrupted⟩
  intro q
  rw [houtput]
  rcases h.touched q with heq | ⟨hfile, rfl⟩ | hdir
  · exact Or.inl heq
  · exact Or.inr (Or.inr (Or.inl ⟨⟨hfile, rfl⟩, hnone⟩))
  · exact Or.inr (Or.inr (Or.inr hdir))

/-- The bytes of an entry are in its place, if it is neither the running application nor protected
and there, and its place is not that of a copy. -/
def Delivers (env : Env) (preserveInis : Bool) (ignoreList : Finset Bytes) (filename : Bytes)
    (e : ZipEntry) (v v' : Volume fold) : Prop :=
  env.appPath ≠ filename →
  (preserved preserveInis ignoreList filename →
    v.tree.get (key fold (place env.cwd filename)) = none) →
  (IsPayload env preserveInis ignoreList filename →
    ¬copies fold (key fold (place env.cwd (output preserveInis ignoreList filename)))) →
  Holds env.cwd (output preserveInis ignoreList filename) e v'

theorem extractOne_spec (e : ZipEntry) (s : Volume fold × Bool) :
    wpx (interruptible may)
      (fun _ s' => Placed env preserveInis ignoreList filename s s' ∧ (s'.2 = false →
        Delivers env preserveInis ignoreList filename e s.1 s'.1))
      (fun _ => Placed env preserveInis ignoreList filename s)
      (extractOne env preserveInis ignoreList filename e) s := by
  unfold extractOne
  by_cases happ : env.appPath = filename
  · rw [if_neg (not_not.mpr happ), wpx_pure]
    exact ⟨.refl s, fun _ hne => absurd happ hne⟩
  rw [if_pos happ]
  -- a preserved file is extracted only where there is none yet
  by_cases hpreserved : preserved preserveInis ignoreList filename
  · have houtput : output preserveInis ignoreList filename = filename :=
      if_neg fun h => h.1 hpreserved
    rw [if_pos hpreserved, wpx_bind, wpx_interruptible]
    rintro r s₁ ⟨hcall, hint, -⟩
    obtain ⟨hv₁, hr⟩ := failing_exists hcall
    have h₁ : Placed env preserveInis ignoreList filename s s₁ := by
      refine ⟨?_, hint⟩
      rw [hv₁]
      exact .refl _ _ _ _
    rw [wpx_bind]
    cases r with
    | none =>
      unfold value
      rw [wpx_throw]
      exact h₁
    | some there =>
      have hthere := hr there rfl
      unfold value
      rw [wpx_pure]
      split
      · rename_i hno
        rw [hno] at hthere
        have hnone : s₁.1.tree.get (key fold (place env.cwd filename)) = none := by
          rw [hv₁]
          rw [← Option.not_isSome_iff_eq_none, ← hthere]
          decide
        refine wpx_conseq (extractEntry_spec env.cwd filename e s₁) ?_
          fun _ s₂ h₂ => h₁.trans (.of_new h₂ houtput hnone)
        rintro - s₂ ⟨h₂, hholds⟩
        refine ⟨h₁.trans (.of_new h₂ houtput hnone), fun hrun _ _ _ => ?_⟩
        rw [houtput]
        exact hholds hrun
      · rename_i hyes
        rw [wpx_pure]
        refine ⟨h₁, fun _ _ hnone _ => ?_⟩
        rw [hnone hpreserved] at hthere
        exact absurd hthere hyes
  · have hspared : ¬Spared env preserveInis ignoreList filename := not_or.mpr ⟨happ, hpreserved⟩
    rw [if_neg hpreserved]
    -- a file in use is written beside its place
    by_cases huse : inUse filename
    · have houtput : output preserveInis ignoreList filename = filename ++ ascii ".aio" :=
        if_pos ⟨hpreserved, huse⟩
      rw [if_pos huse, ← houtput]
      refine wpx_conseq (extractEntry_spec env.cwd _ e s) ?_ fun _ s₁ h₁ => .of_reaches h₁ hspared
      rintro - s₁ ⟨h₁, hholds⟩
      exact ⟨.of_reaches h₁ hspared, fun hrun _ _ _ => hholds hrun⟩
    · have houtput : output preserveInis ignoreList filename = filename :=
        if_neg fun h => huse h.2
      rw [if_neg huse, wpx_bind]
      have hplaced : ∀ s₁ : Volume fold × Bool,
          Reaches (fileAt fold env.cwd filename) (leadsTo fold env.cwd filename) s s₁ →
          Placed env preserveInis ignoreList filename s s₁ := by
        intro s₁ h₁
        apply Placed.of_reaches _ hspared
        rw [houtput]
        exact h₁
      refine wpx_conseq (extractEntry_spec env.cwd filename e s) ?_ fun _ => hplaced
      rintro - s₁ ⟨h₁, hholds⟩
      have hto₁ := hplaced s₁ h₁
      rw [wpx_bind]
      apply wpx_getInterupt
      intro s₂ h₂ hv₂
      have hto₂ : Placed env preserveInis ignoreList filename s s₂ := by
        refine ⟨?_, fun hs => h₂.interrupted (hto₁.interrupted hs)⟩
        rw [hv₂]
        exact hto₁.added
      have hholds₂ : s₂.2 = false → Holds env.cwd filename e s₂.1 := by
        intro hrun
        rw [hv₂]
        exact hholds (h₂.running hrun)
      cases hi : s₂.2 with
      | true =>
        rw [if_pos rfl, wpx_pure]
        refine ⟨hto₂, fun hrun => ?_⟩
        rw [hi] at hrun
        cases hrun
      | false =>
        rw [if_neg (by decide)]
        split
        · rename_i hhekate
          have hpayload : IsPayload env preserveInis ignoreList filename := ⟨hspared, huse, hhekate⟩
          have hcopied : ∀ s₃ : Volume fold × Bool, Reaches (copies fold) nothing s₂ s₃ →
              Placed env preserveInis ignoreList filename s s₃ := by
            intro s₃ h₃
            refine hto₂.trans ⟨?_, h₃.interrupted⟩
            exact h₃.touched.added.mono (fun _ hq => Or.inr ⟨hpayload, hq⟩) (fun _ => id)
              fun _ hq => hq.elim
          refine wpx_conseq (copyPayload_spec env filename s₂) (fun _ s₃ h₃ => ?_) fun _ => hcopied
          refine ⟨hcopied s₃ h₃, fun hrun _ _ hcopy hfile => ?_⟩
          have hcopy' := hcopy hpayload
          rw [houtput] at hcopy' hfile ⊢
          exact h₃.touched.contents hcopy' (hholds₂ (h₃.running hrun) hfile)
        · rw [wpx_pure]
          refine ⟨hto₂, fun hrun _ _ _ => ?_⟩
          rw [houtput]
          exact hholds₂ hrun

/-! ## The whole extraction -/

/-- What every entry keeps the extraction keeps, however it ends. -/
theorem extract_invariant (inv : Volume fold → Prop) (env : Env) (preserve : Option Bytes)
    (archive : List ZipEntry) (workingPath : Bytes) (preserveInis : Bool)
    (hentry : ∀ e ∈ archive, ∀ s s' : Volume fold × Bool, safeName e.filename → inv s.1 →
      Placed env preserveInis (readLineByLine preserve) (target workingPath e.filename) s s' →
      inv s'.1)
    (s : Volume fold × Bool) (h : inv s.1) :
    wpx (interruptible may) (fun _ s' => inv s'.1) (fun _ s' => inv s'.1)
      (extract env preserve archive workingPath preserveInis) s := by
  unfold extract
  rw [wpx_bind]
  refine wpx_conseq (ensureAvailableStorage_spec archive s) ?_ fun _ s₁ h₁ => by rwa [h₁.2]
  rintro size s₁ ⟨-, hv₁, -⟩
  have h₁ : inv s₁.1 := by rwa [hv₁]
  cases size with
  | none =>
    rw [wpx_pure]
    exact h₁
  | some size =>
    dsimp only
    rw [wpx_bind]
    refine wpx_conseq (openArchive_spec s₁) ?_ fun _ s₂ h₂ => by rwa [h₂.2]
    rintro - s₂ ⟨-, hv₂⟩
    have h₂ : inv s₂.1 := by rwa [hv₂]
    rw [wpx_bind]
    refine wpx_conseq (walk_invariant archive ?_ s₂ h₂) (fun _ s₃ h₃ => ?_) fun _ _ => id
    · intro e he s hsafe hs
      exact wpx_conseq (extractOne_spec e s) (fun _ s' h' => hentry e he s s' hsafe hs h'.1)
        fun _ s' h' => hentry e he s s' hsafe hs h'
    · rw [wpx_bind]
      apply wpx_getInterupt
      intro s₄ _ hv₄
      rw [wpx_pure, hv₄]
      exact h₃

/-- What holds of the entries that were looked at, while there is no interrupt, holds of all of them
when the extraction is complete. -/
theorem extract_loop (inv : List ZipEntry → Volume fold → Prop) (env : Env)
    (preserve : Option Bytes) (archive : List ZipEntry) (workingPath : Bytes) (preserveInis : Bool)
    (hentry : ∀ pre e post (s s' : Volume fold × Bool), archive = pre ++ e :: post →
      safeName e.filename → inv pre s.1 →
      Placed env preserveInis (readLineByLine preserve) (target workingPath e.filename) s s' →
      Delivers env preserveInis (readLineByLine preserve) (target workingPath e.filename) e s.1
        s'.1 → inv (pre ++ [e]) s'.1)
    (s : Volume fold × Bool) (h : inv [] s.1) :
    wpx (interruptible may) (fun complete s' => complete = true → inv archive s'.1)
      (fun _ _ => True) (extract env preserve archive workingPath preserveInis) s := by
  unfold extract
  rw [wpx_bind]
  refine wpx_conseq (ensureAvailableStorage_spec archive s) ?_ fun _ _ _ => trivial
  rintro size s₁ ⟨-, hv₁, -⟩
  have h₁ : inv [] s₁.1 := by rwa [hv₁]
  cases size with
  | none =>
    rw [wpx_pure]
    rintro ⟨⟩
  | some size =>
    dsimp only
    rw [wpx_bind]
    refine wpx_conseq (openArchive_spec s₁) ?_ fun _ _ _ => trivial
    rintro - s₂ ⟨-, hv₂⟩
    have h₂ : inv [] s₂.1 := by rwa [hv₂]
    rw [wpx_bind]
    refine wpx_conseq (walk_loop archive ?_ s₂ h₂) (fun _ s₃ h₃ => ?_) fun _ _ => id
    · intro pre e post s hsplit hsafe hs
      exact wpx_conseq (extractOne_spec e s) (fun _ s' h' hrun =>
        hentry pre e post s s' hsplit hsafe hs h'.1 (h'.2 hrun)) fun _ _ _ => trivial
    · rw [wpx_bind]
      apply wpx_getInterupt
      intro s₄ h₄ hv₄
      rw [wpx_pure]
      intro hcomplete
      rw [hv₄]
      have hrun : s₄.2 = false := by simpa using hcomplete
      exact (h₃ (h₄.running hrun)).2

/-- The folder an archive is extracted to. -/
def workingFolder (fold : Name → Name) (workingPath : Bytes) : FsPath :=
  key fold (place [] (lexically_normal workingPath))

theorem target_below {workingPath entryName : Bytes} (cwd : FsPath)
    (hroot : workingPath.head? = some SLASH) (hsafe : safeName entryName) :
    ∃ below, key fold (place cwd (target workingPath entryName))
        = workingFolder fold workingPath ++ below ∧
      (IsFile (target workingPath entryName) → below ≠ []) := by
  have hup : ascii ".." ∉ getlines SLASH entryName := hsafe.2.2.2.2.2.2
  refine ⟨((getlines SLASH entryName).filter (Real ·)).map fun c => fold (name c), ?_, ?_⟩
  · rw [key_target cwd hroot hup, workingFolder, key_lexically_normal [] hroot]
  · intro hfile
    rw [isFile_target hroot hsafe] at hfile
    obtain ⟨ls, l, hls, hl, -⟩ := getLast_getlines (decide_eq_false hfile.1) hsafe.1
    have hdot : l ≠ ascii "." := by
      rintro rfl
      apply hfile.2
      rw [hls, List.getLast?_concat]
    have hlup : l ≠ ascii ".." := by
      rintro rfl
      apply hup
      rw [hls]
      exact List.mem_append_right _ (List.mem_singleton_self _)
    have hmem : l ∈ (getlines SLASH entryName).filter (Real ·) := by
      rw [List.mem_filter, hls]
      exact ⟨List.mem_append_right _ (List.mem_singleton_self l), decide_eq_true ⟨hl, hdot, hlup⟩⟩
    exact List.ne_nil_of_mem (List.mem_map_of_mem hmem)

theorem key_package3 (cwd : FsPath) :
    key fold (place cwd (ascii "/atmosphere/package3")) = [fold "atmosphere", fold "package3"] ∧
    key fold (place cwd (ascii "/atmosphere/package3" ++ ascii ".aio"))
      = [fold "atmosphere", fold "package3.aio"] := by
  constructor <;> rfl

theorem key_stratosphere (cwd : FsPath) :
    key fold (place cwd (ascii "/atmosphere/stratosphere.romfs"))
      = [fold "atmosphere", fold "stratosphere.romfs"] ∧
    key fold (place cwd (ascii "/atmosphere/stratosphere.romfs" ++ ascii ".aio"))
      = [fold "atmosphere", fold "stratosphere.romfs.aio"] := by
  constructor <;> rfl

/-- What is written for an entry is in the folder. -/
theorem output_below {workingPath entryName : Bytes} (hroot : workingPath.head? = some SLASH)
    (hsafe : safeName entryName) :
    ∃ below, key fold (place env.cwd (output preserveInis ignoreList (target workingPath entryName)))
      = workingFolder fold workingPath ++ below := by
  have htarget : ∃ below, key fold (place env.cwd (target workingPath entryName))
        = workingFolder fold workingPath ++ below ∧
      (IsFile (target workingPath entryName) → below ≠ []) := target_below env.cwd hroot hsafe
  obtain ⟨below, hbelow, hne⟩ := htarget
  unfold output
  split
  · rename_i huse
    -- only the last component is another one
    have hlast : ∀ a b c : Name, [a, b] = workingFolder fold workingPath ++ below → below ≠ [] →
        ∃ below', [a, c] = workingFolder fold workingPath ++ below' := by
      intro a b c heq hbelow'
      have hdrop : [a] = workingFolder fold workingPath ++ below.dropLast := by
        have h := congrArg List.dropLast heq
        rwa [List.dropLast_append_of_ne_nil hbelow'] at h
      refine ⟨below.dropLast ++ [c], ?_⟩
      rw [← List.append_assoc, ← hdrop]
      rfl
    have hfile : IsFile (target workingPath entryName) := by
      rcases huse.2 with heq | heq
      · rw [heq]
        decide
      · rw [heq]
        decide
    rcases huse.2 with heq | heq
    · rw [heq] at hbelow ⊢
      rw [(key_package3 env.cwd).1] at hbelow
      rw [(key_package3 env.cwd).2]
      exact hlast _ _ _ hbelow (hne hfile)
    · rw [heq] at hbelow ⊢
      rw [(key_stratosphere env.cwd).1] at hbelow
      rw [(key_stratosphere env.cwd).2]
      exact hlast _ _ _ hbelow (hne hfile)
  · exact ⟨below, hbelow⟩

/-- Nothing outside of the folder is touched, but for the copies of a payload and the directories
that lead to the folder. -/
def Confined (env : Env) (preserveInis : Bool) (ignoreList : Finset Bytes) (workingPath : Bytes)
    (archive : List ZipEntry) (v v' : Volume fold) : Prop :=
  Added v v'
    (fun q => workingFolder fold workingPath <+: q ∨ (copies fold q ∧ ∃ e ∈ archive,
      IsPayload env preserveInis ignoreList (target workingPath e.filename)))
    (workingFolder fold workingPath <+: ·)
    (fun q => workingFolder fold workingPath <+: q ∨ q <+: workingFolder fold workingPath)

/-- One entry keeps to the folder. -/
theorem Confined.placed {workingPath : Bytes} {archive : List ZipEntry} {v : Volume fold}
    {s s' : Volume fold × Bool} {e : ZipEntry} (hroot : workingPath.head? = some SLASH)
    (he : e ∈ archive) (hsafe : safeName e.filename)
    (h : Confined env preserveInis ignoreList workingPath archive v s.1)
    (hplaced : Placed env preserveInis ignoreList (target workingPath e.filename) s s') :
    Confined env preserveInis ignoreList workingPath archive v s'.1 := by
  have houtput : ∃ below,
      key fold (place env.cwd (output preserveInis ignoreList (target workingPath e.filename)))
        = workingFolder fold workingPath ++ below := output_below hroot hsafe
  obtain ⟨below, hbelow⟩ := houtput
  refine h.trans (hplaced.added.mono ?_ ?_ ?_)
  · rintro q (⟨-, -, rfl⟩ | ⟨hpayload, hcopy⟩)
    · rw [hbelow]
      exact Or.inl (List.prefix_append _ _)
    · exact Or.inr ⟨hcopy, e, he, hpayload⟩
  · rintro q ⟨-, rfl⟩
    rw [hbelow]
    exact List.prefix_append _ _
  · intro q hq
    have hq' : q <+: workingFolder fold workingPath ++ below := by
      rw [← hbelow]
      exact hq
    exact List.prefix_or_prefix_of_prefix (List.prefix_append _ _) hq'

/-- What is there and to which only spared entries go is as it was. -/
theorem at_eq_placed {workingPath : Bytes} {v : Volume fold} {s s' : Volume fold × Bool}
    {e : ZipEntry} {q : FsPath} (hthere : v.tree.get q ≠ none)
    (hspared : fileAt fold env.cwd
        (output preserveInis ignoreList (target workingPath e.filename)) q →
      Spared env preserveInis ignoreList (target workingPath e.filename))
    (hcopies : copies fold q →
      ¬IsPayload env preserveInis ignoreList (target workingPath e.filename))
    (h : s.1.at_ q = v.at_ q)
    (hplaced : Placed env preserveInis ignoreList (target workingPath e.filename) s s') :
    s'.1.at_ q = v.at_ q := by
  refine (hplaced.added.at_eq ?_ ?_).trans h
  · rintro (⟨hnot, hfile⟩ | ⟨hpayload, hcopy⟩)
    · exact hnot (hspared hfile)
    · exact hcopies hcopy hpayload
  · rw [Volume.get_of_at h]
    exact hthere

/-- The path that is written for an entry. -/
def outputPlace (env : Env) (preserveInis : Bool) (ignoreList : Finset Bytes) (workingPath : Bytes)
    (e : ZipEntry) : FsPath :=
  place env.cwd (output preserveInis ignoreList (target workingPath e.filename))

/-- An entry of a file gets to its place: it is not the running application; its place is not
protected, or it is free and no earlier entry goes there or below; it is not replaced by a copy; and
no later entry goes there that is not spared. -/
structure Unhindered (env : Env) (preserveInis : Bool) (ignoreList : Finset Bytes)
    (workingPath : Bytes) (v : Volume fold) (before : List ZipEntry) (e : ZipEntry)
    (after : List ZipEntry) : Prop where
  file : IsFile e.filename
  named : (getlines SLASH e.filename).getLast? ≠ some (ascii ".")
  notRunning : env.appPath ≠ target workingPath e.filename
  free : preserved preserveInis ignoreList (target workingPath e.filename) →
    v.tree.get (key fold (outputPlace env preserveInis ignoreList workingPath e)) = none ∧
    ∀ earlier ∈ before,
      ¬key fold (outputPlace env preserveInis ignoreList workingPath e) <+:
        key fold (outputPlace env preserveInis ignoreList workingPath earlier) ∧
      (copies fold (key fold (outputPlace env preserveInis ignoreList workingPath e)) →
        ¬IsPayload env preserveInis ignoreList (target workingPath earlier.filename))
  notCopied : copies fold (key fold (outputPlace env preserveInis ignoreList workingPath e)) →
    ¬IsPayload env preserveInis ignoreList (target workingPath e.filename)
  notReplaced : ∀ later ∈ after,
    ¬replaces env preserveInis ignoreList fold (target workingPath later.filename)
      (key fold (outputPlace env preserveInis ignoreList workingPath e))

section unhindered

variable {workingPath : Bytes} {before after : List ZipEntry} {e entry : ZipEntry}
  {s s' : Volume fold × Bool}

/-- An earlier entry leaves a protected place free. -/
theorem Unhindered.earlier
    (h : Unhindered env preserveInis ignoreList workingPath v before e after)
    (hmem : entry ∈ before)
    (hpreserved : preserved preserveInis ignoreList (target workingPath e.filename))
    (hnone : s.1.tree.get (key fold (outputPlace env preserveInis ignoreList workingPath e)) = none)
    (hplaced : Placed env preserveInis ignoreList (target workingPath entry.filename) s s') :
    s'.1.tree.get (key fold (outputPlace env preserveInis ignoreList workingPath e)) = none := by
  obtain ⟨hplace, hcopy⟩ := (h.free hpreserved).2 entry hmem
  refine hplaced.added.get_none ?_ ?_ hplace hnone
  · rintro (⟨-, -, heq⟩ | ⟨hpayload, hcopies⟩)
    · apply hplace
      rw [heq]
      exact List.prefix_rfl
    · exact hcopy hcopies hpayload
  · rintro ⟨-, heq⟩
    apply hplace
    rw [heq]
    exact List.prefix_rfl

/-- The entry itself leaves its bytes. -/
theorem Unhindered.own
    (h : Unhindered env preserveInis ignoreList workingPath v before e after)
    (hroot : workingPath.head? = some SLASH) (hsafe : safeName e.filename)
    (hnone : preserved preserveInis ignoreList (target workingPath e.filename) →
      s.1.tree.get (key fold (outputPlace env preserveInis ignoreList workingPath e)) = none)
    (hdelivers : Delivers env preserveInis ignoreList (target workingPath e.filename) e s.1 s'.1) :
    s'.1.contents (outputPlace env preserveInis ignoreList workingPath e) = some e.data := by
  have hfile : IsFile (target workingPath e.filename) :=
    (isFile_target hroot hsafe).mpr ⟨h.file, h.named⟩
  refine hdelivers h.notRunning ?_ (fun hpayload hcopy => h.notCopied hcopy hpayload) ?_
  · intro hpreserved
    have houtput : output preserveInis ignoreList (target workingPath e.filename)
        = target workingPath e.filename := if_neg fun hno => hno.1 hpreserved
    have hplace := hnone hpreserved
    unfold outputPlace at hplace
    rwa [houtput] at hplace
  · unfold output
    split
    · rename_i huse
      rcases huse.2 with heq | heq
      · rw [heq]
        decide
      · rw [heq]
        decide
    · exact hfile

/-- A later entry leaves them there. -/
theorem Unhindered.later
    (h : Unhindered env preserveInis ignoreList workingPath v before e after)
    (hmem : entry ∈ after)
    (hcontents : s.1.contents (outputPlace env preserveInis ignoreList workingPath e)
      = some e.data)
    (hplaced : Placed env preserveInis ignoreList (target workingPath entry.filename) s s') :
    s'.1.contents (outputPlace env preserveInis ignoreList workingPath e) = some e.data :=
  hplaced.added.contents (h.notReplaced entry hmem) hcontents

/-- What stands before a shorter part of a list is in that part. -/
theorem mem_before {pre post : List ZipEntry}
    (h : before ++ e :: after = pre ++ entry :: post) (hlt : pre.length < before.length) :
    entry ∈ before := by
  have hget := congrArg (fun l => l[pre.length]?) h
  rw [List.getElem?_append_left hlt, List.getElem?_append_right le_rfl, Nat.sub_self] at hget
  exact List.mem_of_getElem? hget

theorem mem_after {pre post : List ZipEntry}
    (h : before ++ e :: after = pre ++ entry :: post) (hlt : before.length < pre.length) :
    entry ∈ after := by
  have hget := congrArg (fun l => l[pre.length]?) h
  rw [List.getElem?_append_right hlt.le, List.getElem?_append_right le_rfl, Nat.sub_self] at hget
  obtain ⟨n, hn⟩ := Nat.exists_eq_succ_of_ne_zero (Nat.sub_ne_zero_of_lt hlt)
  rw [hn] at hget
  exact List.mem_of_getElem? hget

/-- An entry that is not hindered is in its place when the extraction is complete. -/
theorem Unhindered.delivered {preserve : Option Bytes} {v : Volume fold} {interrupted : Bool}
    (h : Unhindered env preserveInis (readLineByLine preserve) workingPath v before e after)
    (hroot : workingPath.head? = some SLASH) :
    wpx (interruptible may)
      (fun complete s' => complete = true → s'.1.contents
        (outputPlace env preserveInis (readLineByLine preserve) workingPath e) = some e.data)
      (fun _ _ => True)
      (extract env preserve (before ++ e :: after) workingPath preserveInis) (v, interrupted) := by
  -- before the entry its place is free if it is protected, behind it its bytes are there
  refine wpx_conseq (extract_loop (fun pre u =>
    (pre.length ≤ before.length →
      preserved preserveInis (readLineByLine preserve) (target workingPath e.filename) →
      u.tree.get (key fold
        (outputPlace env preserveInis (readLineByLine preserve) workingPath e)) = none) ∧
    (before.length < pre.length → u.contents
      (outputPlace env preserveInis (readLineByLine preserve) workingPath e) = some e.data))
    env preserve (before ++ e :: after) workingPath preserveInis ?_ (v, interrupted)
    ⟨fun _ hpreserved => (h.free hpreserved).1, fun hlt => absurd hlt (Nat.not_lt_zero _)⟩)
    (fun complete s' hinv hcomplete => ?_) fun _ _ => id
  rotate_left
  · apply (hinv hcomplete).2
    rw [List.length_append, List.length_cons]
    omega
  · intro pre entry post s s' hsplit hsafe hinv hplaced hdelivers
    rw [List.length_append, List.length_singleton]
    rcases Nat.lt_trichotomy pre.length before.length with hlt | hlen | hgt
    · refine ⟨fun _ hpreserved => ?_, fun hno => absurd hno (by omega)⟩
      exact h.earlier (mem_before hsplit hlt) hpreserved (hinv.1 hlt.le hpreserved) hplaced
    · obtain ⟨rfl, hrest⟩ := List.append_inj hsplit hlen.symm
      obtain ⟨rfl, rfl⟩ := List.cons.inj hrest
      refine ⟨fun hno => absurd hno (by omega), fun _ => ?_⟩
      exact h.own hroot hsafe (hinv.1 le_rfl) hdelivers
    · refine ⟨fun hno => absurd hno (by omega), fun _ => ?_⟩
      exact h.later (mem_after hsplit hgt) (hinv.2 hgt) hplaced

end unhindered

end specs

/-! ## Packages -/

/-- The extraction keeps to the folder; what is there and to which only spared entries go is as it
was; and if it is complete, the bytes of every entry that is not hindered are in its place. -/
structure PackageExtracted (env : Env) (preserveInis : Bool) (ignoreList : Finset Bytes)
    (workingPath : Bytes) (archive : List ZipEntry) (v v' : Volume fold) (complete : Prop) :
    Prop where
  confined : Confined env preserveInis ignoreList workingPath archive v v'
  spared : ∀ q, v.tree.get q ≠ none →
    (∀ e ∈ archive, key fold (outputPlace env preserveInis ignoreList workingPath e) = q →
      Spared env preserveInis ignoreList (target workingPath e.filename)) →
    (copies fold q → ∀ e ∈ archive,
      ¬IsPayload env preserveInis ignoreList (target workingPath e.filename)) →
    v'.at_ q = v.at_ q
  delivered : complete → ∀ before e after, archive = before ++ e :: after →
    Unhindered env preserveInis ignoreList workingPath v before e after →
    v'.contents (outputPlace env preserveInis ignoreList workingPath e) = some e.data

/-- What the extraction of a package does, whichever calls fail and whenever it is interrupted. -/
theorem extract_package (may : Volume fold → Explorer.Fn → Prop) (env : Env)
    (preserve : Option Bytes) (archive : List ZipEntry) (workingPath : Bytes) (preserveInis : Bool)
    (v v' : Volume fold) (interrupted interrupted' : Bool) (r : Except String Bool)
    (hroot : workingPath.head? = some SLASH)
    (h : Ends (interruptible may) (extract env preserve archive workingPath preserveInis)
      (v, interrupted) r (v', interrupted')) :
    PackageExtracted env preserveInis (readLineByLine preserve) workingPath archive v v'
      (r = .ok true) := by
  -- what holds however it ends holds of `v'`
  have hends : ∀ inv : Volume fold → Prop,
      wpx (interruptible may) (fun _ s' => inv s'.1) (fun _ s' => inv s'.1)
        (extract env preserve archive workingPath preserveInis) (v, interrupted) → inv v' := by
    intro inv hspec
    have hend := wpx_sound hspec h
    cases r with
    | error _ => exact hend
    | ok _ => exact hend
  constructor
  · apply hends
    apply extract_invariant
    · intro e he s s' hsafe hinv hplaced
      exact hinv.placed hroot he hsafe hplaced
    · exact .refl _ _ _ _
  · intro q hthere hspared hcopies
    apply hends (fun u => u.at_ q = v.at_ q)
    apply extract_invariant (fun u => u.at_ q = v.at_ q)
    · intro e he s s' _ hinv hplaced
      apply at_eq_placed hthere _ (fun hcopy => hcopies hcopy e he) hinv hplaced
      rintro ⟨-, rfl⟩
      exact hspared e he rfl
    · rfl
  · rintro rfl before e after rfl hunhindered
    exact wpx_sound (hunhindered.delivered hroot) h rfl

/-- The extraction of one file to the root, on a console on which nothing fails. -/
def packageRun (preserve : Option Bytes) (filename : Bytes) (v : Volume id) :
    Except String Bool × Volume id × Bool :=
  exec undisturbed (extract onConsole preserve (oneEntry filename) [SLASH] false) (v, false)

theorem packageRun_ends (preserve : Option Bytes) (filename : Bytes) (v : Volume id) :
    Ends (interruptible onlyInterrupts)
      (extract onConsole preserve (oneEntry filename) [SLASH] false) (v, false)
      (packageRun preserve filename v).1 (packageRun preserve filename v).2 :=
  exec_ends interruptible_undisturbed _ _

/-- One file is in its place. -/
theorem unhindered_single {env : Env} {preserveInis : Bool} {ignoreList : Finset Bytes}
    {workingPath : Bytes} {v : Volume fold} {e : ZipEntry} (hfile : IsFile e.filename)
    (hnamed : (getlines SLASH e.filename).getLast? ≠ some (ascii "."))
    (hnotRunning : env.appPath ≠ target workingPath e.filename)
    (hfree : ¬preserved preserveInis ignoreList (target workingPath e.filename))
    (hpayload : ¬IsPayload env preserveInis ignoreList (target workingPath e.filename)) :
    Unhindered env preserveInis ignoreList workingPath v [] e [] where
  file := hfile
  named := hnamed
  notRunning := hnotRunning
  free := fun h => absurd h hfree
  notCopied := fun _ => hpayload
  notReplaced := fun _ h => absurd h List.not_mem_nil

set_option maxRecDepth 8000 in
theorem extract_package_one : ∃ v' interrupted,
    Ends (interruptible onlyInterrupts)
      (extract onConsole none (oneEntry (ascii "switch/a")) [SLASH] false) (Volume.empty, false)
      (.ok true) (v', interrupted) ∧
    PackageExtracted onConsole false (readLineByLine none) [SLASH] (oneEntry (ascii "switch/a"))
      Volume.empty v' ((.ok true : Except String Bool) = .ok true) ∧
    v'.contents ["switch", "a"] = some [1] := by
  have hrun := packageRun_ends none (ascii "switch/a") Volume.empty
  have hend : (packageRun none (ascii "switch/a") Volume.empty).1 = .ok true := by rfl
  rw [hend] at hrun
  have hextracted := extract_package onlyInterrupts onConsole none _ [SLASH] false Volume.empty _
    false _ (.ok true) rfl hrun
  refine ⟨_, _, hrun, hextracted, ?_⟩
  exact hextracted.delivered rfl [] _ [] rfl
    (unhindered_single (by decide) (by decide) (by decide) (by decide) (by decide))

/-- The files below the folder alone change, those that are protected do not if they are there, and
every other file of a complete extraction is in its place. -/
structure StaysInside (env : Env) (preserveInis : Bool) (ignoreList : Finset Bytes)
    (workingPath : Bytes) (archive : List ZipEntry) (v v' : Volume fold) (complete : Prop) :
    Prop where
  inside : ∀ p, v'.contents p ≠ v.contents p → workingFolder fold workingPath <+: key fold p
  unchanged : ∀ filename, Spared env preserveInis ignoreList filename →
    v.contents (place env.cwd filename) ≠ none →
    v'.contents (place env.cwd filename) = v.contents (place env.cwd filename)
  extracted : complete → ∀ e ∈ archive, IsFile e.filename →
    ¬Spared env preserveInis ignoreList (target workingPath e.filename) →
    v'.contents (place env.cwd (target workingPath e.filename)) = some e.data

/-- A card with a file where the copy of a payload goes. -/
def withUpdateBin : Volume id :=
  (((Volume.empty : Volume id).mkdirs [["bootloader"]]).2.setFile ["bootloader", "update.bin"]
    [0]).getD .empty

set_option maxRecDepth 8000 in
/-- A file that may be in use goes to another name, and the copy of a payload replaces a file that
is protected. -/
theorem leaves_and_replaces :
    (∃ v' interrupted, Ends (interruptible onlyInterrupts)
      (extract onConsole none (oneEntry (ascii "atmosphere/package3")) [SLASH] false)
      (Volume.empty, false) (.ok true) (v', interrupted) ∧
      ¬StaysInside onConsole false (readLineByLine none) [SLASH]
        (oneEntry (ascii "atmosphere/package3")) Volume.empty v' True) ∧
    ∃ v' interrupted, Ends (interruptible onlyInterrupts)
      (extract onConsole (some (ascii "/bootloader/")) (oneEntry (ascii "hekate_ctcaer.bin")) [SLASH]
        false) (withUpdateBin, false) (.ok true) (v', interrupted) ∧
      ¬StaysInside onConsole false (readLineByLine (some (ascii "/bootloader/"))) [SLASH]
        (oneEntry (ascii "hekate_ctcaer.bin")) withUpdateBin v' True := by
  constructor
  · have hrun := packageRun_ends none (ascii "atmosphere/package3") Volume.empty
    have hend : (packageRun none (ascii "atmosphere/package3") Volume.empty).1 = .ok true := by rfl
    have hnone : (packageRun none (ascii "atmosphere/package3") Volume.empty).2.1.contents
        ["atmosphere", "package3"] = none := by rfl
    rw [hend] at hrun
    refine ⟨_, _, hrun, ?_⟩
    intro hstays
    have hsome := hstays.extracted trivial _ (List.mem_singleton_self _) (by decide) (by decide)
    exact absurd (hnone.symm.trans hsome) (by decide)
  · have hrun := packageRun_ends (some (ascii "/bootloader/")) (ascii "hekate_ctcaer.bin")
      withUpdateBin
    have hend : (packageRun (some (ascii "/bootloader/")) (ascii "hekate_ctcaer.bin")
        withUpdateBin).1 = .ok true := by rfl
    have hnew : (packageRun (some (ascii "/bootloader/")) (ascii "hekate_ctcaer.bin")
        withUpdateBin).2.1.contents ["bootloader", "update.bin"] = some [1] := by rfl
    have hold : withUpdateBin.contents ["bootloader", "update.bin"] = some [0] := by rfl
    rw [hend] at hrun
    refine ⟨_, _, hrun, ?_⟩
    intro hstays
    have hsame := hstays.unchanged UPDATE_BIN_PATH (by decide) (by decide)
    exact absurd (hnew.symm.trans (hsame.trans hold)) (by decide)

end Extract
