/-
# Extracting cheats

`extractCheats` looks at a name at fixed places only: as many characters as the contents folder's
name has, sixteen for the title id, `/cheats` in any letter case, and something more.  What is
before and after is not looked at, so an archive can name another folder than that of the contents.
Below the folder of the firmware, just the entries whose names are so and whose id agrees with a
title that is wanted are written; besides, the version of the cheats is written down.
-/
import AioMod.ExcludePageSpec
import AioMod.ExtractRun

namespace Extract

open Explorer Throws TextLines IniEditor ExcludePage

variable {fold : Name → Name}

/-! ## The names of the entries -/

/-- A line of the file, without its end, is the title in any letter case. -/
def Excluded (exclude : Option Bytes) (title : Bytes) : Prop :=
  ∃ l ∈ linesOf exclude, (popCR l).map toupper = title

/-- The title id agrees with an installed title that is not excluded, or all are wanted. -/
def Wanted (installed : Installed) (exclude : Option Bytes) (extractAll : Bool) (id : Bytes) :
    Prop :=
  extractAll = true ∨ ∃ title ∈ installed.titles,
    ¬Excluded exclude title ∧ caselessCompare (title.take 13) (id.take 13)

/-- A name as the filter takes it apart. -/
def CheatEntry (cfw : CFW) (wanted : Bytes → Prop) (filename : Bytes) : Prop :=
  ∃ folder id cheats rest, filename = folder ++ id ++ cheats ++ rest ∧
    folder.length = cfw.folders.2.length ∧ id.length = 16 ∧
    caselessCompare cheats (ascii "/cheats") ∧ rest ≠ [] ∧ wanted id

/-- The names in the contents folder that the filter is meant for. -/
theorem cheatEntry_of_layout {cfw : CFW} {wanted : Bytes → Prop} {id rest : Bytes}
    (hid : id.length = 16) (h : wanted id) :
    CheatEntry cfw wanted (cfw.folders.2 ++ id ++ ascii "/cheats/" ++ rest) := by
  refine ⟨cfw.folders.2, id, ascii "/cheats", SLASH :: rest, ?_, rfl, hid, rfl, ?_, h⟩
  · have hslash : ascii "/cheats/" = ascii "/cheats" ++ [SLASH] := by decide
    rw [hslash]
    simp
  · exact List.cons_ne_nil _ _

theorem selected_iff {titles : List Bytes} {extractAll : Bool} {cfw : CFW} {filename : Bytes} :
    selected titles extractAll cfw.folders.2.length filename ↔
      CheatEntry cfw (fun id => extractAll = true ∨
        ∃ title ∈ titles, caselessCompare (title.take 13) (id.take 13)) filename := by
  generalize hoffset : cfw.folders.2.length = offset
  unfold selected CheatEntry
  rw [hoffset]
  constructor
  · rintro ⟨hlen, hcheats, hwanted⟩
    refine ⟨filename.take offset, (filename.drop offset).take 16,
      (filename.drop (offset + 16)).take 7, filename.drop (offset + 16 + 7), ?_, ?_, ?_, hcheats,
      ?_, ?_⟩
    · have hsplit : ∀ m n, filename.drop (m + n) = (filename.drop m).drop n := by
        intro m n
        rw [List.drop_drop]
      have hrest : (filename.drop (offset + 16)).take 7 ++ filename.drop (offset + 16 + 7)
          = filename.drop (offset + 16) := by
        rw [hsplit (offset + 16) 7, List.take_append_drop]
      have hfrom : (filename.drop offset).take 16 ++ filename.drop (offset + 16)
          = filename.drop offset := by
        rw [hsplit offset 16, List.take_append_drop]
      rw [List.append_assoc, hrest, List.append_assoc, hfrom, List.take_append_drop]
    · rw [List.length_take]
      omega
    · rw [List.length_take, List.length_drop]
      omega
    · rw [ne_eq, List.drop_eq_nil_iff]
      omega
    · dsimp only
      rwa [List.take_take]
  · rintro ⟨folder, id, cheats, rest, rfl, hfolder, hid, hcheats, hrest, hwanted⟩
    have hseven : cheats.length = 7 := by
      have hlen := congrArg List.length hcheats
      rw [List.length_map, List.length_map] at hlen
      exact hlen.trans rfl
    have hpos : 0 < rest.length := List.length_pos_iff.mpr hrest
    have hdrop : (folder ++ id ++ cheats ++ rest).drop offset = id ++ (cheats ++ rest) := by
      rw [List.append_assoc, List.append_assoc, ← hfolder, List.drop_left]
    have hid' : (id ++ (cheats ++ rest)).drop 16 = cheats ++ rest := by
      rw [← hid, List.drop_left]
    refine ⟨?_, ?_, ?_⟩
    · simp only [List.length_append]
      omega
    · rw [← List.drop_drop, hdrop, hid', ← hseven, List.take_left]
      exact hcheats
    · rw [hdrop, List.take_append_of_le_length (by omega)]
      exact hwanted

/-- The titles that are left are those that no line is in capitals. -/
theorem mem_excludeTitles {installed : Installed} {exclude : Option Bytes} {title : Bytes} :
    title ∈ excludeTitles exclude installed.titles ↔
      title ∈ installed.titles ∧ ¬∃ l ∈ linesOf exclude, l.map toupper = title := by
  have hstrict : installed.titles.Pairwise before := sort_strict installed.nodup_titles
  constructor
  · intro h
    have hin : title ∈ installed.titles := by
      unfold excludeTitles at h
      exact ((mem_set_difference hstrict (sort_pairwise _)).mp h).1
    exact ⟨hin, fun hline => ((filteredOut_iff hin).mpr hline).2 h⟩
  · rintro ⟨hin, hno⟩
    by_contra hout
    exact hno ((filteredOut_iff hin).mp ⟨hin, hout⟩)

/-- With the titles that are not excluded, just the entries that are wanted are selected, where no
line ends in a carriage return. -/
theorem selected_iff_wanted {installed : Installed} {exclude : Option Bytes} {extractAll : Bool}
    (hLF : extractAll = false → ∀ l ∈ linesOf exclude, l.getLast? ≠ some CR) (cfw : CFW)
    (filename : Bytes) :
    selected (excludeTitles exclude installed.titles) extractAll cfw.folders.2.length filename ↔
      CheatEntry cfw (Wanted installed exclude extractAll) filename := by
  have hwanted : ∀ id, Wanted installed exclude extractAll id ↔ extractAll = true ∨
      ∃ title ∈ excludeTitles exclude installed.titles,
        caselessCompare (title.take 13) (id.take 13) := by
    intro id
    unfold Wanted
    cases extractAll with
    | true => simp
    | false =>
      have hlines : ∀ l ∈ linesOf exclude, popCR l = l := fun l hl => if_neg (hLF rfl l hl)
      have hexcluded : ∀ title, Excluded exclude title ↔
          ∃ l ∈ linesOf exclude, l.map toupper = title := by
        intro title
        unfold Excluded
        constructor
        · rintro ⟨l, hl, heq⟩
          rw [hlines l hl] at heq
          exact ⟨l, hl, heq⟩
        · rintro ⟨l, hl, heq⟩
          rw [← hlines l hl] at heq
          exact ⟨l, hl, heq⟩
      simp only [mem_excludeTitles, hexcluded, and_assoc]
  rw [selected_iff]
  unfold CheatEntry
  simp only [hwanted]

/-! ## The folders of the firmware -/

theorem mkdir_kind {v : Volume fold} {p : FsPath} (h : (v.mkdir p).1 = true) :
    (v.mkdir p).2.kind p = some true := by
  unfold Volume.mkdir at h ⊢
  split
  · rename_i hall
    have hat := v.at_put (key fold p) (lastName p) .dir hall.2.1
      (spells_last hall.2.2 hall.2.1.1) (key fold p)
    rw [if_pos rfl] at hat
    obtain ⟨e, he, heq⟩ := Option.map_eq_some_iff.mp hat
    show Option.map Entry.isDir _ = some true
    rw [he, (Prod.mk.inj heq).2]
    rfl
  · rename_i hall
    rw [dif_neg hall] at h
    exact of_decide_eq_true h

theorem mkdirs_kind {p : FsPath} (ps : List FsPath) :
    ∀ {v : Volume fold}, (v.mkdirs (ps ++ [p])).1 = true →
      (v.mkdirs (ps ++ [p])).2.kind p = some true := by
  induction ps with
  | nil =>
    intro v h
    rw [List.nil_append, Volume.mkdirs] at h ⊢
    split at h
    · rename_i hp
      rw [if_pos hp]
      exact mkdir_kind hp
    · cases h
  | cons q ps ih =>
    intro v h
    rw [List.cons_append, Volume.mkdirs] at h ⊢
    split at h
    · rename_i hq
      rw [if_pos hq]
      exact ih h
    · cases h

theorem prefixes_concat {p : FsPath} (h : p ≠ []) : ∃ ps, prefixes p = ps ++ [p] := by
  have hpos : 0 < p.length := List.length_pos_iff.mpr h
  obtain ⟨n, hn⟩ : ∃ n, p.length = n + 1 := ⟨p.length - 1, by omega⟩
  refine ⟨(List.range n).map fun i => p.take (i + 1), ?_⟩
  unfold prefixes
  rw [hn, List.range_succ, List.map_append, List.map_singleton, ← hn, List.take_length]

section cheats

variable {may : Volume fold → Explorer.Fn → Prop} {s : Volume fold × Bool}

/-- A directory that is created is there. -/
theorem create_directory_spec {path : Bytes} (hne : place [] path ≠ []) (s : Volume fold × Bool) :
    wpx (interruptible may)
      (fun _ s' => Reaches nothing (· <+: key fold (place [] path)) s s' ∧
        s'.1.kind (place [] path) = some true)
      (fun _ _ => True) (create_directory path) s := by
  unfold create_directory
  rw [wpx_bind, wpx_interruptible]
  rintro ok s' ⟨hcall, hint, -⟩
  rw [wpx_require]
  refine ⟨fun hok => ⟨⟨failing_create_directories hcall, hint⟩, ?_⟩, fun _ => trivial⟩
  obtain ⟨ps, hps⟩ := prefixes_concat hne
  rcases hcall with (⟨r₀, h, hr⟩ | ⟨hF, -⟩) | ⟨-, hfailed, -⟩
  · have hpair : (r₀, s'.1) = s.1.mkdirs (ps ++ [place [] path]) := by
      rw [← hps]
      exact h
    have hr₀ : (s.1.mkdirs (ps ++ [place [] path])).1 = true := by
      rw [← hpair]
      exact (show ok = r₀ from hr).symm.trans hok
    have hv : s'.1 = (s.1.mkdirs (ps ++ [place [] path])).2 := by rw [← hpair]
    rw [hv]
    exact mkdirs_kind ps hr₀
  · exact hF.elim
  · rw [hok] at hfailed
    cases hfailed

/-- The folder of the firmware. -/
def CFW.folder (cfw : CFW) : FsPath := place [] cfw.folders.1

/-- The folder of the titles. -/
def CFW.contents (cfw : CFW) : FsPath := place [] (cfw.folders.1 ++ cfw.folders.2)

theorem CFW.folder_ne_nil (cfw : CFW) : cfw.folder ≠ [] := by
  cases cfw <;> decide

theorem CFW.contents_ne_nil (cfw : CFW) : cfw.contents ≠ [] := by
  cases cfw <;> decide

theorem CFW.folder_prefix (cfw : CFW) : key fold cfw.folder <+: key fold cfw.contents := by
  apply Volume.key_prefix
  cases cfw <;> decide

/-- The extraction works in the folder of the firmware, where changing to it succeeds. -/
theorem computeOffset_spec (cwd : FsPath) (cfw : CFW)
    (hchdir : ∀ v, ¬may v (.status cfw.folder)) (s : Volume fold × Bool) :
    wpx (interruptible may)
      (fun r s' => Reaches nothing (· <+: key fold cfw.contents) s s' ∧
        r = (cfw.folder, cfw.folders.2.length))
      (fun _ _ => True) (computeOffset cwd cfw) s := by
  unfold computeOffset
  rw [wpx_bind]
  refine wpx_conseq (create_directory_spec cfw.folder_ne_nil s) ?_ fun _ _ => id
  rintro - s₁ ⟨h₁, hkind₁⟩
  rw [wpx_bind]
  refine wpx_conseq (create_directory_spec cfw.contents_ne_nil s₁) ?_ fun _ _ => id
  rintro - s₂ ⟨h₂, -⟩
  have hkind₂ : s₂.1.kind cfw.folder = some true := by
    have hthere : s₁.1.tree.get (key fold cfw.folder) ≠ none := by
      intro hnone
      have hkind : s₁.1.kind cfw.folder = some true := hkind₁
      unfold Volume.kind at hkind
      rw [hnone] at hkind
      cases hkind
    have hat := h₂.touched.at_eq (q := key fold cfw.folder) id hthere
    unfold Volume.kind
    rw [Volume.get_of_at hat]
    exact hkind₁
  have hto : Reaches nothing (· <+: key fold cfw.contents) s s₂ := by
    refine (h₁.mono (fun _ => id) ?_).trans h₂
    exact fun q hq => hq.trans cfw.folder_prefix
  rw [wpx_bind, wpx_interruptible]
  rintro chdir s₃ ⟨hcall, hint, -⟩
  have hstatus : s₃.1 = s₂.1 ∧ chdir = some true := by
    rcases hcall with h | ⟨hmay, -⟩
    · obtain ⟨hv, hr | ⟨hF, -⟩⟩ := card_status h
      · refine ⟨hv, hr.trans ?_⟩
        exact hkind₂
      · exact hF.elim
    · exact absurd hmay (hchdir _)
  rw [wpx_pure]
  refine ⟨hto.trans (.still hstatus.1 hint), ?_⟩
  rw [hstatus.2]
  rfl

/-- Writing the version down touches its file only. -/
theorem saveToFile_spec (text path : Bytes) (s : Volume fold × Bool) :
    wpx (interruptible may) (fun _ => Reaches (· = key fold (place [] path)) nothing s)
      (fun _ _ => True) (saveToFile text path) s := by
  unfold saveToFile
  rw [wpx_bind, wpx_interruptible]
  rintro file s₁ ⟨hopen, hint₁, -⟩
  have h₁ : Reaches (· = key fold (place [] path)) nothing s s₁ :=
    ⟨.of_sameBut (sameBut_ofstream hopen), hint₁⟩
  split
  · rw [wpx_bind, wpx_interruptible]
    rintro written s₂ ⟨hwrite, hint₂, -⟩
    rw [wpx_pure]
    exact h₁.trans ⟨.of_sameBut (sameBut_write hwrite), hint₂⟩
  · rw [wpx_pure]
    exact h₁

/-! ## What is extracted -/

/-- The path of an entry below the folder of the firmware. -/
def CFW.below (cfw : CFW) (filename : Bytes) : FsPath :=
  cfw.folder ++ (getlines SLASH filename).map name

theorem CFW.place_folder (cfw : CFW) {filename : Bytes} (h : safeName filename) :
    place cfw.folder filename = cfw.below filename := by
  unfold place CFW.below
  rw [if_neg h.2.2.2.1]

/-- The entry is a file and gets extracted. -/
def CheatFile (cfw : CFW) (wanted : Bytes → Prop) (e : ZipEntry) : Prop :=
  CheatEntry cfw wanted e.filename ∧ IsFile e.filename

/-- What the extraction does to the card: the entries that are wanted are written below the folder
of the firmware, the version is written down, and directories are created that lead there; nothing
else is touched, and every such entry ends with its bytes unless a later one goes to its place. -/
structure CheatsExtracted (cfw : CFW) (wanted : Bytes → Prop) (version : Bytes)
    (archive : List ZipEntry) (v v' : Volume fold) : Prop where
  touched : ∀ q, v'.at_ q ≠ v.at_ q →
    (∃ e ∈ archive, CheatFile cfw wanted e ∧ ascii ".." ∉ getlines SLASH e.filename ∧
      q = key fold (cfw.below e.filename)) ∨
    (version ≠ ascii "offline" ∧ version ≠ [] ∧ q = key fold (place [] CHEATS_VERSION)) ∨
    (v.tree.get q = none ∧ v'.tree.get q = some .dir ∧ (q <+: key fold cfw.contents ∨
      ∃ e ∈ archive, CheatEntry cfw wanted e.filename ∧ q <+: key fold (cfw.below e.filename)))
  written : ∀ before e after, archive = before ++ e :: after → CheatFile cfw wanted e →
    (∀ later ∈ after, CheatFile cfw wanted later →
      key fold (cfw.below later.filename) ≠ key fold (cfw.below e.filename)) →
    v'.contents (cfw.below e.filename) = some e.data

/-- The loop, for the entries that are wanted. -/
theorem walk_cheats (cfw : CFW) {titles : List Bytes} {extractAll : Bool} {wanted : Bytes → Prop}
    (hselected : ∀ filename, selected titles extractAll cfw.folders.2.length filename ↔
      CheatEntry cfw wanted filename) (archive : List ZipEntry) (s : Volume fold × Bool) :
    wpx (interruptible may)
      (fun ended s' =>
        Reaches
          (Of (fun e q => safeName e.filename ∧ CheatFile cfw wanted e ∧
            q = key fold (cfw.below e.filename)) archive)
          (Of (fun e q => CheatEntry cfw wanted e.filename ∧
            q <+: key fold (cfw.below e.filename)) archive) s s' ∧
        (s'.2 = false → ended = true ∧ Lasting
          (fun e q => CheatFile cfw wanted e ∧ q = key fold (cfw.below e.filename))
          (fun e q => safeName e.filename ∧ CheatFile cfw wanted e ∧
            q = key fold (cfw.below e.filename))
          (fun e v => CheatFile cfw wanted e → v.contents (cfw.below e.filename) = some e.data)
          archive s'.1))
      (fun _ _ => True)
      (walk (fun e =>
        if selected titles extractAll cfw.folders.2.length e.filename then
          extractEntry cfw.folder e.filename e
        else pure ()) archive) s := by
  refine wpx_conseq (walk_spec archive ?_ ?_ s) (fun _ _ => id) fun _ _ _ => trivial
  · intro e _ s₁ hsafe
    have hplace := cfw.place_folder hsafe
    split
    · rename_i hsel
      have hentry := (hselected e.filename).mp hsel
      have hfiles : ∀ q, fileAt fold cfw.folder e.filename q → safeName e.filename ∧
          CheatFile cfw wanted e ∧ q = key fold (cfw.below e.filename) := by
        rintro q ⟨hfile, rfl⟩
        exact ⟨hsafe, ⟨hentry, hfile⟩, by rw [hplace]⟩
      have hdirs : ∀ q, leadsTo fold cfw.folder e.filename q →
          CheatEntry cfw wanted e.filename ∧ q <+: key fold (cfw.below e.filename) := by
        intro q hq
        refine ⟨hentry, ?_⟩
        rw [← hplace]
        exact hq
      refine wpx_conseq (extractEntry_spec cfw.folder e.filename e s₁) ?_
        fun _ s' h => h.mono hfiles hdirs
      rintro - s₂ ⟨h₂, hholds⟩
      refine ⟨h₂.mono hfiles hdirs, fun hrun hcheat => ?_⟩
      have hcontents := hholds hrun hcheat.2
      rwa [hplace] at hcontents
    -- an entry that is not selected is no cheat file
    · rename_i hsel
      rw [wpx_pure]
      refine ⟨.refl _ _ s₁, fun _ hcheat => ?_⟩
      exact absurd ((hselected e.filename).mpr hcheat.1) hsel
  · intro e _ v v' files' dirs' htouched hother hdone hcheat
    exact htouched.contents (hother _ ⟨hcheat, rfl⟩) (hdone hcheat)

/-- The folders are created, the entries are extracted, and the version may be written down. -/
theorem cheatsExtracted_of {cfw : CFW} {wanted : Bytes → Prop} {version : Bytes}
    {archive : List ZipEntry} {v v₁ v₂ v₃ : Volume fold}
    (hconfig : ¬key fold cfw.folder <+: key fold (place [] CHEATS_VERSION))
    (h₁ : Touched v v₁ nothing (· <+: key fold cfw.contents))
    (h₂ : Touched v₁ v₂
      (Of (fun e q => safeName e.filename ∧ CheatFile cfw wanted e ∧
        q = key fold (cfw.below e.filename)) archive)
      (Of (fun e q => CheatEntry cfw wanted e.filename ∧
        q <+: key fold (cfw.below e.filename)) archive))
    (hlast : Lasting
      (fun e q => CheatFile cfw wanted e ∧ q = key fold (cfw.below e.filename))
      (fun e q => safeName e.filename ∧ CheatFile cfw wanted e ∧
        q = key fold (cfw.below e.filename))
      (fun e v => CheatFile cfw wanted e → v.contents (cfw.below e.filename) = some e.data)
      archive v₂)
    (h₃ : Touched v₂ v₃ (fun q => version ≠ ascii "offline" ∧ version ≠ [] ∧
      q = key fold (place [] CHEATS_VERSION)) nothing) :
    CheatsExtracted cfw wanted version archive v v₃ where
  touched q hq := by
    have hall : Touched v v₃
        (fun q => Of (fun e q => safeName e.filename ∧ CheatFile cfw wanted e ∧
            q = key fold (cfw.below e.filename)) archive q ∨
          (version ≠ ascii "offline" ∧ version ≠ [] ∧ q = key fold (place [] CHEATS_VERSION)))
        (fun q => q <+: key fold cfw.contents ∨
          Of (fun e q => CheatEntry cfw wanted e.filename ∧
            q <+: key fold (cfw.below e.filename)) archive q) :=
      ((h₁.mono (fun _ h => h.elim) fun _ => Or.inl).trans (h₂.mono (fun _ => Or.inl) fun _ =>
        Or.inr)).trans (h₃.mono (fun _ => Or.inr) fun _ h => h.elim)
    rcases hall q with heq | (⟨e, he, hsafe, hcheat, rfl⟩ | hversion) | ⟨hdir, hnone, hnew⟩
    · exact absurd heq hq
    · exact Or.inl ⟨e, he, hcheat, hsafe.2.2.2.2.2.2, rfl⟩
    · exact Or.inr (Or.inl hversion)
    · exact Or.inr (Or.inr ⟨hnone, hnew, hdir⟩)
  written before e after hsplit hcheat hlater := by
    have hcontents : v₂.contents (cfw.below e.filename) = some e.data := by
      refine hlast before e after hsplit ?_ hcheat
      rintro later hmem q ⟨-, rfl⟩ ⟨-, hlater', heq⟩
      exact hlater later hmem hlater' heq.symm
    refine h₃.contents ?_ hcontents
    rintro ⟨-, -, heq⟩
    apply hconfig
    rw [← heq]
    unfold CFW.below
    rw [Volume.key_append]
    exact List.prefix_append _ _

theorem extractCheats_spec (cwd : FsPath) (archive : List ZipEntry) (cfw : CFW)
    {titles : List Bytes} {extractAll : Bool} {wanted : Bytes → Prop} (version : Bytes)
    (hselected : ∀ filename, selected titles extractAll cfw.folders.2.length filename ↔
      CheatEntry cfw wanted filename)
    (hchdir : ∀ v, ¬may v (.status cfw.folder))
    (hconfig : ¬key fold cfw.folder <+: key fold (place [] CHEATS_VERSION))
    (s : Volume fold × Bool) :
    wpx (interruptible may)
      (fun complete s' => complete = true → CheatsExtracted cfw wanted version archive s.1 s'.1)
      (fun _ _ => True) (extractCheats cwd archive titles cfw version extractAll) s := by
  unfold extractCheats
  rw [wpx_bind]
  refine wpx_conseq (ensureAvailableStorage_spec archive s) ?_ fun _ _ _ => trivial
  rintro size s₁ ⟨h₁, -, -⟩
  cases size with
  | none =>
    rw [wpx_pure]
    rintro ⟨⟩
  | some size =>
    dsimp only
    rw [wpx_bind]
    refine wpx_conseq (openArchive_spec s₁) ?_ fun _ _ _ => trivial
    rintro - s₂ ⟨h₂, -⟩
    rw [wpx_bind]
    refine wpx_conseq (computeOffset_spec cwd cfw hchdir s₂) ?_ fun _ _ => id
    rintro r s₃ ⟨h₃, rfl⟩
    dsimp only
    rw [wpx_bind]
    refine wpx_conseq (walk_cheats cfw hselected archive s₃) ?_ fun _ _ => id
    rintro ended s₄ ⟨h₄, hlast⟩
    rw [wpx_bind]
    apply wpx_getInterupt
    intro s₅ h₅ hv₅
    rw [wpx_bind]
    apply wpx_getInterupt
    intro s₆ h₆ hv₆
    -- what is left to do touches the version file only
    have hpost : s₅.2 = false → ∀ s' : Volume fold × Bool,
        Touched s₆.1 s'.1 (fun q => version ≠ ascii "offline" ∧ version ≠ [] ∧
          q = key fold (place [] CHEATS_VERSION)) nothing →
        CheatsExtracted cfw wanted version archive s.1 s'.1 := by
      intro hrun s' h
      have hfolders : Touched s.1 s₃.1 nothing (· <+: key fold cfw.contents) :=
        ((h₁.trans h₂).touched.mono (fun _ => id) fun _ h => h.elim).trans h₃.touched
      rw [hv₆, hv₅] at h
      exact cheatsExtracted_of hconfig hfolders h₄.touched (hlast (h₅.running hrun)).2 h
    cases hi₅ : s₅.2 with
    | true =>
      rw [if_pos (h₆.interrupted hi₅), wpx_pure]
      rintro ⟨⟩
    | false =>
      split
      · rw [wpx_pure]
        exact fun _ => hpost hi₅ s₆ (.refl _ _ _)
      · split
        · rename_i hversion
          rw [wpx_bind]
          refine wpx_conseq (saveToFile_spec version CHEATS_VERSION s₆) ?_ fun _ _ => id
          intro _ s₇ h₇
          rw [wpx_pure]
          intro _
          refine hpost hi₅ s₇ (h₇.touched.mono (fun q hq => ?_) fun _ => id)
          exact ⟨hversion.1, hversion.2, hq⟩
        · rw [wpx_pure]
          exact fun _ => hpost hi₅ s₆ (.refl _ _ _)

end cheats

/-- When the extraction comes to its end, just the entries below the folder of the firmware whose
names and ids are as wanted are extracted. -/
theorem extractCheats_extracts {may : Volume fold → Explorer.Fn → Prop} (cwd : FsPath)
    (archive : List ZipEntry) (installed : Installed) (exclude : Option Bytes) (cfw : CFW)
    (version : Bytes) (extractAll : Bool) (v v' : Volume fold) (interrupted : Bool)
    (hLF : extractAll = false → ∀ l ∈ linesOf exclude, l.getLast? ≠ some CR)
    (hchdir : ∀ v, ¬may v (.status cfw.folder))
    (hconfig : ¬key fold cfw.folder <+: key fold (place [] CHEATS_VERSION))
    (h : Ends (interruptible may)
      (extractCheats cwd archive (excludeTitles exclude installed.titles) cfw version extractAll)
      (v, false) (.ok true) (v', interrupted)) :
    CheatsExtracted cfw (Wanted installed exclude extractAll) version archive v v' ∧
      ∀ id rest, id.length = 16 → Wanted installed exclude extractAll id →
        CheatEntry cfw (Wanted installed exclude extractAll)
          (cfw.folders.2 ++ id ++ ascii "/cheats/" ++ rest) := by
  have hselected : ∀ filename,
      selected (excludeTitles exclude installed.titles) extractAll cfw.folders.2.length filename ↔
        CheatEntry cfw (Wanted installed exclude extractAll) filename :=
    selected_iff_wanted hLF cfw
  have hspec := extractCheats_spec cwd archive cfw version hselected hchdir hconfig (v, false)
  exact ⟨wpx_sound hspec h rfl, fun _ _ hid hwanted => cheatEntry_of_layout hid hwanted⟩

/-- One title is installed. -/
def oneTitle : Installed where
  records := [{ application_id := 0x0100000000010000, listed := true, controlData := true
                languageEntry := true }]
  nodup := by decide

/-- A card with the folder of the application's settings. -/
def withConfig : Volume id := (Volume.empty.mkdirs (prefixes (place [] CHEATS_VERSION).dropLast)).2

/-- The extraction of the cheats from an archive of one file. -/
def cheatsRun (filename : Bytes) (titles : List Bytes) : Except String Bool × Volume id × Bool :=
  exec undisturbed (extractCheats [] (oneEntry filename) titles .ams (ascii "1") false)
    (withConfig, false)

/-- Its title. -/
def titleId : Bytes := ascii "0100000000010000"

theorem oneTitle_titles : oneTitle.titles = [titleId] := by
  unfold Installed.titles
  have hmap : (oneTitle.records.map fun a => formatApplicationId a.application_id) = [titleId] := by
    decide
  rw [hmap]
  exact List.mergeSort_singleton _

theorem excludeTitles_oneTitle {exclude : Option Bytes}
    (h : titleId ∉ (linesOf exclude).map (List.map toupper)) :
    excludeTitles exclude oneTitle.titles = [titleId] := by
  rw [oneTitle_titles]
  unfold excludeTitles
  dsimp only
  have hfilter : ((getlines LF (exclude.getD [])).map (List.map toupper)).filter (· ∈ [titleId])
      = [] := by
    rw [List.filter_eq_nil_iff]
    intro l hl hmem
    obtain rfl := List.mem_singleton.mp (of_decide_eq_true hmem)
    exact h hl
  have hsort : sort [] = [] := List.mergeSort_nil
  rw [hfilter, hsort]
  rfl

set_option maxRecDepth 8000 in
theorem extractCheats_extracts_one : ∃ v' interrupted,
    Ends (interruptible onlyInterrupts)
      (extractCheats [] (oneEntry (ascii "contents/0100000000010000/cheats/a"))
        (excludeTitles none oneTitle.titles) .ams (ascii "1") false)
      (withConfig, false) (.ok true) (v', interrupted) ∧
    CheatsExtracted .ams (Wanted oneTitle none false) (ascii "1")
      (oneEntry (ascii "contents/0100000000010000/cheats/a")) withConfig v' ∧
    ∀ id rest, id.length = 16 → Wanted oneTitle none false id →
      CheatEntry .ams (Wanted oneTitle none false)
        (CFW.ams.folders.2 ++ id ++ ascii "/cheats/" ++ rest) := by
  have hrun := exec_ends interruptible_undisturbed
    (extractCheats [] (oneEntry (ascii "contents/0100000000010000/cheats/a")) [titleId] .ams
      (ascii "1") false) (withConfig, false)
  have hend : (cheatsRun (ascii "contents/0100000000010000/cheats/a") [titleId]).1 = .ok true := by
    rfl
  have htitles : excludeTitles none oneTitle.titles = [titleId] :=
    excludeTitles_oneTitle (by decide)
  unfold cheatsRun at hend
  rw [hend, ← htitles] at hrun
  exact ⟨_, _, hrun, extractCheats_extracts [] _ oneTitle none .ams (ascii "1") false withConfig _ _
    (fun _ l hl => absurd hl (List.not_mem_nil)) (by rintro v ⟨⟩) (by decide) hrun⟩

/-- Files are written only below the folder of the titles, for a title that is wanted. -/
def OnlyCheats (cfw : CFW) (wanted : Bytes → Prop) (v v' : Volume fold) : Prop :=
  ∀ p, v'.contents p ≠ v.contents p → ∃ id rest, id.length = 16 ∧ wanted id ∧
    key fold p = key fold (cfw.contents ++ name id :: "cheats" :: rest)

/-- A file that names the title, with a carriage return. -/
def namedWithCR : Option Bytes := some (titleId ++ [CR, LF])

/-- What an entry of another folder leaves, and the version. -/
def strayPath : FsPath := ["atmosphere", "settings", "0100000000010000", "cheats", "a"]

set_option maxRecDepth 8000 in
/-- An entry of another folder is extracted for a title that is excluded, and the version is
written down. -/
theorem written_outside_contents : ∃ v' interrupted,
    Ends (interruptible onlyInterrupts)
      (extractCheats [] (oneEntry (ascii "settings/0100000000010000/cheats/a"))
        (excludeTitles namedWithCR oneTitle.titles) .ams (ascii "1") false)
      (withConfig, false) (.ok true) (v', interrupted) ∧
    Excluded namedWithCR titleId ∧ v'.contents strayPath = some [1] ∧
    v'.contents (place [] CHEATS_VERSION) = some (ascii "1\n") ∧
    ¬OnlyCheats .ams (Wanted oneTitle namedWithCR false) withConfig v' := by
  have hrun := exec_ends interruptible_undisturbed
    (extractCheats [] (oneEntry (ascii "settings/0100000000010000/cheats/a")) [titleId] .ams
      (ascii "1") false) (withConfig, false)
  have hend : (cheatsRun (ascii "settings/0100000000010000/cheats/a") [titleId]).1 = .ok true := by
    rfl
  have htitles : excludeTitles namedWithCR oneTitle.titles = [titleId] :=
    excludeTitles_oneTitle (by decide)
  have hstray : (cheatsRun (ascii "settings/0100000000010000/cheats/a") [titleId]).2.1.contents
      strayPath = some [1] := by rfl
  have hversion : (cheatsRun (ascii "settings/0100000000010000/cheats/a") [titleId]).2.1.contents
      (place [] CHEATS_VERSION) = some (ascii "1\n") := by rfl
  unfold cheatsRun at hend hstray hversion
  rw [hend, ← htitles] at hrun
  rw [← htitles] at hstray hversion
  refine ⟨_, _, hrun, ⟨titleId ++ [CR], by decide, by decide⟩, hstray, hversion, ?_⟩
  intro honly
  have hchanged : withConfig.contents strayPath = none := by rfl
  obtain ⟨id, rest, -, -, hkey⟩ := honly strayPath (by rw [hstray, hchanged]; decide)
  have hsecond := congrArg (fun q : FsPath => q[1]?) hkey
  rw [Volume.key_append, List.getElem?_append_left (by decide)] at hsecond
  exact absurd hsecond (by decide)

end Extract
