/-
# What the port uninstaller removes

Each test of the listing and of the removal is described by a predicate on the card.  A listed NRO
is removed, alone or with its folder, and nothing else is; only the names of the updater's own
folder are compared as they are spelled, so that an NRO in a folder that is spelled otherwise is
listed and can be removed.
-/
import AioMod.PortUninstall

namespace PortUninstall

open Explorer Throws

variable {fold : Name → Name} {F : Prop} {v v' w : Volume fold}

attribute [local irreducible] hasNroExtension

/-! ## The tests -/

/-- The program looks only, and finds out whether `c` holds; it may say no where calls fail. -/
def Decides (F : Prop) (v : Volume fold) (p : Op Bool) (c : Prop) : Prop :=
  wpx (card F) (fun r v' => v' = v ∧ (r = true → c) ∧ (r = false → F ∨ ¬ c)) (fun _ _ => False) p v

theorem decides_false {c : Prop} (h : F ∨ ¬ c) : Decides F v (pure false) c := by
  rw [Decides, wpx_pure]
  exact ⟨rfl, fun hf => absurd hf (by simp), fun _ => h⟩

theorem decides_true {c : Prop} (h : c) : Decides F v (pure true) c := by
  rw [Decides, wpx_pure]
  exact ⟨rfl, fun _ => h, fun hf => by cases hf⟩

/-- A test after a test that must come out true. -/
theorem decides_bind {p : Op Bool} {f : Bool → Op Bool} {c d : Prop} (hp : Decides F v p c)
    (hcd : d → c) (htrue : c → Decides F v (f true) d)
    (hfalse : F ∨ ¬ d → Decides F v (f false) d) : Decides F v (p >>= f) d := by
  rw [Decides, wpx_bind]
  refine wpx_conseq hp (fun r v' h => ?_) (fun _ _ h => h.elim)
  obtain ⟨rfl, h1, h0⟩ := h
  cases r with
  | true => exact htrue (h1 rfl)
  | false =>
    apply hfalse
    rcases h0 rfl with hF | hno
    · exact .inl hF
    · exact .inr fun hd => hno (hcd hd)

/-- The kind of what stands at a path is asked for, and has to be `b`. -/
theorem decides_status {p : FsPath} {f : Option Bool → Op Bool} {b : Bool} {d : Prop}
    (hd : d → v.kind p = some b) (hyes : v.kind p = some b → Decides F v (f (some b)) d)
    (hno : ∀ r, r ≠ some b → F ∨ ¬ d → Decides F v (f r) d) :
    Decides F v (fs (.status p) >>= f) d := by
  rw [Decides, wpx_bind, wpx_fs]
  intro r v' h
  obtain ⟨rfl, hr⟩ := card_status h
  by_cases hb : r = some b
  · subst hb
    apply hyes
    rcases hr with hr | ⟨-, hr⟩
    · exact hr.symm
    · cases hr
  · apply hno r hb
    rcases hr with hr | ⟨hF, -⟩
    · exact .inr fun h => hb (hr.trans (hd h))
    · exact .inl hF

/-- The front of the file is a header. -/
def HasHeader (v : Volume fold) (nro : FsPath) : Prop :=
  hasNroHeader ((v.contents nro).map fun b =>
    (b.drop 0).take (Forwarder.sizeof_NroStart + Forwarder.sizeof_NroHeader)) = true

theorem decides_header {p : FsPath} {f : Option Bytes → Op Bool} {d : Prop}
    (hd : d → HasHeader v p)
    (hyes : ∀ r, hasNroHeader r = true → HasHeader v p → Decides F v (f r) d)
    (hno : ∀ r, hasNroHeader r = false → F ∨ ¬ d → Decides F v (f r) d) :
    Decides F v
      (fs (.read p 0 (Forwarder.sizeof_NroStart + Forwarder.sizeof_NroHeader)) >>= f) d := by
  rw [Decides, wpx_bind, wpx_fs]
  intro r v' h
  obtain ⟨rfl, hr⟩ := card_read h
  cases hb : hasNroHeader r with
  | true =>
    apply hyes r hb
    rcases hr with hr | ⟨-, hr⟩
    · rw [hr] at hb
      exact hb
    · rw [hr] at hb
      cases hb
  | false =>
    apply hno r hb
    rcases hr with hr | ⟨hF, -⟩
    · refine .inr fun h => ?_
      have htrue : hasNroHeader r = true := by
        rw [hr]
        exact hd h
      rw [hb] at htrue
      cases htrue
    · exact .inl hF

/-! ### `validNroFile` -/

/-- From a folder, last component first, `SwitchFolder` is reached over what is there. -/
def Reaches (v : Volume fold) : List Name → Prop
  | [] => False
  | name :: parents => (name :: parents).reverse = SwitchFolder ∨
      (v.kind (name :: parents).reverse ≠ none ∧ Reaches v parents)

theorem withinSwitchFolder_spec (l : List Name) :
    Decides F v (withinSwitchFolder l) (Reaches v l) := by
  induction l with
  | nil => exact decides_false (.inr id)
  | cons name parents ih =>
    rw [withinSwitchFolder]
    by_cases hswitch : (name :: parents).reverse = SwitchFolder
    · rw [if_pos hswitch]
      exact decides_true (.inl hswitch)
    · rw [if_neg hswitch, Decides, wpx_bind, wpx_fs]
      intro r v' h
      obtain ⟨rfl, hr⟩ := card_status h
      cases r with
      | none =>
        show Decides F v' (pure false) _
        apply decides_false
        rcases hr with hr | ⟨hF, -⟩
        · refine .inr fun h => ?_
          rcases h with h | ⟨h, -⟩
          · exact hswitch h
          · exact h hr.symm
        · exact .inl hF
      | some b =>
        have hkind : v'.kind (name :: parents).reverse ≠ none := by
          rcases hr with hr | ⟨-, hr⟩
          · rw [← hr]
            simp
          · cases hr
        refine wpx_conseq ih (fun r v'' h => ?_) (fun _ _ h => h)
        obtain ⟨rfl, h1, h0⟩ := h
        refine ⟨rfl, fun ht => .inr ⟨hkind, h1 ht⟩, fun hf => ?_⟩
        rcases h0 hf with hF | hno
        · exact .inl hF
        · refine .inr fun h => ?_
          rcases h with h | ⟨-, h⟩
          · exact hswitch h
          · exact hno h

/-- What `validNroFile` looks for. -/
structure ValidNro (v : Volume fold) (path : FsPath) : Prop where
  extension : hasNroExtension path = true
  other : path ≠ AppNro
  within : Reaches v path.dropLast.reverse
  file : v.kind path = some false
  header : HasHeader v path

theorem validNroFile_spec (path : FsPath) : Decides F v (validNroFile path) (ValidNro v path) := by
  rw [validNroFile]
  by_cases hguard : hasNroExtension path = false ∨ path = AppNro
  · rw [if_pos hguard]
    refine decides_false (.inr fun h => ?_)
    rcases hguard with he | happ
    · rw [h.extension] at he
      cases he
    · exact h.other happ
  · rw [if_neg hguard]
    rw [not_or, Bool.not_eq_false] at hguard
    refine decides_bind (withinSwitchFolder_spec _) ValidNro.within (fun hwithin => ?_)
      (fun hno => ?_)
    · rw [if_neg (by simp)]
      refine decides_status ValidNro.file (fun hfile => ?_) (fun r hr hno => ?_)
      · rw [if_neg (by simp)]
        refine decides_header ValidNro.header (fun r hr hheader => ?_) (fun r hr hno => ?_)
        · rw [hr]
          exact decides_true ⟨hguard.1, hguard.2, hwithin, hfile, hheader⟩
        · rw [hr]
          exact decides_false hno
      · rw [if_pos hr]
        exact decides_false hno
    · rw [if_pos rfl]
      exact decides_false hno

/-! ### `verifiedPortFolder` -/

/-- A file that counts as an NRO. -/
def isNro (v : Volume fold) (p : FsPath) : Bool := v.kind p = some false ∧ hasNroExtension p = true

theorem countNros_spec (nro : FsPath) (l : List FsPath) (n : ℕ) (hl : ∀ p ∈ l, v.kind p ≠ none) :
    wpx (card F) (fun r v' => v' = v ∧
        (∀ m, r = some m → ∃ k, m = n + k ∧ l.filter (isNro v) = List.replicate k nro) ∧
        (r = none → F ∨ ∀ k, l.filter (isNro v) = List.replicate k nro → 1 < n + k))
      (fun _ _ => False) (countNros nro l n) v := by
  induction l generalizing n with
  | nil =>
    rw [countNros, wpx_pure]
    refine ⟨rfl, fun m hm => ⟨0, ?_, rfl⟩, fun hnone => by cases hnone⟩
    cases hm
    rfl
  | cons p ps ih =>
    rw [countNros, wpx_bind, wpx_fs]
    intro r v₁ h
    obtain ⟨rfl, hr⟩ := card_status h
    have hps : ∀ q ∈ ps, v₁.kind q ≠ none := fun q hq => hl q (List.mem_cons_of_mem _ hq)
    cases r with
    | none =>
      show wpx (card F) _ _ (pure none) v₁
      rw [wpx_pure]
      refine ⟨rfl, fun m hm => absurd hm (by simp), fun _ => ?_⟩
      rcases hr with hr | ⟨hF, -⟩
      · exact absurd hr.symm (hl p List.mem_cons_self)
      · exact .inl hF
    | some isDir =>
      have hkind : v₁.kind p = some isDir := by
        rcases hr with hr | ⟨-, hr⟩
        · exact hr.symm
        · cases hr
      show wpx (card F) _ _ (if isDir = false ∧ hasNroExtension p = true then _ else _) v₁
      by_cases hnro : isDir = false ∧ hasNroExtension p = true
      · have hp : isNro v₁ p = true := by simp [isNro, hkind, hnro]
        rw [if_pos hnro, List.filter_cons_of_pos hp]
        by_cases hstop : p ≠ nro ∨ n + 1 > 1
        · -- another NRO, or the second one
          rw [if_pos hstop, wpx_pure]
          refine ⟨rfl, fun m hm => absurd hm (by simp), fun _ => .inr fun k hk => ?_⟩
          cases k with
          | zero => cases hk
          | succ k =>
            rw [List.replicate_succ, List.cons.injEq] at hk
            rcases hstop with hne | hgt
            · exact absurd hk.1 hne
            · omega
        · rw [if_neg hstop]
          rw [not_or, not_not] at hstop
          obtain ⟨rfl, -⟩ := hstop
          refine wpx_conseq (ih (n + 1) hps) (fun r v' h => ?_) (fun _ _ h => h)
          obtain ⟨rfl, hsome, hnone⟩ := h
          refine ⟨rfl, fun m hm => ?_, fun hr => ?_⟩
          · obtain ⟨k, rfl, hk⟩ := hsome m hm
            exact ⟨k + 1, by omega, by rw [hk, List.replicate_succ]⟩
          · rcases hnone hr with hF | hmany
            · exact .inl hF
            · refine .inr fun k hk => ?_
              cases k with
              | zero => cases hk
              | succ k =>
                rw [List.replicate_succ, List.cons.injEq] at hk
                have := hmany k hk.2
                omega
      · have hp : ¬ isNro v₁ p = true := by
          simpa [isNro, hkind] using hnro
        rw [if_neg hnro, List.filter_cons_of_neg hp]
        exact ih n hps

/-- What `verifiedPortFolder` looks for. -/
structure VerifiedFolder (v : Volume fold) (folder nro : FsPath) : Prop where
  within : withinSwitch folder = true
  parent : nro.dropLast = folder
  extension : hasNroExtension nro = true
  dir : v.kind folder = some true
  file : v.kind nro = some false
  header : HasHeader v nro
  alone : (v.descendants folder none).filter (isNro v) = [nro]

/-- What is listed below a directory is there. -/
theorem kind_descendant {p r : FsPath} {skip : Option FsPath} (h : r ∈ v.descendants p skip) :
    v.kind r ≠ none := by
  obtain ⟨⟨q, hp, -, hq, rfl⟩, -⟩ := Volume.mem_descendants.mp h
  rw [Volume.kind, Volume.key_pathBelow hq hp]
  simpa using hq

theorem verifiedPortFolder_spec (port : InstalledPort) :
    Decides F v (verifiedPortFolder port) (VerifiedFolder v port.folder port.nro) := by
  rw [verifiedPortFolder]
  by_cases hguard : withinSwitch port.folder = false ∨ port.nro.dropLast ≠ port.folder ∨
      hasNroExtension port.nro = false
  · rw [if_pos hguard]
    refine decides_false (.inr fun h => ?_)
    rcases hguard with hg | hg | hg
    · rw [h.within] at hg
      cases hg
    · exact hg h.parent
    · rw [h.extension] at hg
      cases hg
  · rw [if_neg hguard]
    simp only [not_or, Bool.not_eq_false, not_not] at hguard
    obtain ⟨hwithin, hparent, hext⟩ := hguard
    refine decides_status VerifiedFolder.dir (fun hdir => ?_) (fun r hr hno => ?_)
    · refine decides_status VerifiedFolder.file (fun hfile => ?_) (fun r hr hno => ?_)
      · rw [if_neg (by simp)]
        refine decides_header VerifiedFolder.header (fun r hr hheader => ?_) (fun r hr hno => ?_)
        · rw [if_neg (by simp [hr]), Decides, wpx_bind, wpx_fs]
          intro r v₁ h
          obtain ⟨rfl, hsub, hall, hfail⟩ := card_recursive_directory_iterator h
          show wpx (card F) _ _ (countNros port.nro r.1 0 >>= _) v₁
          rw [wpx_bind]
          refine wpx_conseq (countNros_spec port.nro r.1 0 fun p hp =>
            kind_descendant (hsub.subset hp)) (fun n v₂ h => ?_) (fun _ _ h => h)
          obtain ⟨rfl, hsome, hnone⟩ := h
          -- a complete listing is the folder in some order, so its NROs can be counted
          have hperm : r.2 = true → (r.1.filter (isNro v₂)).Perm
              ((v₂.descendants port.folder none).filter (isNro v₂)) :=
            fun hc => (hall hc).2.filter _
          rw [wpx_pure]
          refine ⟨rfl, fun ht => ?_, fun hf => ?_⟩
          · obtain ⟨hcomplete, hn⟩ : r.2 = true ∧ n = some 1 := by simpa using ht
            obtain ⟨k, hk, hfilter⟩ := hsome 1 hn
            obtain rfl : k = 1 := by omega
            have hp := hperm hcomplete
            rw [hfilter] at hp
            exact ⟨hwithin, hparent, hext, hdir, hfile, hheader, List.perm_singleton.mp hp.symm⟩
          · by_cases hcomplete : r.2 = true
            · have hn : n ≠ some 1 := by simpa [hcomplete] using hf
              cases n with
              -- a folder that could not be counted has more than the one
              | none =>
                rcases hnone rfl with hF | hmany
                · exact .inl hF
                · refine .inr fun hv => ?_
                  have hp := hperm hcomplete
                  rw [hv.alone] at hp
                  have := hmany 1 (List.perm_singleton.mp hp)
                  omega
              | some m =>
                obtain ⟨k, rfl, hk⟩ := hsome m rfl
                refine .inr fun hv => hn ?_
                have hp := hperm hcomplete
                rw [hv.alone, hk] at hp
                have hlen := hp.length_eq
                rw [List.length_replicate, List.length_singleton] at hlen
                rw [hlen]
            · rcases hfail (by simpa using hcomplete) with hF | hnodir
              · exact .inl hF
              · exact absurd hdir hnodir
        · rw [if_pos hr]
          exact decides_false hno
      · rw [if_pos (.inr hr)]
        exact decides_false hno
    · rw [Decides, wpx_bind, wpx_fs]
      intro r' v₁ h
      obtain ⟨rfl, -⟩ := card_status h
      rw [if_pos (.inl hr)]
      exact decides_false hno

/-! ## Paths of the listing -/

/-- A folder that is accepted stands directly below `SwitchFolder`. -/
theorem key_of_withinSwitch (fold : Name → Name) {folder : FsPath} (h : withinSwitch folder = true) :
    ∃ name, folder = SwitchFolder ++ [name] ∧
      key fold folder = key fold SwitchFolder ++ [fold name] := by
  obtain ⟨hparent, -, hsafe⟩ : folder.dropLast = SwitchFolder ∧ folder ≠ AppFolder ∧
      safeComponent (filename folder) = true := by simpa [withinSwitch] using h
  have hne : folder ≠ [] := by
    rintro rfl
    cases hparent
  have hfolder : folder = SwitchFolder ++ [folder.getLast hne] := by
    rw [← hparent, List.dropLast_append_getLast]
  have hlast : filename folder = folder.getLast hne := by
    rw [filename, List.getLastD_eq_getLast?, List.getLast?_eq_getLast_of_ne_nil hne]
    rfl
  have hname : folder.getLast hne ≠ "" := by
    intro hempty
    rw [hlast, hempty] at hsafe
    cases hsafe
  refine ⟨folder.getLast hne, hfolder, ?_⟩
  rw [← Volume.key_singleton hname, ← Volume.key_append, ← hfolder]

/-- The names in the path of something listed are those of the directory or allowed on the card. -/
theorem legal_pathBelow {p q : FsPath} (hq : v.tree.get q ≠ none) (hp : key fold p <+: q) :
    ∀ name ∈ v.pathBelow p q, name ∈ p ∨ Legal name := by
  obtain ⟨s, rfl⟩ := hp
  induction s using List.reverseRecOn with
  | nil =>
    rw [List.append_nil, Volume.pathBelow_self]
    exact fun name h => .inl h
  | append_singleton s k ih =>
    have hdir := v.tree.parent (key fold p ++ s ++ [k]) (by simp)
      (by rwa [List.append_assoc])
    rw [List.dropLast_concat] at hdir
    rw [← List.append_assoc, Volume.pathBelow_append]
    intro name hname
    rcases List.mem_append.mp hname with hname | hname
    · exact ih (by rw [hdir]; simp) name hname
    · rw [List.mem_singleton.mp hname]
      exact .inr (v.spells (key fold p ++ s) k (by rwa [List.append_assoc])).1

/-- What is listed directly below its directory is a child of it. -/
theorem mem_children_of_dropLast {nro folder : FsPath} (h : nro ∈ v.descendants folder none)
    (hparent : nro.dropLast = folder) : nro ∈ v.children folder := by
  obtain ⟨⟨q, ⟨s, rfl⟩, hne, hq, hnro⟩, -⟩ := Volume.mem_descendants.mp h
  have hs : s ≠ [] := fun hs => hne (by rw [hs, List.append_nil])
  obtain ⟨s', k, rfl⟩ := (List.eq_nil_or_concat' s).resolve_left hs
  rw [← List.append_assoc, Volume.pathBelow_append] at hnro
  rw [hnro, List.dropLast_concat] at hparent
  -- the path of the folder leads to one place only
  have hdir := v.tree.parent (key fold folder ++ s' ++ [k]) (by simp)
    (by rwa [List.append_assoc])
  rw [List.dropLast_concat] at hdir
  have hs' := Volume.key_pathBelow (v := v) (p := folder) (q := key fold folder ++ s')
    (by rw [hdir]; simp) (List.prefix_append _ _)
  rw [hparent] at hs'
  obtain rfl : s' = [] := by simpa using hs'.symm
  rw [List.append_nil] at hnro hparent
  rw [Volume.mem_children]
  refine ⟨k, ?_, ?_⟩
  · simpa using hq
  · rw [hnro, hparent]

/-! ## The removal -/

/-- What is looked at again before a removal. -/
structure Genuine (v : Volume fold) (port : InstalledPort) : Prop where
  valid : ValidNro v port.nro
  parent : port.nro.dropLast = port.folder
  verified : port.wholeFolder = true → VerifiedFolder v port.folder port.nro

/-- What a removal needs, so that nothing but a failing call or the user can stop it. -/
structure Removable (v : Volume fold) (depth : ℕ) (port : InstalledPort) : Prop where
  genuine : Genuine v port
  sd : isSdPath port.nro
  levels : v.Levels [] depth

/-- What is shown for a port. -/
def target (port : InstalledPort) : FsPath := if port.wholeFolder then port.folder else port.nro

/-- What a removal that was not stopped leaves. -/
structure RemovalDone (F : Prop) (v v' : Volume fold) (port : InstalledPort) (done : Bool) :
    Prop where
  genuine : Genuine v port
  kept : ∀ q, ¬ key fold (target port) <+: q → v'.at_ q = v.at_ q
  gone : done = true → ∀ q, key fold (target port) <+: q → v'.at_ q = none
  stopped : done = false → F

/-- What a removal that reports an error leaves. -/
structure RemovalThrown (F : Prop) (depth : ℕ) (v v' : Volume fold) (port : InstalledPort) :
    Prop where
  genuine : v' ≠ v → Genuine v port
  kept : ∀ q, ¬ key fold (target port) <+: q → v'.at_ q = v.at_ q
  stopped : F ∨ ¬ Removable v depth port

theorem RemovalThrown.same {depth : ℕ} {port : InstalledPort} (h : F ∨ ¬ Removable v depth port) :
    RemovalThrown F depth v v port := ⟨fun hne => absurd rfl hne, fun _ _ => rfl, h⟩

/-- A file does not stand at the root, and its path is not empty. -/
private theorem nro_facts {nro : FsPath} (h : v.kind nro = some false) :
    v.tree.get (key fold nro) ≠ none ∧ key fold nro ≠ [] ∧ nro ≠ [] := by
  have hroot : key fold nro ≠ [] := by
    intro hnil
    rw [Volume.kind, hnil, v.tree.root] at h
    cases h
  refine ⟨fun hnone => ?_, hroot, fun hnil => hroot (by rw [hnil]; rfl)⟩
  rw [Volume.kind, hnone] at h
  cases h

/-- The rule of a deletion whose exception is taken up. -/
private theorem wpx_tryDelete {α : Type} {depth : ℕ} {sources : List FsPath}
    {k : Option String → Op α} {Q : α → Volume fold → Prop} {E : String → Volume fold → Prop}
    (hok : ∀ v', v.Removed v' (fun q => ∃ s ∈ sources, key fold s <+: q) →
      wpx (card F) Q E (k none) v')
    (herr : ∀ e v', (∀ q, (∀ s ∈ sources, ¬ key fold s <+: q) → v'.at_ q = v.at_ q) →
      F ∨ ¬ Deletable v depth sources → wpx (card F) Q E (k (some e)) v') :
    wpx (card F) Q E (tryCatch (do
      let _ ← deleteJob depth sources
      pure none) (fun e => pure (some e)) >>= k) v := by
  rw [wpx_bind, wpx_catch, wpx_bind]
  refine wpx_conseq (deleteJob_spec depth sources v) (fun _ v' h => ?_) (fun e v' h => ?_)
  · rw [wpx_pure]
    exact hok v' h
  · rw [wpx_pure]
    exact herr e v' h.1 h.2

/-- What is given to the deletion besides the NRO. -/
structure Others (v : Volume fold) (port : InstalledPort) (others : List FsPath) : Prop where
  whole : port.wholeFolder = true → (others ++ [port.nro]).Perm (v.children port.folder)
  single : port.wholeFolder = false → others = []

/-- Everything that is deleted is shown. -/
theorem Others.shown {port : InstalledPort} {others : List FsPath} (h : Others v port others)
    {s : FsPath} (hs : s ∈ others ++ [port.nro]) : key fold (target port) <+: key fold s := by
  unfold target
  cases hw : port.wholeFolder with
  | false =>
    rw [h.single hw, List.nil_append, List.mem_singleton] at hs
    rw [if_neg (by simp), hs]
  | true =>
    obtain ⟨k, hk, rfl⟩ := Volume.mem_children.mp ((h.whole hw).mem_iff.mp hs)
    rw [if_pos rfl, Volume.key_child hk]
    exact List.prefix_append _ _

/-- What may be removed may be deleted. -/
theorem Removable.deletable {depth : ℕ} {port : InstalledPort} {others : List FsPath}
    (h : Removable v depth port) (ho : Others v port others) :
    Deletable v depth (others ++ [port.nro]) := by
  obtain ⟨hget, hroot, hnil⟩ := nro_facts h.genuine.valid.file
  cases hw : port.wholeFolder with
  | false =>
    rw [ho.single hw, List.nil_append]
    constructor
    · simp
    · simpa using ⟨h.sd, hnil⟩
    · simpa using ⟨hget, hroot⟩
    · intro s _
      exact h.levels.of_root
    · exact List.pairwise_singleton _ _
  | true =>
    have hperm := ho.whole hw
    have hchild : ∀ s ∈ others ++ [port.nro], ∃ k, v.tree.get (key fold port.folder ++ [k]) ≠ none ∧
        s = port.folder ++ [v.spelling (key fold port.folder ++ [k])] :=
      fun s hs => Volume.mem_children.mp (hperm.mem_iff.mp hs)
    constructor
    · simp
    · intro s hs
      obtain ⟨k, hk, rfl⟩ := hchild s hs
      refine ⟨fun name hname => ?_, by simp⟩
      rcases List.mem_append.mp hname with hname | hname
      · rw [← h.genuine.parent] at hname
        exact h.sd name (List.mem_of_mem_dropLast hname)
      · rw [List.mem_singleton.mp hname]
        exact (v.spells _ _ hk).1.2.2
    · intro s hs
      obtain ⟨k, hk, rfl⟩ := hchild s hs
      rw [Volume.key_child hk]
      exact ⟨hk, by simp⟩
    · intro s _
      exact h.levels.of_root
    · have hnodup : ((others ++ [port.nro]).map (key fold)).Nodup :=
        (hperm.map (key fold)).nodup_iff.mpr Volume.nodup_children
      rw [List.nodup_iff_pairwise_ne, List.pairwise_map] at hnodup
      apply hnodup.imp_of_mem
      intro s t hs ht hne hst
      obtain ⟨k, hk, rfl⟩ := hchild s hs
      obtain ⟨l, hl, rfl⟩ := hchild t ht
      rw [Volume.key_child hk, Volume.key_child hl] at hst hne
      exact hne (hst.eq_of_length (by simp))

/-- The second look. -/
private theorem stillVerified_spec (port : InstalledPort) :
    Decides F v (stillVerified port)
      (port.wholeFolder = true → VerifiedFolder v port.folder port.nro) := by
  unfold stillVerified
  cases hw : port.wholeFolder with
  | false =>
    rw [if_neg (by simp)]
    exact decides_true fun hf => absurd hf (by simp)
  | true =>
    rw [if_pos rfl]
    simpa using verifiedPortFolder_spec port

/-- The collection of what else is in the folder. -/
private theorem otherContents_spec {port : InstalledPort} (hg : Genuine v port) :
    wpx (card F) (fun others v' => v' = v ∧ Others v port others) (fun _ v' => v' = v ∧ F)
      (otherContents port) v := by
  unfold otherContents
  cases hw : port.wholeFolder with
  | false =>
    rw [if_neg (by simp), wpx_pure]
    exact ⟨rfl, fun h => absurd (hw ▸ h) (by simp), fun _ => rfl⟩
  | true =>
    have hver := hg.verified hw
    rw [if_pos rfl, wpx_bind, wpx_fs]
    intro r v₁ h
    obtain ⟨rfl, -, hall, hfail⟩ := card_directory_iterator h
    rw [wpx_bind, wpx_require]
    refine ⟨fun hcomplete => ?_, fun hno => ⟨rfl, ?_⟩⟩
    · obtain ⟨-, hperm⟩ := hall hcomplete
      have hmem : port.nro ∈ v₁.children port.folder := by
        apply mem_children_of_dropLast _ hver.parent
        have hin : port.nro ∈ (v₁.descendants port.folder none).filter (isNro v₁) := by
          rw [hver.alone]
          exact List.mem_singleton_self _
        exact (List.mem_filter.mp hin).1
      have hnodup : r.1.Nodup := hperm.nodup_iff.mpr Volume.nodup_children.of_map
      have hfilter : r.1.filter (· ≠ port.nro) = r.1.erase port.nro := by
        rw [hnodup.erase_eq_filter]
        apply List.filter_congr
        intro c _
        rw [bne, beq_eq_decide, decide_not]
      rw [wpx_pure]
      refine ⟨rfl, fun _ => ?_, fun hf => absurd (hw ▸ hf) (by simp)⟩
      refine List.Perm.trans ?_ hperm
      rw [hfilter]
      refine List.perm_append_comm.trans ?_
      exact (List.perm_cons_erase (hperm.mem_iff.mpr hmem)).symm
    · rcases hfail (by simpa using hno) with hF | hnodir
      · exact hF
      · exact absurd hver.dir hnodir

/-- After a deletion that stopped. -/
private theorem afterDeletion_some {depth : ℕ} {port : InstalledPort} (e : String)
    (hg : Genuine v port) (hkept : ∀ q, ¬ key fold (target port) <+: q → v'.at_ q = v.at_ q)
    (hstop : F ∨ ¬ Removable v depth port) :
    wpx (card F) (fun done v'' => RemovalDone F v v'' port done)
      (fun _ v'' => RemovalThrown F depth v v'' port) (afterDeletion port (some e)) v' := by
  rw [afterDeletion, wpx_bind, wpx_fs]
  intro r v'' h
  obtain ⟨rfl, hr⟩ := card_load h
  cases r with
  | true =>
    rw [if_pos rfl, wpx_pure]
    exact ⟨hg, hkept, fun hf => absurd hf (by simp), fun _ => hr rfl⟩
  | false =>
    rw [if_neg (by simp), wpx_throw]
    exact ⟨fun _ => hg, hkept, hstop⟩

/-- After a deletion that came to its end. -/
private theorem afterDeletion_none {depth : ℕ} {port : InstalledPort} {others : List FsPath}
    (hg : Genuine v port) (ho : Others v port others)
    (hr : v.Removed v' fun q => ∃ s ∈ others ++ [port.nro], key fold s <+: q) :
    wpx (card F) (fun done v'' => RemovalDone F v v'' port done)
      (fun _ v'' => RemovalThrown F depth v v'' port) (afterDeletion port none) v' := by
  have hdone : ∀ v'', v.Removed v'' (key fold (target port) <+: ·) →
      RemovalDone F v v'' port true := fun v'' h =>
    ⟨hg, h.kept, fun _ => h.none_of, fun hf => absurd hf (by simp)⟩
  unfold afterDeletion
  cases hw : port.wholeFolder with
  | false =>
    have htarget : target port = port.nro := if_neg (by simp [hw])
    rw [ho.single hw] at hr
    rw [if_neg (by simp), wpx_pure]
    apply hdone
    rw [htarget]
    exact ⟨fun q hq => hr.none_of q ⟨_, by simp, hq⟩, fun q hq => hr.kept q (by simpa using hq)⟩
  | true =>
    have htarget : target port = port.folder := if_pos hw
    have hbelow := removed_below_of_children (ho.whole hw) hr
    have hdir := (hg.verified hw).dir
    rw [if_pos rfl, wpx_bind, wpx_fs]
    intro r v'' h
    rw [wpx_bind, wpx_value]
    rcases remove_last hbelow h with ⟨b, rfl, hremoved, hnone⟩ | ⟨rfl, rfl, hstop⟩
    · refine ⟨fun _ hb => ?_, fun hf => absurd hf (by simp)⟩
      obtain rfl := Option.some.inj hb
      rw [wpx_bind, wpx_require]
      refine ⟨fun _ => ?_, fun hno => ?_⟩
      · rw [wpx_pure]
        apply hdone
        rwa [htarget]
      · -- the folder was there
        have hget := hnone (by simpa using hno)
        rw [Volume.kind, hget] at hdir
        cases hdir
    · refine ⟨fun _ hb => absurd hb (by simp), fun _ => ⟨fun _ => hg, fun q hq => ?_, ?_⟩⟩
      · rw [htarget] at hq
        exact hbelow.kept q fun hx => hq hx.1
      · rcases hstop with hF | hroot
        · exact .inl hF
        · obtain ⟨name, -, hkey⟩ := key_of_withinSwitch fold (hg.verified hw).within
          rw [hkey] at hroot
          exact absurd hroot (by simp)

/-- The removal, whatever it comes to. -/
theorem removePort_spec (depth : ℕ) (port : InstalledPort) :
    wpx (card F) (fun done v' => RemovalDone F v v' port done)
      (fun _ v' => RemovalThrown F depth v v' port) (removePort depth port) v := by
  rw [removePort, wpx_bind]
  refine wpx_conseq (validNroFile_spec port.nro) (fun valid v₁ h => ?_) (fun _ _ h => h.elim)
  obtain ⟨rfl, hvalid, hinvalid⟩ := h
  rw [wpx_bind, wpx_require]
  refine ⟨fun hv => ?_, fun hno => .same ?_⟩
  · obtain ⟨rfl, hparent⟩ := hv
    rw [wpx_bind]
    refine wpx_conseq (stillVerified_spec port) (fun verified v₂ h => ?_) (fun _ _ h => h.elim)
    obtain ⟨rfl, hverified, hunverified⟩ := h
    rw [wpx_bind, wpx_require]
    refine ⟨fun hv => ?_, fun hno => .same ?_⟩
    · have hg : Genuine v₂ port := ⟨hvalid rfl, hparent, hverified hv⟩
      rw [wpx_bind]
      refine wpx_conseq (otherContents_spec hg) (fun others v₃ h => ?_) (fun _ v₃ h => ?_)
      · obtain ⟨rfl, ho⟩ := h
        refine wpx_tryDelete (fun v₄ hr => ?_) (fun e v₄ hkept hstop => ?_)
        · exact afterDeletion_none hg ho hr
        · apply afterDeletion_some e hg
          · intro q hq
            apply hkept q
            intro s hs hsq
            exact hq ((ho.shown hs).trans hsq)
          · rcases hstop with hF | hno
            · exact .inl hF
            · exact .inr fun hr => hno (hr.deletable ho)
      · obtain ⟨rfl, hF⟩ := h
        exact .same (.inl hF)
    · rcases hunverified (by simpa using hno) with hF | hno
      · exact .inl hF
      · exact .inr fun hr => hno hr.genuine.verified
  · by_cases hparent : port.nro.dropLast = port.folder
    · have hfalse : valid = false := by simpa [hparent] using hno
      rcases hinvalid hfalse with hF | hno
      · exact .inl hF
      · exact .inr fun hr => hno hr.genuine.valid
    · exact .inr fun hr => hparent hr.genuine.parent

/-! ## The listing -/

/-- A port that is listed: its NRO is below `SwitchFolder` and not in `AppFolder` as it is
spelled. -/
structure Listed (v : Volume fold) (port : InstalledPort) : Prop where
  below : port.nro ∈ v.descendants SwitchFolder (some AppFolder)
  genuine : Genuine v port

/-- The listing shows what is there, and all of it unless a call fails. -/
theorem findInstalledPorts_spec :
    wpx (card F) (fun ports v' => v' = v ∧ (∀ port ∈ ports, Listed v port) ∧
        (∀ p ∈ v.descendants SwitchFolder (some AppFolder), ValidNro v p →
          F ∨ ∃ port ∈ ports, port.nro = p))
      (fun _ _ => F ∨ v.kind SwitchFolder ≠ some true) findInstalledPorts v := by
  rw [findInstalledPorts, wpx_bind, wpx_fs]
  intro r v₁ h
  obtain ⟨rfl, hsub, hall, hfail⟩ := card_recursive_directory_iterator h
  show wpx (card F) _ _ (collect _ r.1 >>= _) v₁
  rw [wpx_bind]
  refine wpx_collect (fun s => s = v₁) (fun path a =>
    (∀ port, a = some port → Listed v₁ port ∧ port.nro = path) ∧
      (a = none → F ∨ ¬ ValidNro v₁ path)) r.1 ?_ ?_ rfl
  · rintro path hpath s rfl
    have hin := hsub.subset hpath
    rw [wpx_bind, wpx_fs]
    intro r₂ v₂ h₂
    obtain ⟨rfl, hr₂⟩ := card_status h₂
    rw [wpx_bind, wpx_value]
    refine ⟨fun isDir hdir => ?_, fun hnone => ?_⟩
    · have hkind : v₂.kind path = some isDir := by
        rcases hr₂ with hr₂ | ⟨-, hr₂⟩
        · rw [← hr₂, hdir]
        · rw [hr₂] at hdir
          cases hdir
      cases isDir with
      | true =>
        rw [if_pos rfl, wpx_pure]
        refine ⟨rfl, fun port hport => absurd hport (by simp), fun _ => .inr fun hv => ?_⟩
        have hfile := hv.file
        rw [hkind] at hfile
        cases hfile
      | false =>
        rw [if_neg (by simp), wpx_bind]
        refine wpx_conseq (validNroFile_spec path) (fun valid v₃ h => ?_) (fun _ _ h => h.elim)
        obtain ⟨rfl, hvalid, hinvalid⟩ := h
        cases valid with
        | false =>
          rw [if_pos rfl, wpx_pure]
          exact ⟨rfl, fun port hport => absurd hport (by simp), fun _ => hinvalid rfl⟩
        | true =>
          rw [if_neg (by simp), wpx_bind]
          refine wpx_conseq (verifiedPortFolder_spec _) (fun whole v₄ h => ?_)
            (fun _ _ h => h.elim)
          obtain ⟨rfl, hwhole, -⟩ := h
          rw [wpx_pure]
          refine ⟨rfl, fun port hport => ?_, fun hnone => absurd hnone (by simp)⟩
          obtain rfl := Option.some.inj hport
          exact ⟨⟨hin, hvalid rfl, rfl, hwhole⟩, rfl⟩
    · rcases hr₂ with hr₂ | ⟨hF, -⟩
      · exact absurd (hr₂.symm.trans hnone) (kind_descendant hin)
      · exact .inl hF
  -- an incomplete listing has no result; a complete one has every file
  · rintro ports s rfl hin hout
    rw [wpx_bind, wpx_require]
    refine ⟨fun hcomplete => ?_, fun hno => hfail (by simpa using hno)⟩
    obtain ⟨-, hperm⟩ := hall hcomplete
    rw [wpx_pure]
    refine ⟨rfl, fun port hport => ?_, fun p hp hv => ?_⟩
    · obtain ⟨path, -, hR⟩ := hin port hport
      exact (hR.1 port rfl).1
    · obtain ⟨a, hR, hx⟩ := hout p (hperm.mem_iff.mpr hp)
      cases a with
      | none =>
        rcases hR.2 rfl with hF | hno
        · exact .inl hF
        · exact absurd hv hno
      | some port => exact .inr ⟨port, hx port rfl, (hR.1 port rfl).2⟩

/-! ## Only what was shown -/

/-- A file stands at a place and is spelled like an NRO. -/
def NroAt (v : Volume fold) (q : FsPath) : Prop :=
  (v.tree.get q).map Entry.isDir = some false ∧ hasNroExtension [v.spelling q] = true

/-- A folder directly below `SwitchFolder` that holds the NRO, and no other NRO anywhere. -/
def SingleNroFolder (v : Volume fold) (folder nro : FsPath) : Prop :=
  (∃ k, key fold folder = key fold SwitchFolder ++ [k]) ∧ v.kind folder = some true ∧
    ∀ q, key fold folder <+: q → (NroAt v q ↔ q = key fold nro)

/-- What a removal may come to: only what was shown has changed, and that is an NRO or the folder
of a single one; nothing of the updater's own folder or above it has changed. -/
structure OnlyShown (v v' : Volume fold) (port : InstalledPort) : Prop where
  kept : ∀ q, ¬ key fold (target port) <+: q → v'.at_ q = v.at_ q
  shown : v' ≠ v → if port.wholeFolder then SingleNroFolder v port.folder port.nro
    else v.kind port.nro = some false ∧ hasNroExtension port.nro = true
  updater : ∀ q, key fold AppFolder <+: q ∨ q <+: key fold AppFolder → v'.at_ q = v.at_ q

/-- The removal of a port deletes what was shown where it says so, and nothing else however it
ends. -/
def RemovesShown (v : Volume fold) (depth : ℕ) (port : InstalledPort) : Prop :=
  wpx (card True)
    (fun done v' => OnlyShown v v' port ∧
      (done = true → ∀ q, key fold (target port) <+: q → v'.at_ q = none))
    (fun _ v' => OnlyShown v v' port) (removePort depth port) v

theorem hasNroExtension_append (p : FsPath) (name : Name) :
    hasNroExtension (p ++ [name]) = hasNroExtension [name] := by
  simp [hasNroExtension, filename]

/-- A folder that is verified holds a single NRO. -/
theorem VerifiedFolder.single {folder nro : FsPath} (h : VerifiedFolder v folder nro) :
    SingleNroFolder v folder nro := by
  have hin : nro ∈ (v.descendants folder none).filter (isNro v) := by
    rw [h.alone]
    exact List.mem_singleton_self _
  have hchild := mem_children_of_dropLast (List.mem_filter.mp hin).1 h.parent
  obtain ⟨name, -, hkey⟩ := key_of_withinSwitch fold h.within
  refine ⟨⟨_, hkey⟩, h.dir, fun q hq => ⟨fun hnro => ?_, ?_⟩⟩
  · -- what counts as an NRO was found
    have hne : q ≠ key fold folder := by
      rintro rfl
      have hfile := hnro.1
      have hdir := h.dir
      rw [Volume.kind, hfile] at hdir
      cases hdir
    have hget : v.tree.get q ≠ none := by
      intro hnone
      have hfile := hnro.1
      rw [hnone] at hfile
      cases hfile
    have hmem : v.pathBelow folder q ∈ (v.descendants folder none).filter (isNro v) := by
      rw [List.mem_filter]
      refine ⟨Volume.mem_descendants.mpr ⟨⟨q, hq, hne, hget, rfl⟩, by simp⟩, ?_⟩
      have hext : hasNroExtension (v.pathBelow folder q) = true := by
        obtain ⟨s, rfl⟩ := hq
        obtain ⟨s, k, rfl⟩ := (List.eq_nil_or_concat' s).resolve_left
          fun hs => hne (by rw [hs, List.append_nil])
        rw [← List.append_assoc, Volume.pathBelow_append, hasNroExtension_append]
        simpa using hnro.2
      have hkind : v.kind (v.pathBelow folder q) = some false := by
        rw [Volume.kind, Volume.key_pathBelow hget hq]
        exact hnro.1
      simp [isNro, hkind, hext]
    rw [h.alone, List.mem_singleton] at hmem
    rw [← hmem, Volume.key_pathBelow hget hq]
  · rintro rfl
    obtain ⟨k, hk, rfl⟩ := Volume.mem_children.mp hchild
    refine ⟨h.file, ?_⟩
    have hext := h.extension
    rw [hasNroExtension_append] at hext
    rwa [Volume.key_child hk]

/-- The place of a listed NRO. -/
theorem Listed.key_nro {port : InstalledPort} (h : Listed v port) :
    ∃ s, s ≠ [] ∧ key fold port.nro = key fold SwitchFolder ++ s := by
  obtain ⟨⟨q, ⟨s, rfl⟩, hne, hq, hnro⟩, -⟩ := Volume.mem_descendants.mp h.below
  refine ⟨s, fun hs => hne (by rw [hs, List.append_nil]), ?_⟩
  rw [hnro, Volume.key_pathBelow hq (List.prefix_append _ _)]

/-- A listed NRO has an allowed path. -/
theorem Listed.sd {port : InstalledPort} (h : Listed v port) : isSdPath port.nro := by
  obtain ⟨⟨q, hp, -, hq, hnro⟩, -⟩ := Volume.mem_descendants.mp h.below
  rw [hnro]
  intro name hname
  rcases legal_pathBelow hq hp name hname with hswitch | hlegal
  · rw [List.mem_singleton.mp hswitch]
    decide
  · exact hlegal.2.2

private theorem key_AppFolder :
    key fold AppFolder = key fold SwitchFolder ++ [fold "aio-switch-updater-mod"] := rfl

/-- What a port shows lies below a place directly below `SwitchFolder`, the NRO as well. -/
theorem Listed.target_below {port : InstalledPort} (h : Listed v port) (hg : Genuine w port) :
    ∃ k, key fold SwitchFolder ++ [k] <+: key fold (target port) ∧
      key fold SwitchFolder ++ [k] <+: key fold port.nro := by
  obtain ⟨s, hs, hkey⟩ := h.key_nro
  unfold target
  cases hw : port.wholeFolder with
  | false =>
    rw [if_neg (by simp)]
    cases s with
    | nil => exact absurd rfl hs
    | cons k s =>
      have hpre : key fold SwitchFolder ++ [k] <+: key fold port.nro :=
        ⟨s, by rw [hkey, List.append_assoc]; rfl⟩
      exact ⟨k, hpre, hpre⟩
  | true =>
    rw [if_pos rfl]
    obtain ⟨name, -, hfolder⟩ := key_of_withinSwitch fold (hg.verified hw).within
    refine ⟨fold name, by rw [hfolder], ?_⟩
    rw [← hfolder, ← hg.parent]
    exact Volume.key_prefix (List.dropLast_prefix _)

/-- Nothing that is shown is a part of the updater's folder, or holds it, unless the NRO is in that
folder. -/
theorem Listed.apart {port : InstalledPort} (h : Listed v port) (hg : Genuine w port)
    (happ : ¬ key fold AppFolder <+: key fold port.nro) {q : FsPath}
    (hq : key fold (target port) <+: q) :
    ¬ (key fold AppFolder <+: q ∨ q <+: key fold AppFolder) := by
  obtain ⟨k, htarget, hnro⟩ := h.target_below hg
  intro hbad
  -- both lie directly below the same folder
  have hsame : key fold SwitchFolder ++ [k] = key fold AppFolder := by
    have hk := htarget.trans hq
    have hlen : (key fold SwitchFolder ++ [k]).length = (key fold AppFolder).length := by
      rw [key_AppFolder, List.length_append, List.length_append]
      rfl
    rcases hbad with hbad | hbad
    · rcases List.prefix_or_prefix_of_prefix hk hbad with hp | hp
      · exact hp.eq_of_length hlen
      · exact (hp.eq_of_length hlen.symm).symm
    · exact (hk.trans hbad).eq_of_length hlen
  rw [hsame] at hnro
  exact happ hnro

/-- An NRO outside the updater's folder is removed as it was shown, from any state of the card. -/
theorem Listed.removesShown {port : InstalledPort} (h : Listed v port)
    (happ : ¬ key fold AppFolder <+: key fold port.nro) (depth : ℕ) :
    RemovesShown w depth port := by
  have honly : ∀ w' : Volume fold, (w' ≠ w → Genuine w port) →
      (∀ q, ¬ key fold (target port) <+: q → w'.at_ q = w.at_ q) → OnlyShown w w' port := by
    intro w' hg hkept
    refine ⟨hkept, fun hne => ?_, fun q hq => ?_⟩
    · have hg := hg hne
      cases hw : port.wholeFolder with
      | false =>
        rw [if_neg (by simp)]
        exact ⟨hg.valid.file, hg.valid.extension⟩
      | true =>
        rw [if_pos rfl]
        exact (hg.verified hw).single
    · by_cases hsame : w' = w
      · rw [hsame]
      · exact hkept q fun hshown => h.apart (hg hsame) happ hshown hq
  refine wpx_conseq (removePort_spec depth port) (fun done w' hd => ?_) (fun _ w' ht => ?_)
  · exact ⟨honly w' (fun _ => hd.genuine) hd.kept, hd.gone⟩
  · exact honly w' ht.genuine ht.kept

/-- An NRO in a folder that is spelled like the updater's own up to case can be removed. -/
theorem Listed.not_removesShown {port : InstalledPort} (h : Listed v port)
    (happ : key fold AppFolder <+: key fold port.nro) : ∃ depth, ¬ RemovesShown v depth port := by
  obtain ⟨depth, hlevels⟩ := v.exists_levels
  refine ⟨depth, fun hshown => ?_⟩
  have hrem : Removable v depth port := ⟨h.genuine, h.sd, hlevels⟩
  obtain ⟨hget, -⟩ := nro_facts h.genuine.valid.file
  -- without a failure the removal comes to its end
  have hend := exec_ends (card_answer False) (removePort depth port) v
  have hspec := wpx_sound (removePort_spec (F := False) depth port) hend
  have hclaim := wpx_sound (wpx_mono hshown (fun _ _ _ _ => card_of_false) (fun _ _ h => h)
    fun _ _ h => h) hend
  rcases hresult : (exec answer (removePort depth port) v).1 with e | done
  · rw [hresult] at hspec
    have hstop : False ∨ ¬ Removable v depth port := hspec.stopped
    rcases hstop with hF | hno
    · exact hF
    · exact hno hrem
  · rw [hresult] at hspec hclaim
    have hdone : done = true := by
      by_contra hfalse
      exact hspec.stopped (by simpa using hfalse)
    have hnro : key fold (target port) <+: key fold port.nro := by
      unfold target
      cases hw : port.wholeFolder with
      | false => simp
      | true =>
        rw [if_pos rfl, ← h.genuine.parent]
        exact Volume.key_prefix (List.dropLast_prefix _)
    have hgone := hspec.gone hdone _ hnro
    rw [hclaim.1.updater _ (.inl happ), Volume.at_eq_none] at hgone
    exact hget hgone

/-- **What the uninstaller lists it removes as shown exactly if the NRO is not in the updater's
folder.**  Only a folder that is spelled otherwise than `AppFolder` can be listed. -/
theorem listed_port_removed_iff {ports : List InstalledPort} {port : InstalledPort}
    (h : Ends (card True) findInstalledPorts v (.ok ports) v') (hport : port ∈ ports) :
    (∀ (w : Volume fold) depth, RemovesShown w depth port) ↔
      ¬ key fold AppFolder <+: key fold port.nro := by
  have hlisted : Listed v port := (wpx_sound findInstalledPorts_spec h).2.1 port hport
  constructor
  · intro hall happ
    obtain ⟨depth, hno⟩ := hlisted.not_removesShown happ
    exact hno (hall v depth)
  · intro happ w depth
    exact hlisted.removesShown happ depth

/-- The port of an NRO in a folder of its own. -/
def portOf (folder nro : Name) : InstalledPort where
  folder := ["switch", folder]
  nro := ["switch", folder, nro]
  wholeFolder := true

/-- A card with nothing but the NRO of a port. -/
def cardOf (port : InstalledPort) : Volume lower :=
  (((Volume.empty.mkdirs (prefixes port.folder)).2).setFile port.nro Forwarder.bareNro).getD .empty

theorem listed_port_removed_game :
    (∀ (w : Volume lower) depth, RemovesShown w depth (portOf "game" "game.nro")) ↔
      ¬ key lower AppFolder <+: key lower (portOf "game" "game.nro").nro := by
  have hend := exec_ends (card_answer True) findInstalledPorts (cardOf (portOf "game" "game.nro"))
  have hports : (exec answer findInstalledPorts (cardOf (portOf "game" "game.nro"))).1
      = .ok [portOf "game" "game.nro"] := by
    decide +kernel
  rw [hports] at hend
  exact listed_port_removed_iff hend (List.mem_singleton_self _)

/-- The updater in its folder, as the folder may be spelled on a card. -/
def respelled : InstalledPort := portOf "AIO-Switch-Updater-Mod" "aio-switch-updater-mod.nro"

/-- The updater is listed as a port, and its removal deletes its folder. -/
theorem respelled_updater_removed :
    (exec answer findInstalledPorts (cardOf respelled)).1 = .ok [respelled] ∧
      (exec answer (removePort 5 respelled) (cardOf respelled)).1 = .ok true ∧
      (exec answer (removePort 5 respelled) (cardOf respelled)).2.tree.get (key lower AppFolder)
        = none ∧
      ¬ RemovesShown (cardOf respelled) 5 respelled := by
  have hgone : (exec answer (removePort 5 respelled) (cardOf respelled)).2.tree.get
      (key lower AppFolder) = none := by
    decide +kernel
  have hdone : (exec answer (removePort 5 respelled) (cardOf respelled)).1 = .ok true := by
    decide +kernel
  refine ⟨by decide +kernel, hdone, hgone, fun hshown => ?_⟩
  have hend := wpx_sound hshown
    (exec_ends (card_answer True) (removePort 5 respelled) (cardOf respelled))
  rw [hdone] at hend
  have hsame := hend.1.updater _ (.inl (List.prefix_refl _))
  rw [Volume.at_eq_none.mpr hgone, eq_comm, Volume.at_eq_none] at hsame
  have hthere : (cardOf respelled).tree.get (key lower AppFolder) ≠ none := by
    decide +kernel
  exact hthere hsame

end PortUninstall
