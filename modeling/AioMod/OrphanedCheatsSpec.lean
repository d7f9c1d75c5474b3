/-
# What the removal of orphaned cheats leaves

An entry of the contents folder loses its cheats folder, and itself if nothing else is in it, exactly
if its name is not on the list; an installed title that is not listed is an orphan like the others.
-/
import AioMod.ExcludePageSpec
import AioMod.OrphanedCheats

namespace OrphanedCheats

open Explorer (Volume key lower filename)
open ExcludePage (formatApplicationId)
open Throws

/-! ## What a call can do -/

section effects

variable {F : Prop} {v v' : Volume lower} {p : FsPath}

theorem card_exists {r : Option Bool} (h : card F v (.exists_ p) r v') :
    v' = v ∧ (r = some (v.tree.get (key lower p)).isSome ∨ F ∧ r = none) := by
  rcases h with ⟨r₀, h, hr⟩ | ⟨hF, hr, hv⟩
  · obtain ⟨rfl, rfl⟩ := Prod.mk.inj h
    exact ⟨rfl, .inl hr⟩
  · exact ⟨hv, .inr ⟨hF, hr⟩⟩

theorem card_is_empty {r : Option Bool} (h : card F v (.is_empty p) r v') :
    v' = v ∧ (r = emptiness v p ∨ F ∧ r = none) := by
  rcases h with ⟨r₀, h, hr⟩ | ⟨hF, hr, hv⟩
  · obtain ⟨rfl, rfl⟩ := Prod.mk.inj h
    exact ⟨rfl, .inl hr⟩
  · exact ⟨hv, .inr ⟨hF, hr⟩⟩

theorem card_getInterupt {r : Bool} (h : card F v .getInterupt r v') : v' = v ∧ (r = true → F) := by
  rcases h with ⟨r₀, h, hr⟩ | ⟨hF, hr, hv⟩
  · obtain ⟨rfl, rfl⟩ := Prod.mk.inj h
    refine ⟨rfl, fun ht => ?_⟩
    rw [show r = false from hr] at ht
    cases ht
  · exact ⟨hv, fun _ => hF⟩

theorem card_directory_iterator {r : List FsPath × Bool}
    (h : card F v (.directory_iterator p) r v') :
    v' = v ∧ r.1.Subperm (v.children p) ∧
      (r.2 = true → v.kind p = some true ∧ r.1.Perm (v.children p)) ∧
      (r.2 = false → F ∨ v.kind p ≠ some true) := by
  rcases h with ⟨r₀, h, hperm, hend⟩ | ⟨hF, hr, hsub, hv⟩
  · obtain ⟨rfl, rfl⟩ := Prod.mk.inj h
    unfold Volume.iterate at hperm hend
    by_cases hp : v'.kind p = some true
    · rw [if_pos hp] at hperm hend
      refine ⟨rfl, hperm.subperm, fun _ => ⟨hp, hperm⟩, fun hf => ?_⟩
      rw [hend] at hf
      cases hf
    · rw [if_neg hp] at hperm hend
      refine ⟨rfl, hperm.subperm.trans List.nil_subperm, fun ht => ?_, fun _ => .inr hp⟩
      rw [hend] at ht
      cases ht
  · refine ⟨hv, hsub, fun ht => ?_, fun _ => .inl hF⟩
    rw [hr] at ht
    cases ht

/-- What stands at and below a directory goes, the rest stays. -/
theorem removed_deleteTree (hdir : v.kind p = some true) (hne : key lower p ≠ []) :
    v.Removed (deleteTree v p) (key lower p <+: ·) := by
  have hget : v.tree.get (key lower p) ≠ none := by
    intro hnone
    unfold Volume.kind at hdir
    rw [hnone] at hdir
    cases hdir
  have hself : (v.clear (key lower p)).tree.get (key lower p) ≠ none := by
    show (v.tree.clear (key lower p)).get (key lower p) ≠ none
    rw [FileTree.get_clear, if_neg fun h => h.2 rfl]
    exact hget
  have hchildless : (v.clear (key lower p)).tree.childless (key lower p) = true := by
    apply FileTree.childless_iff.mpr
    intro k
    apply if_pos
    refine ⟨List.prefix_append _ _, ?_⟩
    intro heq
    exact absurd (congrArg List.length heq) (by simp)
  have hclear : ∀ q, (v.clear (key lower p)).at_ q
      = if key lower p <+: q ∧ q ≠ key lower p then none else v.at_ q := by
    intro q
    show ((v.tree.clear (key lower p)).get q).map _ = _
    rw [FileTree.get_clear]
    split <;> rfl
  have hdeleted : ∀ q, (deleteTree v p).at_ q
      = if q = key lower p then none else (v.clear (key lower p)).at_ q := by
    rcases (v.clear (key lower p)).remove_cases p with ⟨-, -, hat⟩ | ⟨-, hnone, -⟩ |
      ⟨-, -, -, hcannot⟩
    · exact hat
    · exact absurd hnone hself
    · exact absurd ⟨hne, hchildless⟩ hcannot
  constructor
  · intro q hq
    rw [hdeleted]
    by_cases heq : q = key lower p
    · rw [if_pos heq]
    · rw [if_neg heq, hclear, if_pos ⟨hq, heq⟩]
  · intro q hq
    rw [hdeleted, if_neg, hclear, if_neg fun h => hq h.1]
    rintro rfl
    exact hq List.prefix_rfl

theorem card_removeDir {r : Bool} (h : card F v (.removeDir p) r v') :
    (v' = v ∧ (v.kind p ≠ some true ∨ key lower p = [])) ∨
      (v.kind p = some true ∧ ∃ gone : FsPath → Prop, (∀ q, gone q → key lower p <+: q) ∧
        v.Removed v' gone ∧ (¬F → gone (key lower p))) := by
  rcases h with ⟨r₀, h, -⟩ | ⟨hF, -, hdir, gone, hgone, hremoved⟩
  · have hv' := congrArg Prod.snd h
    unfold answer at hv'
    dsimp only at hv'
    by_cases hdir : v.kind p = some true ∧ key lower p ≠ []
    · rw [if_pos hdir] at hv'
      have hv'' : v' = deleteTree v p := hv'
      rw [hv'']
      exact .inr ⟨hdir.1, _, fun q hq => hq, removed_deleteTree hdir.1 hdir.2,
        fun _ => List.prefix_rfl⟩
    · rw [if_neg hdir] at hv'
      refine .inl ⟨hv', ?_⟩
      rw [not_and_or, not_not] at hdir
      exact hdir
  · exact .inr ⟨hdir, gone, hgone, hremoved, fun hno => absurd hF hno⟩

theorem card_remove {r : Option Bool} (h : card F v (.remove p) r v') {q : FsPath}
    (hq : q ≠ key lower p) : v'.at_ q = v.at_ q := by
  rcases h with ⟨r₀, h, -⟩ | ⟨-, -, hv⟩
  · have hv' : v' = (v.remove p).2 := congrArg Prod.snd h
    rw [hv']
    rcases v.remove_cases p with ⟨-, -, hat⟩ | ⟨-, -, hsame⟩ | ⟨-, hsame, -⟩
    · rw [hat, if_neg hq]
    · rw [hsame]
    · rw [hsame]
  · rw [show v' = v from hv]

theorem card_answer (F : Prop) (v : Volume lower) (fn : Fn) :
    card F v fn (answer v fn).1 (answer v fn).2 := by
  refine .inl ⟨_, rfl, ?_⟩
  cases fn with
  | directory_iterator p => exact ⟨List.Perm.refl _, rfl⟩
  | _ => rfl

theorem wpx_fs {fn : Fn} {Q : fn.Res → Volume lower → Prop} {E : Unit → Volume lower → Prop} :
    wpx (card F) Q E (fs fn) v ↔ ∀ r v', card F v fn r v' → Q r v' := wpx_call

theorem wpx_value {α : Type} {r : Option α} {Q : α → Volume lower → Prop}
    {E : Unit → Volume lower → Prop} :
    wpx (card F) Q E (value r) v ↔ (∀ a, r = some a → Q a v) ∧ (r = none → E () v) := by
  cases r with
  | none => simp [value]
  | some a => simp [value]

end effects

/-! ## One entry -/

/-- What may go with the cheats of the folder `q`: its cheats folder, and the folder itself where
nothing else is in it. -/
def MayGo (v : Volume lower) (q x : FsPath) : Prop :=
  q ++ ["cheats"] <+: x ∧ v.tree.get (q ++ ["cheats"]) = some .dir ∨
    x = q ∧ v.tree.get q = some .dir ∧ ∀ r, r ≠ [] → v.tree.get (q ++ r) ≠ none →
      ["cheats"] <+: r ∧ v.tree.get (q ++ ["cheats"]) = some .dir

/-- Nothing else has gone. -/
def Swept (v v' : Volume lower) (q : FsPath) : Prop :=
  ∀ x, v'.at_ x = v.at_ x ∨ v'.at_ x = none ∧ MayGo v q x

/-- All of that has gone. -/
def Clean (v v' : Volume lower) (q : FsPath) : Prop :=
  v.tree.get q = some .dir →
    (v.tree.get (q ++ ["cheats"]) = some .dir → v'.at_ (q ++ ["cheats"]) = none) ∧
      (v.tree.childless q = true → v'.at_ q = none)

theorem MayGo.below {v : Volume lower} {q x : FsPath} (h : MayGo v q x) : q <+: x := by
  rcases h with ⟨hx, -⟩ | ⟨rfl, -⟩
  · exact (List.prefix_append _ _).trans hx
  · exact List.prefix_rfl

theorem key_cheats (entry : FsPath) :
    key lower (entry ++ ["cheats"]) = key lower entry ++ ["cheats"] := by
  rw [Volume.key_append, Volume.key_singleton (by decide)]
  congr 2

theorem Swept.refl (v : Volume lower) (q : FsPath) : Swept v v q := fun _ => .inl rfl

/-- The first half of `removeCheatsDirectory`. -/
structure NoCheats (F : Prop) (v v' : Volume lower) (q : FsPath) : Prop where
  swept : ∀ x, v'.at_ x = v.at_ x ∨
    v'.at_ x = none ∧ q ++ ["cheats"] <+: x ∧ v.tree.get (q ++ ["cheats"]) = some .dir
  clean : ¬F → v.tree.get (q ++ ["cheats"]) = some .dir → v'.at_ (q ++ ["cheats"]) = none

theorem kind_eq_true {v : Volume lower} {p : FsPath} :
    v.kind p = some true ↔ v.tree.get (key lower p) = some .dir := by
  unfold Volume.kind
  cases v.tree.get (key lower p) with
  | none => simp
  | some e => cases e <;> simp [Entry.isDir]

theorem at_none_of_removed {v v' : Volume lower} {gone : FsPath → Prop} (h : v.Removed v' gone)
    {x : FsPath} (hx : v.at_ x = none) : v'.at_ x = none := by
  by_cases hgone : gone x
  · exact h.none_of x hgone
  · rw [h.kept x hgone]
    exact hx

section entry

variable {F : Prop} {v v' : Volume lower} {entry : FsPath}

theorem NoCheats.refl_of {q : FsPath} (h : v.tree.get (q ++ ["cheats"]) ≠ some .dir) :
    NoCheats F v v q := ⟨fun _ => .inl rfl, fun _ hdir => absurd hdir h⟩

theorem NoCheats.at_self {q : FsPath} (h : NoCheats F v v' q) : v'.at_ q = v.at_ q := by
  rcases h.swept q with hsame | ⟨-, hbelow, -⟩
  · exact hsame
  · have hlen := hbelow.length_le
    rw [List.length_append, List.length_singleton] at hlen
    omega

/-- The cheats folder goes. -/
theorem cheats_removed {r : Bool} (h : card F v (.removeDir (entry ++ ["cheats"])) r v') :
    NoCheats F v v' (key lower entry) := by
  have hkey := key_cheats entry
  rcases card_removeDir h with ⟨rfl, hnot⟩ | ⟨hdir, gone, hgone, hremoved, hself⟩
  · apply NoCheats.refl_of
    intro hdir
    rw [← hkey] at hdir
    rcases hnot with hkind | hroot
    · exact hkind (kind_eq_true.mpr hdir)
    · rw [hkey] at hroot
      exact absurd hroot (by simp)
  · rw [kind_eq_true, hkey] at hdir
    rw [hkey] at hself
    constructor
    · intro x
      by_cases hx : gone x
      · exact .inr ⟨hremoved.none_of x hx, hkey ▸ hgone x hx, hdir⟩
      · exact .inl (hremoved.kept x hx)
    · intro hF _
      exact hremoved.none_of _ (hself hF)

/-- Nothing below `q` but the cheats, if these. -/
theorem NoCheats.mayGo {q : FsPath} (h : NoCheats F v v' q) (hdir : v.tree.get q = some .dir)
    (hempty : v'.tree.childless q = true) : MayGo v q q := by
  refine .inr ⟨rfl, hdir, fun r hr hget => ?_⟩
  rcases h.swept (q ++ r) with hsame | ⟨-, hbelow, hcheats⟩
  · have hnone := FileTree.get_append_of_childless hempty hr
    rw [Volume.get_of_at hsame] at hnone
    exact absurd hnone hget
  · exact ⟨(List.prefix_append_right_inj q).mp hbelow, hcheats⟩

theorem NoCheats.childless {q : FsPath} (h : NoCheats F v v' q)
    (hempty : v.tree.childless q = true) :
    v'.tree.childless q = true := by
  apply FileTree.childless_iff.mpr
  intro k
  have hnone := FileTree.childless_iff.mp hempty k
  rcases h.swept (q ++ [k]) with hsame | ⟨hgone, -⟩
  · rw [Volume.get_of_at hsame]
    exact hnone
  · exact Volume.at_eq_none.mp hgone

theorem NoCheats.swept' {q : FsPath} (h : NoCheats F v v' q) : Swept v v' q := by
  intro x
  rcases h.swept x with hsame | ⟨hgone, hbelow⟩
  · exact .inl hsame
  · exact .inr ⟨hgone, .inl hbelow⟩

/-- An entry that is not deleted. -/
theorem NoCheats.clean' {q : FsPath} (h : NoCheats F v v' q) (hF : ¬F)
    (hkept : v'.tree.get q = some .dir → v'.tree.childless q = false) : Clean v v' q := by
  intro hdir
  refine ⟨h.clean hF, fun hempty => ?_⟩
  rw [← Volume.get_of_at h.at_self] at hdir
  rw [h.childless hempty] at hkept
  exact absurd (hkept hdir) (by decide)

/-- The entry goes when it is left empty. -/
theorem entry_removed {v₁ : Volume lower} {r : Bool} (hq : key lower entry ≠ [])
    (h : NoCheats F v v₁ (key lower entry)) (hempty : emptiness v₁ entry = some true)
    (hcard : card F v₁ (.removeDir entry) r v') :
    Swept v v' (key lower entry) ∧ (¬F → Clean v v' (key lower entry)) := by
  rcases card_removeDir hcard with ⟨rfl, hnot⟩ | ⟨hkind, gone, hgone, hremoved, hself⟩
  · refine ⟨h.swept', fun hF => h.clean' hF fun hdir => ?_⟩
    rcases hnot with hkind | hroot
    · exact absurd (kind_eq_true.mpr hdir) hkind
    · exact absurd hroot hq
  · rw [kind_eq_true] at hkind
    have hchildless : v₁.tree.childless (key lower entry) = true := by
      unfold emptiness at hempty
      rw [hkind] at hempty
      exact Option.some.inj hempty
    have hdir : v.tree.get (key lower entry) = some .dir := by
      rw [← Volume.get_of_at h.at_self]
      exact hkind
    constructor
    · intro x
      by_cases hx : gone x
      · have hnone := hremoved.none_of x hx
        obtain ⟨s, rfl⟩ := hgone x hx
        by_cases hs : s = []
        · subst hs
          rw [List.append_nil] at hnone ⊢
          exact .inr ⟨hnone, h.mayGo hdir hchildless⟩
        · have hbelow := Volume.at_eq_none.mpr (FileTree.get_append_of_childless hchildless hs)
          rcases h.swept' (key lower entry ++ s) with hsame | ⟨-, hmay⟩
          · left
            rw [hnone, ← hsame, hbelow]
          · exact .inr ⟨hnone, hmay⟩
      · rw [hremoved.kept x hx]
        exact h.swept' x
    · intro hF _
      exact ⟨fun hcheats => at_none_of_removed hremoved (h.clean hF hcheats),
        fun _ => hremoved.none_of _ (hself hF)⟩

/-- `removeCheatsDirectory` takes nothing else, and without failures all of it. -/
theorem removeCheatsDirectory_spec (entry : FsPath) (hq : key lower entry ≠ []) :
    wpx (card F)
      (fun _ v' => Swept v v' (key lower entry) ∧ (¬F → Clean v v' (key lower entry)))
      (fun _ v' => Swept v v' (key lower entry) ∧ (F ∨ v.tree.get (key lower entry) = none))
      (removeCheatsDirectory entry) v := by
  -- what follows once the cheats are gone: an empty folder goes as well
  have hrest : ∀ (res : Bool) (v₁ : Volume lower), NoCheats F v v₁ (key lower entry) →
      wpx (card F)
        (fun _ v' => Swept v v' (key lower entry) ∧ (¬F → Clean v v' (key lower entry)))
        (fun _ v' => Swept v v' (key lower entry) ∧ (F ∨ v.tree.get (key lower entry) = none))
        (do
          let empty ← value (← fs (.is_empty entry))
          if empty then
            let removed ← fs (.removeDir entry)
            pure (res && removed)
          else pure res) v₁ := by
    intro res v₁ h
    rw [wpx_bind, wpx_fs]
    intro r v₂ hcard
    obtain ⟨rfl, hr⟩ := card_is_empty hcard
    rw [wpx_bind, wpx_value]
    constructor
    · rintro empty rfl
      have hempty : emptiness v₂ entry = some empty := by
        rcases hr with heq | ⟨-, hnone⟩
        · exact heq.symm
        · cases hnone
      cases empty with
      | true =>
        rw [if_pos rfl, wpx_bind, wpx_fs]
        intro removed v' hcard'
        rw [wpx_pure]
        exact entry_removed hq h hempty hcard'
      | false =>
        rw [if_neg (by decide), wpx_pure]
        refine ⟨h.swept', fun hF => h.clean' hF fun hdir => ?_⟩
        unfold emptiness at hempty
        rw [hdir] at hempty
        exact Option.some.inj hempty
    · rintro rfl
      refine ⟨h.swept', ?_⟩
      rcases hr with heq | ⟨hF, -⟩
      · right
        rw [← Volume.get_of_at h.at_self]
        unfold emptiness at heq
        cases hget : v₂.tree.get (key lower entry) with
        | none => rfl
        | some e =>
          rw [hget] at heq
          cases e with
          | dir => cases heq
          | file b => cases heq
      · exact .inl hF
  unfold removeCheatsDirectory
  rw [wpx_bind, wpx_fs]
  intro r v₁ hcard
  obtain ⟨rfl, hr⟩ := card_exists hcard
  rw [wpx_bind, wpx_value]
  constructor
  · rintro present rfl
    have hpresent : present = (v₁.tree.get (key lower entry ++ ["cheats"])).isSome := by
      rw [← key_cheats]
      rcases hr with heq | ⟨-, hnone⟩
      · exact Option.some.inj heq
      · cases hnone
    dsimp only
    cases present with
    | true =>
      rw [if_pos rfl, wpx_bind, wpx_fs]
      intro res v₂ hcard'
      exact hrest res v₂ (cheats_removed hcard')
    | false =>
      rw [if_neg (by decide), wpx_bind, wpx_pure]
      apply hrest
      apply NoCheats.refl_of
      intro hdir
      rw [hdir] at hpresent
      cases hpresent
  · rintro rfl
    refine ⟨Swept.refl _ _, .inl ?_⟩
    rcases hr with heq | ⟨hF, -⟩
    · cases heq
    · exact hF

end entry

/-! ## The contents folder -/

/-- Below `c`, only what may go with the cheats of entries that are not `installed` has gone. -/
def Spares (installed : Name → Prop) (c : FsPath) (v v' : Volume lower) : Prop :=
  ∀ k r, v'.at_ (c ++ [k] ++ r) = v.at_ (c ++ [k] ++ r) ∨
    v'.at_ (c ++ [k] ++ r) = none ∧ ¬installed (v.spelling (c ++ [k])) ∧
      MayGo v (c ++ [k]) (c ++ [k] ++ r)

/-- The loop with the entries `todo` before it; `v₀` is the volume as it was. -/
structure Progress (F : Prop) (titles : List Bytes) (c : FsPath) (v₀ : Volume lower)
    (todo : List FsPath) (v : Volume lower) : Prop where
  spares : Spares (found titles) c v₀ v
  fresh : ∀ q ∈ todo, ∀ x, q <+: x → v.at_ x = v₀.at_ x
  clean : ¬F → ∀ k, c ++ [k] ∉ todo → ¬found titles (v₀.spelling (c ++ [k])) →
    Clean v₀ v (c ++ [k])

/-- Without failures the loop leaves nothing behind. -/
def Tidy (F : Prop) (titles : List Bytes) (c : FsPath) (v v' : Volume lower) : Prop :=
  Spares (found titles) c v v' ∧
    (¬F → ∀ k, ¬found titles (v.spelling (c ++ [k])) → Clean v v' (c ++ [k]))

section contents

variable {F : Prop} {v₀ v v' : Volume lower} {titles : List Bytes} {c : FsPath} {k : Name}

/-- Entries of one folder have nothing in common. -/
theorem eq_of_prefix_child {l : Name} {r : FsPath} (h : c ++ [k] <+: c ++ [l] ++ r) : k = l := by
  rw [List.append_assoc, List.prefix_append_right_inj, List.singleton_append,
    List.cons_prefix_cons] at h
  exact h.1

theorem mayGo_congr {q x : FsPath} (hsame : ∀ y, q <+: y → v.at_ y = v₀.at_ y)
    (h : MayGo v q x) : MayGo v₀ q x := by
  have hget : ∀ r, v₀.tree.get (q ++ r) = v.tree.get (q ++ r) := by
    intro r
    exact (Volume.get_of_at (hsame _ (List.prefix_append q r))).symm
  have hself : v₀.tree.get q = v.tree.get q := by
    have := hget []
    rwa [List.append_nil] at this
  rcases h with ⟨hx, hdir⟩ | ⟨hx, hdir, hrest⟩
  · exact .inl ⟨hx, (hget _).trans hdir⟩
  · refine .inr ⟨hx, hself.trans hdir, fun r hr hne => ?_⟩
    rw [hget] at hne
    obtain ⟨hbelow, hcheats⟩ := hrest r hr hne
    exact ⟨hbelow, (hget _).trans hcheats⟩

theorem clean_congr {q : FsPath} (hsame : ∀ y, q <+: y → v.at_ y = v₀.at_ y)
    (h : Clean v v' q) : Clean v₀ v' q := by
  have hget : ∀ r, v₀.tree.get (q ++ r) = v.tree.get (q ++ r) := by
    intro r
    exact (Volume.get_of_at (hsame _ (List.prefix_append q r))).symm
  intro hdir
  have hself := hget []
  rw [List.append_nil] at hself
  obtain ⟨hcheats, hempty⟩ := h (hself.symm.trans hdir)
  refine ⟨fun h₀ => hcheats ((hget _).symm.trans h₀), fun h₀ => hempty ?_⟩
  apply FileTree.childless_iff.mpr
  intro l
  rw [← hget]
  exact FileTree.childless_iff.mp h₀ l

/-- What has gone does not come back. -/
theorem Clean.swept {q q' : FsPath} (h : Clean v₀ v q) (hswept : Swept v v' q') :
    Clean v₀ v' q := by
  have hnone : ∀ {x}, v.at_ x = none → v'.at_ x = none := by
    intro x hx
    rcases hswept x with hsame | ⟨hgone, -⟩
    · rw [hsame]
      exact hx
    · exact hgone
  intro hdir
  obtain ⟨hcheats, hempty⟩ := h hdir
  exact ⟨fun h₀ => hnone (hcheats h₀), fun h₀ => hnone (hempty h₀)⟩

theorem Progress.spares_swept {todo : List FsPath}
    (h : Progress F titles c v₀ ((c ++ [k]) :: todo) v)
    (hk : ¬found titles (v₀.spelling (c ++ [k]))) (hswept : Swept v v' (c ++ [k])) :
    Spares (found titles) c v₀ v' := by
  have hfresh := h.fresh _ List.mem_cons_self
  intro l r
  rcases hswept (c ++ [l] ++ r) with hsame | ⟨hgone, hmay⟩
  · rw [hsame]
    exact h.spares l r
  · obtain rfl := eq_of_prefix_child hmay.below
    exact .inr ⟨hgone, hk, mayGo_congr hfresh hmay⟩

/-- An entry that is not on the list has been dealt with. -/
theorem Progress.removed {todo : List FsPath} (h : Progress F titles c v₀ ((c ++ [k]) :: todo) v)
    (hnodup : c ++ [k] ∉ todo) (htodo : ∀ q ∈ todo, ∃ l, q = c ++ [l])
    (hk : ¬found titles (v₀.spelling (c ++ [k]))) (hswept : Swept v v' (c ++ [k]))
    (hclean : ¬F → Clean v v' (c ++ [k])) : Progress F titles c v₀ todo v' := by
  refine ⟨h.spares_swept hk hswept, fun q hq x hx => ?_, fun hF l hl hnot => ?_⟩
  · rcases hswept x with hsame | ⟨-, hmay⟩
    · rw [hsame]
      exact h.fresh q (List.mem_cons_of_mem _ hq) x hx
    · obtain ⟨l, rfl⟩ := htodo q hq
      obtain ⟨r, rfl⟩ := hx
      obtain rfl := eq_of_prefix_child hmay.below
      exact absurd hq hnodup
  · by_cases hlk : l = k
    · subst hlk
      exact clean_congr (h.fresh _ List.mem_cons_self) (hclean hF)
    · refine (h.clean hF l ?_ hnot).swept hswept
      intro hmem
      rcases List.mem_cons.mp hmem with heq | hmem
      · exact hlk (by simpa using heq)
      · exact hl hmem

/-- An entry that is on the list is left alone. -/
theorem Progress.skipped {todo : List FsPath} (h : Progress F titles c v₀ ((c ++ [k]) :: todo) v)
    (hk : found titles (v₀.spelling (c ++ [k]))) : Progress F titles c v₀ todo v := by
  refine ⟨h.spares, fun q hq => h.fresh q (List.mem_cons_of_mem _ hq), fun hF l hl hnot => ?_⟩
  apply h.clean hF l _ hnot
  intro hmem
  rcases List.mem_cons.mp hmem with heq | hmem
  · rw [heq] at hnot
    exact hnot hk
  · exact hl hmem

/-- The loop, entry after entry. -/
theorem loop_spec {path : FsPath} (complete : Bool) (todo : List FsPath)
    (htodo : ∀ e ∈ todo, ∃ k, v₀.tree.get (key lower path ++ [k]) ≠ none ∧
      e = path ++ [v₀.spelling (key lower path ++ [k])])
    (hnodup : (todo.map (key lower)).Nodup)
    (h : Progress F titles (key lower path) v₀ (todo.map (key lower)) v) :
    wpx (card F) (fun _ v' => Tidy F titles (key lower path) v₀ v')
      (fun _ v' => Spares (found titles) (key lower path) v₀ v' ∧ (F ∨ complete = false))
      (loop titles complete todo) v := by
  induction todo generalizing v with
  | nil =>
    rw [loop, wpx_require]
    constructor
    · intro _
      exact ⟨h.spares, fun hF k => h.clean hF k List.not_mem_nil⟩
    · intro hc
      exact ⟨h.spares, .inr (Bool.eq_false_iff.mpr hc)⟩
  | cons entry todo ih =>
    obtain ⟨k, hget, rfl⟩ := htodo entry List.mem_cons_self
    have hkey := Volume.key_child hget
    have htodo' := fun e he => htodo e (List.mem_cons_of_mem _ he)
    rw [List.map_cons, hkey] at h hnodup
    obtain ⟨hnew, hnodup'⟩ := List.nodup_cons.mp hnodup
    have hname : filename (path ++ [v₀.spelling (key lower path ++ [k])])
        = v₀.spelling (key lower path ++ [k]) := by
      unfold filename
      rw [List.getLastD_concat]
    rw [loop, wpx_bind, wpx_fs]
    intro stop v₁ hcard
    obtain ⟨rfl, hstop⟩ := card_getInterupt hcard
    cases stop with
    | true =>
      rw [if_pos rfl, wpx_pure]
      exact ⟨h.spares, fun hF => absurd (hstop rfl) hF⟩
    | false =>
      rw [if_neg (by decide), hname]
      dsimp only
      by_cases hk : found titles (v₀.spelling (key lower path ++ [k]))
      · rw [if_pos hk]
        exact ih htodo' hnodup' (h.skipped hk)
      · rw [if_neg hk, wpx_bind]
        -- the other entries lie apart from this one
        have hkeys : ∀ q ∈ todo.map (key lower), ∃ l, q = key lower path ++ [l] := by
          intro q hq
          obtain ⟨e, he, rfl⟩ := List.mem_map.mp hq
          obtain ⟨l, hl, rfl⟩ := htodo' e he
          exact ⟨l, Volume.key_child hl⟩
        have hspec := removeCheatsDirectory_spec (F := F) (v := v₁)
          (path ++ [v₀.spelling (key lower path ++ [k])]) (by rw [hkey]; simp)
        rw [hkey] at hspec
        apply wpx_conseq hspec
        · rintro _ v' ⟨hswept, hclean⟩
          exact ih htodo' hnodup' (h.removed hnew hkeys hk hswept hclean)
        · rintro _ v' ⟨hswept, hend⟩
          refine ⟨h.spares_swept hk hswept, ?_⟩
          rcases hend with hF | hnone
          · exact .inl hF
          · rw [Volume.get_of_at (h.fresh _ List.mem_cons_self _ List.prefix_rfl)] at hnone
            exact absurd hnone hget

end contents

/-! ## The list of installed titles -/

/-- The control data of a title is read, and has the size that is asked for. -/
def ApplicationRecord.Readable (a : ApplicationRecord) : Prop :=
  a.allocated = true ∧ ∃ controlSize, a.controlSize = some controlSize ∧ nacpSize ≤ controlSize

/-- The name is that of an installed title. -/
def Installed (records : List ApplicationRecord) (name : Name) : Prop :=
  ∃ a ∈ records, caselessCompare name (formatApplicationId a.application_id)

/-- The name is that of a title on the list: its record is among the first, its control data is
read, and the loop has come so far. -/
def Listed (records : List ApplicationRecord) (name : Name) : Prop :=
  ∃ pre a post, records = pre ++ a :: post ∧ pre.length < MaxTitleCount ∧
    (∀ b ∈ pre, b.allocated = true) ∧ a.Readable ∧
      caselessCompare name (formatApplicationId a.application_id)

section list

variable {records : List ApplicationRecord} {title : Bytes} {name : Name}

theorem queryTitles_cons {a : ApplicationRecord} (ha : a.allocated = true) :
    title ∈ queryTitles (a :: records) ↔
      a.Readable ∧ title = formatApplicationId a.application_id ∨ title ∈ queryTitles records := by
  unfold ApplicationRecord.Readable
  rw [queryTitles, if_neg (by rw [ha]; decide)]
  cases hsize : a.controlSize with
  | none => simp
  | some controlSize =>
    dsimp only
    by_cases hshort : controlSize < nacpSize
    · rw [if_pos hshort]
      have hnot : ¬nacpSize ≤ controlSize := by omega
      simp [hnot]
    · rw [if_neg hshort, List.mem_cons]
      have hlong : nacpSize ≤ controlSize := by omega
      simp [hlong, ha]

/-- The loop stops at the first record whose buffer is not there. -/
theorem mem_queryTitles : title ∈ queryTitles records ↔
    ∃ (pre : List ApplicationRecord) (a : ApplicationRecord) (post : List ApplicationRecord),
      records = pre ++ a :: post ∧ (∀ b ∈ pre, b.allocated = true) ∧ a.Readable ∧
        title = formatApplicationId a.application_id := by
  induction records with
  | nil => simp [queryTitles]
  | cons b records ih =>
    by_cases hb : b.allocated = true
    · rw [queryTitles_cons hb, ih]
      constructor
      · rintro (⟨hread, heq⟩ | ⟨pre, a, post, rfl, hpre, hread, heq⟩)
        · exact ⟨[], b, records, rfl, by simp, hread, heq⟩
        · refine ⟨b :: pre, a, post, rfl, ?_, hread, heq⟩
          intro d hd
          rcases List.mem_cons.mp hd with rfl | hd
          · exact hb
          · exact hpre d hd
      · rintro ⟨pre, a, post, hsplit, hpre, hread, heq⟩
        rw [List.cons_eq_append_iff] at hsplit
        rcases hsplit with ⟨-, hcons⟩ | ⟨pre', rfl, hsplit⟩
        · obtain ⟨rfl, -⟩ := List.cons.inj hcons
          exact .inl ⟨hread, heq⟩
        · exact .inr ⟨pre', a, post, hsplit, fun d hd => hpre d (List.mem_cons_of_mem _ hd),
            hread, heq⟩
    · rw [Bool.not_eq_true] at hb
      rw [queryTitles, if_pos hb]
      simp only [List.not_mem_nil, false_iff]
      rintro ⟨pre, a, post, hsplit, hpre, ⟨ha, -⟩, -⟩
      rw [List.cons_eq_append_iff] at hsplit
      rcases hsplit with ⟨-, hcons⟩ | ⟨pre', rfl, -⟩
      · obtain ⟨rfl, -⟩ := List.cons.inj hcons
        rw [ha] at hb
        cases hb
      · rw [hpre b List.mem_cons_self] at hb
        cases hb

/-- Where a list is cut, what is before the cut. -/
theorem take_split {n : ℕ} :
    (∃ (pre : List ApplicationRecord) (a : ApplicationRecord) (post : List ApplicationRecord),
      records.take n = pre ++ a :: post ∧ (∀ b ∈ pre, b.allocated = true) ∧ a.Readable ∧
        title = formatApplicationId a.application_id) ↔
    ∃ (pre : List ApplicationRecord) (a : ApplicationRecord) (post : List ApplicationRecord),
      records = pre ++ a :: post ∧ pre.length < n ∧ (∀ b ∈ pre, b.allocated = true) ∧
        a.Readable ∧ title = formatApplicationId a.application_id := by
  constructor
  · rintro ⟨pre, a, post, hsplit, hrest⟩
    refine ⟨pre, a, post ++ records.drop n, ?_, ?_, hrest⟩
    · rw [← List.cons_append, ← List.append_assoc, ← hsplit, List.take_append_drop]
    · have hlen := congrArg List.length hsplit
      rw [List.length_take, List.length_append, List.length_cons] at hlen
      omega
  · rintro ⟨pre, a, post, rfl, hlen, hrest⟩
    obtain ⟨m, hm⟩ : ∃ m, n = pre.length + (m + 1) := ⟨n - pre.length - 1, by omega⟩
    refine ⟨pre, a, post.take m, ?_, hrest⟩
    rw [hm, List.take_length_add_append, List.take_succ_cons]

theorem found_iff : found (getInstalledTitlesNs true records) name ↔ Listed records name := by
  unfold found getInstalledTitlesNs Listed
  rw [if_pos rfl]
  simp only [ExcludePage.mem_sort, mem_queryTitles, take_split]
  constructor
  · rintro ⟨_, ⟨pre, a, post, hsplit, hlen, hpre, hread, rfl⟩, hname⟩
    exact ⟨pre, a, post, hsplit, hlen, hpre, hread, hname⟩
  · rintro ⟨pre, a, post, hsplit, hlen, hpre, hread, hname⟩
    exact ⟨_, ⟨pre, a, post, hsplit, hlen, hpre, hread, rfl⟩, hname⟩

/-- The list has installed titles only. -/
theorem Listed.installed (h : Listed records name) : Installed records name := by
  obtain ⟨pre, a, post, rfl, -, -, -, hname⟩ := h
  exact ⟨a, by simp, hname⟩

end list

/-! ## The removal -/

section removal

variable {F : Prop} {v v' : Volume lower} {titles : List Bytes}

theorem cheats_version_key (cfw : Extract.CFW) (r : FsPath) :
    key lower (getContentsPath cfw) ++ r ≠ key lower CHEATS_VERSION := by
  intro h
  have hhead : (key lower (getContentsPath cfw) ++ r).head? = some (lower "config") := by
    rw [h]
    decide
  cases cfw with
  | ams => exact absurd (Option.some.inj hhead) (by decide)
  | rnx => exact absurd (Option.some.inj hhead) (by decide)
  | sxos => exact absurd (Option.some.inj hhead) (by decide)

theorem Spares.refl (installed : Name → Prop) (c : FsPath) (v : Volume lower) :
    Spares installed c v v := fun _ _ => .inl rfl

/-- What is not a folder has no entries. -/
theorem Tidy.of_not_dir {c : FsPath} (h : Spares (found titles) c v v')
    (hc : ¬F → v.tree.get c ≠ some .dir) : Tidy F titles c v v' := by
  refine ⟨h, fun hF k _ hdir => ?_⟩
  have hnone : v.tree.get (c ++ [k]) = none :=
    FileTree.get_append_of_not_dir (hc hF) (List.cons_ne_nil k [])
  rw [hdir] at hnone
  cases hnone

/-- The iteration leaves no entry out. -/
theorem clean_of_unlisted {path : FsPath} {entries : List FsPath} {complete : Bool} {k : Name}
    (hk : key lower path ++ [k] ∉ entries.map (key lower))
    (hall : complete = true → entries.Perm (v.children path))
    (hnot : complete = false → v.kind path ≠ some true) : Clean v v' (key lower path ++ [k]) := by
  intro hdir
  exfalso
  have hget : v.tree.get (key lower path ++ [k]) ≠ none := by
    rw [hdir]
    simp
  cases complete with
  | true =>
    apply hk
    rw [List.mem_map]
    exact ⟨_, (hall rfl).mem_iff.mpr (Volume.mem_children.mpr ⟨k, hget, rfl⟩),
      Volume.key_child hget⟩
  | false =>
    have hpath := hnot rfl
    rw [Ne, kind_eq_true] at hpath
    exact hget (FileTree.get_append_of_not_dir hpath (List.cons_ne_nil k []))

/-- The end of a run depends on what is below the folder only. -/
theorem Tidy.congr {c : FsPath} {v₁ : Volume lower} (h : Tidy F titles c v v₁)
    (hsame : ∀ k r, v'.at_ (c ++ [k] ++ r) = v₁.at_ (c ++ [k] ++ r)) : Tidy F titles c v v' := by
  refine ⟨fun k r => ?_, fun hF k hk hdir => ?_⟩
  · rw [hsame]
    exact h.1 k r
  · have hself := hsame k []
    rw [List.append_nil] at hself
    rw [hsame, hself]
    exact h.2 hF k hk hdir

/-- However the removal ends, it has taken only what it may, and without failures all of it. -/
theorem removeOrphanedCheats_spec (cfw : Extract.CFW) :
    wpx (card F) (fun _ v' => Tidy F titles (key lower (getContentsPath cfw)) v v')
      (fun _ v' => Tidy F titles (key lower (getContentsPath cfw)) v v')
      (removeOrphanedCheats cfw titles) v := by
  unfold removeOrphanedCheats
  dsimp only
  rw [wpx_bind, wpx_fs]
  rintro ⟨_, counted⟩ v₁ hcard
  obtain ⟨rfl, -, -, hnot⟩ := card_directory_iterator hcard
  dsimp only
  rw [wpx_bind, wpx_require]
  constructor
  · intro _
    rw [wpx_bind, wpx_fs]
    rintro ⟨entries, complete⟩ v₂ hcard'
    obtain ⟨rfl, hsub, hall, hnot'⟩ := card_directory_iterator hcard'
    have hentries := fun e he => Volume.mem_children.mp (hsub.subset (a := e) he)
    have hnodup : (entries.map (key lower)).Nodup := by
      obtain ⟨l, hl, hsublist⟩ := hsub
      exact (hl.map _).nodup_iff.mp ((hsublist.map _).nodup Volume.nodup_children)
    dsimp only
    rw [wpx_bind]
    refine wpx_conseq (loop_spec complete entries hentries hnodup ⟨.refl _ _ _, ?_, ?_⟩) ?_ ?_
    · intro _ _ _ _
      rfl
    · exact fun hF k hk _ => clean_of_unlisted hk (fun ht => (hall ht).2)
        fun hf => (hnot' hf).resolve_left hF
    · intro _ v₃ htidy
      rw [wpx_bind, wpx_fs]
      intro r v₄ hcard''
      have htidy' := htidy.congr fun k r => card_remove hcard'' (by
        rw [List.append_assoc]
        exact cheats_version_key cfw _)
      rw [wpx_bind, wpx_value]
      refine ⟨fun _ _ => ?_, fun _ => htidy'⟩
      rw [wpx_pure]
      exact htidy'
    · rintro _ v₃ ⟨hspares, hend⟩
      apply Tidy.of_not_dir hspares
      intro hF
      rcases hend with hF' | hc
      · exact absurd hF' hF
      · rcases hnot' hc with hF' | hkind
        · exact absurd hF' hF
        · rwa [Ne, kind_eq_true] at hkind
  · intro hc
    apply Tidy.of_not_dir (.refl _ _ _)
    intro hF
    rcases hnot (Bool.eq_false_iff.mpr hc) with hF' | hkind
    · exact absurd hF' hF
    · rwa [Ne, kind_eq_true] at hkind

/-- A run without failures leaves no cheats of an entry that is not on the list. -/
theorem exists_tidy (F : Prop) (cfw : Extract.CFW) (titles : List Bytes) (v : Volume lower) :
    ∃ r v', Ends (card F) (removeOrphanedCheats cfw titles) v r v' ∧
      Tidy False titles (key lower (getContentsPath cfw)) v v' := by
  refine ⟨_, _, exec_ends (card_answer F) (removeOrphanedCheats cfw titles) v, ?_⟩
  have hend := wpx_sound (removeOrphanedCheats_spec cfw)
    (exec_ends (card_answer False) (removeOrphanedCheats cfw titles) v)
  cases hr : (exec answer (removeOrphanedCheats cfw titles) v).1 with
  | ok a =>
    rw [hr] at hend
    exact hend
  | error e =>
    rw [hr] at hend
    exact hend

/-- An installed title that is not on the list keeps nothing that is taken from orphans. -/
theorem Tidy.taken {installed : Name → Prop} {c : FsPath} {k : Name} (h : Tidy False titles c v v')
    (hspares : Spares installed c v v') (hdir : v.tree.get (c ++ [k]) = some .dir)
    (hinstalled : installed (v.spelling (c ++ [k]))) (hk : ¬found titles (v.spelling (c ++ [k]))) :
    v.tree.get (c ++ [k] ++ ["cheats"]) ≠ some .dir ∧ v.tree.childless (c ++ [k]) = false := by
  obtain ⟨hcheats, hempty⟩ := h.2 not_false k hk hdir
  have hkept : ∀ r, v'.at_ (c ++ [k] ++ r) = v.at_ (c ++ [k] ++ r) := by
    intro r
    rcases hspares k r with hsame | ⟨-, hnot, -⟩
    · exact hsame
    · exact absurd hinstalled hnot
  constructor
  · intro hget
    have hnone := hcheats hget
    rw [hkept, Volume.at_eq_none, hget] at hnone
    cases hnone
  · rw [← Bool.not_eq_true]
    intro hchildless
    have hnone := hempty hchildless
    have hself := hkept []
    rw [List.append_nil] at hself
    rw [hself, Volume.at_eq_none, hdir] at hnone
    cases hnone

/-- Where nothing can be taken, nothing is. -/
theorem not_mayGo {q x : FsPath} (h : v.tree.get q = some .dir →
    v.tree.get (q ++ ["cheats"]) ≠ some .dir ∧ v.tree.childless q = false) : ¬MayGo v q x := by
  rintro (⟨-, hcheats⟩ | ⟨-, hdir, hrest⟩)
  · have hdir : v.tree.get q = some .dir := by
      by_contra hnot
      rw [FileTree.get_append_of_not_dir hnot (by simp)] at hcheats
      cases hcheats
    exact (h hdir).1 hcheats
  · obtain ⟨hcheats, hchildless⟩ := h hdir
    apply absurd hchildless
    rw [Bool.not_eq_false, FileTree.childless_iff]
    intro l
    by_contra hne
    exact hcheats (hrest [l] (List.cons_ne_nil l []) hne).2

/-- **An installed title loses its cheats exactly if it is not on the list.**  Every run spares the
installed titles if and only if each of them that has a cheats folder, or nothing, under its name has
a record among the first, before which no allocation fails, and whose control data is read whole. -/
theorem orphans_only_iff (F : Prop) (cfw : Extract.CFW) (records : List ApplicationRecord)
    (v : Volume lower) :
    (∀ r v', Ends (card F) (removeOrphanedCheats cfw (getInstalledTitlesNs true records)) v r v' →
      Spares (Installed records) (key lower (getContentsPath cfw)) v v') ↔
    ∀ k, v.tree.get (key lower (getContentsPath cfw) ++ [k]) = some .dir →
      Installed records (v.spelling (key lower (getContentsPath cfw) ++ [k])) →
      v.tree.get (key lower (getContentsPath cfw) ++ [k] ++ ["cheats"]) = some .dir ∨
        v.tree.childless (key lower (getContentsPath cfw) ++ [k]) = true →
      Listed records (v.spelling (key lower (getContentsPath cfw) ++ [k])) := by
  constructor
  · intro h k hdir hinstalled hat
    by_contra hnot
    obtain ⟨r, v', hends, htidy⟩ := exists_tidy F cfw (getInstalledTitlesNs true records) v
    obtain ⟨hcheats, hchildless⟩ := htidy.taken (h r v' hends) hdir hinstalled
      fun hfound => hnot (found_iff.mp hfound)
    rcases hat with hget | hempty
    · exact hcheats hget
    · rw [hchildless] at hempty
      cases hempty
  · intro h r v' hends k s
    have htidy : Tidy F (getInstalledTitlesNs true records)
        (key lower (getContentsPath cfw)) v v' := by
      have hend := wpx_sound (removeOrphanedCheats_spec cfw) hends
      cases r with
      | ok a => exact hend
      | error e => exact hend
    rcases htidy.1 k s with hsame | ⟨hgone, hnot, hmay⟩
    · exact .inl hsame
    · refine .inr ⟨hgone, fun hinstalled => ?_, hmay⟩
      rw [found_iff] at hnot
      refine not_mayGo (fun hdir => ?_) hmay
      rw [← Bool.not_eq_true, Ne, ← not_or]
      exact fun hat => hnot (h k hdir hinstalled hat)

end removal

/-! ## A title that is not listed -/

/-- An installed title, whose control data cannot be read. -/
def unread : List ApplicationRecord :=
  [{ application_id := 0x0100000000010000, allocated := true, controlSize := none }]

/-- It has cheats. -/
def withCheats : Volume lower :=
  (Volume.empty.mkdirs
    (Explorer.prefixes ["atmosphere", "contents", "0100000000010000", "cheats"])).2

theorem unread_installed : Installed unread (withCheats.spelling
    (key lower (getContentsPath .ams) ++ ["0100000000010000"])) := by
  refine ⟨_, List.mem_singleton_self _, ?_⟩
  decide

theorem unread_not_listed {name : Name} : ¬Listed unread name := by
  rintro ⟨pre, a, post, hsplit, -, -, ⟨-, controlSize, hsize, -⟩, -⟩
  have ha : a ∈ unread := by
    rw [hsplit]
    simp
  rw [List.mem_singleton.mp ha] at hsize
  cases hsize

/-- The cheats of an installed title go. -/
theorem installed_title_loses_cheats : ∃ r v',
    Ends (card False) (removeOrphanedCheats .ams (getInstalledTitlesNs true unread))
        withCheats r v' ∧
      ¬Spares (Installed unread) (key lower (getContentsPath .ams)) withCheats v' := by
  obtain ⟨r, v', hends, htidy⟩ :=
    exists_tidy False .ams (getInstalledTitlesNs true unread) withCheats
  refine ⟨r, v', hends, fun hspares => ?_⟩
  have htaken := htidy.taken hspares (by decide) unread_installed
    fun hfound => unread_not_listed (found_iff.mp hfound)
  exact absurd htaken.1 (by decide)

end OrphanedCheats
