/-
# The jobs of the file explorer: deleting

`file_explorer_ops.cpp`.  A recursion takes a bound on the depth of the tree below its path and
throws when that is exceeded, which a bound for the card excludes.  The counts are for the
progress display; no card has so many entries that they could overflow.
-/
import AioMod.ExplorerFs

namespace Explorer

open Throws

/-! ## What all jobs use -/

/-- `require(!cancel.load(), ...)` -/
def notCancelled : Op Unit := do
  let cancel ← fs .load
  require (cancel = false) "Operacion cancelada"

/-- The value of a call that must not fail. -/
def value {α : Type} (r : Option α) (message : String) : Op α :=
  match r with
  | some a => pure a
  | none => throw message

/-- A path as text. -/
def text (p : FsPath) : String := "/" ++ "/".intercalate p

/-- `isSdPath`, of a path that is normal. -/
def isSdPath (p : FsPath) : Prop := ∀ name ∈ p, ':' ∉ name.toList

instance (p : FsPath) : Decidable (isSdPath p) := inferInstanceAs (Decidable (∀ _ ∈ p, _))

/-- `validSource` -/
def validSource (p : FsPath) : Op Unit := do
  require (isSdPath p ∧ p ≠ []) "Ruta fuera de la microSD"
  let exists_ ← value (← fs (.exists_ p)) (text p)
  require (exists_ = true) ("Archivo no encontrado: " ++ text p)

/-! ## `countTree` and `removeTree` -/

/-- `countTree` -/
def countTree : ℕ → FsPath → Op ℕ
  | 0, source => throw (text source)
  | depth + 1, source => do
    notCancelled
    let type ← value (← fs (.status source)) (text source)
    if type then
      let (entries, complete) ← fs (.directory_iterator source)
      let counts ← collect (fun p => do
        let n ← countTree depth p
        pure (some n)) entries
      require (complete = true) (lastName source)
      pure (1 + counts.sum)
    else pure 1

/-- The end of `removeTree`: the entry itself. -/
def removeEntry (source : FsPath) : Op Unit := do
  notCancelled
  let _ ← value (← fs (.remove source)) (text source)

/-- `removeTree` -/
def removeTree : ℕ → FsPath → Op Unit
  | 0, source => throw (text source)
  | depth + 1, source => do
    notCancelled
    let type ← value (← fs (.status source)) (text source)
    if type then
      let (children, complete) ← fs (.directory_iterator source)
      require (complete = true) (text source)
      forEach (removeTree depth) children
    removeEntry source

/-- `run` for a job that deletes: what it returns when it does not throw. -/
def deleteJob (depth : ℕ) (sources : List FsPath) : Op String := do
  require (sources ≠ []) "No hay archivos seleccionados"
  forEach (fun source => do
    validSource source
    let _ ← countTree depth source) sources
  forEach (fun source => do
    notCancelled
    removeTree depth source) sources
  pure "Elementos eliminados"

/-! ## What they do -/

section specs

variable {fold : Name → Name} {F : Prop} {v : Volume fold} {α : Type}

theorem wpx_fs {fn : Fn} {Q : fn.Res → Volume fold → Prop} {E : String → Volume fold → Prop} :
    wpx (card F) Q E (fs fn) v ↔ ∀ r v', card F v fn r v' → Q r v' := wpx_call

theorem wpx_value {r : Option α} {message : String} {Q : α → Volume fold → Prop}
    {E : String → Volume fold → Prop} :
    wpx (card F) Q E (value r message) v ↔ (∀ a, r = some a → Q a v) ∧ (r = none → E message v) := by
  cases r with
  | none => simp [value]
  | some a => simp [value]

theorem wpx_notCancelled {Q : Unit → Volume fold → Prop} {E : String → Volume fold → Prop}
    (hQ : Q () v) (hE : F → ∀ e, E e v) : wpx (card F) Q E notCancelled v := by
  rw [notCancelled, wpx_bind, wpx_fs]
  intro r v' h
  obtain ⟨rfl, hr⟩ := card_load h
  rw [wpx_require]
  refine ⟨fun _ => hQ, fun hcancel => hE (hr ?_) _⟩
  simpa using hcancel

/-- The tree at and below `q` has less than `n` levels. -/
def Volume.Levels (v : Volume fold) (q : FsPath) (n : ℕ) : Prop :=
  ∀ r, q <+: r → v.tree.get r ≠ none → r.length < q.length + n

theorem Volume.Levels.child {q : FsPath} {n : ℕ} {k : Name} (h : v.Levels q (n + 1)) :
    v.Levels (q ++ [k]) n := by
  intro r hr hget
  have hlen := h r ((List.prefix_append q [k]).trans hr) hget
  rw [List.length_append, List.length_singleton]
  omega

theorem Volume.Levels.of_root {q : FsPath} {n : ℕ} (h : v.Levels [] n) : v.Levels q n := by
  intro r _ hr
  have hlen := h r List.nil_prefix hr
  rw [List.length_nil] at hlen
  omega

/-- Every card has a bound. -/
theorem Volume.exists_levels (v : Volume fold) : ∃ n, v.Levels [] n := by
  have hbound : ∀ l : List FsPath, ∃ n, ∀ r ∈ l, r.length < n := by
    intro l
    induction l with
    | nil => exact ⟨0, by simp⟩
    | cons p l ih =>
      obtain ⟨n, hn⟩ := ih
      refine ⟨max n (p.length + 1), fun r hr => ?_⟩
      rcases List.mem_cons.mp hr with rfl | hr
      · omega
      · have := hn r hr
        omega
  obtain ⟨n, hn⟩ := hbound v.tree.support
  refine ⟨n, fun r _ hr => ?_⟩
  rw [List.length_nil, Nat.zero_add]
  exact hn r (v.tree.mem_support r hr)

/-- `countTree` changes nothing, and it fails only if a call does, or nothing is there. -/
theorem countTree_spec (depth : ℕ) (p : FsPath) :
    wpx (card F) (fun _ v' => v' = v)
      (fun _ v' => v' = v ∧ (F ∨ v.tree.get (key fold p) = none ∨ ¬ v.Levels (key fold p) depth))
      (countTree depth p) v := by
  induction depth generalizing p with
  | zero =>
    rw [countTree, wpx_throw]
    by_cases hnone : v.tree.get (key fold p) = none
    · exact ⟨rfl, .inr (.inl hnone)⟩
    · refine ⟨rfl, .inr (.inr fun hlevels => ?_)⟩
      exact absurd (hlevels _ (List.prefix_refl _) hnone) (Nat.lt_irrefl _)
  | succ depth ih =>
    rw [countTree, wpx_bind]
    refine wpx_notCancelled ?_ (fun hF _ => ⟨rfl, .inl hF⟩)
    rw [wpx_bind, wpx_fs]
    intro r v' h
    obtain ⟨rfl, hr⟩ := card_status h
    rw [wpx_bind, wpx_value]
    have hkind : r = none → F ∨ v'.tree.get (key fold p) = none := by
      rintro rfl
      rcases hr with hr | ⟨hF, -⟩
      · exact .inr (Option.map_eq_none_iff.mp hr.symm)
      · exact .inl hF
    refine ⟨fun type htype => ?_, fun hnone => ⟨rfl, ?_⟩⟩
    · cases type with
      | false =>
        rw [if_neg (by simp), wpx_pure]
      | true =>
        rw [if_pos rfl, wpx_bind, wpx_fs]
        intro r₂ v₂ h₂
        obtain ⟨rfl, hsub, -, hfail⟩ := card_directory_iterator h₂
        have hdir : F ∨ v₂.kind p = some true := by
          rcases hr with hr | ⟨hF, hr⟩
          · exact .inr (hr.symm.trans htype)
          · exact .inl hF
        rw [wpx_bind]
        refine wpx_collect (fun s => s = v₂) (fun _ _ => True) r₂.1 ?_ ?_ rfl
        -- a child lies one level deeper
        · rintro c hc s rfl
          rw [wpx_bind]
          refine wpx_conseq (ih c) (fun n s' hs' => ?_) (fun e s' hs' => ?_)
          · rw [wpx_pure]
            exact ⟨hs', trivial⟩
          · obtain ⟨k, hk, rfl⟩ := Volume.mem_children.mp (hsub.subset hc)
            rw [Volume.key_child hk] at hs'
            refine ⟨hs'.1, ?_⟩
            rcases hs'.2 with hF | hnone | hlevels
            · exact .inl hF
            · exact absurd hnone hk
            · exact .inr (.inr fun h => hlevels h.child)
        · rintro counts s rfl - -
          rw [wpx_bind, wpx_require]
          refine ⟨fun _ => by rw [wpx_pure], fun hnot => ⟨rfl, ?_⟩⟩
          rcases hfail (by simpa using hnot) with hF | hnodir
          · exact .inl hF
          · rcases hdir with hF | hdir
            · exact .inl hF
            · exact absurd hdir hnodir
    · rcases hkind hnone with hF | hn
      · exact .inl hF
      · exact .inr (.inl hn)

/-- Places of one directory do not lie below each other. -/
private theorem eq_of_prefix_siblings {q : FsPath} {k l : Name} (h : q ++ [k] <+: q ++ [l]) :
    k = l := by
  have heq := h.eq_of_length (by simp)
  simpa using heq

/-- Where nothing is left below an entry, the entry is deleted, or it stays and the call failed. -/
theorem remove_last {p : FsPath} {v v' v'' : Volume fold} {r : Option Bool}
    (h : v.Removed v' fun q => key fold p <+: q ∧ q ≠ key fold p)
    (hr : card F v' (.remove p) r v'') :
    (∃ b, r = some b ∧ v.Removed v'' (key fold p <+: ·) ∧
      (b = false → v.tree.get (key fold p) = none)) ∨
    (r = none ∧ v'' = v' ∧ (F ∨ key fold p = [])) := by
  have hchildless : v'.tree.childless (key fold p) = true := by
    rw [FileTree.childless_iff]
    intro k
    apply Volume.at_eq_none.mp
    exact h.none_of _ ⟨List.prefix_append _ _, by simp⟩
  -- once the entry itself is gone as well, everything is
  have hdone : ∀ v'', (∀ q, v''.at_ q = if q = key fold p then none else v'.at_ q) →
      v.Removed v'' (key fold p <+: ·) := by
    intro v'' hat
    constructor
    · intro q hq
      rw [hat q]
      by_cases hqp : q = key fold p
      · rw [if_pos hqp]
      · rw [if_neg hqp]
        exact h.none_of q ⟨hq, hqp⟩
    · intro q hq
      rw [hat q, if_neg (fun hqp => hq (by rw [hqp]))]
      exact h.kept q fun hx => hq hx.1
  rcases card_remove hr with ⟨rfl, rfl⟩ | ⟨hF, rfl, rfl⟩
  · rcases v'.remove_cases p with ⟨h1, -, hat⟩ | ⟨h1, hnone, hsame⟩ | ⟨h1, hsame, -, hno⟩
    · left
      exact ⟨true, h1, hdone _ hat, fun hf => by cases hf⟩
    · left
      refine ⟨false, h1, hdone _ fun q => ?_, fun _ => ?_⟩
      · rw [hsame]
        by_cases hqp : q = key fold p
        · rw [if_pos hqp, hqp, Volume.at_eq_none.mpr hnone]
        · rw [if_neg hqp]
      · rwa [h.get fun hx => hx.2 rfl] at hnone
    · right
      refine ⟨h1, hsame, .inr ?_⟩
      by_contra hroot
      exact hno ⟨hroot, hchildless⟩
  · right
    exact ⟨rfl, rfl, .inl hF⟩

/-- The end of `removeTree`, where nothing is left below the entry. -/
theorem removeEntry_spec {p : FsPath} {v v' : Volume fold}
    (h : v.Removed v' fun q => key fold p <+: q ∧ q ≠ key fold p) :
    wpx (card F) (fun _ v'' => v.Removed v'' (key fold p <+: ·))
      (fun _ v'' => (∀ q, ¬ key fold p <+: q → v''.at_ q = v.at_ q) ∧ (F ∨ key fold p = []))
      (removeEntry p) v' := by
  have hkept : ∀ q, ¬ key fold p <+: q → v'.at_ q = v.at_ q :=
    fun q hq => h.kept q fun hx => hq hx.1
  rw [removeEntry, wpx_bind]
  refine wpx_notCancelled ?_ (fun hF _ => ⟨hkept, .inl hF⟩)
  rw [wpx_bind, wpx_fs]
  intro r v'' hr
  rw [wpx_bind, wpx_value]
  rcases remove_last h hr with ⟨b, rfl, hremoved, -⟩ | ⟨rfl, rfl, hstop⟩
  · refine ⟨fun _ _ => ?_, fun hn => absurd hn (by simp)⟩
    rwa [wpx_pure]
  · exact ⟨fun _ ha => absurd ha (by simp), fun _ => ⟨hkept, hstop⟩⟩

/-- What is left when some children were deleted. -/
def ChildrenGone (v : Volume fold) (l : List FsPath) (v' : Volume fold) : Prop :=
  v.Removed v' fun q => ∃ c ∈ l, key fold c <+: q

/-- Where all children of a directory are gone, all that stood below it is. -/
theorem removed_below_of_children {p : FsPath} {l : List FsPath} {v' : Volume fold}
    (hperm : l.Perm (v.children p)) (hr : ChildrenGone v l v') :
    v.Removed v' fun q => key fold p <+: q ∧ q ≠ key fold p := by
  constructor
  · rintro q ⟨⟨s, rfl⟩, hne⟩
    cases s with
    | nil => exact absurd (List.append_nil _) hne
    | cons k s =>
      by_cases hget : v.tree.get (key fold p ++ [k]) = none
      · -- there was no such child
        by_cases hgone : ∃ c ∈ l, key fold c <+: key fold p ++ k :: s
        · exact hr.none_of _ hgone
        · rw [hr.kept _ hgone, Volume.at_eq_none, List.append_cons]
          exact FileTree.get_append_of_none hget s
      · refine hr.none_of _ ⟨_, hperm.mem_iff.mpr (Volume.mem_children.mpr ⟨k, hget, rfl⟩), ?_⟩
        rw [Volume.key_child hget]
        exact ⟨s, by simp⟩
  · intro q hq
    refine hr.kept q fun ⟨c, hc, hcq⟩ => hq ?_
    obtain ⟨k, hk, rfl⟩ := Volume.mem_children.mp (hperm.mem_iff.mp hc)
    rw [Volume.key_child hk] at hcq
    refine ⟨(List.prefix_append _ _).trans hcq, ?_⟩
    rintro rfl
    have hlen := hcq.length_le
    rw [List.length_append, List.length_singleton] at hlen
    exact absurd hlen (Nat.not_succ_le_self _)

/-- `removeTree` deletes at and below its path only; where it returns, all of that, and it throws
only if a call fails, or for want of something to delete, or of depth. -/
theorem removeTree_spec (depth : ℕ) (p : FsPath) (v : Volume fold) :
    wpx (card F) (fun _ v' => v.Removed v' (key fold p <+: ·))
      (fun _ v' => (∀ q, ¬ key fold p <+: q → v'.at_ q = v.at_ q) ∧
        (F ∨ v.tree.get (key fold p) = none ∨ key fold p = [] ∨ ¬ v.Levels (key fold p) depth))
      (removeTree depth p) v := by
  induction depth generalizing p v with
  | zero =>
    rw [removeTree, wpx_throw]
    refine ⟨fun _ _ => rfl, ?_⟩
    by_cases hnone : v.tree.get (key fold p) = none
    · exact .inr (.inl hnone)
    · refine .inr (.inr (.inr fun hlevels => ?_))
      exact absurd (hlevels _ (List.prefix_refl _) hnone) (Nat.lt_irrefl _)
  | succ depth ih =>
    have hlast : ∀ v', v.Removed v' (fun q => key fold p <+: q ∧ q ≠ key fold p) →
        wpx (card F) (fun _ v' => v.Removed v' (key fold p <+: ·))
          (fun _ v' => (∀ q, ¬ key fold p <+: q → v'.at_ q = v.at_ q) ∧
            (F ∨ v.tree.get (key fold p) = none ∨ key fold p = [] ∨
              ¬ v.Levels (key fold p) (depth + 1))) (removeEntry p) v' := by
      intro v' hremoved
      refine wpx_conseq (removeEntry_spec hremoved) (fun _ _ h => h) (fun _ _ h => ⟨h.1, ?_⟩)
      rcases h.2 with hF | hroot
      · exact .inl hF
      · exact .inr (.inr (.inl hroot))
    rw [removeTree, wpx_bind]
    refine wpx_notCancelled ?_ (fun hF _ => ⟨fun _ _ => rfl, .inl hF⟩)
    rw [wpx_bind, wpx_fs]
    intro r v₁ h
    obtain ⟨rfl, hr⟩ := card_status h
    rw [wpx_bind, wpx_value]
    refine ⟨fun type htype => ?_, fun hnone => ⟨fun _ _ => rfl, ?_⟩⟩
    · have hkind : v₁.kind p = some type := by
        rcases hr with hr | ⟨-, hr⟩
        · exact hr.symm.trans htype
        · rw [htype] at hr
          cases hr
      cases type with
      | false =>
        -- nothing stands below what is no directory
        rw [if_neg (by simp)]
        apply hlast
        refine ⟨fun q hq => ?_, fun _ _ => rfl⟩
        obtain ⟨⟨s, rfl⟩, hne⟩ := hq
        apply Volume.at_eq_none.mpr
        apply FileTree.get_append_of_not_dir
        · intro hdir
          rw [Volume.kind, hdir] at hkind
          cases hkind
        · rintro rfl
          exact hne (List.append_nil _)
      | true =>
        rw [if_pos rfl, wpx_bind, wpx_fs]
        intro r₂ v₂ h₂
        obtain ⟨rfl, -, hall, hfail⟩ := card_directory_iterator h₂
        rw [wpx_bind, wpx_require]
        refine ⟨fun hcomplete => ?_, fun hnot => ⟨fun _ _ => rfl, ?_⟩⟩
        · obtain ⟨-, hperm⟩ := hall hcomplete
          have hchild : ∀ c ∈ r₂.1, ∃ k, v₂.tree.get (key fold p ++ [k]) ≠ none ∧
              key fold c = key fold p ++ [k] := by
            intro c hc
            obtain ⟨k, hk, rfl⟩ := Volume.mem_children.mp (hperm.mem_iff.mp hc)
            exact ⟨k, hk, Volume.key_child hk⟩
          have hnodup : (r₂.1.map (key fold)).Nodup :=
            (hperm.map (key fold)).nodup_iff.mpr Volume.nodup_children
          rw [wpx_bind]
          refine wpx_forEach (fun l v' => ChildrenGone v₂ l v') r₂.1 ?_ ?_ ?_
          · -- one more child
            intro pre c post v' hl hinv
            obtain ⟨k, hk, hck⟩ := hchild c (by rw [hl]; simp)
            have hfresh : ¬ ∃ d ∈ pre, key fold d <+: key fold c := by
              rintro ⟨d, hd, hdc⟩
              obtain ⟨j, -, hdj⟩ := hchild d (by rw [hl]; simp [hd])
              rw [hdj, hck] at hdc
              rw [hl, List.map_append, List.map_cons, List.nodup_append] at hnodup
              refine hnodup.2.2 (key fold d) (List.mem_map_of_mem hd) (key fold c)
                List.mem_cons_self ?_
              rw [hdj, hck, eq_of_prefix_siblings hdc]
            refine wpx_conseq (ih c v') (fun _ v'' h => ?_) (fun _ v'' h => ?_)
            · -- what was below this child is gone as well
              constructor
              · rintro q ⟨d, hd, hdq⟩
                rcases List.mem_append.mp hd with hd | hd
                · by_cases hcq : key fold c <+: q
                  · exact h.none_of q hcq
                  · rw [h.kept q hcq]
                    exact hinv.none_of q ⟨d, hd, hdq⟩
                · rw [List.mem_singleton.mp hd] at hdq
                  exact h.none_of q hdq
              · intro q hq
                rw [h.kept q fun hcq => hq ⟨c, by simp, hcq⟩]
                exact hinv.kept q fun ⟨d, hd, hdq⟩ => hq ⟨d, by simp [hd], hdq⟩
            · refine ⟨fun q hq => ?_, ?_⟩
              · have hnot : ∀ d ∈ pre ++ c :: post, ¬ key fold d <+: q := by
                  intro d hd hdq
                  obtain ⟨j, -, hdj⟩ := hchild d (by rw [hl]; exact hd)
                  exact hq ((List.prefix_append _ [j]).trans (hdj ▸ hdq))
                rw [h.1 q (hnot c (by simp)), hinv.kept q]
                rintro ⟨d, hd, hdq⟩
                exact hnot d (by simp [hd]) hdq
              · rcases h.2 with hF | hnone | hroot | hlevels
                · exact .inl hF
                · rw [hinv.get hfresh, hck] at hnone
                  exact absurd hnone hk
                · rw [hck] at hroot
                  exact absurd hroot (by simp)
                · refine .inr (.inr (.inr fun hl => hlevels ?_))
                  rw [hck]
                  exact fun q hq hget => hl.child q hq (hinv.get_ne_none hget)
          · intro v' hinv
            exact hlast v' (removed_below_of_children hperm hinv)
          · exact ⟨fun q hq => by simp at hq, fun _ _ => rfl⟩
        · rcases hfail (by simpa using hnot) with hF | hnodir
          · exact .inl hF
          · exact absurd hkind hnodir
    · rcases hr with hr | ⟨hF, -⟩
      · exact .inr (.inl (Option.map_eq_none_iff.mp (hr.symm.trans hnone)))
      · exact .inl hF

/-- `validSource` looks only. -/
theorem validSource_spec (p : FsPath) (v : Volume fold) :
    wpx (card F) (fun _ v' => v' = v)
      (fun _ v' => v' = v ∧ (F ∨ ¬ (isSdPath p ∧ p ≠ []) ∨ v.tree.get (key fold p) = none))
      (validSource p) v := by
  rw [validSource, wpx_bind, wpx_require]
  refine ⟨fun _ => ?_, fun hno => ⟨rfl, .inr (.inl hno)⟩⟩
  rw [wpx_bind, wpx_fs]
  intro r v' h
  obtain ⟨rfl, hr⟩ := card_exists h
  rw [wpx_bind, wpx_value]
  refine ⟨fun b hb => ?_, fun hnone => ?_⟩
  · rw [wpx_require]
    refine ⟨fun _ => rfl, fun hno => ⟨rfl, .inr (.inr ?_)⟩⟩
    rcases hr with hr | ⟨-, hr⟩
    · rw [hb] at hr
      cases Option.some.inj hr
      simpa using hno
    · rw [hb] at hr
      cases hr
  · rcases hr with hr | ⟨hF, -⟩
    · rw [hnone] at hr
      cases hr
    · exact ⟨rfl, .inl hF⟩

/-- What a job that deletes needs to come to its end: sources on the card, none below another,
and a bound that is deep enough. -/
structure Deletable (v : Volume fold) (depth : ℕ) (sources : List FsPath) : Prop where
  some_source : sources ≠ []
  valid : ∀ s ∈ sources, isSdPath s ∧ s ≠ []
  there : ∀ s ∈ sources, v.tree.get (key fold s) ≠ none ∧ key fold s ≠ []
  levels : ∀ s ∈ sources, v.Levels (key fold s) depth
  apart : sources.Pairwise fun s t => ¬ key fold s <+: key fold t

/-- A job that deletes deletes at and below its sources only; where it returns, all of that. -/
theorem deleteJob_spec (depth : ℕ) (sources : List FsPath) (v : Volume fold) :
    wpx (card F) (fun _ v' => v.Removed v' fun q => ∃ s ∈ sources, key fold s <+: q)
      (fun _ v' => (∀ q, (∀ s ∈ sources, ¬ key fold s <+: q) → v'.at_ q = v.at_ q) ∧
        (F ∨ ¬ Deletable v depth sources))
      (deleteJob depth sources) v := by
  rw [deleteJob, wpx_bind, wpx_require]
  refine ⟨fun _ => ?_, fun hno => ⟨fun _ _ => rfl, .inr fun h => hno h.some_source⟩⟩
  rw [wpx_bind]
  refine wpx_forEach (fun _ v' => v' = v) sources ?_ ?_ rfl
  · -- looking at a source
    rintro pre p post v' hl rfl
    have hp : p ∈ sources := by simp [hl]
    rw [wpx_bind]
    refine wpx_conseq (validSource_spec p v') (fun _ v'' h => ?_) (fun _ v'' h => ?_)
    · subst h
      rw [wpx_bind]
      refine wpx_conseq (countTree_spec depth p) (fun n v' h => ?_) (fun _ v' h => ?_)
      · rwa [wpx_pure]
      · obtain ⟨rfl, h⟩ := h
        refine ⟨fun _ _ => rfl, ?_⟩
        rcases h with hF | hnone | hlevels
        · exact .inl hF
        · exact .inr fun h => (h.there p hp).1 hnone
        · exact .inr fun h => hlevels (h.levels p hp)
    · obtain ⟨rfl, h⟩ := h
      refine ⟨fun _ _ => rfl, ?_⟩
      rcases h with hF | hinvalid | hnone
      · exact .inl hF
      · exact .inr fun h => hinvalid (h.valid p hp)
      · exact .inr fun h => (h.there p hp).1 hnone
  · rintro v' rfl
    rw [wpx_bind]
    refine wpx_forEach (fun pre v'' => v'.Removed v'' fun q => ∃ s ∈ pre, key fold s <+: q) sources
      ?_ (fun v'' h => by rwa [wpx_pure]) ⟨fun q hq => by simp at hq, fun _ _ => rfl⟩
    -- deleting a source
    intro pre p post v'' hl hinv
    have hp : p ∈ sources := by simp [hl]
    have hframe : ∀ q, (∀ s ∈ sources, ¬ key fold s <+: q) → v''.at_ q = v'.at_ q := by
      intro q hq
      refine hinv.kept q fun ⟨s, hs, hsq⟩ => hq s ?_ hsq
      rw [hl]
      exact List.mem_append_left _ hs
    rw [wpx_bind]
    refine wpx_notCancelled ?_ (fun hF _ => ⟨hframe, .inl hF⟩)
    refine wpx_conseq (removeTree_spec depth p v'') (fun _ w h => ?_) (fun _ w h => ?_)
    · constructor
      · rintro q ⟨s, hs, hsq⟩
        rcases List.mem_append.mp hs with hs | hs
        · by_cases hpq : key fold p <+: q
          · exact h.none_of q hpq
          · rw [h.kept q hpq]
            exact hinv.none_of q ⟨s, hs, hsq⟩
        · rw [List.mem_singleton.mp hs] at hsq
          exact h.none_of q hsq
      · intro q hq
        rw [h.kept q fun hpq => hq ⟨p, by simp, hpq⟩]
        exact hinv.kept q fun ⟨s, hs, hsq⟩ => hq ⟨s, by simp [hs], hsq⟩
    · refine ⟨fun q hq => ?_, ?_⟩
      · rw [h.1 q (hq p hp), hframe q hq]
      · rcases h.2 with hF | hnone | hroot | hlevels
        · exact .inl hF
        · refine .inr fun hd => ?_
          have hapart := hd.apart
          rw [hl, List.pairwise_append] at hapart
          rw [hinv.get] at hnone
          · exact (hd.there p hp).1 hnone
          · rintro ⟨s, hs, hsp⟩
            exact hapart.2.2 s hs p List.mem_cons_self hsp
        · exact .inr fun hd => (hd.there p hp).2 hroot
        · exact .inr fun hd => hlevels fun q hq hget =>
            hd.levels p hp q hq (hinv.get_ne_none hget)

end specs

end Explorer
