/-
# File trees

A file tree over names `N` and contents `B`, given by what stands at each path.
A path is the list of names from the root.  The structure carries the two facts
every file system keeps: the root is a directory, and whatever stands below a
path stands below a directory.  Only finitely many paths are occupied; the list
`support` bounds them, so that a directory can be listed.

Nothing here depends on a particular file system.
-/
import Mathlib

/-- What stands at a path. -/
inductive Entry (B : Type) : Type where
  | dir : Entry B
  | file (b : B) : Entry B
  deriving DecidableEq

namespace Entry

/-- Whether an entry is a directory. -/
def isDir {B : Type} : Entry B → Bool
  | dir => true
  | file _ => false

end Entry

/-- A file tree: the entries by path, with the root and parent invariants. -/
structure FileTree (N B : Type) where
  get : List N → Option (Entry B)
  support : List (List N)
  mem_support : ∀ p, get p ≠ none → p ∈ support
  root : get [] = some .dir
  parent : ∀ p, p ≠ [] → get p ≠ none → get p.dropLast = some .dir

namespace FileTree

variable {N B : Type}

/-- The tree below `p`, by the paths relative to `p`. -/
def sub (t : FileTree N B) (p : List N) : List N → Option (Entry B) := fun r => t.get (p ++ r)

@[simp] theorem sub_apply (t : FileTree N B) (p r : List N) : t.sub p r = t.get (p ++ r) := rfl

theorem get_eq_sub (t : FileTree N B) (p : List N) : t.get p = t.sub p [] := by simp

/-- Below a path that is not a directory there is nothing. -/
theorem get_append_of_not_dir {t : FileTree N B} {p r : List N} (hp : t.get p ≠ some .dir)
    (hr : r ≠ []) : t.get (p ++ r) = none := by
  induction r using List.reverseRecOn with
  | nil => exact absurd rfl hr
  | append_singleton r k ih =>
    by_contra h
    have hpar := t.parent (p ++ (r ++ [k])) (by simp) h
    rw [← List.append_assoc, List.dropLast_concat] at hpar
    by_cases hr' : r = []
    · subst hr'
      exact hp (by simpa using hpar)
    · rw [ih hr'] at hpar
      cases hpar

/-- Below a free path there is nothing. -/
theorem get_append_of_none {t : FileTree N B} {p : List N} (hp : t.get p = none) (r : List N) :
    t.get (p ++ r) = none := by
  by_cases hr : r = []
  · subst hr; simpa using hp
  · exact get_append_of_not_dir (by rw [hp]; simp) hr

theorem sub_eq_none {t : FileTree N B} {p : List N} :
    t.sub p = (fun _ => none) ↔ t.get p = none :=
  ⟨fun h => by rw [get_eq_sub, h], fun h => funext fun r => get_append_of_none h r⟩

/-- A directory stands at every proper prefix of an occupied path. -/
theorem get_prefix_of_ne_none {t : FileTree N B} {p r : List N} (hr : r ≠ [])
    (h : t.get (p ++ r) ≠ none) : t.get p = some .dir := by
  by_contra hp
  exact h (get_append_of_not_dir hp hr)

/-! ## Changes confined to some subtrees -/

/-- Neither path lies below the other. -/
def Incomparable (p q : List N) : Prop := ¬ p <+: q ∧ ¬ q <+: p

instance [DecidableEq N] (p q : List N) : Decidable (Incomparable p q) :=
  inferInstanceAs (Decidable (_ ∧ _))

theorem Incomparable.not_prefix_append {p q : List N} (h : Incomparable p q) (r : List N) :
    ¬ p <+: q ++ r := fun hp =>
  (List.prefix_or_prefix_of_prefix hp (List.prefix_append q r)).elim h.1 h.2

theorem Incomparable.symm {p q : List N} (h : Incomparable p q) : Incomparable q p := ⟨h.2, h.1⟩

/-- The trees differ at most at and below the paths `ps`. -/
def Touch (ps : List (List N)) (t t' : FileTree N B) : Prop :=
  ∀ q, (∀ p ∈ ps, ¬ p <+: q) → t'.get q = t.get q

theorem Touch.trans {ps : List (List N)} {t₁ t₂ t₃ : FileTree N B} (h : Touch ps t₁ t₂)
    (h' : Touch ps t₂ t₃) : Touch ps t₁ t₃ := fun q hq => (h' q hq).trans (h q hq)

theorem Touch.mono {ps qs : List (List N)} {t t' : FileTree N B} (h : Touch ps t t')
    (hp : ∀ p ∈ ps, ∃ q ∈ qs, q <+: p) : Touch qs t t' := by
  intro x hx
  refine h x fun p hp' hpx => ?_
  obtain ⟨q, hq, hqp⟩ := hp p hp'
  exact hx q hq (hqp.trans hpx)

/-- A subtree apart from the touched ones is unchanged. -/
theorem Touch.sub {ps : List (List N)} {t t' : FileTree N B} (h : Touch ps t t') {w : List N}
    (hw : ∀ p ∈ ps, Incomparable p w) : t'.sub w = t.sub w :=
  funext fun r => h (w ++ r) fun p hp => (hw p hp).not_prefix_append r

theorem Touch.get {ps : List (List N)} {t t' : FileTree N B} (h : Touch ps t t') {w : List N}
    (hw : ∀ p ∈ ps, ¬ p <+: w) : t'.get w = t.get w := h w hw

private theorem prefix_of_prefix_dropLast {a q : List N} (h : a <+: q.dropLast) : a <+: q :=
  h.trans (List.dropLast_prefix q)

/-! ## Directory listings -/

variable [DecidableEq N]

/-- The names in a directory. -/
def names (t : FileTree N B) (p : List N) : List N :=
  (t.support.filterMap fun q =>
    if q.dropLast = p ∧ (t.get q).isSome then q.getLast? else none).dedup

theorem mem_names {t : FileTree N B} {p : List N} {k : N} :
    k ∈ t.names p ↔ t.get (p ++ [k]) ≠ none := by
  simp only [names, List.mem_dedup, List.mem_filterMap]
  constructor
  · rintro ⟨q, -, hq⟩
    split at hq
    · next h =>
      obtain ⟨hd, hs⟩ := h
      have hk : q.dropLast ++ [k] = q := List.dropLast_append_getLast? k hq
      rw [← hd, hk]
      exact Option.isSome_iff_ne_none.mp hs
    · cases hq
  · intro h
    exact ⟨p ++ [k], t.mem_support _ h, by simp [Option.isSome_iff_ne_none, h]⟩

theorem nodup_names (t : FileTree N B) (p : List N) : (t.names p).Nodup := List.nodup_dedup _

/-- Whether nothing stands directly below `p`. -/
def childless (t : FileTree N B) (p : List N) : Bool := t.names p = []

theorem childless_iff {t : FileTree N B} {p : List N} :
    t.childless p = true ↔ ∀ k, t.get (p ++ [k]) = none := by
  simp only [childless, decide_eq_true_eq, List.eq_nil_iff_forall_not_mem]
  exact forall_congr' fun k => by rw [mem_names, not_not]

theorem get_append_of_childless {t : FileTree N B} {p : List N} (h : t.childless p = true)
    {r : List N} (hr : r ≠ []) : t.get (p ++ r) = none := by
  cases r with
  | nil => exact absurd rfl hr
  | cons k r =>
    have := get_append_of_none (childless_iff.mp h k) r
    simpa using this

/-! ## The empty tree -/

/-- The tree with nothing but its root. -/
def empty : FileTree N B where
  get p := if p = [] then some .dir else none
  support := [[]]
  mem_support p hp := by
    by_cases hnil : p = []
    · simp [hnil]
    · exact absurd (if_neg hnil) hp
  root := if_pos rfl
  parent p hne hp := absurd (if_neg hne) hp

/-! ## Putting an entry -/

/-- Where an entry may be put: not at the root, in a directory, and not over a
directory. -/
def CanPut (t : FileTree N B) (p : List N) : Prop :=
  p ≠ [] ∧ t.get p.dropLast = some .dir ∧ t.get p ≠ some .dir

instance [DecidableEq B] (t : FileTree N B) (p : List N) : Decidable (t.CanPut p) :=
  inferInstanceAs (Decidable (_ ∧ _ ∧ _))

/-- The tree with `e` at `p`. -/
def put (t : FileTree N B) (p : List N) (e : Entry B) (h : t.CanPut p) : FileTree N B where
  get q := if q = p then some e else t.get q
  support := t.support.insert p
  mem_support q hq := by
    by_cases hqp : q = p
    · exact List.mem_insert_iff.mpr (.inl hqp)
    · exact List.mem_insert_iff.mpr (.inr (t.mem_support q (by simpa [hqp] using hq)))
  root := by rw [if_neg h.1.symm]; exact t.root
  parent q hq hne := by
    have hdir : t.get q.dropLast = some .dir := by
      by_cases hqp : q = p
      · exact hqp ▸ h.2.1
      · exact t.parent q hq (by simpa [hqp] using hne)
    have hqp : q.dropLast ≠ p := fun hqp => h.2.2 (hqp ▸ hdir)
    rw [if_neg hqp, hdir]

@[simp] theorem get_put (t : FileTree N B) (p q : List N) (e : Entry B) (h : t.CanPut p) :
    (t.put p e h).get q = if q = p then some e else t.get q := rfl

/-! ## Deleting an entry -/

/-- What may be deleted: anything but the root and a directory that is not empty. -/
def CanDel (t : FileTree N B) (p : List N) : Prop := p ≠ [] ∧ t.childless p = true

instance (t : FileTree N B) (p : List N) : Decidable (t.CanDel p) :=
  inferInstanceAs (Decidable (_ ∧ _))

/-- The tree without the entry at `p`. -/
def del (t : FileTree N B) (p : List N) (h : t.CanDel p) : FileTree N B where
  get q := if q = p then none else t.get q
  support := t.support.filter (· ≠ p)
  mem_support q hq := by
    by_cases hqp : q = p
    · simp [hqp] at hq
    · exact List.mem_filter.mpr ⟨t.mem_support q (by simpa [hqp] using hq), by simpa using hqp⟩
  root := by rw [if_neg h.1.symm]; exact t.root
  parent q hq hne := by
    by_cases hqp : q = p
    · simp [hqp] at hne
    · rw [if_neg hqp] at hne
      have hpar : q.dropLast ≠ p := by
        intro hpar
        refine hne (?_ : t.get q = none)
        rw [← List.dropLast_append_getLast hq, hpar]
        exact childless_iff.mp h.2 _
      rw [if_neg hpar]
      exact t.parent q hq hne

@[simp] theorem get_del (t : FileTree N B) (p q : List N) (h : t.CanDel p) :
    (t.del p h).get q = if q = p then none else t.get q := rfl

/-! ## Clearing a directory -/

/-- The tree without anything below `p`; `p` itself stays. -/
def clear (t : FileTree N B) (p : List N) : FileTree N B where
  get q := if p <+: q ∧ q ≠ p then none else t.get q
  support := t.support.filter fun q => ¬ (p <+: q ∧ q ≠ p)
  mem_support q hq := by
    by_cases hqp : p <+: q ∧ q ≠ p
    · simp [hqp] at hq
    · rw [if_neg hqp] at hq
      exact List.mem_filter.mpr ⟨t.mem_support q hq, decide_eq_true hqp⟩
  root := by
    rw [if_neg, t.root]
    rintro ⟨hp, hne⟩
    exact hne (List.prefix_nil.mp hp).symm
  parent q hq hne := by
    by_cases hqp : p <+: q ∧ q ≠ p
    · simp [hqp] at hne
    · rw [if_neg hqp] at hne
      have hpar : ¬ (p <+: q.dropLast ∧ q.dropLast ≠ p) := by
        rintro ⟨hp, -⟩
        refine hqp ⟨prefix_of_prefix_dropLast hp, ?_⟩
        rintro rfl
        have := hp.length_le
        have hlen := List.length_pos_iff.mpr hq
        rw [List.length_dropLast] at this
        omega
      rw [if_neg hpar]
      exact t.parent q hq hne

@[simp] theorem get_clear (t : FileTree N B) (p q : List N) :
    (t.clear p).get q = if p <+: q ∧ q ≠ p then none else t.get q := rfl

/-! ## Moving a subtree -/

/-- What may be moved where: an occupied path to a free one in a directory, and
not into itself. -/
def CanMove (t : FileTree N B) (src dst : List N) : Prop :=
  src ≠ [] ∧ dst ≠ [] ∧ t.get src ≠ none ∧ t.get dst = none ∧
    t.get dst.dropLast = some .dir ∧ ¬ src <+: dst

instance [DecidableEq B] (t : FileTree N B) (src dst : List N) : Decidable (t.CanMove src dst) :=
  inferInstanceAs (Decidable (_ ∧ _ ∧ _ ∧ _ ∧ _ ∧ _))

omit [DecidableEq N] in
theorem CanMove.not_below {t : FileTree N B} {src dst : List N} (h : t.CanMove src dst) :
    ¬ dst <+: src := by
  rintro ⟨r, rfl⟩
  exact h.2.2.1 (get_append_of_none h.2.2.2.1 r)

/-- The tree with the subtree at `src` moved to `dst`. -/
def move (t : FileTree N B) (src dst : List N) (h : t.CanMove src dst) : FileTree N B where
  get q := if dst <+: q then t.get (src ++ q.drop dst.length)
    else if src <+: q then none else t.get q
  support := t.support.map fun q => if src <+: q then dst ++ q.drop src.length else q
  mem_support q hq := by
    by_cases hd : dst <+: q
    · rw [if_pos hd] at hq
      obtain ⟨r, rfl⟩ := hd
      rw [List.drop_left] at hq
      exact List.mem_map.mpr ⟨_, t.mem_support _ hq, by simp⟩
    · rw [if_neg hd] at hq
      by_cases hs : src <+: q
      · simp [hs] at hq
      · rw [if_neg hs] at hq
        exact List.mem_map.mpr ⟨q, t.mem_support _ hq, by simp [hs]⟩
  root := by
    rw [if_neg, if_neg, t.root]
    · exact fun hs => h.1 (List.prefix_nil.mp hs)
    · exact fun hd => h.2.1 (List.prefix_nil.mp hd)
  parent q hq hne := by
    by_cases hd : dst <+: q
    · rw [if_pos hd] at hne
      obtain ⟨r, rfl⟩ := hd
      rw [List.drop_left] at hne
      by_cases hr : r = []
      · subst hr
        have hnd : ¬ dst <+: dst.dropLast := fun hp => by
          have hlen := hp.length_le
          have : dst.length ≠ 0 := by simpa using h.2.1
          simp at hlen
          omega
        have hns : ¬ src <+: dst.dropLast := fun hp => h.2.2.2.2.2 (prefix_of_prefix_dropLast hp)
        rw [List.append_nil, if_neg hnd, if_neg hns]
        exact h.2.2.2.2.1
      · rw [List.dropLast_append_of_ne_nil hr, if_pos (List.prefix_append _ _), List.drop_left,
          ← List.dropLast_append_of_ne_nil hr]
        exact t.parent _ (by simp [hr]) hne
    · rw [if_neg hd] at hne
      by_cases hs : src <+: q
      · simp [hs] at hne
      · rw [if_neg hs] at hne
        rw [if_neg fun hp => hd (prefix_of_prefix_dropLast hp),
          if_neg fun hp => hs (prefix_of_prefix_dropLast hp)]
        exact t.parent q hq hne

theorem get_move (t : FileTree N B) (src dst q : List N) (h : t.CanMove src dst) :
    (t.move src dst h).get q = if dst <+: q then t.get (src ++ q.drop dst.length)
      else if src <+: q then none else t.get q := rfl

/-- The moved subtree arrives unchanged. -/
@[simp] theorem sub_move_dst (t : FileTree N B) (src dst : List N) (h : t.CanMove src dst) :
    (t.move src dst h).sub dst = t.sub src := by
  funext r
  simp [get_move]

/-- It leaves nothing behind. -/
theorem get_move_src (t : FileTree N B) (src dst : List N) (h : t.CanMove src dst) :
    (t.move src dst h).get src = none := by
  simp [get_move, h.not_below]

/-- Elsewhere nothing changes. -/
theorem get_move_other (t : FileTree N B) (src dst : List N) (h : t.CanMove src dst)
    {q : List N} (hd : ¬ dst <+: q) (hs : ¬ src <+: q) :
    (t.move src dst h).get q = t.get q := by
  simp [get_move, hd, hs]

theorem touch_move (t : FileTree N B) (src dst : List N) (h : t.CanMove src dst) :
    Touch [src, dst] t (t.move src dst h) := fun _ hq =>
  get_move_other t src dst h (hq dst (by simp)) (hq src (by simp))

end FileTree
