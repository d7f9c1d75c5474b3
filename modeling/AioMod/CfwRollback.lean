/-
# The rollback of the CFW updater

From any point where each original is in the backup, at its place, or back at its root
path, `rollback_transaction` keeps it that way, and in the end every original is back.
-/
import AioMod.CfwBackup

namespace CfwUpdater

open FileTree (Incomparable Touch)

section rollback

variable {u : Update} {σ σ' : SD} {depth : ℕ}

/-- Everything can be undone. -/
def Undoing (u : Update) (S : Snapshot) : Prop := ∀ i, u.Undoable i (S.item i)

theorem Undoing.phase_none {S : Snapshot} (h : Undoing u S) : u.Phase S none := fun _ _ => h

/-- An original in the backup, while the root path changes. -/
theorem Update.Kept.of_touch {i : Managed} {ps : List FsPath} (h : u.Kept i (item u.patched σ i))
    (ht : Touch (rootPath i.name :: ps) σ σ') (hn : ∀ p ∈ ps, Neutral u.patched p) :
    u.Kept i (item u.patched σ' i) := by
  obtain ⟨hb, hm, ho⟩ := item_touch_root_neutral (u := u) ht hn
  refine ⟨by rw [hb, hm]; exact h.kept, fun hs => ?_⟩
  rw [ho hs]
  exact h.original hs

theorem Update.Restored.of_touch {i : Managed} (h : u.Restored i (item u.patched σ i))
    (ht : Touch [rootPath i.name] σ σ')
    (hr : (item u.patched σ' i).root = (item u.patched σ i).root) :
    u.Restored i (item u.patched σ' i) := by
  obtain ⟨hb, hm, ho⟩ := item_touch_root (u := u) ht
  refine ⟨by rw [hr]; exact h.root, by rw [hb]; exact h.backup, by rw [hm]; exact h.marked,
    fun hs => ?_⟩
  rw [ho hs]
  exact h.original hs

theorem root_empty_of_pruned {i : Managed} (h : Pruned (rootPath i.name) σ σ')
    (hr : (item u.patched σ i).root = Tree.empty) : (item u.patched σ' i).root = Tree.empty :=
  get_root.mpr (h.get_none (get_root.mp hr))

/-- What the first loop of the rollback keeps: of the first items the absent ones are
restored. -/
structure Clearing (u : Update) (pre : List Managed) (S : Snapshot) : Prop where
  undoing : Undoing u S
  absent : ∀ i ∈ pre, u.original i = Tree.empty → u.Restored i (S.item i)

theorem Clearing.set {pre : List Managed} {S : Snapshot} {i : Managed} {x : Item}
    (h : Clearing u pre S) (hx : u.Undoable i x)
    (ha : i ∈ pre → u.original i = Tree.empty → u.Restored i x) : Clearing u pre (S.set i x) := by
  refine ⟨Snapshot.forall_set (fun j _ => h.undoing j) hx, fun j hj hO => ?_⟩
  rw [Snapshot.set_item]
  split
  · next hji =>
    subst hji
    exact ha hj hO
  · exact h.absent j hj hO

theorem Clearing.snoc {pre : List Managed} {S : Snapshot} {i : Managed} (h : Clearing u pre S)
    (hi : u.original i = Tree.empty → u.Restored i (S.item i)) : Clearing u (pre ++ [i]) S := by
  refine ⟨h.undoing, fun j hj hO => ?_⟩
  rcases List.mem_append.mp hj with hj | hj
  · exact h.absent j hj hO
  · rw [List.mem_singleton] at hj
    subst hj
    exact hi hO

/-- An item that the first loop finds backed up or marked: its root path is cleared and
the item can still be undone. -/
theorem Clearing.pruned {pre : List Managed} {i : Managed}
    (h : Holds u .ROLLBACK_IN_PROGRESS (Clearing u pre) σ)
    (hfound : (item u.patched σ i).backup ≠ Tree.empty ∨ (item u.patched σ i).marked = true)
    (hp : Pruned (rootPath i.name) σ σ') :
    Holds u .ROLLBACK_IN_PROGRESS (Clearing u pre) σ' := by
  have hx : u.Undoable i (item u.patched σ' i) ∧
      (u.Restored i (item u.patched σ i) → u.Restored i (item u.patched σ' i)) := by
    have hres : u.Restored i (item u.patched σ i) → u.Restored i (item u.patched σ' i) := by
      intro hr
      have hO : u.original i = Tree.empty := by
        by_contra hO
        rcases hfound with hb | hm
        · exact hb hr.backup
        · rw [hr.marked hO] at hm
          cases hm
      refine hr.of_touch hp.touch ?_
      rw [root_empty_of_pruned hp (hr.root.trans hO), hr.root, hO]
    refine ⟨?_, hres⟩
    rcases h.snap.undoing i with hk | hr | ha
    · exact .inl (hk.of_touch hp.touch (by simp))
    · exact .inr (.inl (hres hr))
    · rcases hfound with hb | hm
      · exact absurd ha.backup hb
      · rw [show (item u.patched σ i).marked = false from ha.marked] at hm
        cases hm
  exact h.set (touch_mem hp.touch (by simp [places]))
    (h.snap.set hx.1 fun hi hO => hx.2 (h.snap.absent i hi hO))

/-- After its root path is cleared, an originally absent item is restored. -/
theorem restored_of_cleared {i : Managed} (h : u.Undoable i (item u.patched σ i))
    (hO : u.original i = Tree.empty) (hr : (item u.patched σ i).root = Tree.empty) :
    u.Restored i (item u.patched σ i) := by
  rcases h with hk | hr | ha
  · rcases hk.kept with ⟨hne, -⟩ | ⟨-, hb, -⟩
    · exact absurd hO hne
    · exact ⟨hr.trans hO.symm, hb, fun h => absurd hO h, hk.original⟩
  · exact hr
  · exact absurd hO ha.present

theorem wp_remove_path_silent {p : FsPath} (hp : p ≠ []) (σ : SD) :
    wp (payload copiesMayFail) (Pruned p σ) (fun r σ' => r = .FR_OK ∧ σ'.get p = none)
      (remove_path_silent depth p) σ :=
  wp_removePath_works not_mayFail_copiesMayFail rfl depth hp σ

/-- The first loop. -/
theorem wp_rollback_loop (items : List Managed) {pre : List Managed} {res : FRESULT}
    (h : Holds u .ROLLBACK_IN_PROGRESS (Clearing u pre) σ) :
    wp (payload copiesMayFail) (Inv u)
      (fun r σ' => Holds u .ROLLBACK_IN_PROGRESS (Undoing u) σ' ∧
        (r = .FR_OK → Holds u .ROLLBACK_IN_PROGRESS (Clearing u (pre ++ items)) σ'))
      (rollback_transaction.loop depth items res) σ := by
  have hinv : ∀ {pre σ}, Holds u .ROLLBACK_IN_PROGRESS (Clearing u pre) σ → Inv u σ :=
    fun h => h.inv h.snap.undoing
  have hun : ∀ {pre σ}, Holds u .ROLLBACK_IN_PROGRESS (Clearing u pre) σ →
      Holds u .ROLLBACK_IN_PROGRESS (Undoing u) σ := fun h => h.imp fun hS => hS.undoing
  induction items generalizing pre res σ with
  | nil => exact ⟨hinv h, hun h, fun _ => by simpa using h⟩
  | cons i items ih =>
    rw [rollback_transaction.loop]
    simp only [Prog.bind_eq, Prog.pure_eq]
    have happ : pre ++ i :: items = pre ++ [i] ++ items := by simp
    rw [happ]
    refine wp_bind.mpr (wp_probe (hinv h) fun has_backup hb => ?_)
    refine wp_bind.mpr (wp_probe (hinv h) fun was_absent hm => ?_)
    replace hb : has_backup = true ↔ (item u.patched σ i).backup ≠ Tree.empty :=
      hb.trans (not_congr get_backup.symm)
    replace hm : was_absent = true ↔ (item u.patched σ i).marked = true :=
      hm.trans (by simp [item, Option.isSome_iff_ne_none])
    by_cases hfound : has_backup = true ∨ was_absent = true
    swap
    · -- neither backed up nor marked: the original is at its place
      rw [if_pos (by simpa using hfound)]
      refine ih (h.imp fun hS => hS.snoc fun hO => ?_)
      rw [hb, hm] at hfound
      push Not at hfound
      rcases hS.undoing i with hk | hr | ha
      · rcases hk.kept with ⟨hne, -⟩ | ⟨-, -, hmk⟩
        · exact absurd hO hne
        · exact absurd hmk hfound.2
      · exact hr
      · exact absurd hO ha.present
    rw [if_neg (by rcases hfound with h | h <;> simp [h])]
    have hprune : ∀ τ, Pruned (rootPath i.name) σ τ →
        Holds u .ROLLBACK_IN_PROGRESS (Clearing u pre) τ := fun τ hp =>
      Clearing.pruned h (hfound.imp hb.mp hm.mp) hp
    refine wp_bind.mpr (wp_conseq (wp_remove_path_silent (by simp [rootPath, CombinePaths]) σ)
      (fun τ hp => hinv (hprune τ hp)) ?_)
    rintro _ τ hp ⟨rfl, hgone⟩
    have hτ := hprune τ hp
    rw [if_neg (not_not.mpr rfl)]
    -- an item that was not there before is back when its place is empty
    have hcleared : u.original i = Tree.empty → u.Restored i (item u.patched τ i) := fun hO =>
      restored_of_cleared (hτ.snap.undoing i) hO (get_root.mpr hgone)
    by_cases hmark : (!has_backup && was_absent) = true
    swap
    · rw [if_neg hmark]
      exact ih (hτ.imp fun hS => hS.snoc hcleared)
    rw [if_pos hmark]
    -- marked and not backed up: nothing stood there before
    have hO : u.original i = Tree.empty := by
      simp only [Bool.and_eq_true, Bool.not_eq_true', ← Bool.not_eq_true, hb, hm] at hmark
      rcases h.snap.undoing i with hk | hr | ha
      · rcases hk.kept with ⟨hne, hbk, -⟩ | ⟨hO, -⟩
        · rw [show (item u.patched σ i).backup = u.original i from hbk] at hmark
          exact absurd hne hmark.1
        · exact hO
      · by_contra hne
        rw [show (item u.patched σ i).marked = false from hr.marked hne] at hmark
        cases hmark.2
      · rw [show (item u.patched σ i).marked = false from ha.marked] at hmark
        cases hmark.2
    refine wp_bind.mpr (wp_at (hinv hτ) fun res τ₂ hunlink => ?_)
    have hnext : Holds u .ROLLBACK_IN_PROGRESS (Clearing u (pre ++ [i])) τ₂ := by
      rcases payload_f_unlink hunlink with ⟨-, -, -, hget⟩ | ⟨-, rfl, -⟩
      · have ht : Touch [absent_marker_path i] τ τ₂ := (Pruned.of_get hget).touch
        obtain ⟨hr, hbk, ho⟩ := item_touch_marker (u := u) ht
        have hres := hcleared hO
        have hx : u.Restored i (item u.patched τ₂ i) :=
          ⟨by rw [hr]; exact hres.root, by rw [hbk]; exact hres.backup, fun h => absurd hO h,
            fun hs => by rw [ho]; exact hres.original hs⟩
        refine hτ.set (i := i) (touch_mem ht (by simp [places])) ?_
        refine (hτ.snap.set (.inr (.inl hx)) fun _ _ => hx).snoc fun _ => ?_
        rw [Snapshot.set_item, if_pos rfl]
        exact hx
      · exact hτ.imp fun hS => hS.snoc hcleared
    refine ⟨hinv hnext, ?_⟩
    by_cases hres : res ≠ .FR_OK ∧ res ≠ .FR_NO_FILE
    · rw [if_pos hres]
      exact ⟨hinv hnext, hun hnext, fun h => absurd h hres.1⟩
    · rw [if_neg hres]
      exact ih hnext

/-- What `restore_backup` keeps: the absent items are restored, and of the first ones
nothing is left in the backup. -/
structure Restoring (u : Update) (pre : List Managed) (S : Snapshot) : Prop where
  undoing : Undoing u S
  absent : ∀ i, u.original i = Tree.empty → u.Restored i (S.item i)
  done : ∀ i ∈ pre, (S.item i).backup = Tree.empty

theorem Restoring.set {pre : List Managed} {S : Snapshot} {i : Managed} {x : Item}
    (h : Restoring u pre S) (hO : u.original i ≠ Tree.empty) (hx : u.Undoable i x)
    (hb : i ∈ pre → x.backup = Tree.empty) : Restoring u pre (S.set i x) := by
  refine ⟨Snapshot.forall_set (fun j _ => h.undoing j) hx, fun j hj => ?_, fun j hj => ?_⟩
  · rw [Snapshot.set_item, if_neg (fun hji : j = i => hO (hji ▸ hj))]
    exact h.absent j hj
  · rw [Snapshot.set_item]
    split
    · next hji =>
      subst hji
      exact hb hj
    · exact h.done j hj

theorem Restoring.snoc {pre : List Managed} {S : Snapshot} {i : Managed} (h : Restoring u pre S)
    (hi : (S.item i).backup = Tree.empty) : Restoring u (pre ++ [i]) S := by
  refine ⟨h.undoing, h.absent, fun j hj => ?_⟩
  rcases List.mem_append.mp hj with hj | hj
  · exact h.done j hj
  · rw [List.mem_singleton.mp hj]
    exact hi

/-- An item with something in the backup has its original there. -/
theorem kept_of_backup {i : Managed} {x : Item} (h : u.Undoable i x) (hb : x.backup ≠ Tree.empty) :
    u.original i ≠ Tree.empty ∧ x.backup = u.original i ∧ x.marked = false ∧
      (u.special i = true → x.original = Tree.empty) := by
  rcases h with hk | hr | ha
  · rcases hk.kept with ⟨hO, hbk, hm⟩ | ⟨-, hbk, -⟩
    · exact ⟨hO, hbk, hm, hk.original⟩
    · exact absurd hbk hb
  · exact absurd hr.backup hb
  · exact absurd ha.backup hb

/-- The loop of `restore_backup`. -/
theorem wp_restore_loop (items : List Managed) {pre : List Managed} {res : FRESULT}
    (h : Holds u .ROLLBACK_IN_PROGRESS (Restoring u []) σ)
    (hres : res = .FR_OK → Holds u .ROLLBACK_IN_PROGRESS (Restoring u pre) σ) :
    wp (payload copiesMayFail) (Inv u)
      (fun r σ' => Holds u .ROLLBACK_IN_PROGRESS (Restoring u []) σ' ∧
        (r = .FR_OK → Holds u .ROLLBACK_IN_PROGRESS (Restoring u (pre ++ items)) σ'))
      (restore_backup.loop depth items res) σ := by
  have hinv : ∀ {pre σ}, Holds u .ROLLBACK_IN_PROGRESS (Restoring u pre) σ → Inv u σ :=
    fun h => h.inv h.snap.undoing
  induction items generalizing pre res σ with
  | nil => exact ⟨hinv h, h, fun hr => by simpa using hres hr⟩
  | cons i items ih =>
    rw [restore_backup.loop]
    simp only [Prog.bind_eq]
    have happ : pre ++ i :: items = pre ++ [i] ++ items := by simp
    rw [happ]
    refine wp_bind.mpr (wp_probe (hinv h) fun there hb => ?_)
    replace hb : there = true ↔ (item u.patched σ i).backup ≠ Tree.empty :=
      hb.trans (not_congr get_backup.symm)
    by_cases hthere : there = true
    swap
    · rw [if_pos (by simpa using hthere)]
      refine ih h fun hr => (hres hr).imp fun hS => hS.snoc ?_
      rw [hb, not_not] at hthere
      exact hthere
    rw [if_neg (by simp [hthere])]
    obtain ⟨hO, hbk, hm, ho⟩ := kept_of_backup (h.snap.undoing i) (hb.mp hthere)
    -- the root path is cleared while the original is in the backup
    have hprune : ∀ {pre τ}, Holds u .ROLLBACK_IN_PROGRESS (Restoring u pre) σ → i ∉ pre →
        Pruned (rootPath i.name) σ τ → Holds u .ROLLBACK_IN_PROGRESS (Restoring u pre) τ := by
      intro pre τ hpre hi hp
      have hk : u.Kept i (item u.patched τ i) :=
        Update.Kept.of_touch ⟨.inl ⟨hO, hbk, hm⟩, ho⟩ hp.touch (by simp)
      exact hpre.set (touch_mem hp.touch (by simp [places]))
        (hpre.snap.set hO (.inl hk) fun h => absurd h hi)
    have hnot : res = .FR_OK → i ∉ pre := fun hr hi => hb.mp hthere ((hres hr).snap.done i hi)
    refine wp_bind.mpr (wp_restorePath (fun τ hp => hinv (hprune h (by simp) hp))
      (fun τ hp hmv => ?_) fun r τ hr hp _ => ?_)
    · -- the original is back
      have hτ := hprune h (by simp) hp
      have hmoved : u.Restored i (item u.patched (τ.move _ _ hmv) i) := by
        obtain ⟨hr₁, hb₁, hm₁, ho₁⟩ := item_move_root (u := u) hmv
        obtain ⟨hb₂, hm₂, ho₂⟩ := item_touch_root (u := u) hp.touch
        exact ⟨by rw [hr₁, hb₂]; exact hbk, hb₁, fun _ => by rw [hm₁, hm₂]; exact hm,
          fun hs => by rw [ho₁ hs, ho₂ hs]; exact ho hs⟩
      have hstep : ∀ {pre}, Holds u .ROLLBACK_IN_PROGRESS (Restoring u pre) τ →
          Holds u .ROLLBACK_IN_PROGRESS (Restoring u pre) (τ.move _ _ hmv) := fun hpre =>
        hpre.set (i := i) (touch_mem (FileTree.touch_move τ _ _ hmv) (by simp [places]))
          (hpre.snap.set hO (.inr (.inl hmoved)) fun _ => hmoved.backup)
      refine ⟨hinv (hstep hτ), ?_⟩
      rw [if_neg (by simp)]
      refine ih (hstep hτ) fun hr => (hstep (hprune (hres hr) (hnot hr) hp)).imp fun hS => ?_
      exact hS.snoc hmoved.backup
    · have hτ := hprune h (by simp) hp
      rw [if_pos hr]
      exact ih hτ fun h => absurd h hr

/-- Every original is back at its root path, or the saved boot payload still stands apart. -/
theorem Restoring.all {S : Snapshot} (h : Restoring u (List.finRange managed_paths.length) S)
    (i : Managed) : u.Restored i (S.item i) ∨ u.Apart i (S.item i) := by
  by_cases hO : u.original i = Tree.empty
  · exact .inl (h.absent i hO)
  · refine (h.undoing i).resolve_left fun hk => ?_
    rcases hk.kept with ⟨hne, hb, -⟩ | ⟨hO', -⟩
    · rw [h.done i (List.mem_finRange i)] at hb
      exact hne hb.symm
    · exact hO hO'

/-- Everything is restored. -/
def AllRestored (u : Update) (S : Snapshot) : Prop := ∀ i, u.Restored i (S.item i)

theorem AllRestored.undoing {S : Snapshot} (h : AllRestored u S) : Undoing u S :=
  fun i => .inr (.inl (h i))

theorem special_exists : ∃ i : Managed, i.name = "payload.bin" := ⟨⟨8, by decide⟩, by decide⟩

theorem special_unique : ∀ (patched : Bool) (i j : Managed),
    (patched && decide (i.name = "payload.bin")) = true →
      (patched && decide (j.name = "payload.bin")) = true → i = j := by
  decide +kernel

/-- `restore_backup` after the first loop. -/
theorem wp_restore_backup
    (h : Holds u .ROLLBACK_IN_PROGRESS (Clearing u (List.finRange managed_paths.length)) σ) :
    wp (payload copiesMayFail) (Inv u)
      (fun r σ' => Holds u .ROLLBACK_IN_PROGRESS (Undoing u) σ' ∧
        (r = .FR_OK → Holds u .ROLLBACK_IN_PROGRESS (AllRestored u) σ'))
      (restore_backup depth u.patched) σ := by
  rw [restore_backup]
  simp only [Prog.bind_eq, Prog.pure_eq]
  have h₀ : Holds u .ROLLBACK_IN_PROGRESS (Restoring u []) σ := h.imp fun hS =>
    ⟨hS.undoing, fun i hO => hS.absent i (List.mem_finRange i) hO, by simp⟩
  refine wp_bind.mpr (wp_conseq (wp_restore_loop (List.finRange managed_paths.length) h₀
    fun _ => h₀) (fun _ h => h) ?_)
  rintro res τ hc ⟨hτ, hres⟩
  have hun : Holds u .ROLLBACK_IN_PROGRESS (Undoing u) τ := hτ.imp fun hS => hS.undoing
  cases hpatched : u.patched with
  | false =>
    refine ⟨hc, hun, fun hr => (hres hr).imp fun hS i => (hS.all i).resolve_right fun ha => ?_⟩
    have := ha.special
    rw [Update.special, hpatched] at this
    cases this
  | true =>
    simp only [Bool.not_true, Bool.false_eq_true, if_false]
    obtain ⟨i, hi⟩ := special_exists
    have hs : u.special i = true := by simp [Update.special, hpatched, hi]
    obtain ⟨hpo, hpr⟩ := special_paths u.patched i hs
    have hother : ∀ j, u.special j = true → j = i := fun j hj =>
      special_unique u.patched j i hj hs
    refine wp_bind.mpr (wp_probe hc fun there hb => ?_)
    replace hb : there = true ↔ (item u.patched τ i).original ≠ Tree.empty := by
      rw [hb, ← hpo]
      exact not_congr get_original.symm
    by_cases hthere : there = true
    swap
    · -- nothing stands apart
      rw [if_pos (by simpa using hthere)]
      refine ⟨hc, hun, fun hr => (hres hr).imp fun hS j => (hS.all j).resolve_right fun ha => ?_⟩
      rw [hb, not_not] at hthere
      have hj := hother j ha.special
      subst hj
      exact ha.present (ha.original.symm.trans hthere)
    rw [if_neg (by simp [hthere])]
    -- the saved boot payload is the only copy that is left
    have hapart : u.Apart i (item u.patched τ i) := by
      rcases hτ.snap.undoing i with hk | hr | ha
      · exact absurd (hk.original hs) (hb.mp hthere)
      · exact absurd (hr.original hs) (hb.mp hthere)
      · exact ha
    have hprune : ∀ {pre τ'}, Holds u .ROLLBACK_IN_PROGRESS (Restoring u pre) τ →
        Pruned ROOT_PAYLOAD τ τ' → Holds u .ROLLBACK_IN_PROGRESS (Restoring u pre) τ' ∧
          u.Apart i (item u.patched τ' i) := by
      intro pre τ' hpre hp
      rw [← hpr] at hp
      obtain ⟨hb₂, hm₂, ho₂⟩ := item_touch_root (u := u) hp.touch
      have ha : u.Apart i (item u.patched τ' i) :=
        ⟨hs, hapart.present, by rw [ho₂ hs]; exact hapart.original,
          by rw [hb₂]; exact hapart.backup, by rw [hm₂]; exact hapart.marked⟩
      exact ⟨hpre.set (i := i) (touch_mem hp.touch (by simp [places]))
        (hpre.snap.set hapart.present (.inr (.inr ha)) fun _ => ha.backup), ha⟩
    have hinv : ∀ {σ}, Holds u .ROLLBACK_IN_PROGRESS (Undoing u) σ → Inv u σ :=
      fun h => h.inv h.snap
    have hweak : ∀ {pre σ}, Holds u .ROLLBACK_IN_PROGRESS (Restoring u pre) σ →
        Holds u .ROLLBACK_IN_PROGRESS (Undoing u) σ := fun h => h.imp fun hS => hS.undoing
    refine wp_bind.mpr (wp_restorePath (fun τ' hp => hinv (hweak (hprune hτ hp).1))
      (fun τ' hp hmv => ?_) fun r τ' hr hp _ => ?_)
    · obtain ⟨hr₁, ho₁, hb₁, hm₁⟩ := item_move_saved (u := u) hs hmv
      have ha := (hprune hτ hp).2
      have hmoved : u.Restored i (item u.patched (τ'.move _ _ hmv) i) :=
        ⟨by rw [hr₁]; exact ha.original, by rw [hb₁]; exact ha.backup,
          fun _ => by rw [hm₁]; exact ha.marked, fun _ => ho₁⟩
      have hstep : ∀ {pre}, Holds u .ROLLBACK_IN_PROGRESS (Restoring u pre) τ' →
          Holds u .ROLLBACK_IN_PROGRESS (Restoring u pre) (τ'.move _ _ hmv) := fun hpre =>
        hpre.set (i := i) (touch_mem (FileTree.touch_move τ' _ _ hmv) (by simp [places, hpo, hpr]))
          (hpre.snap.set hapart.present (.inr (.inl hmoved)) fun _ => hmoved.backup)
      have hun' := hweak (hstep (hprune hτ hp).1)
      refine ⟨hinv hun', hinv hun', hun', fun hr => ?_⟩
      refine (hstep (hprune (hres (by simpa using hr)) hp).1).imp fun hS j => ?_
      refine (hS.all j).resolve_right fun haj => ?_
      have hj := hother j haj.special
      subst hj
      exact haj.present (haj.original.symm.trans ho₁)
    · have hun' := hweak (hprune hτ hp).1
      rw [if_pos hr]
      exact ⟨hinv hun', hun', fun h => absurd h hr⟩

/-- The rest of a saved boot payload is removed once its original is back. -/
theorem AllRestored.pruned_saved (hpatched : u.patched = true)
    (h : Holds u .ROLLBACK_IN_PROGRESS (AllRestored u) σ)
    (hp : Pruned MARIKO_PAYLOAD_FALLBACK σ σ') :
    Holds u .ROLLBACK_IN_PROGRESS (AllRestored u) σ' := by
  obtain ⟨i, hi⟩ := special_exists
  have hs : u.special i = true := by simp [Update.special, hpatched, hi]
  obtain ⟨hpo, hpr⟩ := special_paths u.patched i hs
  obtain ⟨ho, hm⟩ := places_original u.patched i
  rw [← hpo] at hp
  have hx : u.Restored i (item u.patched σ' i) := by
    have hr := h.snap i
    have hroot : (item u.patched σ' i).root = (item u.patched σ i).root :=
      hp.touch.sub (by simpa using special_apart u.patched i hs)
    have hback : (item u.patched σ' i).backup = (item u.patched σ i).backup :=
      hp.touch.sub (by simpa using ho)
    have hmark : (item u.patched σ' i).marked = (item u.patched σ i).marked := by
      simp only [item, hp.get_other hm.1]
    exact ⟨by rw [hroot]; exact hr.root, by rw [hback]; exact hr.backup,
      fun hO => by rw [hmark]; exact hr.marked hO,
      fun _ => get_original.mpr (hp.get_none (get_original.mp (hr.original hs)))⟩
  exact h.set (i := i) (touch_mem hp.touch (by simp [places]))
    (Snapshot.forall_set (fun j _ => h.snap j) hx)

/-- The middle of the rollback. -/
theorem wp_rollback_restore (h : Holds u .ROLLBACK_IN_PROGRESS (Undoing u) σ) :
    wp (payload copiesMayFail) (Inv u)
      (fun r σ' => Holds u .ROLLBACK_IN_PROGRESS (Undoing u) σ' ∧
        (r = .FR_OK → Holds u .ROLLBACK_IN_PROGRESS (AllRestored u) σ'))
      (rollback_transaction.restore depth u.patched) σ := by
  rw [rollback_transaction.restore]
  simp only [Prog.bind_eq, Prog.pure_eq]
  have h₀ : Holds u .ROLLBACK_IN_PROGRESS (Clearing u []) σ := h.imp fun hS => ⟨hS, by simp⟩
  refine wp_bind.mpr (wp_conseq (wp_rollback_loop (List.finRange managed_paths.length) h₀)
    (fun _ h => h) ?_)
  rintro r τ hc ⟨hun, hok⟩
  by_cases hr : r = .FR_OK
  swap
  · rw [if_pos hr]
    exact ⟨hc, hun, fun h => absurd h hr⟩
  rw [if_neg (not_not.mpr hr)]
  refine wp_bind.mpr (wp_conseq (wp_restore_backup (hok hr)) (fun _ h => h) ?_)
  rintro r₂ τ₂ hc₂ ⟨hun₂, hok₂⟩
  by_cases hr₂ : r₂ = .FR_OK
  swap
  · rw [if_pos hr₂]
    exact ⟨hc₂, hun₂, fun h => absurd h hr₂⟩
  rw [if_neg (not_not.mpr hr₂)]
  have hall := hok₂ hr₂
  have hinv : ∀ {σ}, Holds u .ROLLBACK_IN_PROGRESS (AllRestored u) σ → Inv u σ :=
    fun h => h.inv h.snap.undoing
  have hpost : ∀ {σ}, Holds u .ROLLBACK_IN_PROGRESS (AllRestored u) σ →
      Holds u .ROLLBACK_IN_PROGRESS (Undoing u) σ := fun h => h.imp fun hS => hS.undoing
  cases hpatched : u.patched with
  | false => exact ⟨hc₂, hun₂, fun _ => hall⟩
  -- everything is restored, and what is left of the update may go
  | true =>
    rw [if_pos rfl]
    have hn := spare_files u.patched
    have hnext : ∀ {τ}, Pruned UPDATE_PAYLOAD_NEXT τ₂ τ →
        Holds u .ROLLBACK_IN_PROGRESS (AllRestored u) τ := fun hp =>
      hall.touch hp.touch (by simpa using hn _ (by simp))
    refine wp_bind.mpr (wp_conseq (wp_remove_path_silent (by decide) τ₂)
      (fun τ hp => hinv (hnext hp)) ?_)
    rintro r₃ τ₃ hp₃ -
    have hsaved : ∀ {τ}, Pruned UPDATE_UPDATER_SAVED τ₃ τ →
        Holds u .ROLLBACK_IN_PROGRESS (AllRestored u) τ := fun hp =>
      (hnext hp₃).touch hp.touch (by simpa using hn _ (by simp))
    refine wp_bind.mpr (wp_conseq (wp_remove_path_silent (by decide) τ₃)
      (fun τ hp => hinv (hsaved hp)) ?_)
    rintro r₄ τ₄ hp₄ -
    refine wp_bind.mpr (wp_conseq (wp_remove_path_silent (by decide) τ₄)
      (fun τ hp => hinv (AllRestored.pruned_saved hpatched (hsaved hp₄) hp)) ?_)
    rintro r₅ τ₅ hp₅ -
    have h₅ := AllRestored.pruned_saved hpatched (hsaved hp₄) hp₅
    exact ⟨hinv h₅, hpost h₅, fun _ => h₅⟩

/-- The transaction folder goes, in any order, once everything is restored. -/
theorem restored_of_pruned_root (h : Holds u .ROLLBACK_IN_PROGRESS (AllRestored u) σ)
    (hp : Pruned UPDATE_ROOT σ σ') :
    Inv u σ' ∧ AllRestored u (snapshot u.patched σ') := by
  have hapart : ∀ (patched : Bool) (i : Managed), Incomparable UPDATE_ROOT (rootPath i.name) ∧
      Incomparable UPDATE_ROOT (originalPath patched i.name) := by
    decide +kernel
  have hall : AllRestored u (snapshot u.patched σ') := by
    intro i
    obtain ⟨ha, ho⟩ := hapart u.patched i
    have hr := h.snap i
    have hroot : (item u.patched σ' i).root = (item u.patched σ i).root :=
      hp.touch.sub (by simpa using ha)
    have horig : (item u.patched σ' i).original = (item u.patched σ i).original :=
      hp.touch.sub (by simpa using ho)
    refine ⟨hroot.trans hr.root, get_backup.mpr (hp.get_none (get_backup.mp hr.backup)),
      fun hO => get_marker.mpr (hp.get_none (get_marker.mp (hr.marked hO))),
      fun hs => horig.trans (hr.original hs)⟩
  refine ⟨?_, hall⟩
  rcases h.token_pruned (.inl rfl) hp with ht | ht
  · exact ⟨some .ROLLBACK_IN_PROGRESS, ht, hall.undoing⟩
  · exact ⟨none, ht, fun _ _ => hall.undoing⟩

/-- `rollback_transaction` undoes the transaction, and with `FR_OK` everything is
restored. -/
theorem wp_rollback_transaction (hi : Inv u σ) (hroot : σ.get UPDATE_ROOT = some .dir)
    (hR : Undoing u (snapshot u.patched σ)) :
    wp (payload copiesMayFail) (Inv u)
      (fun r σ' => r = .FR_OK → AllRestored u (snapshot u.patched σ'))
      (rollback_transaction depth u.patched) σ := by
  rw [rollback_transaction]
  simp only [Prog.bind_eq, Prog.pure_eq]
  refine wp_bind.mpr (wp_write_state hi hroot hR hR hR.phase_none fun τ hτ => ?_)
  rw [if_neg (by decide)]
  refine wp_bind.mpr (wp_conseq (wp_rollback_restore hτ) (fun _ h => h) ?_)
  rintro r τ₂ hc ⟨hun, hok⟩
  by_cases hr : r = .FR_OK
  · rw [if_neg (not_not.mpr hr)]
    refine wp_conseq (wp_remove_path_silent (by decide) τ₂)
      (fun τ₃ hp => (restored_of_pruned_root (hok hr) hp).1) fun _ τ₃ hp _ _ => ?_
    exact (restored_of_pruned_root (hok hr) hp).2
  · rw [if_pos hr]
    refine wp_bind.mpr (wp_write_state hc hun.root hun.snap hun.snap hun.snap.phase_none
      fun τ₃ hτ₃ => ?_)
    exact ⟨hτ₃.inv hτ₃.snap, fun h => absurd h hr⟩

end rollback

end CfwUpdater
