/-
# The backup of the CFW updater

Copies may stop part way, directories are listed in any order, and every other call
works.  The snapshot of the card is always in a phase that fits the journal, here while
the managed paths move into the backup folder.
-/
import AioMod.CfwSpec

namespace CfwUpdater

open FileTree (Incomparable Touch)

theorem text_isToken (s : State) : IsToken s.text := by
  cases s <;> decide

theorem text_injective {s s' : State} (h : s.text = s'.text) : s = s' := by
  revert h
  cases s <;> cases s' <;> decide

/-- The snapshot is in a phase that fits the journal. -/
def Inv (u : Update) (σ : SD) : Prop :=
  ∃ s : Option State, journal.token σ = s.map State.text ∧ u.Phase (snapshot u.patched σ) s

/-- The tokens under which the journal itself is deleted in the end. -/
def State.ending (t : State) : Prop := t = ROLLBACK_IN_PROGRESS ∨ t = COMMIT_IN_PROGRESS

/-- The journal reads as `t`, its folder is there, and the snapshot satisfies `R`.  No
older token shows once the journal is deleted. -/
structure Holds (u : Update) (t : State) (R : Snapshot → Prop) (σ : SD) : Prop where
  token : journal.token σ = some t.text
  root : σ.get UPDATE_ROOT = some .dir
  tmp : t.ending → σ.get UPDATE_STATE_TMP = none
  snap : R (snapshot u.patched σ)

section rules

variable {u : Update} {σ σ' : SD} {depth FSBuffSize : ℕ} {t : State} {R R' : Snapshot → Prop}

theorem Holds.inv (h : Holds u t R σ) (hR : u.Phase (snapshot u.patched σ) (some t)) : Inv u σ :=
  ⟨some t, h.token, hR⟩

theorem Holds.imp (h : Holds u t R σ) (hR : R (snapshot u.patched σ) → R' (snapshot u.patched σ)) :
    Holds u t R' σ :=
  ⟨h.token, h.root, h.tmp, hR h.snap⟩

/-- A step at the places of one managed path and at spare paths. -/
theorem Holds.set_spare (h : Holds u t R σ) {i : Managed} {l : List FsPath}
    (ht : Touch (places u.patched i ++ l) σ σ') (hq : ∀ p ∈ l, Spare u.patched p)
    (hR : R' ((snapshot u.patched σ).set i (item u.patched σ' i))) : Holds u t R' σ' := by
  have hj : ∀ p ∈ places u.patched i ++ l,
      ¬ p <+: UPDATE_STATE ∧ ¬ p <+: UPDATE_STATE_TMP ∧ ¬ p <+: UPDATE_ROOT := by
    intro p hp
    rcases List.mem_append.mp hp with hp | hp
    · exact (places_journal u.patched i p hp).2.2.2
    · exact (hq p hp).2
  have hstate := ht.get fun p hp => (hj p hp).1
  have htmp := ht.get fun p hp => (hj p hp).2.1
  refine ⟨?_, ?_, fun he => htmp.trans (h.tmp he), ?_⟩
  · rw [token_touch ht fun p hp => ⟨(hj p hp).1, (hj p hp).2.1⟩, h.token]
  · rw [ht.get fun p hp => (hj p hp).2.2, h.root]
  · rwa [snapshot_set ht fun p hp => (hq p hp).1]

/-- A step at the places of one managed path. -/
theorem Holds.set (h : Holds u t R σ) {i : Managed} (ht : Touch (places u.patched i) σ σ')
    (hR : R' ((snapshot u.patched σ).set i (item u.patched σ' i))) : Holds u t R' σ' :=
  h.set_spare (l := []) (by rwa [List.append_nil]) (by simp) hR

/-- A step at spare paths. -/
theorem Holds.spare (h : Holds u t R σ) (hq : ∀ q, σ'.get q = σ.get q ∨ Spare u.patched q) :
    Holds u t R σ' := by
  have hget : ∀ q, ¬ Spare u.patched q → σ'.get q = σ.get q := fun q => (hq q).resolve_right
  have hstate := hget UPDATE_STATE fun hs => hs.2.1 (List.prefix_refl _)
  have htmp := hget UPDATE_STATE_TMP fun hs => hs.2.2.1 (List.prefix_refl _)
  refine ⟨?_, ?_, fun he => htmp.trans (h.tmp he), ?_⟩
  · rw [(journal.token_congr hstate htmp).1, h.token]
  · rw [hget _ fun hs => hs.2.2.2 (List.prefix_refl _), h.root]
  · rw [snapshot_neutral fun q => (hq q).imp id And.left]
    exact h.snap

/-- A step below spare paths. -/
theorem Holds.touch (h : Holds u t R σ) {l : List FsPath} (ht : Touch l σ σ')
    (hq : ∀ p ∈ l, Spare u.patched p) : Holds u t R σ' := by
  have hstate := ht.get fun p hp => (hq p hp).2.1
  have htmp := ht.get fun p hp => (hq p hp).2.2.1
  refine ⟨?_, ?_, fun he => htmp.trans (h.tmp he), ?_⟩
  · rw [token_touch ht fun p hp => ⟨(hq p hp).2.1, (hq p hp).2.2.1⟩, h.token]
  · rw [ht.get fun p hp => (hq p hp).2.2.2, h.root]
  · rw [snapshot_touch ht fun p hp => (hq p hp).1]
    exact h.snap

/-- While the journal is deleted it reads as before or as nothing. -/
theorem Holds.token_pruned (h : Holds u t R σ) (he : t.ending) {p : FsPath} (hp : Pruned p σ σ') :
    journal.token σ' = some t.text ∨ journal.token σ' = none := by
  have htmp : σ.get journal.tmp = none := h.tmp he
  have htok : ∀ {σ : SD}, σ.get journal.tmp = none →
      journal.token σ = σ.tokenAt journal.state := by
    intro σ hσ
    rw [JournalFiles.token, SD.tokenAt, SD.tokenAt, hσ]
    simp
  rw [htok (hp.get_none htmp)]
  rcases hp journal.state with hs | ⟨-, hs⟩
  · left
    rw [SD.tokenAt, hs, ← SD.tokenAt, ← htok htmp, h.token]
  · right
    rw [SD.tokenAt, hs]

theorem touch_mem {ps l : List FsPath} (h : Touch ps σ σ') (hp : ∀ p ∈ ps, p ∈ l) :
    Touch l σ σ' :=
  h.mono fun p hpp => ⟨p, hp p hpp, List.prefix_refl p⟩

/-- While a token is written, the phase is the old one, the new one or none. -/
theorem Inv.writing {s : State} (hi : Inv u σ) (hs : u.Phase (snapshot u.patched σ) (some s))
    (hnone : u.Phase (snapshot u.patched σ) none) (hw : journal.Writing s.text σ σ') :
    Inv u σ' := by
  rcases hw.token with ht | ht | ⟨ht, -⟩
  · obtain ⟨t, htok, hp⟩ := hi
    exact ⟨t, by rw [ht, htok], by rwa [snapshot_writing hw]⟩
  · exact ⟨some s, ht, by rwa [snapshot_writing hw]⟩
  · exact ⟨none, ht, by rwa [snapshot_writing hw]⟩

/-- Once the token is written. -/
theorem Holds.of_writing {s : State} (hroot : σ.get UPDATE_ROOT = some .dir)
    (hR : R (snapshot u.patched σ)) (hw : journal.Writing s.text σ σ')
    (hst : σ'.tokenAt journal.state = some s.text) (htmp : σ'.get journal.tmp = none) :
    Holds u s R σ' := by
  refine ⟨?_, ?_, fun _ => htmp, by rwa [snapshot_writing hw]⟩
  · rw [JournalFiles.token, hst]
    rfl
  · exact hw.root.elim (fun h => h.trans hroot) And.right

/-- A token is written. -/
theorem wp_write_state {s : State} {Q : FRESULT → SD → Prop} (hi : Inv u σ)
    (hroot : σ.get UPDATE_ROOT = some .dir) (hR : R (snapshot u.patched σ))
    (hs : u.Phase (snapshot u.patched σ) (some s)) (hnone : u.Phase (snapshot u.patched σ) none)
    (hQ : ∀ σ', Holds u s R σ' → Q .FR_OK σ') :
    wp (payload copiesMayFail) (Inv u) Q (write_state depth s) σ := by
  refine wp_conseq (wp_writeState_works not_mayFail_copiesMayFail journal rfl depth
    (text_isToken s) hroot) (fun _ hw => hi.writing hs hnone hw) ?_
  rintro r σ' hw ⟨rfl, hst, htmp⟩
  exact hQ σ' (.of_writing hroot hR hw hst htmp)

end rules

/-! ## The backup -/

section backup

variable {u : Update} {σ σ' : SD}

/-- What the backup loop keeps: the first items are backed up. -/
structure BackingUp (u : Update) (pre : List Managed) (S : Snapshot) : Prop where
  whole : u.Whole S
  folder : S.backup = some true
  done : ∀ i ∈ pre, u.Done i (S.item i)

theorem get_backup {i : Managed} : (item u.patched σ i).backup = Tree.empty ↔
    σ.get (backupPath i.name) = none := SD.sub_eq_empty

theorem get_original {i : Managed} : (item u.patched σ i).original = Tree.empty ↔
    σ.get (originalPath u.patched i.name) = none := SD.sub_eq_empty

theorem get_root {i : Managed} : (item u.patched σ i).root = Tree.empty ↔
    σ.get (rootPath i.name) = none := SD.sub_eq_empty

theorem get_marker {i : Managed} : (item u.patched σ i).marked = false ↔
    σ.get (absent_marker_path i) = none := by
  simp [item]

/-- The folder is there when the snapshot says so. -/
theorem backup_dir (h : (snapshot u.patched σ).backup = some true) :
    σ.get UPDATE_BACKUP = some .dir := by
  simp only [snapshot, Option.map_eq_some_iff] at h
  obtain ⟨e, he, hd⟩ := h
  cases e with
  | dir => exact he
  | file b => cases hd

/-- An item that is new in the backup keeps the transaction whole. -/
theorem BackingUp.next {pre : List Managed} {S : Snapshot} {i : Managed} {x : Item}
    (h : BackingUp u pre S)
    (hall : ∀ j, u.Raw j (S.item j) ∨
      u.Done j (S.item j) ∧ (u.special j = false → (S.item j).root = Tree.empty))
    (hx : u.Done i x) (hroot : u.special i = false → x.root = Tree.empty) :
    BackingUp u (pre ++ [i]) (S.set i x) := by
  refine ⟨⟨h.whole.staged, h.whole.ready, h.whole.backup, .inl ?_⟩, h.folder, ?_⟩
  · exact Snapshot.forall_set (P := fun j y => u.Raw j y ∨
      u.Done j y ∧ (u.special j = false → y.root = Tree.empty)) (fun j _ => hall j)
      (.inr ⟨hx, hroot⟩)
  · intro j hj
    rw [Snapshot.set_item]
    split
    · next hji => exact hji ▸ hx
    · next hji =>
      refine h.done j ((List.mem_append.mp hj).resolve_right fun hj' => hji ?_)
      exact List.mem_singleton.mp hj'

/-- Nothing to do for an item that is backed up. -/
theorem BackingUp.stay {pre : List Managed} {S : Snapshot} {i : Managed} (h : BackingUp u pre S)
    (hi : u.Done i (S.item i)) : BackingUp u (pre ++ [i]) S := by
  refine ⟨h.whole, h.folder, fun j hj => ?_⟩
  rcases List.mem_append.mp hj with hj | hj
  · exact h.done j hj
  · rw [List.mem_singleton.mp hj]
    exact hi

theorem paths_ne_nil : ∀ (patched : Bool) (i : Managed), originalPath patched i.name ≠ [] := by
  decide +kernel

theorem can_mark {i : Managed} (hd : σ.get UPDATE_BACKUP = some .dir)
    (h : σ.get (absent_marker_path i) = none) : σ.CanPut (absent_marker_path i) := by
  refine ⟨by simp [absent_marker_path, CombinePaths], ?_, by simp [h]⟩
  rw [absent_marker_path, CombinePaths, List.dropLast_concat, hd]

theorem can_back_up {i : Managed} (hd : σ.get UPDATE_BACKUP = some .dir)
    (ho : σ.get (originalPath u.patched i.name) ≠ none)
    (hb : σ.get (backupPath i.name) = none) :
    σ.CanMove (originalPath u.patched i.name) (backupPath i.name) := by
  refine ⟨paths_ne_nil _ _, by simp [backupPath, CombinePaths], ho, hb, ?_,
    (places_original u.patched i).1.1⟩
  rw [backupPath, CombinePaths, List.dropLast_concat, hd]

/-- A probe answers truly. -/
theorem wp_probe {p : FsPath} {C : SD → Prop} {Q : Bool → SD → Prop} (hC : C σ)
    (hQ : ∀ b : Bool, (b = true ↔ σ.get p ≠ none) → Q b σ) :
    wp (payload copiesMayFail) C Q (path_exists p) σ :=
  wp_path_exists hC (fun h => hQ true (by simpa using h)) fun h =>
    hQ false (by simp [missed_copiesMayFail.mp h])

/-- What a loop body does must not go wrong: the folder is there, so every call works. -/
theorem backup_works {i : Managed} (hd : σ.get UPDATE_BACKUP = some .dir) :
    ¬ (Missed copiesMayFail σ (absent_marker_path i) ∧
        (MayFail copiesMayFail ∨ ¬ σ.CanPut (absent_marker_path i)) ∨
      σ.get (originalPath u.patched i.name) ≠ none ∧
        Missed copiesMayFail σ (backupPath i.name) ∧
        (MayFail copiesMayFail ∨
          ¬ σ.CanMove (originalPath u.patched i.name) (backupPath i.name))) := by
  rintro (⟨hm, h | h⟩ | ⟨ho, hb, h | h⟩)
  · exact not_mayFail_copiesMayFail h
  · exact h (can_mark hd (missed_copiesMayFail.mp hm))
  · exact not_mayFail_copiesMayFail h
  · exact h (can_back_up hd ho (missed_copiesMayFail.mp hb))

/-- A raw item is marked or moved. -/
theorem wp_backup_raw {pre : List Managed} {i : Managed}
    (h : Holds u .BACKUP_IN_PROGRESS (BackingUp u pre) σ)
    (hall : ∀ j, u.Raw j ((snapshot u.patched σ).item j) ∨
      u.Done j ((snapshot u.patched σ).item j) ∧
        (u.special j = false → ((snapshot u.patched σ).item j).root = Tree.empty))
    (hraw : u.Raw i (item u.patched σ i)) :
    wp (payload copiesMayFail) (Inv u)
      (fun r σ' => r = .FR_OK ∧ Holds u .BACKUP_IN_PROGRESS (BackingUp u (pre ++ [i])) σ')
      (move_managed_item u.patched i) σ := by
  have hdir := backup_dir h.snap.folder
  -- what is left to show of the item the body leaves behind
  have hnext : ∀ σ', Touch (places u.patched i) σ σ' → u.Done i (item u.patched σ' i) →
      (u.special i = false → (item u.patched σ' i).root = Tree.empty) →
      Inv u σ' ∧ FRESULT.FR_OK = .FR_OK ∧
        Holds u .BACKUP_IN_PROGRESS (BackingUp u (pre ++ [i])) σ' := by
    intro σ' ht hd hr
    have hset := h.set ht (h.snap.next hall hd hr)
    exact ⟨hset.inv hset.snap.whole, rfl, hset⟩
  refine wp_move_managed_item (h.inv h.snap.whole)
    (fun _ hb => absurd (get_backup.mp hraw.backup) hb)
    (fun _ hb => absurd (get_backup.mp hraw.backup) hb)
    (fun hm _ => absurd (get_marker.mp hraw.marked) hm) ?_ ?_
    fun r _ hbad => absurd hbad (backup_works hdir)
  · -- the original is missing
    intro ho _ _ σ' hget
    have ht : Touch [absent_marker_path i] σ σ' := by
      intro q hq
      rw [hget, if_neg]
      rintro rfl
      exact hq _ (by simp) (List.prefix_refl _)
    obtain ⟨hr, hb, ho'⟩ := item_touch_marker (u := u) ht
    have hO : u.original i = Tree.empty := by
      rw [← hraw.original]
      exact get_original.mpr (missed_copiesMayFail.mp ho)
    have hmk : (item u.patched σ' i).marked = true := by
      simp [item, hget]
    have hroot : u.special i = false → (item u.patched σ' i).root = Tree.empty := by
      intro hs
      rw [hr, ← item_original hs, hraw.original, hO]
    refine hnext σ' (touch_mem ht (by simp [places])) ⟨⟨.inr ⟨hO, ?_, hmk⟩, fun _ => ?_⟩, ?_⟩ hroot
    · rw [hb, hraw.backup]
    · rw [ho', hraw.original, hO]
    · cases hs : u.special i with
      | true =>
        rw [hr]
        exact hraw.root hs
      | false =>
        rw [hroot hs]
        exact .inl (Tree.parts_empty _)
  · -- the original is there
    intro ho _ hm
    obtain ⟨hb, ho', hmk, hr⟩ := item_move_backup (u := u) hm
    have hO : u.original i ≠ Tree.empty := by
      rw [← hraw.original]
      exact fun hO => ho (get_original.mp hO)
    have hroot : u.special i = false →
        (item u.patched (σ.move _ _ hm) i).root = Tree.empty := by
      intro hs
      rw [← item_original hs, ho']
    refine hnext _ (touch_mem (FileTree.touch_move σ _ _ hm) (by simp [places]))
      ⟨⟨.inl ⟨hO, ?_, ?_⟩, fun _ => ho'⟩, ?_⟩ hroot
    · rw [hb, hraw.original]
    · rw [hmk, hraw.marked]
    · cases hs : u.special i with
      | true =>
        rw [hr hs]
        exact hraw.root hs
      | false =>
        rw [hroot hs]
        exact .inl (Tree.parts_empty _)

/-- An item that is backed up is left alone; that it stands at the root again is an error. -/
theorem wp_backup_done {pre : List Managed} {i : Managed}
    (h : Holds u .BACKUP_IN_PROGRESS (BackingUp u pre) σ) (hdone : u.Done i (item u.patched σ i))
    (hboth : σ.get (originalPath u.patched i.name) ≠ none → σ.get (backupPath i.name) ≠ none →
      u.BackedUp (snapshot u.patched σ)) :
    wp (payload copiesMayFail) (Inv u)
      (fun r σ' => if r = .FR_OK then Holds u .BACKUP_IN_PROGRESS (BackingUp u (pre ++ [i])) σ'
        else Holds u .BACKUP_IN_PROGRESS u.BackedUp σ')
      (move_managed_item u.patched i) σ := by
  have hdir := backup_dir h.snap.folder
  have hstay : Holds u .BACKUP_IN_PROGRESS (BackingUp u (pre ++ [i])) σ :=
    h.imp fun hS => hS.stay hdone
  have hkept : σ.get (backupPath i.name) = none → σ.get (absent_marker_path i) = none → False := by
    intro hb hm
    rcases hdone.kept.kept with ⟨hO, hb', -⟩ | ⟨-, -, hm'⟩
    · rw [get_backup.mpr hb] at hb'
      exact hO hb'.symm
    · rw [get_marker.mpr hm] at hm'
      cases hm'
  refine wp_move_managed_item (h.inv h.snap.whole) (fun ho hb => ?_) (fun _ _ => ?_) (fun _ _ => ?_)
    (fun _ hb hm => ?_) (fun _ hm hcm => ?_) fun r _ hbad => absurd hbad (backup_works hdir)
  · rw [if_neg (by decide)]
    exact h.imp fun _ => hboth ho hb
  · rw [if_pos rfl]
    exact hstay
  · rw [if_pos rfl]
    exact hstay
  · exact (hkept (missed_copiesMayFail.mp hb) (missed_copiesMayFail.mp hm)).elim
  · exact (hkept hcm.2.2.2.1 (missed_copiesMayFail.mp hm)).elim

/-- The body of the loop. -/
theorem wp_backup_item {pre : List Managed} {i : Managed}
    (h : Holds u .BACKUP_IN_PROGRESS (BackingUp u pre) σ) :
    wp (payload copiesMayFail) (Inv u)
      (fun r σ' => if r = .FR_OK then Holds u .BACKUP_IN_PROGRESS (BackingUp u (pre ++ [i])) σ'
        else Holds u .BACKUP_IN_PROGRESS u.BackedUp σ')
      (move_managed_item u.patched i) σ := by
  rcases h.snap.whole.items with hall | hall
  · rcases hall i with hraw | ⟨hdone, hroot⟩
    · refine wp_conseq (wp_backup_raw h hall hraw) (fun _ h => h) ?_
      rintro r σ' - ⟨rfl, hσ'⟩
      rw [if_pos rfl]
      exact hσ'
    · -- the original is gone from its place
      refine wp_backup_done h hdone fun ho _ => absurd (get_original.mp ?_) ho
      cases hs : u.special i with
      | true => exact hdone.kept.original hs
      | false => exact (item_original hs).trans (hroot hs)
  · exact wp_backup_done h (hall i) fun _ _ =>
      ⟨h.snap.whole.staged, h.snap.whole.ready, h.snap.folder, hall⟩

/-- `move_managed_to_backup` backs everything up, or stops with everything backed up. -/
theorem wp_move_managed_to_backup (h : Holds u .BACKUP_IN_PROGRESS u.Whole σ) :
    wp (payload copiesMayFail) (Inv u)
      (fun _ σ' => Holds u .BACKUP_IN_PROGRESS u.BackedUp σ')
      (move_managed_to_backup u.patched) σ := by
  rw [move_managed_to_backup]
  simp only [Prog.bind_eq, Prog.pure_eq]
  refine wp_bind.mpr (wp_mkdir_if_needed (h.inv h.snap) fun r τ hmade hok herr => ?_)
  -- the folder can be made, as no file stands at its place
  have hr : r = .FR_OK := by
    by_contra hr
    rcases herr hr with hF | ⟨hn, hput⟩
    · cases hF
    · exact hput ⟨by decide, h.root, by simp [hn]⟩
  subst hr
  have hthere : τ.get UPDATE_BACKUP ≠ none := (hok rfl).resolve_right fun hF => by cases hF
  have hfolder : (snapshot u.patched τ).backup = some true := by
    rcases hmade UPDATE_BACKUP with hsame | ⟨-, -, hd⟩
    · have hnot := h.snap.backup
      simp only [snapshot, hsame] at hthere hnot ⊢
      cases hb : σ.get UPDATE_BACKUP with
      | none => exact absurd hb hthere
      | some e =>
        rw [hb] at hnot
        cases e with
        | dir => rfl
        | file b => exact absurd rfl hnot
    · simp [snapshot, hd, Entry.isDir]
  have hτ : Holds u .BACKUP_IN_PROGRESS (BackingUp u []) τ := by
    refine ⟨(token_touch hmade.touch (by decide)).trans h.token,
      (hmade.touch.get (by decide)).trans h.root, by simp [State.ending],
      ⟨?_, ?_, by rw [hfolder]; simp, ?_⟩, hfolder, by simp⟩ <;> rw [snapshot_mkdir hmade]
    · exact h.snap.staged
    · exact h.snap.ready
    · exact h.snap.items
  refine ⟨hτ.inv hτ.snap.whole, ?_⟩
  rw [if_neg (by decide)]
  refine wp_bind.mpr (wp_untilSome
    (fun pre σ' => Holds u .BACKUP_IN_PROGRESS (BackingUp u pre) σ') _ ?_ ?_ hτ)
  · rintro pre i post σ₁ - h₁
    refine wp_bind.mpr (wp_conseq (wp_backup_item h₁) (fun _ h => h) ?_)
    intro r σ₂ hc h₂
    refine ⟨hc, ?_⟩
    cases hr : r.stop with
    | none =>
      rw [if_pos (FRESULT.stop_eq_none.mp hr)] at h₂
      exact h₂
    | some e =>
      obtain ⟨rfl, hne⟩ := FRESULT.stop_eq_some.mp hr
      rw [if_neg hne] at h₂
      exact ⟨hc, h₂⟩
  · intro σ' h'
    have hc := h'.inv h'.snap.whole
    exact ⟨hc, hc, h'.imp fun hS =>
      ⟨hS.whole.staged, hS.whole.ready, hS.folder, fun i => hS.done i (List.mem_finRange i)⟩⟩

end backup

end CfwUpdater
