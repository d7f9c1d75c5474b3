/-
# What the calls of the CFW updater do to a snapshot

The managed paths have their places apart from each other and from the files of the
transaction.  So a change below the places of one managed path changes one item of the
snapshot, and a change elsewhere none.
-/
import AioMod.CfwPhases

namespace CfwUpdater

open FileTree (Incomparable Touch)

/-! ## Places -/

/-- The places of a managed path. -/
def places (patched : Bool) (i : Managed) : List FsPath :=
  [rootPath i.name, backupPath i.name, absent_marker_path i, originalPath patched i.name]

theorem places_apart : ∀ (patched : Bool) (i j : Managed), j ≠ i → ∀ p ∈ places patched i,
    ∀ w ∈ places patched j, Incomparable p w := by
  decide +kernel

theorem places_journal : ∀ (patched : Bool) (i : Managed), ∀ p ∈ places patched i,
    Incomparable p UPDATE_NEW ∧ Incomparable p UPDATE_READY ∧ ¬ p <+: UPDATE_BACKUP ∧
      ¬ p <+: UPDATE_STATE ∧ ¬ p <+: UPDATE_STATE_TMP ∧ ¬ p <+: UPDATE_ROOT := by
  decide +kernel

theorem places_root : ∀ i : Managed, Incomparable (rootPath i.name) (backupPath i.name) ∧
    Incomparable (rootPath i.name) (absent_marker_path i) ∧
      Incomparable (backupPath i.name) (absent_marker_path i) := by
  decide +kernel

theorem places_original : ∀ (patched : Bool) (i : Managed),
    Incomparable (originalPath patched i.name) (backupPath i.name) ∧
      Incomparable (originalPath patched i.name) (absent_marker_path i) := by
  decide +kernel

/-- A path apart from everything a snapshot keeps. -/
def Neutral (patched : Bool) (p : FsPath) : Prop :=
  Incomparable p UPDATE_NEW ∧ Incomparable p UPDATE_READY ∧ ¬ p <+: UPDATE_BACKUP ∧
    ∀ i, ∀ w ∈ places patched i, Incomparable p w

instance (patched : Bool) (p : FsPath) : Decidable (Neutral patched p) :=
  inferInstanceAs (Decidable (_ ∧ _ ∧ _ ∧ _))

/-- A path that can change without a change to the transaction. -/
def Spare (patched : Bool) (p : FsPath) : Prop :=
  Neutral patched p ∧ ¬ p <+: UPDATE_STATE ∧ ¬ p <+: UPDATE_STATE_TMP ∧ ¬ p <+: UPDATE_ROOT

instance (patched : Bool) (p : FsPath) : Decidable (Spare patched p) :=
  inferInstanceAs (Decidable (_ ∧ _ ∧ _ ∧ _))

/-- The journal is no part of a snapshot. -/
theorem neutral_journal : ∀ patched : Bool, ∀ p ∈ [UPDATE_STATE, UPDATE_STATE_TMP],
    Neutral patched p := by
  decide +kernel

/-- The other files of the transaction that a snapshot does not keep. -/
theorem spare_files : ∀ patched : Bool, ∀ p ∈ [UPDATE_PAYLOAD_NEXT, UPDATE_UPDATER_SAVED,
    RECOVERY_PAYLOAD], Spare patched p := by
  decide +kernel

section frames

variable {patched : Bool} {σ σ' : SD} {ps : List FsPath}

theorem item_congr {i : Managed} (h : ∀ w ∈ places patched i, σ'.sub w = σ.sub w) :
    item patched σ' i = item patched σ i := by
  have hm : σ'.get (absent_marker_path i) = σ.get (absent_marker_path i) := by
    rw [FileTree.get_eq_sub, h _ (by simp [places]), ← FileTree.get_eq_sub]
  simp only [item, h _ (show rootPath i.name ∈ places patched i by simp [places]),
    h _ (show backupPath i.name ∈ places patched i by simp [places]),
    h _ (show originalPath patched i.name ∈ places patched i by simp [places]), hm]

/-- A change at neutral paths changes no snapshot. -/
theorem snapshot_touch (h : Touch ps σ σ') (hn : ∀ p ∈ ps, Neutral patched p) :
    snapshot patched σ' = snapshot patched σ := by
  have hnew : σ'.sub UPDATE_NEW = σ.sub UPDATE_NEW := h.sub fun p hp => (hn p hp).1
  have hready : σ'.get UPDATE_READY = σ.get UPDATE_READY := h.get fun p hp => (hn p hp).2.1.1
  have hbackup : σ'.get UPDATE_BACKUP = σ.get UPDATE_BACKUP := h.get fun p hp => (hn p hp).2.2.1
  have hitem : item patched σ' = item patched σ := funext fun i =>
    item_congr fun w hw => h.sub fun p hp => (hn p hp).2.2.2 i w hw
  simp only [snapshot, hnew, hready, hbackup, hitem]

/-- A change at the places of one managed path, and at neutral paths, changes one item. -/
theorem snapshot_set {i : Managed} (h : Touch (places patched i ++ ps) σ σ')
    (hn : ∀ p ∈ ps, Neutral patched p) :
    snapshot patched σ' = (snapshot patched σ).set i (item patched σ' i) := by
  have hj : ∀ p ∈ places patched i ++ ps, Incomparable p UPDATE_NEW ∧
      Incomparable p UPDATE_READY ∧ ¬ p <+: UPDATE_BACKUP := by
    intro p hp
    rcases List.mem_append.mp hp with hp | hp
    · obtain ⟨h₁, h₂, h₃, -⟩ := places_journal patched i p hp
      exact ⟨h₁, h₂, h₃⟩
    · exact ⟨(hn p hp).1, (hn p hp).2.1, (hn p hp).2.2.1⟩
  have hnew : σ'.sub UPDATE_NEW = σ.sub UPDATE_NEW := h.sub fun p hp => (hj p hp).1
  have hready : σ'.get UPDATE_READY = σ.get UPDATE_READY := h.get fun p hp => (hj p hp).2.1.1
  have hbackup : σ'.get UPDATE_BACKUP = σ.get UPDATE_BACKUP := h.get fun p hp => (hj p hp).2.2
  have hitem : item patched σ' = Function.update (item patched σ) i (item patched σ' i) := by
    funext j
    rw [Function.update_apply]
    split
    · next hji => rw [hji]
    · next hji =>
      refine item_congr fun w hw => h.sub fun p hp => ?_
      rcases List.mem_append.mp hp with hp | hp
      · exact places_apart patched i j hji p hp w hw
      · exact (hn p hp).2.2.2 j w hw
  rw [snapshot, hnew, hready, hbackup]
  exact congrArg (Snapshot.mk _ _ _) hitem

/-- Changes at neutral paths only. -/
theorem snapshot_neutral (h : ∀ q, σ'.get q = σ.get q ∨ Neutral patched q) :
    snapshot patched σ' = snapshot patched σ := by
  have hsub : ∀ w, (∀ r, ¬ Neutral patched (w ++ r)) → σ'.sub w = σ.sub w := fun w hw =>
    funext fun r => (h _).resolve_right (hw r)
  have hnew := hsub UPDATE_NEW fun r hq => hq.1.2 (List.prefix_append _ r)
  have hready := (h UPDATE_READY).resolve_right fun hq => hq.2.1.1 (List.prefix_refl _)
  have hbackup := (h UPDATE_BACKUP).resolve_right fun hq => hq.2.2.1 (List.prefix_refl _)
  have hitem : item patched σ' = item patched σ := funext fun i => item_congr fun w hw =>
    hsub w fun r hq => (hq.2.2.2 i w hw).2 (List.prefix_append _ r)
  simp only [snapshot, hnew, hready, hbackup, hitem]

/-- A change apart from the journal's files leaves the token alone. -/
theorem token_touch (h : Touch ps σ σ')
    (hn : ∀ p ∈ ps, ¬ p <+: UPDATE_STATE ∧ ¬ p <+: UPDATE_STATE_TMP) :
    journal.token σ' = journal.token σ :=
  (journal.token_congr (h.get fun p hp => (hn p hp).1) (h.get fun p hp => (hn p hp).2)).1

theorem snapshot_writing {t : Bytes} (h : journal.Writing t σ σ') :
    snapshot patched σ' = snapshot patched σ := by
  have hsub : ∀ w, ¬ w <+: UPDATE_ROOT → Incomparable UPDATE_STATE w →
      Incomparable UPDATE_STATE_TMP w → σ'.sub w = σ.sub w := fun w => h.sub
  have hget : ∀ w, ¬ w <+: UPDATE_ROOT → Incomparable UPDATE_STATE w →
      Incomparable UPDATE_STATE_TMP w → σ'.get w = σ.get w := fun w h₁ h₂ h₃ => by
    rw [FileTree.get_eq_sub, hsub w h₁ h₂ h₃, ← FileTree.get_eq_sub]
  have hs := neutral_journal patched UPDATE_STATE (by simp)
  have ht := neutral_journal patched UPDATE_STATE_TMP (by simp)
  have hroot : ∀ i, ∀ w ∈ places patched i, ¬ w <+: UPDATE_ROOT := fun i w hw =>
    (places_journal patched i w hw).2.2.2.2.2
  have hitem : item patched σ' = item patched σ := funext fun i => item_congr fun w hw =>
    hsub w (hroot i w hw) (hs.2.2.2 i w hw) (ht.2.2.2 i w hw)
  simp only [snapshot, hitem, hsub UPDATE_NEW (by decide) (by decide) (by decide),
    hget UPDATE_READY (by decide) (by decide) (by decide),
    hget UPDATE_BACKUP (by decide) (by decide) (by decide)]

end frames

/-- Making the backup folder changes nothing else. -/
theorem snapshot_mkdir {patched : Bool} {σ σ' : SD} (h : MadeDir UPDATE_BACKUP σ σ') :
    snapshot patched σ' =
      { snapshot patched σ with backup := (σ'.get UPDATE_BACKUP).map Entry.isDir } := by
  have hsub : ∀ w, ¬ w <+: UPDATE_BACKUP → σ'.sub w = σ.sub w := fun w hw =>
    funext fun r => h.get_other fun hq => hw ⟨r, hq⟩
  have hitem : item patched σ' = item patched σ := funext fun i => item_congr fun w hw =>
    hsub w (places_journal patched i w hw).2.2.1
  simp only [snapshot, hitem, hsub UPDATE_NEW (by decide),
    h.get_other (q := UPDATE_READY) (by decide)]

/-! ## The special item -/

section items

variable {u : Update} {σ σ' : SD} {i : Managed}

theorem original_eq_root (h : u.special i = false) :
    originalPath u.patched i.name = rootPath i.name := by
  rw [originalPath]
  exact if_neg (by simpa [Update.special] using h)

/-- Only the special item has its original apart from the root path. -/
theorem item_original (h : u.special i = false) :
    (item u.patched σ i).original = (item u.patched σ i).root := by
  simp only [item, original_eq_root h]

theorem special_apart : ∀ (patched : Bool) (i : Managed),
    (patched && decide (i.name = "payload.bin")) = true →
      Incomparable (originalPath patched i.name) (rootPath i.name) := by
  decide +kernel

theorem special_paths : ∀ (patched : Bool) (i : Managed),
    (patched && decide (i.name = "payload.bin")) = true →
      originalPath patched i.name = MARIKO_PAYLOAD_FALLBACK ∧ rootPath i.name = ROOT_PAYLOAD := by
  decide +kernel

/-- The move into the backup. -/
theorem item_move_backup (h : σ.CanMove (originalPath u.patched i.name) (backupPath i.name)) :
    (item u.patched (σ.move _ _ h) i).backup = (item u.patched σ i).original ∧
      (item u.patched (σ.move _ _ h) i).original = Tree.empty ∧
      (item u.patched (σ.move _ _ h) i).marked = (item u.patched σ i).marked ∧
      (u.special i = true →
        (item u.patched (σ.move _ _ h) i).root = (item u.patched σ i).root) := by
  have htouch := FileTree.touch_move σ _ _ h
  obtain ⟨ho, hm⟩ := places_original u.patched i
  obtain ⟨hrb, hrm, hbm⟩ := places_root i
  refine ⟨FileTree.sub_move_dst σ _ _ h, ?_, ?_, fun hs => ?_⟩
  · exact SD.sub_eq_empty.mpr (FileTree.get_move_src σ _ _ h)
  · have : (σ.move _ _ h).get (absent_marker_path i) = σ.get (absent_marker_path i) := by
      refine htouch.get fun p hp => ?_
      rcases List.mem_pair.mp hp with rfl | rfl
      · exact hm.1
      · exact hbm.1
    simp only [item, this]
  · refine htouch.sub fun p hp => ?_
    rcases List.mem_pair.mp hp with rfl | rfl
    · exact special_apart u.patched i hs
    · exact hrb.symm

/-- The move back from the backup. -/
theorem item_move_root (h : σ.CanMove (backupPath i.name) (rootPath i.name)) :
    (item u.patched (σ.move _ _ h) i).root = (item u.patched σ i).backup ∧
      (item u.patched (σ.move _ _ h) i).backup = Tree.empty ∧
      (item u.patched (σ.move _ _ h) i).marked = (item u.patched σ i).marked ∧
      (u.special i = true →
        (item u.patched (σ.move _ _ h) i).original = (item u.patched σ i).original) := by
  have htouch := FileTree.touch_move σ _ _ h
  obtain ⟨ho, hm⟩ := places_original u.patched i
  obtain ⟨hrb, hrm, hbm⟩ := places_root i
  refine ⟨FileTree.sub_move_dst σ _ _ h, ?_, ?_, fun hs => ?_⟩
  · exact SD.sub_eq_empty.mpr (FileTree.get_move_src σ _ _ h)
  · have : (σ.move _ _ h).get (absent_marker_path i) = σ.get (absent_marker_path i) := by
      refine htouch.get fun p hp => ?_
      rcases List.mem_pair.mp hp with rfl | rfl
      · exact hbm.1
      · exact hrm.1
    simp only [item, this]
  · refine htouch.sub fun p hp => ?_
    rcases List.mem_pair.mp hp with rfl | rfl
    · exact ho.symm
    · exact (special_apart u.patched i hs).symm

/-- The saved boot payload moves to its root path. -/
theorem item_move_saved (hs : u.special i = true)
    (h : σ.CanMove MARIKO_PAYLOAD_FALLBACK ROOT_PAYLOAD) :
    (item u.patched (σ.move _ _ h) i).root = (item u.patched σ i).original ∧
      (item u.patched (σ.move _ _ h) i).original = Tree.empty ∧
      (item u.patched (σ.move _ _ h) i).backup = (item u.patched σ i).backup ∧
      (item u.patched (σ.move _ _ h) i).marked = (item u.patched σ i).marked := by
  have htouch := FileTree.touch_move σ _ _ h
  obtain ⟨ho, hm⟩ := places_original u.patched i
  obtain ⟨hrb, hrm, hbm⟩ := places_root i
  obtain ⟨hpo, hpr⟩ := special_paths u.patched i hs
  rw [hpo] at ho hm
  rw [hpr] at hrb hrm
  refine ⟨?_, ?_, ?_, ?_⟩
  · simp only [item, hpo, hpr]
    exact FileTree.sub_move_dst σ _ _ h
  · simp only [item, hpo]
    exact SD.sub_eq_empty.mpr (FileTree.get_move_src σ _ _ h)
  · have : (σ.move _ _ h).sub (backupPath i.name) = σ.sub (backupPath i.name) := by
      refine htouch.sub fun p hp => ?_
      rcases List.mem_pair.mp hp with rfl | rfl
      · exact ho
      · exact hrb
    exact this
  · have : (σ.move _ _ h).get (absent_marker_path i) = σ.get (absent_marker_path i) := by
      refine htouch.get fun p hp => ?_
      rcases List.mem_pair.mp hp with rfl | rfl
      · exact hm.1
      · exact hrm.1
    simp only [item, this]

/-- A change at the root path and at neutral paths. -/
theorem item_touch_root_neutral {ps : List FsPath} (h : Touch (rootPath i.name :: ps) σ σ')
    (hn : ∀ p ∈ ps, Neutral u.patched p) :
    (item u.patched σ' i).backup = (item u.patched σ i).backup ∧
      (item u.patched σ' i).marked = (item u.patched σ i).marked ∧
      (u.special i = true →
        (item u.patched σ' i).original = (item u.patched σ i).original) := by
  obtain ⟨hrb, hrm, -⟩ := places_root i
  have hinc : ∀ w ∈ places u.patched i, Incomparable (rootPath i.name) w →
      ∀ p ∈ rootPath i.name :: ps, Incomparable p w := by
    intro w hw hr p hp
    rcases List.mem_cons.mp hp with rfl | hp
    · exact hr
    · exact (hn p hp).2.2.2 i w hw
  have hmark := h.get (w := absent_marker_path i) fun p hp =>
    (hinc _ (by simp [places]) hrm p hp).1
  refine ⟨h.sub (hinc _ (by simp [places]) hrb), by simp only [item, hmark], fun hs => ?_⟩
  exact h.sub (hinc _ (by simp [places]) (special_apart u.patched i hs).symm)

/-- A change at the root path only. -/
theorem item_touch_root (h : Touch [rootPath i.name] σ σ') :
    (item u.patched σ' i).backup = (item u.patched σ i).backup ∧
      (item u.patched σ' i).marked = (item u.patched σ i).marked ∧
      (u.special i = true →
        (item u.patched σ' i).original = (item u.patched σ i).original) :=
  item_touch_root_neutral h (by simp)

/-- A change at the marker only. -/
theorem item_touch_marker (h : Touch [absent_marker_path i] σ σ') :
    (item u.patched σ' i).root = (item u.patched σ i).root ∧
      (item u.patched σ' i).backup = (item u.patched σ i).backup ∧
      (item u.patched σ' i).original = (item u.patched σ i).original := by
  obtain ⟨-, hrm, hbm⟩ := places_root i
  obtain ⟨-, hm⟩ := places_original u.patched i
  exact ⟨h.sub (by simpa using hrm.symm), h.sub (by simpa using hbm.symm),
    h.sub (by simpa using hm.symm)⟩

end items

/-! ## Rules for the backup -/

section rules

variable {F : SD → Op → Prop} {C : SD → Prop} {σ : SD}

/-- `path_exists` answers no at `p`: nothing is there, or the probe fails. -/
def Missed (F : SD → Op → Prop) (σ : SD) (p : FsPath) : Prop :=
  σ.get p = none ∨ F σ ⟨.probe, .f_stat p⟩

theorem missed_copiesMayFail {p : FsPath} : Missed copiesMayFail σ p ↔ σ.get p = none :=
  or_iff_left fun h => by cases h

theorem wp_create_absent_marker {i : Managed} {Q : FRESULT → SD → Prop} (hC : C σ)
    (hthere : σ.get (absent_marker_path i) ≠ none → Q .FR_OK σ)
    (hnew : ∀ σ', (∀ q, σ'.get q = if q = absent_marker_path i then some (.file []) else σ.get q) →
      C σ' ∧ Q .FR_OK σ')
    (hfail : ∀ r, r ≠ .FR_OK → MayFail F ∨ ¬ σ.CanPut (absent_marker_path i) → Q r σ) :
    wp (payload F) C Q (create_absent_marker i) σ := by
  rw [create_absent_marker]
  simp only [Prog.bind_eq, Prog.pure_eq]
  refine wp_bind.mpr (wp_path_exists hC (fun h => ⟨hC, hthere h⟩) fun _ => ?_)
  simp only [Bool.false_eq_true, if_false]
  refine wp_bind.mpr (wp_at hC fun r τ h => ?_)
  rcases payload_f_create h with ⟨rfl, -, hget⟩ | ⟨hne, rfl, hF⟩
  · obtain ⟨hτ, hq⟩ := hnew τ hget
    refine ⟨hτ, ?_⟩
    rw [if_neg (not_not.mpr rfl)]
    refine wp_bind.mpr (wp_at hτ fun _ τ' h => ?_)
    obtain ⟨rfl, -⟩ := payload_f_close h
    exact ⟨hτ, hτ, hq⟩
  · refine ⟨hC, ?_⟩
    rw [if_pos hne]
    exact ⟨hC, hfail r hne (hF.imp (fun h => ⟨_, _, h⟩) id)⟩

/-- The body of the backup loop: it leaves what is backed up or marked, marks what is
missing, and moves what is there. -/
theorem wp_move_managed_item {patched : Bool} {i : Managed} {Q : FRESULT → SD → Prop} (hC : C σ)
    (hboth : σ.get (originalPath patched i.name) ≠ none → σ.get (backupPath i.name) ≠ none →
      Q .FR_EXIST σ)
    (hbacked : Missed F σ (originalPath patched i.name) → σ.get (backupPath i.name) ≠ none →
      Q .FR_OK σ)
    (hmarked : σ.get (absent_marker_path i) ≠ none → Missed F σ (backupPath i.name) → Q .FR_OK σ)
    (hmark : Missed F σ (originalPath patched i.name) → Missed F σ (backupPath i.name) →
      Missed F σ (absent_marker_path i) →
        ∀ σ', (∀ q, σ'.get q = if q = absent_marker_path i then some (.file []) else σ.get q) →
      C σ' ∧ Q .FR_OK σ')
    (hmove : σ.get (originalPath patched i.name) ≠ none → Missed F σ (absent_marker_path i) →
      ∀ h : σ.CanMove (originalPath patched i.name) (backupPath i.name),
        C (σ.move _ _ h) ∧ Q .FR_OK (σ.move _ _ h))
    (hfail : ∀ r, r ≠ .FR_OK →
      Missed F σ (absent_marker_path i) ∧ (MayFail F ∨ ¬ σ.CanPut (absent_marker_path i)) ∨
      σ.get (originalPath patched i.name) ≠ none ∧ Missed F σ (backupPath i.name) ∧
        (MayFail F ∨ ¬ σ.CanMove (originalPath patched i.name) (backupPath i.name)) → Q r σ) :
    wp (payload F) C Q (move_managed_item patched i) σ := by
  rw [move_managed_item]
  simp only [Prog.bind_eq, Prog.pure_eq]
  -- the three probes come first, so what follows depends on their answers only
  have key : ∀ src_exists dst_exists was_absent : Bool,
      (src_exists = true → σ.get (originalPath patched i.name) ≠ none) →
      (src_exists = false → Missed F σ (originalPath patched i.name)) →
      (dst_exists = true → σ.get (backupPath i.name) ≠ none) →
      (dst_exists = false → Missed F σ (backupPath i.name)) →
      (was_absent = true → σ.get (absent_marker_path i) ≠ none) →
      (was_absent = false → Missed F σ (absent_marker_path i)) →
      wp (payload F) C Q
        (if dst_exists = true then
          .ret (if src_exists = true then .FR_EXIST else .FR_OK)
        else if was_absent = true then .ret .FR_OK
        else if (!src_exists) = true then create_absent_marker i
        else call (.f_rename (originalPath patched i.name) (backupPath i.name))) σ := by
    intro src dst abs hs hs' hd hd' ha ha'
    cases dst
    swap
    · rw [if_pos rfl]
      cases src
      · exact ⟨hC, hbacked (hs' rfl) (hd rfl)⟩
      · exact ⟨hC, hboth (hs rfl) (hd rfl)⟩
    rw [if_neg (by simp)]
    cases abs
    swap
    · exact ⟨hC, hmarked (ha rfl) (hd' rfl)⟩
    rw [if_neg (by simp)]
    cases src
    · exact wp_create_absent_marker hC (fun h => hmarked h (hd' rfl))
        (hmark (hs' rfl) (hd' rfl) (ha' rfl))
        fun r hr h => hfail r hr (.inl ⟨ha' rfl, h⟩)
    · refine wp_at hC fun r τ h => ?_
      rcases payload_f_rename h with ⟨rfl, hm, rfl⟩ | ⟨hne, rfl, hF⟩
      · exact hmove (hs rfl) (ha' rfl) hm
      · exact ⟨hC, hfail r hne (.inr ⟨hs rfl, hd' rfl, hF.imp (fun h => ⟨_, _, h⟩) id⟩)⟩
  refine wp_bind.mpr (wp_path_exists hC (fun hs => ?_) fun hs => ?_) <;>
  refine wp_bind.mpr (wp_path_exists hC (fun hd => ?_) fun hd => ?_) <;>
  refine wp_bind.mpr (wp_path_exists hC (fun ha => ?_) fun ha => ?_) <;>
  exact key _ _ _ (fun h => by first | exact hs | cases h) (fun h => by first | exact hs | cases h)
    (fun h => by first | exact hd | cases h) (fun h => by first | exact hd | cases h)
    (fun h => by first | exact ha | cases h) (fun h => by first | exact ha | cases h)

/-- `restorePath` prunes the destination and moves the source there. -/
theorem wp_restorePath {depth : ℕ} {src dst : FsPath} {Q : FRESULT → SD → Prop}
    (hprune : ∀ σ', Pruned dst σ σ' → C σ')
    (hmove : ∀ τ, Pruned dst σ τ → ∀ h : τ.CanMove src dst,
      C (τ.move src dst h) ∧ Q .FR_OK (τ.move src dst h))
    (hfail : ∀ r τ, r ≠ .FR_OK → Pruned dst σ τ →
      MayFail F ∨ dst = [] ∨ τ.get dst = none ∧ ¬ τ.CanMove src dst → Q r τ) :
    wp (payload F) C Q (restorePath depth src dst) σ := by
  rw [restorePath]
  simp only [Prog.bind_eq, Prog.pure_eq]
  refine wp_bind.mpr (wp_conseq (wp_removePath rfl depth dst σ) hprune ?_)
  rintro r τ hp ⟨hok, herr⟩
  by_cases hr : r = .FR_OK
  swap
  · rw [if_pos hr]
    exact ⟨hprune τ hp, hfail r τ hr hp ((herr hr).imp id .inl)⟩
  rw [if_neg (not_not.mpr hr)]
  refine wp_at (hprune τ hp) fun r₂ τ₂ h => ?_
  rcases payload_f_rename h with ⟨rfl, hm, rfl⟩ | ⟨hne, rfl, hF⟩
  · exact hmove τ hp hm
  · refine ⟨hprune _ hp, hfail _ _ hne hp ?_⟩
    rcases hF with hF | hF
    · exact .inl ⟨_, _, hF⟩
    · exact (hok hr).elim (fun h => .inr (.inr ⟨h, hF⟩)) .inl

/-- Two files have one size. -/
def SizesMatch (σ : SD) (a b : FsPath) : Prop :=
  ∃ x y, σ.get a = some (.file x) ∧ σ.get b = some (.file y) ∧ x.length = y.length

theorem SD.stat_file {σ : SD} {p : FsPath} {info : FILINFO}
    (h : SD.stat σ p = .ok info) (hd : info.isDir = false) :
    ∃ b, σ.get p = some (.file b) ∧ info.fsize = b.length := by
  unfold SD.stat at h
  split at h
  · cases h
    cases hd
  · next b hb =>
    cases h
    exact ⟨b, hb, rfl⟩
  · cases h

/-- A match that `file_sizes_match` reports is one. -/
theorem wp_file_sizes_match {a b : FsPath} {Q : Bool → SD → Prop} (hC : C σ)
    (htrue : SizesMatch σ a b → Q true σ) (hfalse : Q false σ) :
    wp (payload F) C Q (file_sizes_match a b) σ := by
  rw [file_sizes_match]
  simp only [Prog.bind_eq, Prog.pure_eq]
  refine wp_bind.mpr (wp_at hC fun ra τ ha => ?_)
  obtain ⟨rfl, ha⟩ := payload_f_stat ha
  refine ⟨hC, ?_⟩
  cases ra with
  | error e => exact ⟨hC, hfalse⟩
  | ok fa =>
    replace ha := ha.resolve_right fun ⟨_, e, _, he⟩ => nomatch he
    refine wp_bind.mpr (wp_at hC fun rb τ hb => ?_)
    obtain ⟨rfl, hb⟩ := payload_f_stat hb
    refine ⟨hC, ?_⟩
    cases rb with
    | error e => exact ⟨hC, hfalse⟩
    | ok fb =>
      replace hb := hb.resolve_right fun ⟨_, e, _, he⟩ => nomatch he
      dsimp only
      by_cases hdir : (fa.isDir || fb.isDir) = true
      · rw [if_pos hdir]
        exact ⟨hC, hfalse⟩
      rw [if_neg hdir]
      refine ⟨hC, ?_⟩
      by_cases hsize : fa.fsize = fb.fsize
      swap
      · rw [decide_eq_false hsize]
        exact hfalse
      rw [decide_eq_true hsize]
      rw [Bool.or_eq_true, not_or, Bool.not_eq_true, Bool.not_eq_true] at hdir
      obtain ⟨x, hx, hxs⟩ := SD.stat_file ha.symm hdir.1
      obtain ⟨y, hy, hys⟩ := SD.stat_file hb.symm hdir.2
      exact htrue ⟨x, y, hx, hy, by rw [← hxs, ← hys, hsize]⟩

theorem calls_file_sizes_match (a b : FsPath) :
    (file_sizes_match a b).Calls (I := FatFs) Op.looks := by
  refine Prog.calls_bind ⟨rfl, fun _ => trivial⟩ fun ra => ?_
  cases ra with
  | error e => trivial
  | ok fa =>
    refine Prog.calls_bind ⟨rfl, fun _ => trivial⟩ fun rb => ?_
    cases rb with
    | error e => trivial
    | ok fb =>
      dsimp only
      split <;> trivial

/-- The verification writes nothing. -/
theorem calls_installed_core_valid (patched : Bool) :
    (installed_core_valid patched).Calls (I := FatFs) Op.looks := by
  rw [installed_core_valid]
  refine Prog.calls_bind (calls_file_sizes_match _ _) fun same => ?_
  cases same
  · trivial
  cases patched
  swap
  · trivial
  refine Prog.calls_bind (calls_path_exists _) fun there => ?_
  cases there
  swap
  · exact calls_file_sizes_match _ _
  refine Prog.calls_bind (calls_path_exists _) fun there => ?_
  cases there
  swap
  · exact calls_file_sizes_match _ _
  refine Prog.calls_bind (calls_path_exists _) fun there => ?_
  cases there
  · trivial
  · exact calls_file_sizes_match _ _

end rules

end CfwUpdater
