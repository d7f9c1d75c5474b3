/-
# Atomicity of the CFW update under power cuts

Copies may stop part way, directories are listed in any order, and every other call
works.  Each run keeps the phases, cut anywhere, so every history of launches in a
`Launchable` state ends with all managed paths original or all installed.
-/
import AioMod.CfwInstall
import AioMod.Script

namespace CfwUpdater

open FileTree (Incomparable Touch)

/-! ## The promise -/

/-- A package that `staged_package_valid` accepts. -/
structure Update.Valid (u : Update) : Prop where
  core : u.staged ["atmosphere", "package3"] ≠ none
  payload : u.patched = true → u.staged ["payload.bin"] ≠ none
  boot : u.patched = false → u.staged ["bootloader", "update.bin"] ≠ none ∨
    u.staged ["atmosphere", "reboot_payload.bin"] ≠ none ∨ u.staged ["payload.bin"] ≠ none

/-- What an exit promises about the managed paths at the root. -/
def Reported (u : Update) (S : Snapshot) : Exit → Prop
  | .boot .success _ => u.Installed S
  | .boot (.warning _) _ => u.Installed S
  | .boot (.rollbackSuccess _) _ => ∀ i, (S.item i).root = u.original i
  | .boot (.unchanged _) _ => ∀ i, (S.item i).root = u.original i
  | .fatal _ => True

section run

variable {u : Update} {σ σ' : SD} {depth FSBuffSize : ℕ}

/-! ## The ways out -/

theorem wp_boot {C : SD → Prop} {Q : Boot → SD → Prop} (hC : C σ) (hQ : ∀ b, Q b σ) :
    wp (payload copiesMayFail) C Q (boot_installed_cfw_now u.patched) σ :=
  wp_looks (calls_bootInstalled u.patched) hC hQ

theorem wp_rollback_and_boot (hi : Inv u σ) (hroot : σ.get UPDATE_ROOT = some .dir)
    (h : Undoing u (snapshot u.patched σ)) (err : UiError) :
    wp (payload copiesMayFail) (Inv u) (fun e σ' => Reported u (snapshot u.patched σ') e)
      (rollback_and_boot depth u.patched err) σ := by
  rw [rollback_and_boot]
  simp only [Prog.bind_eq, Prog.pure_eq]
  refine wp_bind.mpr (wp_conseq (wp_rollback_transaction hi hroot h) (fun _ h => h) ?_)
  intro r τ hc hok
  by_cases hr : r = .FR_OK
  · rw [if_pos hr, boot_previous_after_rollback]
    refine wp_bind.mpr (wp_boot hc fun b => ⟨hc, fun i => ?_⟩)
    exact (hok hr i).root
  · rw [if_neg hr]
    exact ⟨hc, trivial⟩

theorem wp_commit_and_boot (hi : Inv u σ) (hroot : σ.get UPDATE_ROOT = some .dir)
    (h : Committed u (snapshot u.patched σ)) :
    wp (payload copiesMayFail) (Inv u) (fun e σ' => Reported u (snapshot u.patched σ') e)
      (commit_and_boot depth u.patched) σ := by
  rw [commit_and_boot]
  simp only [Prog.bind_eq]
  refine wp_bind.mpr (wp_conseq (wp_commit_transaction hi hroot h) (fun _ h => h) ?_)
  intro r τ hc hin
  rw [boot_installed_cfw, bootAfterCommit]
  simp only [Prog.bind_eq, Prog.pure_eq]
  refine wp_bind.mpr (wp_looks (calls_bootInstalled u.patched) hc fun b => ⟨hc, ?_⟩)
  split <;> exact hin

/-! ## The phases -/

theorem committed_of_installed {S : Snapshot} (h : u.BackedUp S) (hin : u.Installed S) :
    Committed u S := ⟨hin, fun hr => absurd (h.ready.symm.trans hr) (by simp)⟩

/-- From a complete copy, on patched hardware with the journal at `FINALIZE_PAYLOAD`. -/
theorem wp_finalize_and_commit (hsize : u.Sized) {s : State} (h : Holds u s u.Copied σ)
    (hi : Inv u σ) (hs : u.patched = true → s = .FINALIZE_PAYLOAD) :
    wp (payload copiesMayFail) (Inv u) (fun e σ' => Reported u (snapshot u.patched σ') e)
      (finalize_and_commit depth FSBuffSize u.patched s.text) σ := by
  rw [finalize_and_commit]
  simp only [Prog.bind_eq]
  by_cases hp : u.patched = true
  swap
  · rw [if_neg fun hc => hp hc.1]
    refine wp_commit_and_boot hi h.root (committed_of_installed h.snap.backedUp ?_)
    refine h.snap.all fun i hspec => absurd ?_ hp
    rw [Update.special, Bool.and_eq_true] at hspec
    exact hspec.1
  · obtain rfl := hs hp
    rw [if_pos ⟨hp, rfl⟩]
    refine wp_bind.mpr (wp_conseq (wp_finalize_patched_payload hp hsize h) (fun _ h => h) ?_)
    rintro r τ hc ⟨hτ, hok⟩
    have hundo : Undoing u (snapshot u.patched τ) := hτ.snap.backedUp.undoable
    by_cases hr : r = .FR_OK
    swap
    · rw [if_pos hr]
      exact wp_rollback_and_boot hc hτ.root hundo _
    rw [if_neg (not_not.mpr hr)]
    refine wp_bind.mpr (wp_file_sizes_match hc (fun _ => ?_) ?_)
    · rw [if_neg (by simp)]
      exact wp_commit_and_boot hc hτ.root (committed_of_installed hτ.snap.backedUp (hok hr))
    · rw [if_pos (by simp)]
      exact wp_rollback_and_boot hc hτ.root hundo _

theorem wp_after_copy (hsize : u.Sized) {s : State} (h : Holds u s u.Copied σ)
    (hs : s = .COPY_COMPLETE ∨ s = .FINALIZE_PAYLOAD) :
    wp (payload copiesMayFail) (Inv u) (fun e σ' => Reported u (snapshot u.patched σ') e)
      (after_copy depth FSBuffSize u.patched s.text) σ := by
  have hi : Inv u σ := by
    rcases hs with rfl | rfl
    · exact h.inv h.snap
    · exact h.inv h.snap
  rw [after_copy]
  simp only [Prog.bind_eq]
  by_cases hcond : u.patched = true ∧ s.text = State.COPY_COMPLETE.text
  · rw [if_pos hcond]
    refine wp_bind.mpr (wp_write_state hi h.root h.snap h.snap h.snap.backedUp.not_unready
      fun τ hτ => ?_)
    rw [if_neg (by decide)]
    exact wp_finalize_and_commit hsize hτ (hτ.inv hτ.snap) fun _ => rfl
  · rw [if_neg hcond]
    refine wp_finalize_and_commit hsize h hi fun hp => hs.resolve_left ?_
    rintro rfl
    exact hcond ⟨hp, rfl⟩

/-- The legacy folder goes after the copy. -/
theorem BackedUp.pruned_next (h : Holds u .COPY_IN_PROGRESS u.BackedUp σ)
    (hin : ∀ i : Managed, u.special i = false → i.name ≠ "Next" →
      (item u.patched σ i).root = u.pack i)
    (hp : Pruned (rootPath "Next") σ σ') :
    Holds u .COPY_IN_PROGRESS u.BackedUp σ' ∧
      (σ'.get (rootPath "Next") = none →
        ∀ i, u.special i = false → (item u.patched σ' i).root = u.target i) := by
  obtain ⟨i, hi⟩ : ∃ i : Managed, i.name = "Next" := ⟨⟨2, by decide⟩, by decide⟩
  have hspec : u.special i = false := by simp [Update.special, hi]
  rw [← hi] at hp ⊢
  have htouch := hp.touch
  have hdone := h.snap.items i
  have hx : u.Done i (item u.patched σ' i) := by
    refine ⟨hdone.kept.of_touch htouch (by simp), ?_⟩
    rcases hdone.root with hr | ⟨hs, -⟩
    · refine .inl fun r => ?_
      rcases hp (rootPath i.name ++ r) with h' | ⟨-, h'⟩
      · have heq : (item u.patched σ' i).root r = (item u.patched σ i).root r := h'
        rw [heq]
        exact hr r
      · exact .inl h'
    · rw [hspec] at hs
      cases hs
  have ht : Touch (places u.patched i) σ σ' := touch_mem htouch (by simp [places])
  refine ⟨h.set ht ⟨h.snap.staged, h.snap.ready, h.snap.folder, ?_⟩, fun hgone j hj => ?_⟩
  · exact Snapshot.forall_set (fun j _ => h.snap.items j) hx
  · rw [Update.target]
    by_cases hji : j = i
    · subst hji
      rw [if_pos hi]
      exact get_root.mpr hgone
    · have hn : j.name ≠ "Next" := fun hn => fold_ne j i hji (by rw [hn, hi])
      rw [if_neg hn, ← hin j hj hn]
      refine congrArg Item.root (item_congr fun w hw => ht.sub fun p hp => ?_)
      exact places_apart u.patched i j hji p hp w hw

theorem wp_copy_phase (ht : u.Tame) (hsize : u.Sized)
    (h : Holds u .COPY_IN_PROGRESS u.BackedUp σ) :
    wp (payload copiesMayFail) (Inv u) (fun e σ' => Reported u (snapshot u.patched σ') e)
      (copy_phase depth FSBuffSize u.patched State.COPY_IN_PROGRESS.text) σ := by
  have hinv : ∀ {σ}, Holds u .COPY_IN_PROGRESS u.BackedUp σ → Inv u σ := fun h => h.inv h.snap
  rw [copy_phase, if_pos rfl]
  simp only [Prog.bind_eq]
  refine wp_bind.mpr (wp_conseq (wp_copy_staged_root ht h) (fun _ h => h) ?_)
  rintro r τ hc ⟨hτ, hok⟩
  by_cases hr : r = .FR_OK
  swap
  · rw [if_pos hr]
    exact wp_rollback_and_boot hc hτ.root hτ.snap.undoable _
  rw [if_neg (not_not.mpr hr)]
  have hstep := fun τ' (hp : Pruned (rootPath "Next") τ τ') =>
    BackedUp.pruned_next hτ (hok hr) hp
  refine wp_bind.mpr (wp_conseq (wp_remove_path_silent (by decide) τ)
    (fun τ' hp => hinv (hstep τ' hp).1) ?_)
  rintro r₂ τ₂ hp ⟨-, hgone⟩
  obtain ⟨hτ₂, hin⟩ := hstep τ₂ hp
  refine wp_bind.mpr (wp_looks (calls_installed_core_valid u.patched) (hinv hτ₂) fun valid => ?_)
  cases valid with
  | false =>
    rw [if_pos (by simp)]
    exact wp_rollback_and_boot (hinv hτ₂) hτ₂.root hτ₂.snap.undoable _
  | true =>
    rw [if_neg (by simp)]
    have hcopied : u.Copied (snapshot u.patched τ₂) := ⟨hτ₂.snap, hin hgone⟩
    refine wp_bind.mpr (wp_write_state (hinv hτ₂) hτ₂.root hcopied hcopied
      hτ₂.snap.not_unready fun τ₃ hτ₃ => ?_)
    rw [if_neg (by decide)]
    exact wp_after_copy hsize hτ₃ (.inl rfl)

/-- From a backup on: the later phases, each from its own token. -/
theorem wp_backup_phase (ht : u.Tame) (hsize : u.Sized) {s : State}
    (h : Holds u s (fun S => u.Phase S (some s)) σ) (hs : s ∈ [.BACKUP_IN_PROGRESS,
      .BACKUP_COMPLETE, .COPY_IN_PROGRESS, .COPY_COMPLETE, .FINALIZE_PAYLOAD]) :
    wp (payload copiesMayFail) (Inv u) (fun e σ' => Reported u (snapshot u.patched σ') e)
      (backup_phase depth FSBuffSize u.patched s.text) σ := by
  have hcopy : ∀ {t : State} {τ}, (t = .COPY_COMPLETE ∨ t = .FINALIZE_PAYLOAD) →
      Holds u t u.Copied τ →
      wp (payload copiesMayFail) (Inv u) (fun e σ' => Reported u (snapshot u.patched σ') e)
        (backup_phase depth FSBuffSize u.patched t.text) τ := by
    intro t τ htok hτ
    have hne : t.text ≠ State.BACKUP_IN_PROGRESS.text ∧ t.text ≠ State.BACKUP_COMPLETE.text ∧
        t.text ≠ State.COPY_IN_PROGRESS.text := by
      rcases htok with rfl | rfl <;> decide
    rw [backup_phase, if_neg hne.1, start_copy, if_neg hne.2.1, copy_phase, if_neg hne.2.2]
    exact wp_after_copy hsize hτ htok
  have hstart : ∀ {τ}, Holds u .BACKUP_COMPLETE u.BackedUp τ →
      wp (payload copiesMayFail) (Inv u) (fun e σ' => Reported u (snapshot u.patched σ') e)
        (start_copy depth FSBuffSize u.patched State.BACKUP_COMPLETE.text) τ := by
    intro τ hτ
    rw [start_copy, if_pos rfl]
    simp only [Prog.bind_eq]
    refine wp_bind.mpr (wp_write_state (hτ.inv hτ.snap) hτ.root hτ.snap hτ.snap
      hτ.snap.not_unready fun τ₂ hτ₂ => ?_)
    rw [if_neg (by decide)]
    exact wp_copy_phase ht hsize hτ₂
  simp only [List.mem_cons, List.not_mem_nil, or_false] at hs
  rcases hs with rfl | rfl | rfl | rfl | rfl
  · rw [backup_phase, if_pos rfl]
    simp only [Prog.bind_eq]
    refine wp_bind.mpr (wp_conseq (wp_move_managed_to_backup h) (fun _ h => h) ?_)
    intro r τ hc hτ
    by_cases hr : r = .FR_OK
    · rw [if_neg (not_not.mpr hr)]
      refine wp_bind.mpr (wp_write_state hc hτ.root hτ.snap hτ.snap hτ.snap.not_unready
        fun τ₂ hτ₂ => ?_)
      rw [if_neg (by decide)]
      exact hstart hτ₂
    · rw [if_pos hr]
      exact wp_rollback_and_boot hc hτ.root hτ.snap.undoable _
  · rw [backup_phase, if_neg (by decide)]
    exact hstart h
  · rw [backup_phase, if_neg (by decide), start_copy, if_neg (by decide)]
    exact wp_copy_phase ht hsize h
  · exact hcopy (.inl rfl) h
  · exact hcopy (.inr rfl) h

/-- A valid package is found valid. -/
theorem wp_staged_package_valid (hv : u.Valid) (hs : (snapshot u.patched σ).staged = u.staged)
    {C : SD → Prop} {Q : Bool → SD → Prop} (hC : C σ) (hQ : Q true σ) :
    wp (payload copiesMayFail) C Q (staged_package_valid u.patched) σ := by
  have hprobe : ∀ (r : FsPath) {Q : Bool → SD → Prop}, (u.staged r ≠ none → Q true σ) →
      (u.staged r = none → Q false σ) →
      wp (payload copiesMayFail) C Q (path_exists (UPDATE_NEW ++ r)) σ := by
    intro r Q ht hf
    refine wp_path_exists hC (fun h => ht ?_) fun h => hf ?_
    · rwa [staged_sub hs] at h
    · rwa [← staged_sub hs r, ← missed_copiesMayFail]
  rw [staged_package_valid]
  simp only [Prog.bind_eq, Prog.pure_eq]
  refine wp_bind.mpr (hprobe _ (fun _ => ?_) fun h => absurd h hv.core)
  rw [if_neg (by simp)]
  by_cases hp : u.patched = true
  · rw [if_pos hp]
    exact hprobe _ (fun _ => hQ) fun h => absurd h (hv.payload hp)
  rw [if_neg hp]
  refine wp_bind.mpr (hprobe _ (fun _ => ?_) fun h₁ => ?_)
  · rw [if_pos rfl]
    exact ⟨hC, hQ⟩
  rw [if_neg (by simp)]
  refine wp_bind.mpr (hprobe _ (fun _ => ?_) fun h₂ => ?_)
  · rw [if_pos rfl]
    exact ⟨hC, hQ⟩
  rw [if_neg (by simp)]
  refine hprobe _ (fun _ => hQ) fun h₃ => ?_
  exact ((hv.boot (by simpa using hp)).elim (· h₁) fun h => h.elim (· h₂) (· h₃)).elim

/-! ## The run -/

/-- The staged tree is there until the commit or the rollback. -/
theorem staged_of_phase {s : State} {S : Snapshot} (h : u.Phase S (some s))
    (hs : s ∈ [.STAGED, .BACKUP_IN_PROGRESS, .BACKUP_COMPLETE, .COPY_IN_PROGRESS,
      .COPY_COMPLETE, .FINALIZE_PAYLOAD]) : S.staged = u.staged := by
  simp only [List.mem_cons, List.not_mem_nil, or_false] at hs
  rcases hs with rfl | rfl | rfl | rfl | rfl | rfl
  · exact Update.Whole.staged h
  · exact Update.Whole.staged h
  · exact Update.BackedUp.staged h
  · exact Update.BackedUp.staged h
  · exact h.backedUp.staged
  · exact h.backedUp.staged

/-- From a token that the journal holds. -/
theorem wp_run_from (hv : u.Valid) (ht : u.Tame) (hsize : u.Sized) {s : State}
    (htok : journal.token σ = some s.text)
    (hroot : σ.get UPDATE_ROOT = some .dir) (hp : u.Phase (snapshot u.patched σ) (some s)) :
    wp (payload copiesMayFail) (Inv u) (fun e σ' => Reported u (snapshot u.patched σ') e)
      (run_from depth FSBuffSize u.patched s.text) σ := by
  have hi : Inv u σ := ⟨some s, htok, hp⟩
  rw [run_from]
  simp only [Prog.bind_eq]
  by_cases hlate : s ∈ [State.STAGED, .BACKUP_IN_PROGRESS, .BACKUP_COMPLETE, .COPY_IN_PROGRESS,
      .COPY_COMPLETE, .FINALIZE_PAYLOAD]
  swap
  · cases s with
    | STAGED | BACKUP_IN_PROGRESS | BACKUP_COMPLETE | COPY_IN_PROGRESS | COPY_COMPLETE
    | FINALIZE_PAYLOAD => exact absurd (by simp) hlate
    | PENDING_BOOT => exact hp.elim
    | COMMIT_IN_PROGRESS =>
      rw [if_pos rfl]
      exact wp_commit_and_boot hi hroot hp
    | ROLLBACK_IN_PROGRESS =>
      rw [if_neg (by decide), if_neg (by decide), if_pos (.inl rfl)]
      exact wp_rollback_and_boot hi hroot hp _
    | ROLLBACK_FAILED =>
      rw [if_neg (by decide), if_neg (by decide), if_pos (.inr rfl)]
      exact wp_rollback_and_boot hi hroot hp _
  have hne : s.text ≠ State.COMMIT_IN_PROGRESS.text ∧ s.text ≠ State.PENDING_BOOT.text ∧
      ¬ (s.text = State.ROLLBACK_IN_PROGRESS.text ∨ s.text = State.ROLLBACK_FAILED.text) ∧
        ¬ s.ending := by
    rw [State.ending]
    revert hlate
    cases s <;> decide
  have h : Holds u s (fun S => u.Phase S (some s)) σ :=
    ⟨htok, hroot, fun he => absurd he hne.2.2.2, hp⟩
  rw [if_neg hne.1, if_neg hne.2.1, if_neg hne.2.2.1]
  refine wp_bind.mpr (wp_staged_package_valid hv (staged_of_phase hp hlate) hi ?_)
  rw [if_neg (by simp), update_phase]
  simp only [Prog.bind_eq]
  by_cases hst : s = .STAGED
  · subst hst
    rw [if_pos rfl]
    refine wp_bind.mpr (wp_write_state hi h.root h.snap h.snap h.snap.not_unready fun τ hτ => ?_)
    rw [if_neg (by decide)]
    exact wp_backup_phase ht hsize hτ (by simp)
  · rw [if_neg fun h => hst (text_injective h)]
    refine wp_backup_phase ht hsize h ?_
    exact (List.mem_cons.mp hlate).resolve_left hst

end run

/-! ## Histories -/

/-- The updater runs at all: `aio_cfw_update_pending` holds. -/
def Pending (σ : SD) : Prop :=
  σ.get UPDATE_READY ≠ none ∨ journal.token σ ≠ none ∨ σ.get UPDATE_BACKUP ≠ none

/-- A launch that goes well: a ready marker without a readable journal belongs to a whole
transaction. -/
structure Launchable (u : Update) (σ : SD) : Prop where
  pending : Pending σ
  ready : journal.token σ = none → σ.get UPDATE_READY ≠ none → u.Whole (snapshot u.patched σ)

theorem Pending.root {σ : SD} (h : Pending σ) : σ.get UPDATE_ROOT = some .dir := by
  have hat : ∀ p, σ.tokenAt p ≠ none → σ.get p ≠ none := by
    intro p hp hn
    rw [SD.tokenAt, hn] at hp
    exact hp rfl
  rcases h with h | h | h
  · exact FileTree.get_prefix_of_ne_none (r := ["ready"]) (by simp) h
  · rw [JournalFiles.token, Ne, Option.or_eq_none_iff, not_and_or] at h
    rcases h with h | h
    · exact FileTree.get_prefix_of_ne_none (r := ["state"]) (by simp) (hat _ h)
    · exact FileTree.get_prefix_of_ne_none (r := ["state.tmp"]) (by simp) (hat _ h)
  · exact FileTree.get_prefix_of_ne_none (r := ["backup"]) (by simp) h

/-- What `aio_cfw_update_pending` tests. -/
theorem wp_aio_cfw_update_pending {σ : SD} {C : SD → Prop} {Q : Bool → SD → Prop} (hC : C σ)
    (hQ : ∀ b : Bool, (b = true ↔ Pending σ) → Q b σ) :
    wp (payload copiesMayFail) C Q aio_cfw_update_pending σ := by
  rw [aio_cfw_update_pending]
  simp only [Prog.bind_eq, Prog.pure_eq]
  refine wp_bind.mpr (wp_probe hC fun b hb => ?_)
  cases b with
  | true => exact ⟨hC, hQ true (by simpa [Pending] using .inl (hb.mp rfl))⟩
  | false =>
    have hr : σ.get UPDATE_READY = none := by simpa using hb
    rw [if_neg (by simp)]
    refine wp_bind.mpr (wp_readState hC fun o ho => ?_)
    obtain rfl : o = journal.token σ := by
      refine ho.resolve_right ?_
      rintro ⟨p, -, h | h⟩ <;> cases h
    cases htok : journal.token σ with
    | some t => exact ⟨hC, hQ true (by simp [Pending, htok])⟩
    | none => exact wp_probe hC fun b hb => hQ b (by simp [Pending, hr, htok, hb])

/-- One launch in a launchable state. -/
theorem wp_aio_cfw_update_run {u : Update} {σ : SD} {depth FSBuffSize : ℕ} (hv : u.Valid)
    (ht : u.Tame) (hsize : u.Sized) (hi : Inv u σ) (hl : Launchable u σ) :
    wp (payload copiesMayFail) (Inv u) (fun e σ' => Reported u (snapshot u.patched σ') e)
      (aio_cfw_update_run depth FSBuffSize u.patched) σ := by
  have hroot := hl.pending.root
  rw [aio_cfw_update_run]
  simp only [Prog.bind_eq]
  refine wp_bind.mpr (wp_readState hi fun o ho => ?_)
  obtain rfl : o = journal.token σ := by
    refine ho.resolve_right ?_
    rintro ⟨p, -, h | h⟩ <;> cases h
  obtain ⟨s, hs, hp⟩ := hi
  have hi : Inv u σ := ⟨s, hs, hp⟩
  cases s with
  | some s =>
    rw [hs]
    exact wp_run_from hv ht hsize hs hroot hp
  | none =>
    rw [hs]
    refine wp_bind.mpr (wp_probe hi fun there hready => ?_)
    cases there with
    | true =>
      rw [if_pos rfl]
      have hw := hl.ready hs (hready.mp rfl)
      refine wp_bind.mpr (wp_write_state hi hroot hw hw hp fun τ hτ => ?_)
      rw [if_neg (by decide)]
      exact wp_run_from hv ht hsize hτ.token hτ.root hτ.snap
    | false =>
      rw [if_neg (by simp)]
      have hr : σ.get UPDATE_READY = none := by simpa using hready
      refine wp_bind.mpr (wp_probe hi fun there hback => ?_)
      cases there with
      | true =>
        rw [if_pos rfl]
        refine wp_rollback_and_boot hi hroot (hp (by simp [snapshot, hr]) ?_) _
        simpa [snapshot] using hback.mp rfl
      | false =>
        rw [if_neg (by simp)]
        exact ⟨hi, trivial⟩

/-- A staged transaction for the update `u`: the journal at `STAGED`, the ready marker, and
no backup. -/
structure Staged (u : Update) (σ : SD) : Prop where
  token : journal.token σ = some State.STAGED.text
  ready : σ.get UPDATE_READY ≠ none
  backup : σ.get UPDATE_BACKUP = none
  staged : σ.sub UPDATE_NEW = u.staged
  original : ∀ i : Managed, σ.sub (originalPath u.patched i.name) = u.original i
  updater : u.patched = true → σ.get ROOT_PAYLOAD = some (.file u.updater)

theorem below_backup : ∀ i : Managed, UPDATE_BACKUP <+: backupPath i.name ∧
    UPDATE_BACKUP <+: absent_marker_path i := by
  decide

theorem Staged.whole {u : Update} {σ : SD} (h : Staged u σ) : u.Whole (snapshot u.patched σ) := by
  have hnone : ∀ w, UPDATE_BACKUP <+: w → σ.get w = none := by
    rintro w ⟨r, rfl⟩
    exact FileTree.get_append_of_none h.backup r
  refine ⟨h.staged, Option.isSome_iff_ne_none.mpr h.ready, by simp [snapshot, h.backup], .inl ?_⟩
  refine fun i => .inl ⟨h.original i, ?_, ?_, fun hs => .inr ⟨hs, ?_⟩⟩
  · exact get_backup.mpr (hnone _ (below_backup i).1)
  · exact get_marker.mpr (hnone _ (below_backup i).2)
  · refine SD.sub_eq_single.mpr ?_
    rw [(special_paths u.patched i hs).2]
    exact h.updater (by rw [Update.special, Bool.and_eq_true] at hs; exact hs.1)

theorem Staged.inv {u : Update} {σ : SD} (h : Staged u σ) : Inv u σ :=
  ⟨some .STAGED, h.token, h.whole⟩

/-- Runs of the CFW updater, all but the last cut, each launched in a launchable state: an
exit that boots finds the whole pack installed when it reports a commit, and every original
when it reports a rollback or that nothing was changed. -/
theorem cfw_update_atomic (depth FSBuffSize : ℕ) {u : Update} (hv : u.Valid) (ht : u.Tame)
    (hsize : u.Sized) {σ₀ σ σ' : SD} {e : Exit} (h₀ : Staged u σ₀)
    (hcuts : Relaunch (payload copiesMayFail) (aio_cfw_update_run depth FSBuffSize u.patched)
      (Launchable u) σ₀ σ)
    (hl : Launchable u σ)
    (hrun : Run (payload copiesMayFail) (aio_cfw_update_run depth FSBuffSize u.patched) σ
      (some e) σ') :
    Reported u (snapshot u.patched σ') e := by
  have hi : Inv u σ := hcuts.invariant h₀.inv fun τ hτ hi =>
    wp_aio_cfw_update_run hv ht hsize hi hτ
  exact wp_sound (wp_aio_cfw_update_run hv ht hsize hi hl) hrun

/-! ### A launch that goes wrong -/

/-- The update that a card is staged for. -/
def Update.ofCard (patched : Bool) (updater : Bytes) (σ : SD) : Update where
  patched := patched
  updater := updater
  original i := σ.sub (originalPath patched i.name)
  staged := σ.sub UPDATE_NEW

theorem Update.pack_ofCard (patched : Bool) (updater : Bytes) (σ : SD) (i : Managed) :
    (Update.ofCard patched updater σ).pack i = σ.sub (UPDATE_NEW ++ rootPath i.name) := by
  funext r
  simp [Update.pack, Update.ofCard, Tree.below, rootPath, CombinePaths]

/-- A small staged transaction: `boot.ini` is there, and the pack brings three files. -/
def stagedCard : SD := SD.build
  [(["boot.ini"], .file [1]), (UPDATE_ROOT, .dir), (UPDATE_READY, .file (ascii "1")),
   (UPDATE_STATE, .file State.STAGED.text), (UPDATE_NEW, .dir),
   (UPDATE_NEW ++ ["atmosphere"], .dir),
   (UPDATE_NEW ++ ["atmosphere", "package3"], .file [5]),
   (UPDATE_NEW ++ ["payload.bin"], .file [6]), (UPDATE_NEW ++ ["hbmenu.nro"], .file [7])]

/-- Its update, on unpatched hardware. -/
def stagedUpdate : Update := .ofCard false [] stagedCard

theorem stagedCard_staged : Staged stagedUpdate stagedCard where
  token := by decide
  ready := by decide
  backup := by decide
  staged := rfl
  original _ := rfl
  updater h := by cases h

theorem stagedUpdate_valid : stagedUpdate.Valid where
  core := by decide
  payload h := by cases h
  boot _ := .inr (.inr (by decide))

theorem stagedUpdate_tame : stagedUpdate.Tame where
  own r hr := by
    refine absurd ?_ hr
    have hnone : stagedCard.get (UPDATE_NEW ++ ["aio-mod-update"]) = none := by decide
    exact FileTree.get_append_of_none hnone r
  saved h := by cases h

theorem stagedUpdate_sized : stagedUpdate.Sized := fun _ _ h => by cases h

/-- The power goes after sixty calls, while the managed paths are backed up. -/
def midBackup : Script where
  calls := 60
  mishap _ := none
  order := id

/-- A run cut during the backup and a run that completes: the pack is installed. -/
theorem cfw_update_atomic_resumed :
    Reported stagedUpdate (snapshot false
      (Script.undisturbed.play copyFails (aio_cfw_update_run 5 16 false)
        (midBackup.play copyFails (aio_cfw_update_run 5 16 false) stagedCard).2).2)
      (.boot .success (.payload ["payload.bin"])) := by
  have h₁ := midBackup.run copyFails_sound (aio_cfw_update_run 5 16 false) stagedCard
  have hcut : (midBackup.play copyFails (aio_cfw_update_run 5 16 false) stagedCard).1 = none := by
    decide +kernel
  have h₂ := Script.undisturbed.run copyFails_sound (aio_cfw_update_run 5 16 false)
    (midBackup.play copyFails (aio_cfw_update_run 5 16 false) stagedCard).2
  have hend : (Script.undisturbed.play copyFails (aio_cfw_update_run 5 16 false)
      (midBackup.play copyFails (aio_cfw_update_run 5 16 false) stagedCard).2).1 =
        some (.boot .success (.payload ["payload.bin"])) := by
    decide +kernel
  rw [hcut] at h₁
  rw [hend] at h₂
  have hl₀ : Launchable stagedUpdate stagedCard :=
    ⟨.inl (by decide +kernel), fun h => absurd h (by decide +kernel)⟩
  have hl₁ : Launchable stagedUpdate
      (midBackup.play copyFails (aio_cfw_update_run 5 16 false) stagedCard).2 :=
    ⟨.inl (by decide +kernel), fun h => absurd h (by decide +kernel)⟩
  exact cfw_update_atomic 5 16 stagedUpdate_valid stagedUpdate_tame stagedUpdate_sized
    stagedCard_staged (.single ⟨hl₀, h₁⟩) hl₁ h₂

/-- The copy fails at its first file, and the power goes while the rollback removes the
transaction folder: the journal and one file of the pack are gone, the ready marker is
still there. -/
def cutRemoval : Script where
  calls := 155
  mishap i := if i = 91 then some (.fails .FR_DISK_ERR) else none
  order l := l.filter (fun e => e.name = "state") ++ l.filter (fun e => e.name ≠ "state")

theorem installed_get {u : Update} {σ : SD} (h : u.Installed (snapshot u.patched σ))
    {i : Managed} (hn : i.name ≠ "Next") {k : Name} (hk : fold i.name = k) :
    σ.get [k] = u.staged [k] := by
  have hi := h i
  rw [Update.target, if_neg hn] at hi
  rw [← hk]
  exact (FileTree.get_eq_sub σ (rootPath i.name)).trans (congrFun hi [])

/-- The card after that run. -/
def cutCard : SD := (cutRemoval.play copyFails (aio_cfw_update_run 5 16 false) stagedCard).2

/-- Without the condition of `Launchable` a part of the pack is installed: the relaunched
updater takes the ready marker for a new transaction, installs what the removal left of the
pack and reports success. -/
theorem partial_pack_installed :
    ¬ ∀ (depth FSBuffSize : ℕ) (u : Update) (σ₀ σ σ' : SD) (e : Exit),
      u.Valid → Staged u σ₀ →
      Relaunch (payload copiesMayFail) (aio_cfw_update_run depth FSBuffSize u.patched) Pending
        σ₀ σ →
      Pending σ →
      Run (payload copiesMayFail) (aio_cfw_update_run depth FSBuffSize u.patched) σ (some e) σ' →
      Reported u (snapshot u.patched σ') e := by
  intro h
  have h₁ := cutRemoval.run copyFails_sound (aio_cfw_update_run 5 16 false) stagedCard
  have hcut : (cutRemoval.play copyFails (aio_cfw_update_run 5 16 false) stagedCard).1 = none := by
    decide +kernel
  have h₂ := Script.undisturbed.run copyFails_sound (aio_cfw_update_run 5 16 false) cutCard
  have hend : (Script.undisturbed.play copyFails (aio_cfw_update_run 5 16 false) cutCard).1 =
        some (.boot .success (.payload ["payload.bin"])) ∧
      (Script.undisturbed.play copyFails (aio_cfw_update_run 5 16 false) cutCard).2.get
        ["hbmenu.nro"] = none := by
    decide +kernel
  rw [hcut] at h₁
  rw [hend.1] at h₂
  have hpend₀ : Pending stagedCard := .inl (by decide +kernel)
  have hpend₁ : Pending cutCard := .inl (by decide +kernel)
  have hin := h 5 16 stagedUpdate stagedCard cutCard _ _ stagedUpdate_valid stagedCard_staged
    (.single ⟨hpend₀, h₁⟩) hpend₁ h₂
  -- `hbmenu.nro` of the pack is missing
  have hpack : stagedUpdate.staged ["hbmenu.nro"] ≠ none := by decide +kernel
  have hget := installed_get hin (i := ⟨7, by decide⟩) (by decide) (k := "hbmenu.nro") (by decide)
  exact hpack (hget.symm.trans hend.2)

end CfwUpdater
