/-
# The swap of the boot payload

`finalize_patched_payload` under power cuts and failing calls.  At any moment the running updater
is complete at the root or beside the transaction, and whatever else stands at the root is the
staged payload.  The resumption compares sizes only, so the swap installs the staged payload exactly
when a running updater of the same size is that payload.
-/
import AioMod.CfwSpec
import AioMod.JournalFaults

namespace CfwUpdater

/-- The staged payload. -/
def STAGED_PAYLOAD : FsPath := UPDATE_NEW ++ ["payload.bin"]

/-- What a payload swap can look like: `U` is the running updater, `S` the staged payload. -/
structure Swapping (U S : Bytes) (σ : SD) : Prop where
  staged : σ.get STAGED_PAYLOAD = some (.file S)
  kept : σ.get ROOT_PAYLOAD = some (.file U) ∨
    σ.get UPDATE_UPDATER_SAVED = some (.file U) ∧
      (σ.get ROOT_PAYLOAD = none ∨ σ.get ROOT_PAYLOAD = some (.file S))

section swap

variable {F : SD → Op → Prop} {U S : Bytes} {σ σ' : SD}

/-- The paths a swap looks at are apart. -/
theorem swap_paths : ¬ UPDATE_PAYLOAD_NEXT <+: STAGED_PAYLOAD ∧
    ¬ UPDATE_PAYLOAD_NEXT <+: ROOT_PAYLOAD ∧ ¬ UPDATE_PAYLOAD_NEXT <+: UPDATE_UPDATER_SAVED := by
  decide

/-- The spare copy is no part of it. -/
theorem Swapping.of_next (h : Swapping U S σ)
    (hσ : ∀ q, ¬ UPDATE_PAYLOAD_NEXT <+: q → σ'.get q = σ.get q) : Swapping U S σ' := by
  obtain ⟨hs, hr, hu⟩ := swap_paths
  refine ⟨by rw [hσ _ hs, h.staged], ?_⟩
  rw [hσ _ hr, hσ _ hu]
  exact h.kept

/-- The updater is complete somewhere. -/
theorem Swapping.complete (h : Swapping U S σ) : σ.get ROOT_PAYLOAD = some (.file U) ∨
    σ.get UPDATE_UPDATER_SAVED = some (.file U) :=
  h.kept.imp id And.left

/-- The updater is moved aside. -/
theorem Swapping.of_saved (h : Swapping U S σ)
    (hm : σ.CanMove ROOT_PAYLOAD UPDATE_UPDATER_SAVED) :
    Swapping U S (σ.move ROOT_PAYLOAD UPDATE_UPDATER_SAVED hm) := by
  have hroot : σ.get ROOT_PAYLOAD = some (.file U) := by
    refine h.kept.resolve_right fun hk => ?_
    rw [hm.2.2.2.1] at hk
    cases hk.1
  refine ⟨?_, .inr ⟨?_, .inl (FileTree.get_move_src _ _ _ _)⟩⟩
  · rw [FileTree.get_move_other _ _ _ _ (by decide) (by decide), h.staged]
  · rw [FileTree.get_eq_sub, FileTree.sub_move_dst, ← FileTree.get_eq_sub, hroot]

/-- The new payload takes the free place at the root. -/
theorem Swapping.of_installed (h : Swapping U S σ)
    (hnext : σ.get UPDATE_PAYLOAD_NEXT = some (.file S))
    (hm : σ.CanMove UPDATE_PAYLOAD_NEXT ROOT_PAYLOAD) :
    Swapping U S (σ.move UPDATE_PAYLOAD_NEXT ROOT_PAYLOAD hm) := by
  have hsaved : σ.get UPDATE_UPDATER_SAVED = some (.file U) := by
    rcases h.kept with hk | hk
    · rw [hm.2.2.2.1] at hk
      cases hk
    · exact hk.1
  refine ⟨?_, .inr ⟨?_, .inr ?_⟩⟩
  · rw [FileTree.get_move_other _ _ _ _ (by decide) (by decide), h.staged]
  · rw [FileTree.get_move_other _ _ _ _ (by decide) (by decide), hsaved]
  · rw [FileTree.get_eq_sub, FileTree.sub_move_dst, ← FileTree.get_eq_sub, hnext]

theorem wp_install (depth : ℕ) (h : Swapping U S σ)
    (hnext : σ.get UPDATE_PAYLOAD_NEXT = some (.file S)) :
    wp (payload F) (Swapping U S) (fun _ _ => True)
      (finalize_patched_payload.install depth STAGED_PAYLOAD) σ := by
  have hcheck : ∀ {τ}, Swapping U S τ → wp (payload F) (Swapping U S) (fun _ _ => True)
      ((file_sizes_match STAGED_PAYLOAD ROOT_PAYLOAD).bind fun ok =>
        if (!ok) = true then Prog.ret FRESULT.FR_DISK_ERR
        else (remove_path_silent depth UPDATE_PAYLOAD_NEXT).bind fun _ => .ret .FR_OK) τ := by
    intro τ hτ
    refine wp_bind.mpr (wp_file_sizes_match hτ (fun _ => ?_) ⟨hτ, trivial⟩)
    have hrm : ∀ τ', Pruned UPDATE_PAYLOAD_NEXT τ τ' → Swapping U S τ' := fun τ' hp =>
      hτ.of_next fun q hq => hp.get_other hq
    refine wp_bind.mpr (wp_conseq (wp_removePath rfl depth _ τ) hrm fun r τ' hp _ => ?_)
    exact ⟨hrm τ' hp, trivial⟩
  rw [finalize_patched_payload.install]
  simp only [Prog.bind_eq, Prog.pure_eq]
  refine wp_bind.mpr (wp_path_exists h (fun _ => ?_) fun _ => ?_)
  · exact hcheck h
  · refine wp_bind.mpr (wp_at h fun r τ hr => ?_)
    rcases payload_f_rename hr with ⟨rfl, hm, rfl⟩ | ⟨hne, rfl, -⟩
    · have hτ := h.of_installed hnext hm
      exact ⟨hτ, hcheck hτ⟩
    · rw [if_pos hne]
      exact ⟨h, h, trivial⟩

/-- A swap keeps the updater, wherever it is cut and whatever fails. -/
theorem wp_finalize_swapping (depth FSBuffSize : ℕ) (h : Swapping U S σ) :
    wp (payload F) (Swapping U S) (fun _ _ => True)
      (finalize_patched_payload depth FSBuffSize) σ := by
  have hnext : ∀ {τ τ'}, Swapping U S τ → Pruned UPDATE_PAYLOAD_NEXT τ τ' → Swapping U S τ' :=
    fun hτ hp => hτ.of_next fun q hq => hp.get_other hq
  rw [finalize_patched_payload]
  simp only [Prog.bind_eq, Prog.pure_eq]
  refine wp_bind.mpr (wp_path_exists h (fun _ => ?_) fun _ => ⟨h, trivial⟩)
  refine wp_bind.mpr (wp_file_sizes_match h (fun _ => ?_) ?_)
  · refine wp_bind.mpr (wp_conseq (wp_removePath rfl depth _ σ) (fun τ' hp => hnext h hp) ?_)
    exact fun _ _ hp _ => ⟨hnext h hp, trivial⟩
  refine wp_bind.mpr (wp_conseq (wp_removePath rfl depth _ σ) (fun τ' hp => hnext h hp) ?_)
  intro r τ hp _
  have hτ := hnext h hp
  split
  · exact ⟨hτ, trivial⟩
  have hcopied : ∀ τ', Copied STAGED_PAYLOAD UPDATE_PAYLOAD_NEXT τ τ' → Swapping U S τ' :=
    fun τ' hc => hτ.of_next fun q hq => hc.get_other hq
  refine wp_bind.mpr (wp_conseq (wp_FileCopy FSBuffSize _ _ τ) hcopied ?_)
  intro r₁ τ₁ hc hok
  have hτ₁ := hcopied τ₁ hc
  split
  · exact ⟨hτ₁, trivial⟩
  next hr₁ =>
  have hfull : τ₁.get UPDATE_PAYLOAD_NEXT = some (.file S) := by
    obtain ⟨b, hb, hcopy⟩ := hok (not_not.mp hr₁)
    have hstaged := hτ.staged
    rw [STAGED_PAYLOAD, hb] at hstaged
    cases hstaged
    exact hcopy
  refine wp_bind.mpr (wp_file_sizes_match hτ₁ (fun _ => ?_) ⟨hτ₁, trivial⟩)
  have hinstall : wp (payload F) (Swapping U S) (fun _ _ => True)
      (finalize_patched_payload.install depth STAGED_PAYLOAD) τ₁ := wp_install depth hτ₁ hfull
  refine wp_bind.mpr (wp_path_exists hτ₁ (fun _ => ?_) fun _ => hinstall)
  refine wp_bind.mpr (wp_path_exists hτ₁ (fun _ => hinstall) fun _ => ?_)
  refine wp_bind.mpr (wp_at hτ₁ fun r₂ τ₂ h₂ => ?_)
  rcases payload_f_rename h₂ with ⟨rfl, hm, rfl⟩ | ⟨hne, rfl, -⟩
  · have hτ₂ := hτ₁.of_saved hm
    refine ⟨hτ₂, wp_install depth hτ₂ ?_⟩
    rw [FileTree.get_move_other _ _ _ _ (by decide) (by decide), hfull]
  · rw [if_pos hne]
    exact ⟨hτ₁, hτ₁, trivial⟩

/-! ## When the staged payload is installed -/

/-- Before the first launch: `U` at the root, `S` staged, and no directory in the way of the spare
copy.  Anything may stand where the updater is saved. -/
structure SwapStart (U S : Bytes) (σ : SD) : Prop where
  root : σ.get ROOT_PAYLOAD = some (.file U)
  staged : σ.get STAGED_PAYLOAD = some (.file S)
  next : σ.get UPDATE_PAYLOAD_NEXT ≠ some .dir

/-- After any number of cut runs, a run that returns `FR_OK` and passes the check of
`aio_cfw_update_run` has `S` at the root, and one that returns an error has `U` somewhere. -/
def Installs (depth FSBuffSize : ℕ) (F : SD → Op → Prop) (U S : Bytes) (σ₀ : SD) : Prop :=
  ∀ σ σ' r, Relaunch (payload F) (finalize_patched_payload depth FSBuffSize) (fun _ => True) σ₀ σ →
    Run (payload F) (finalize_patched_payload depth FSBuffSize) σ (some r) σ' →
    (r = .FR_OK → ∀ σ'', Run (payload F) (file_sizes_match STAGED_PAYLOAD ROOT_PAYLOAD) σ'
        (some true) σ'' → σ''.get ROOT_PAYLOAD = some (.file S)) ∧
      (r ≠ .FR_OK → σ'.get ROOT_PAYLOAD = some (.file U) ∨
        σ'.get UPDATE_UPDATER_SAVED = some (.file U))

theorem run_path_exists {M : Machine FatFs SD} (hM : Working M) {p : FsPath} {b : Bytes}
    (hσ : σ.get p = some (.file b)) : Run M (path_exists p) σ (some true) σ := by
  have hstat : M σ ⟨.probe, .f_stat p⟩ (.ok ⟨false, b.length⟩) σ := by
    refine hM _ _ _ _ ?_
    simp only [SD.Works, SD.answer, SD.stat, hσ]
  exact .call hstat (.ret _ _)

theorem run_file_sizes_match {M : Machine FatFs SD} (hM : Working M) {p q : FsPath} {b c : Bytes}
    (hp : σ.get p = some (.file b)) (hq : σ.get q = some (.file c)) (hlen : b.length = c.length) :
    Run M (file_sizes_match p q) σ (some true) σ := by
  have hstat : ∀ {p b}, σ.get p = some (.file b) →
      M σ ⟨.other, .f_stat p⟩ (.ok ⟨false, b.length⟩) σ := by
    intro p b h
    refine hM _ _ _ _ ?_
    simp only [SD.Works, SD.answer, SD.stat, h]
  refine .call (hstat hp) (.call (hstat hq) ?_)
  show Run M (.ret (decide (b.length = c.length))) σ _ σ
  rw [decide_eq_true hlen]
  exact .ret _ _

/-- An updater of the staged payload's size is taken for it. -/
theorem run_taken_for_installed {M : Machine FatFs SD} (hM : Working M) (depth FSBuffSize : ℕ)
    (h : SwapStart U S σ) (hlen : U.length = S.length) :
    ∃ τ, Run M (finalize_patched_payload depth FSBuffSize) σ (some .FR_OK) τ ∧
      τ.get STAGED_PAYLOAD = some (.file S) ∧ τ.get ROOT_PAYLOAD = some (.file U) := by
  have hid : id FRESULT.FR_OK = .FR_OK := rfl
  obtain ⟨τ, hrun, hget⟩ := hM.run_removePath hid depth (by decide) h.next
  refine ⟨τ, ?_, ?_, ?_⟩
  · rw [finalize_patched_payload]
    simp only [Prog.bind_eq, Prog.pure_eq]
    refine (run_path_exists hM h.staged).bind ?_
    refine (run_file_sizes_match hM h.staged h.root hlen.symm).bind ?_
    exact hrun.bind (.ret _ _)
  · rw [hget, if_neg (by decide), h.staged]
  · rw [hget, if_neg (by decide), h.root]

/-- The swap installs the staged payload exactly when no other updater has its size. -/
theorem finalize_patched_payload_installs (depth FSBuffSize : ℕ) (F : SD → Op → Prop) (U S : Bytes)
    (σ₀ : SD) (h₀ : SwapStart U S σ₀) :
    Installs depth FSBuffSize F U S σ₀ ↔ (U.length = S.length → U = S) := by
  constructor
  · intro h hlen
    obtain ⟨τ, hrun, hstaged, hroot⟩ :=
      run_taken_for_installed (working_payload F) depth FSBuffSize h₀ hlen
    have hcheck := run_file_sizes_match (working_payload F) hstaged hroot hlen.symm
    have hnew := (h σ₀ τ .FR_OK .refl hrun).1 rfl τ hcheck
    rw [hroot] at hnew
    cases hnew
    rfl
  · intro hlen σ σ' r hcuts hrun
    have hstart : Swapping U S σ₀ := ⟨h₀.staged, .inl h₀.root⟩
    have hσ : Swapping U S σ := hcuts.invariant hstart fun τ _ hτ =>
      wp_finalize_swapping depth FSBuffSize hτ
    have hσ' : Swapping U S σ' := wp_end (wp_finalize_swapping depth FSBuffSize hσ) hrun
    refine ⟨fun _ σ'' hcheck => ?_, fun _ => hσ'.complete⟩
    refine wp_sound (wp_file_sizes_match (C := fun _ => True)
      (Q := fun r τ => r = true → τ.get ROOT_PAYLOAD = some (.file S)) trivial ?_ nofun) hcheck rfl
    rintro ⟨x, y, hx, hy, hxy⟩ -
    rw [hσ'.staged] at hx
    cases hx
    rcases hσ'.kept with hk | ⟨-, hk | hk⟩
    · rw [hk] at hy
      cases hy
      rw [hk, hlen hxy.symm]
    · rw [hk] at hy
      cases hy
    · exact hk

/-- A card before the swap. -/
def swapCard (U S : Bytes) : SD := SD.build
  [(UPDATE_ROOT, .dir), (UPDATE_NEW, .dir), (STAGED_PAYLOAD, .file S), (ROOT_PAYLOAD, .file U)]

/-- Payloads of different sizes are told apart. -/
theorem finalize_patched_payload_installs_longer :
    Installs 5 16 copiesMayFail [1] [2, 3] (swapCard [1] [2, 3]) := by
  have h₀ : SwapStart [1] [2, 3] (swapCard [1] [2, 3]) := ⟨by decide, by decide, by decide⟩
  exact (finalize_patched_payload_installs 5 16 copiesMayFail [1] [2, 3] _ h₀).mpr (by decide)

/-- Payloads of one size are not: the updater stays at the root, and `FR_OK` is returned. -/
theorem equal_sizes_not_installed :
    ¬ ∀ (depth FSBuffSize : ℕ) (U S : Bytes) (σ₀ : SD), SwapStart U S σ₀ →
      Installs depth FSBuffSize (fun _ _ => False) U S σ₀ := by
  intro h
  have h₀ : SwapStart [1] [2] (swapCard [1] [2]) := ⟨by decide, by decide, by decide⟩
  obtain ⟨τ, hrun, hstaged, hroot⟩ :=
    run_taken_for_installed (working_payload fun _ _ => False) 5 16 h₀ rfl
  have hcheck := run_file_sizes_match (working_payload fun _ _ => False) hstaged hroot rfl
  have hnew := (h 5 16 [1] [2] _ h₀ _ τ .FR_OK .refl hrun).1 rfl τ hcheck
  rw [hroot] at hnew
  exact absurd hnew (by decide)

end swap

end CfwUpdater
