/-
# What the helpers of the application updater do to the card

One rule for each helper of `aio_app_updater.c`, stated for any fault model.
-/
import AioMod.AppUpdater
import AioMod.JournalSpec

namespace AppUpdater

section rules

variable {F : SD → Op → Prop} {C : SD → Prop} {σ : SD} {depth FSBuffSize : ℕ}

theorem code_eq_ok {r : FRESULT} : code r = code .FR_OK ↔ r = .FR_OK := by
  cases r <;> simp [code]

theorem wp_nonempty_file_status {p : FsPath} {Q : ℕ → SD → Prop} (hC : C σ)
    (hQ : ∀ n, (n = code .FR_OK → NonEmpty σ p) →
      (n ≠ code .FR_OK → ¬ NonEmpty σ p ∨ MayFail F) → Q n σ) :
    wp (payload F) C Q (nonempty_file_status p) σ := by
  rw [nonempty_file_status]
  simp only [Prog.bind_eq, Prog.pure_eq]
  refine wp_bind.mpr (wp_at hC fun r τ h => ?_)
  obtain ⟨rfl, hr⟩ := payload_f_stat h
  refine ⟨hC, ?_⟩
  cases r with
  | error e =>
    refine ⟨hC, hQ _ (fun hn => ?_) fun _ => ?_⟩
    · rcases hr with hr | ⟨-, e', he', hr⟩
      · rw [SD.stat] at hr
        split at hr <;> cases hr
        exact absurd (code_eq_ok.mp hn) (SD.missing_ne_ok _ _)
      · cases hr
        exact absurd (code_eq_ok.mp hn) he'
    · rcases hr with hr | ⟨hF, -⟩
      · refine .inl ?_
        rintro ⟨b, -, hb⟩
        rw [SD.stat, hb] at hr
        cases hr
      · exact .inr ⟨_, _, hF⟩
  | ok info =>
    have hr : Except.ok info = SD.stat τ p := by
      rcases hr with hr | ⟨-, _, -, h⟩
      · exact hr
      · cases h
    rw [SD.stat] at hr
    split at hr
    · next hp =>
      cases hr
      refine ⟨hC, hQ _ (fun h => absurd h (by decide)) fun _ => .inl ?_⟩
      rintro ⟨b, -, hb⟩
      rw [hp] at hb
      cases hb
    · next b hp =>
      cases hr
      by_cases hb : b.length = 0
      · simp only [hb, if_true, if_false, Bool.false_eq_true]
        refine ⟨hC, hQ _ (fun h => absurd h (by decide)) fun _ => .inl ?_⟩
        rintro ⟨b', hne, hb'⟩
        rw [hp] at hb'
        cases hb'
        exact hne (List.length_eq_zero_iff.mp hb)
      · simp only [hb, if_false, Bool.false_eq_true]
        exact ⟨hC, hQ _ (fun _ => ⟨b, fun h => hb (by simp [h]), hp⟩) fun h => absurd rfl h⟩
    · cases hr

theorem wp_valid_nonempty_file {p : FsPath} {Q : Bool → SD → Prop} (hC : C σ)
    (htrue : NonEmpty σ p → Q true σ) (hfalse : ¬ NonEmpty σ p ∨ MayFail F → Q false σ) :
    wp (payload F) C Q (valid_nonempty_file p) σ := by
  rw [valid_nonempty_file]
  simp only [Prog.bind_eq, Prog.pure_eq]
  refine wp_bind.mpr (wp_nonempty_file_status hC fun n hok herr => ⟨hC, ?_⟩)
  by_cases hn : n = code .FR_OK
  · rw [decide_eq_true hn]
    exact htrue (hok hn)
  · rw [decide_eq_false hn]
    exact hfalse (herr hn)

/-- The comparisons only look. -/
theorem calls_file_sizes_match (a b : FsPath) :
    (file_sizes_match a b).Calls (I := FatFs) Op.looks := by
  refine ⟨rfl, fun r => ?_⟩
  cases r with
  | error e => trivial
  | ok ia =>
    refine ⟨rfl, fun r => ?_⟩
    cases r with
    | error e => trivial
    | ok ib =>
      simp only [Prog.ret_bind]
      split <;> trivial

theorem calls_file_contents_match_loop (a b : FsPath) (turns ofs left : ℕ) :
    (file_contents_match.loop a b turns ofs left).Calls (I := FatFs) Op.looks := by
  induction turns generalizing ofs left with
  | zero => trivial
  | succ turns ih =>
    rw [file_contents_match.loop]
    split
    · trivial
    refine ⟨rfl, fun r => ?_⟩
    cases r with
    | error e => trivial
    | ok first =>
      refine ⟨rfl, fun r => ?_⟩
      cases r with
      | error e => trivial
      | ok second =>
        simp only [Prog.ret_bind]
        split
        · trivial
        · exact ih _ _

theorem calls_file_contents_match (a b : FsPath) :
    (file_contents_match a b).Calls (I := FatFs) Op.looks := by
  refine ⟨rfl, fun r => ?_⟩
  cases r with
  | error e => trivial
  | ok size_first =>
    refine ⟨rfl, fun r => ?_⟩
    cases r with
    | error e => exact ⟨rfl, fun _ => trivial⟩
    | ok size_second =>
      refine ⟨rfl, fun buffer => ?_⟩
      have hend : ∀ same : Bool, Prog.Calls (I := FatFs) Op.looks
          ((call (.f_close b)).bind fun res_second => (call (.f_close a)).bind fun res_first =>
            .ret (same && res_second = .FR_OK && res_first = .FR_OK)) :=
        fun same => ⟨rfl, fun _ => ⟨rfl, fun _ => trivial⟩⟩
      simp only [Prog.bind_eq, Prog.ret_bind]
      split
      · exact Prog.calls_bind (calls_file_contents_match_loop _ _ _ _ _) hend
      · exact hend false

/-- `copy_verified` changes at most `dst`; with `FR_OK` it holds what stands at `src`. -/
theorem wp_copy_verified (src dst : FsPath) (σ : SD) :
    wp (payload F) (Copied src dst σ)
      (fun r σ' => r = .FR_OK →
        ∃ b, b ≠ [] ∧ σ.get src = some (.file b) ∧ σ'.get dst = some (.file b))
      (copy_verified FSBuffSize src dst) σ := by
  have h0 := Copied.refl src dst σ
  rw [copy_verified]
  simp only [Prog.bind_eq, Prog.pure_eq]
  refine wp_bind.mpr (wp_valid_nonempty_file h0 (fun hne => ?_) fun _ => ⟨h0, by simp⟩)
  obtain ⟨b, hb, hsrc⟩ := hne
  refine wp_bind.mpr (wp_conseq (wp_FileCopy FSBuffSize src dst σ) (fun _ h => h) ?_)
  intro r τ hc hok
  by_cases hr : r = .FR_OK
  swap
  · rw [if_pos hr]
    exact ⟨hc, fun h => absurd h hr⟩
  rw [if_neg (not_not.mpr hr)]
  obtain ⟨b', hb', hdst⟩ := hok hr
  rw [hsrc] at hb'
  cases hb'
  refine wp_bind.mpr (wp_looks (calls_file_sizes_match _ _) hc fun same => ?_)
  cases same
  · exact ⟨hc, by simp⟩
  refine wp_bind.mpr (wp_looks (calls_file_contents_match _ _) hc fun same => ?_)
  cases same
  · exact ⟨hc, by simp⟩
  exact ⟨hc, fun _ => ⟨b, hb, hsrc, hdst⟩⟩

/-- Restoring the boot payload changes nothing but `payload.bin`. -/
theorem wp_restore_boot_payload_if_needed (patched : Bool) (σ : SD) :
    wp (payload F) (fun σ' => ∀ q, ¬ ROOT_PAYLOAD <+: q → σ'.get q = σ.get q) (fun _ _ => True)
      (restore_boot_payload_if_needed FSBuffSize patched) σ := by
  rw [restore_boot_payload_if_needed]
  simp only [Prog.bind_eq, Prog.pure_eq]
  cases patched
  · exact ⟨fun _ _ => rfl, trivial⟩
  refine wp_bind.mpr ?_
  rw [restore_mariko_payload]
  simp only [Prog.bind_eq, Prog.pure_eq]
  refine wp_bind.mpr (wp_valid_nonempty_file (fun _ _ => rfl) (fun _ => ?_) fun _ => ?_)
  · refine wp_conseq (wp_copy_verified _ _ σ) (fun τ h q hq => h.get_other hq) fun r τ h _ => ?_
    have h' : ∀ q, ¬ ROOT_PAYLOAD <+: q → τ.get q = σ.get q := fun q hq => h.get_other hq
    split <;> exact ⟨h', trivial⟩
  · exact ⟨fun _ _ => rfl, fun _ _ => rfl, trivial⟩

end rules

end AppUpdater
