/-
# The journal writer of the application when calls fail

Each call of `cfwWriteTextFileAtomic` takes full effect, or fails without any.  The journal then
reads as before or as the new text exactly when nothing can be lost: no state was there before, or
the final path holds it and the rename that replaces it works.
-/
import AioMod.CfwHorizonSpec
import AioMod.Script

namespace Util

/-- The calls that may fail: all of them, and with `renames` all but a rename. -/
def mayFail (renames : Bool) : SD → HFn → Prop := fun _ fn =>
  renames = true → ∀ old new, fn ≠ .fsFsRenameFile old new

/-- Each call takes full effect, or fails without any. -/
def allOrNothing (renames : Bool) : Machine Horizon SD := fun σ fn r σ' =>
  (r, σ') = σ.hanswer fn ∨ mayFail renames σ fn ∧ r = SD.hfailed fn ∧ σ' = σ

section faults

variable {renames : Bool} {C : SD → Prop} {σ σ' : SD} {p : FsPath}

theorem horizon_of_allOrNothing {fn : HFn} {r : fn.Res} (h : allOrNothing renames σ fn r σ') :
    horizon (mayFail renames) σ fn r σ' :=
  h.imp id fun h => ⟨h.1, h.2.1, .inl h.2.2⟩

/-- The rule of a single call. -/
theorem wp_whole {fn : HFn} {Q : fn.Res → SD → Prop} (hC : C σ)
    (hQ : ∀ r σ', allOrNothing renames σ fn r σ' → C σ' ∧ Q r σ') :
    wp (allOrNothing renames) C Q (hcall fn) σ :=
  (wp_op (I := Horizon) _).mpr ⟨hC, hQ⟩

/-- The rule of a call that leaves the card as it is. -/
theorem wp_whole_look (fn : HFn) (hfn : fn.readOnly = true) {Q : fn.Res → SD → Prop} (hC : C σ)
    (hQ : ∀ r : fn.Res, Q r σ) : wp (allOrNothing renames) C Q (hcall fn) σ := by
  refine wp_whole hC fun r σ' h => ?_
  obtain ⟨rfl, -⟩ := horizon_readOnly hfn (horizon_of_allOrNothing h)
  exact ⟨hC, hQ r⟩

/-- A write fills the file, or leaves it. -/
theorem whole_fsFileWrite {data b : Bytes} {r : Bool} (hb : σ.get p = some (.file b))
    (hlen : data.length = b.length) (h : allOrNothing renames σ (.fsFileWrite p 0 data) r σ') :
    (r = true ∧ ∀ q, σ'.get q = if q = p then some (.file data) else σ.get q) ∨
      (r = false ∧ σ' = σ) := by
  rcases h with h | ⟨-, hr, hσ⟩
  · have hwork : horizon allWork σ (.fsFileWrite p 0 data) r σ' := .inl h
    obtain ⟨n, -, hget, ⟨hr, rfl⟩ | ⟨-, hf⟩⟩ := horizon_fsFileWrite hb (by omega) hwork
    · refine .inl ⟨hr, fun q => ?_⟩
      rw [hget, List.take_zero, List.nil_append, List.take_length, Nat.zero_add,
        List.drop_of_length_le (by omega), List.append_nil]
    · exact hf.elim
  · exact .inr ⟨hr, hσ⟩

/-- The file at `p` is gone, and nothing else has changed. -/
def Deleted (p : FsPath) (σ σ' : SD) : Prop :=
  (∃ b, σ.get p = some (.file b)) ∧ ∀ q, σ'.get q = if q = p then none else σ.get q

/-- `cfwDeleteFileNative` deletes the file, or does nothing. -/
theorem wp_whole_delete (p : FsPath) (σ : SD) :
    wp (allOrNothing renames) (fun σ' => σ' = σ ∨ Deleted p σ σ')
      (fun _ σ' => σ' = σ ∨ Deleted p σ σ') (cfwDeleteFileNative p false) σ := by
  have h0 : σ = σ ∨ Deleted p σ σ := .inl rfl
  rw [cfwDeleteFileNative, cfwSdFileSystem]
  simp only [Prog.bind_eq, Prog.pure_eq]
  refine wp_bind.mpr (wp_whole_look .fsdevGetDeviceFileSystem rfl h0 ?_)
  rintro (_ | _)
  · exact ⟨h0, h0⟩
  · refine wp_bind.mpr (wp_whole_look (.fsFsGetEntryType p) rfl h0 ?_)
    rintro (_ | _ | _)
    · exact ⟨h0, h0⟩
    · refine wp_bind.mpr (wp_whole h0 fun r τ h => ?_)
      rcases horizon_fsFsDeleteFile (horizon_of_allOrNothing h) with ⟨rfl, hb, hget⟩ | ⟨rfl, rfl, -⟩
      · have h1 : τ = σ ∨ Deleted p σ τ := .inr ⟨hb, hget⟩
        exact ⟨h1, h1, h1⟩
      · exact ⟨h0, h0, h0⟩
    · exact ⟨h0, h0⟩

/-! ## The state while it is written -/

/-- A state is read as before, or as the new text. -/
def Kept (text : Bytes) (σ σ' : SD) : Prop :=
  stateText σ' = stateText σ ∨ stateText σ' = trimText text

/-- No state can be lost: there is none, or the final path holds it and is given up only for the
new one. -/
def Guarded (renames : Bool) (σ : SD) : Prop :=
  stateText σ = [] ∨ textAt σ CFW_UPDATE_STATE_PATH ≠ [] ∧
    (σ.get CFW_UPDATE_STATE_TMP_PATH = some .dir ∨ renames = true)

instance (renames : Bool) (σ : SD) : Decidable (Guarded renames σ) :=
  inferInstanceAs (Decidable (_ ∨ _ ∧ (_ ∨ _)))

theorem state_ne_tmp : CFW_UPDATE_STATE_PATH ≠ CFW_UPDATE_STATE_TMP_PATH := by decide

theorem stateText_of_state (h : textAt σ CFW_UPDATE_STATE_PATH ≠ []) :
    stateText σ = textAt σ CFW_UPDATE_STATE_PATH := if_pos h

theorem stateText_of_tmp (h : textAt σ CFW_UPDATE_STATE_PATH = []) :
    stateText σ = textAt σ CFW_UPDATE_STATE_TMP_PATH := if_neg (not_not.mpr h)

/-- A text without the file it could be read from. -/
theorem textAt_of_none (h : σ.get p = none) : textAt σ p = [] := by rw [textAt, h]

/-- A guarded state outlives its temporary file. -/
theorem Guarded.kept {text : Bytes} (hg : Guarded renames σ)
    (hstate : textAt σ' CFW_UPDATE_STATE_PATH = textAt σ CFW_UPDATE_STATE_PATH)
    (htmp : textAt σ' CFW_UPDATE_STATE_TMP_PATH = textAt σ CFW_UPDATE_STATE_TMP_PATH ∨
      textAt σ' CFW_UPDATE_STATE_TMP_PATH = [] ∨
      textAt σ' CFW_UPDATE_STATE_TMP_PATH = trimText text) : Kept text σ σ' := by
  by_cases hf : textAt σ CFW_UPDATE_STATE_PATH = []
  swap
  · left
    rw [stateText_of_state (by rw [hstate]; exact hf), hstate, stateText_of_state hf]
  have hnone : stateText σ = [] := hg.resolve_right fun h => h.1 hf
  rw [Kept, stateText_of_tmp (hstate.trans hf)]
  rcases htmp with h | h | h
  · exact .inl (by rw [h, stateText_of_tmp hf])
  · exact .inl (by rw [h, hnone])
  · exact .inr h

/-- A whole file of zeros holds no text. -/
theorem textAt_zeros {n : ℕ} (h : σ.get p = some (.file (List.replicate n 0))) :
    textAt σ p = [] := by
  rw [textAt, h]
  show trimText _ = []
  rw [trimText, List.rdropWhile_eq_nil_iff]
  intro c hc
  have := List.eq_of_mem_replicate (List.mem_of_mem_take hc)
  simp [this]

theorem textAt_file {text : Bytes} (hlen : text.length ≤ 256) (h : σ.get p = some (.file text)) :
    textAt σ p = trimText text := by
  rw [textAt, h]
  show trimText _ = _
  rw [List.take_of_length_le hlen]

/-! ## The writer -/

/-- The temporary file gets the whole text, or the text is not written. -/
theorem wp_whole_writeTmp {text : Bytes}
    (hσ : σ.get p = some (.file (List.replicate text.length 0)))
    {Q : Bool → SD → Prop} (hC : ∀ τ, (∀ q, q ≠ p → τ.get q = σ.get q) →
      (τ.get p = none ∨ τ.get p = some (.file (List.replicate text.length 0)) ∨
        τ.get p = some (.file text)) → C τ)
    (hQ : ∀ τ, (∀ q, τ.get q = if q = p then some (.file text) else σ.get q) → Q true τ)
    (hfalse : ∀ τ, C τ → Q false τ) :
    wp (allOrNothing renames) C Q (writeTmp p text) σ := by
  have hdel : ∀ τ, (τ = σ ∨ Deleted p σ τ) → C τ := by
    rintro τ (rfl | ⟨-, hget⟩)
    · exact hC _ (fun _ _ => rfl) (.inr (.inl hσ))
    · exact hC _ (fun q hq => by rw [hget, if_neg hq]) (.inl (by rw [hget, if_pos rfl]))
  have h0 : C σ := hdel σ (.inl rfl)
  have hback : wp (allOrNothing renames) C Q
      ((cfwDeleteFileNative p false).bind fun _ => .ret false) σ := by
    refine wp_bind.mpr (wp_conseq (wp_whole_delete p σ) hdel fun r τ _ h => ?_)
    exact ⟨hdel τ h, hfalse τ (hdel τ h)⟩
  rw [writeTmp]
  simp only [Prog.bind_eq, Prog.pure_eq]
  refine wp_bind.mpr (wp_whole_look (.fsFsOpenFile p) rfl h0 ?_)
  rintro (_ | _)
  · exact hback
  · refine wp_bind.mpr (wp_whole h0 fun r τ h => ?_)
    rcases whole_fsFileWrite hσ (by simp) h with ⟨rfl, hget⟩ | ⟨rfl, rfl⟩
    · have h1 : C τ := hC τ (fun q hq => by rw [hget, if_neg hq])
        (.inr (.inr (by rw [hget, if_pos rfl])))
      exact ⟨h1, h1, hQ τ hget⟩
    · exact ⟨h0, hback⟩

/-- While a guarded state is written it is kept, and with success the new text is read. -/
theorem wp_whole_cfwWriteTextFileAtomic {text : Bytes} (hlen : text.length ≤ 256)
    (htext : trimText text ≠ []) (hg : Guarded renames σ) :
    wp (allOrNothing renames) (Kept text σ) (fun r σ' => r = true → stateText σ' = trimText text)
      (cfwWriteTextFileAtomic CFW_UPDATE_STATE_PATH CFW_UPDATE_STATE_TMP_PATH text) σ := by
  have hst := state_ne_tmp
  have h0 : Kept text σ σ := .inl rfl
  -- as long as only the temporary file changes
  have hoff : ∀ τ, (∀ q, q ≠ CFW_UPDATE_STATE_TMP_PATH → τ.get q = σ.get q) →
      (textAt τ CFW_UPDATE_STATE_TMP_PATH = textAt σ CFW_UPDATE_STATE_TMP_PATH ∨
        textAt τ CFW_UPDATE_STATE_TMP_PATH = [] ∨
        textAt τ CFW_UPDATE_STATE_TMP_PATH = trimText text) → Kept text σ τ := by
    intro τ hother htmp
    exact hg.kept (by rw [textAt, hother _ hst, ← textAt]) htmp
  rw [cfwWriteTextFileAtomic, cfwSdFileSystem]
  simp only [Prog.bind_eq, Prog.pure_eq]
  refine wp_bind.mpr (wp_whole_look .fsdevGetDeviceFileSystem rfl h0 ?_)
  rintro (_ | _)
  · exact ⟨h0, by rintro ⟨⟩⟩
  have hempty : text.isEmpty = false := by
    rcases text with _ | ⟨c, text⟩
    · exact absurd rfl htext
    · rfl
  rw [hempty]
  simp only [Bool.not_true, Bool.or_false, Bool.false_eq_true, if_false]
  -- the old temporary file
  have hdel₁ : ∀ τ, (τ = σ ∨ Deleted CFW_UPDATE_STATE_TMP_PATH σ τ) → Kept text σ τ := by
    rintro τ (rfl | ⟨-, hget⟩)
    · exact h0
    · exact hoff τ (fun q hq => by rw [hget, if_neg hq])
        (.inr (.inl (textAt_of_none (by rw [hget, if_pos rfl]))))
  refine wp_bind.mpr (wp_conseq (wp_whole_delete CFW_UPDATE_STATE_TMP_PATH σ) hdel₁ ?_)
  intro _ τ₁ h₁ _
  have hk₁ := hdel₁ τ₁ h₁
  have hother₁ : ∀ q, q ≠ CFW_UPDATE_STATE_TMP_PATH → τ₁.get q = σ.get q := by
    intro q hq
    rcases h₁ with rfl | ⟨-, hget⟩
    · rfl
    · rw [hget, if_neg hq]
  -- a new one
  refine wp_bind.mpr (wp_whole hk₁ fun r τ₂ h => ?_)
  rcases horizon_fsFsCreateFile (horizon_of_allOrNothing h) with
    ⟨rfl, hfree, -, hget₂⟩ | ⟨rfl, rfl, -⟩
  swap
  · exact ⟨hk₁, hk₁, by rintro ⟨⟩⟩
  have hdir : σ.get CFW_UPDATE_STATE_TMP_PATH ≠ some .dir := by
    rcases h₁ with rfl | ⟨⟨b, hb⟩, -⟩
    · rw [hfree]
      rintro ⟨⟩
    · rw [hb]
      rintro ⟨⟩
  have hzeros : τ₂.get CFW_UPDATE_STATE_TMP_PATH = some (.file (List.replicate text.length 0)) := by
    rw [hget₂, if_pos rfl]
  have hother₂ : ∀ q, q ≠ CFW_UPDATE_STATE_TMP_PATH → τ₂.get q = σ.get q := by
    intro q hq
    rw [hget₂, if_neg hq, hother₁ q hq]
  refine ⟨hoff τ₂ hother₂ (.inr (.inl (textAt_zeros hzeros))), ?_⟩
  simp only [Bool.not_true, Bool.false_eq_true, if_false]
  refine wp_bind.mpr (wp_whole_writeTmp hzeros ?_ ?_ ?_)
  · intro τ hother htmp
    refine hoff τ (fun q hq => by rw [hother q hq, hother₂ q hq]) ?_
    rcases htmp with h | h | h
    · exact .inr (.inl (textAt_of_none h))
    · exact .inr (.inl (textAt_zeros h))
    · exact .inr (.inr (textAt_file hlen h))
  swap
  · intro τ hk
    exact ⟨hk, by rintro ⟨⟩⟩
  intro τ₃ hget₃
  have htmp₃ : τ₃.get CFW_UPDATE_STATE_TMP_PATH = some (.file text) := by rw [hget₃, if_pos rfl]
  have hother₃ : ∀ q, q ≠ CFW_UPDATE_STATE_TMP_PATH → τ₃.get q = σ.get q := by
    intro q hq
    rw [hget₃, if_neg hq, hother₂ q hq]
  have hk₃ : Kept text σ τ₃ := hoff τ₃ hother₃ (.inr (.inr (textAt_file hlen htmp₃)))
  simp only [Bool.not_true, Bool.false_eq_true, if_false]
  -- the old state goes
  have htmp₄ : ∀ τ, (τ = τ₃ ∨ Deleted CFW_UPDATE_STATE_PATH τ₃ τ) →
      τ.get CFW_UPDATE_STATE_TMP_PATH = some (.file text) := by
    rintro τ (rfl | ⟨-, hget⟩)
    · exact htmp₃
    · rw [hget, if_neg hst.symm, htmp₃]
  have hdel₄ : ∀ τ, (τ = τ₃ ∨ Deleted CFW_UPDATE_STATE_PATH τ₃ τ) → Kept text σ τ := by
    intro τ h
    have htmp := htmp₄ τ h
    rcases h with rfl | ⟨-, hget⟩
    · exact hk₃
    · right
      rw [stateText_of_tmp (textAt_of_none (by rw [hget, if_pos rfl])), textAt_file hlen htmp]
  refine wp_bind.mpr (wp_conseq (wp_whole_delete CFW_UPDATE_STATE_PATH τ₃) hdel₄ ?_)
  intro _ τ₄ h₄ _
  have hk₄ := hdel₄ τ₄ h₄
  have hfile₄ := htmp₄ τ₄ h₄
  -- the new one takes its place
  refine wp_bind.mpr (wp_whole hk₄ fun r τ₅ h => ?_)
  rcases horizon_fsFsRenameFile (horizon_of_allOrNothing h) with ⟨rfl, hm, rfl⟩ | ⟨rfl, rfl, hfail⟩
  · have hnew : stateText (τ₄.move CFW_UPDATE_STATE_TMP_PATH CFW_UPDATE_STATE_PATH hm) =
        trimText text := by
      have hfile : (τ₄.move CFW_UPDATE_STATE_TMP_PATH CFW_UPDATE_STATE_PATH hm).get
          CFW_UPDATE_STATE_PATH = some (.file text) := by
        rw [FileTree.get_eq_sub, FileTree.sub_move_dst, ← FileTree.get_eq_sub, hfile₄]
      have hat := textAt_file hlen hfile
      rw [stateText_of_state (by rw [hat]; exact htext), hat]
    refine ⟨.inr hnew, ?_⟩
    simp only [Bool.not_true, Bool.false_eq_true, if_false]
    exact wp_whole_look .fsFsCommit rfl (.inr hnew) fun _ _ => hnew
  · refine ⟨hk₄, ?_⟩
    simp only [Bool.not_false, if_true]
    -- the new text is thrown away, so the old state must be there
    have hend : ∀ τ, (τ = τ₅ ∨ Deleted CFW_UPDATE_STATE_TMP_PATH τ₅ τ) → Kept text σ τ := by
      rintro τ (rfl | ⟨-, hget⟩)
      · exact hk₄
      have hgone : textAt τ CFW_UPDATE_STATE_TMP_PATH = [] :=
        textAt_of_none (by rw [hget, if_pos rfl])
      rcases h₄ with rfl | ⟨-, hget₄⟩
      · exact hoff τ (fun q hq => by rw [hget, if_neg hq, hother₃ q hq]) (.inr (.inl hgone))
      have hnone : stateText τ = [] := by
        rw [stateText_of_tmp, hgone]
        exact textAt_of_none (by rw [hget, if_neg hst, hget₄, if_pos rfl])
      left
      rw [hnone]
      by_contra hprev
      obtain ⟨-, h | hren⟩ := hg.resolve_left fun h => hprev h.symm
      · exact hdir h
      rcases hfail with hf | hnf | hm
      · exact hf hren _ _ rfl
      · exact hnf _ hfile₄
      · refine hm ⟨by decide, by decide, by simp [hfile₄], by rw [hget₄, if_pos rfl], ?_, by decide⟩
        exact τ₅.parent CFW_UPDATE_STATE_TMP_PATH (by decide) (by simp [hfile₄])
    refine wp_bind.mpr (wp_conseq (wp_whole_delete CFW_UPDATE_STATE_TMP_PATH τ₅) hend ?_)
    intro _ τ h _
    exact ⟨hend τ h, by rintro ⟨⟩⟩

/-! ## What is read afterwards -/

/-- What `readCfwUpdateState` returns when its own calls work. -/
def Reads (σ : SD) (v : Bytes) : Prop :=
  ∃ σ', Run (horizon allWork) readCfwUpdateState σ (some v) σ'

/-- A program whose calls all work comes to its end. -/
theorem exists_run {α : Type} (p : Prog Horizon α) (σ : SD) :
    ∃ a σ', Run (horizon allWork) p σ (some a) σ' := by
  induction p generalizing σ with
  | ret a => exact ⟨a, σ, .ret a σ⟩
  | call o k ih =>
    obtain ⟨a, σ', h⟩ := ih (σ.hanswer o).1 (σ.hanswer o).2
    exact ⟨a, σ', .call (.inl rfl) h⟩

theorem reads_iff {v : Bytes} : Reads σ v ↔ v = stateText σ := by
  have hread : ∀ v σ', Run (horizon allWork) readCfwUpdateState σ (some v) σ' →
      v = stateText σ := by
    intro v σ' hrun
    refine wp_sound (wp_readCfwUpdateState (C := fun _ => True) (Q := fun v _ => v = stateText σ)
      reliable_allWork trivial rfl) hrun
  constructor
  · rintro ⟨σ', hrun⟩
    exact hread v σ' hrun
  · rintro rfl
    obtain ⟨v, σ', hrun⟩ := exists_run readCfwUpdateState σ
    rw [← hread v σ' hrun]
    exact ⟨σ', hrun⟩

/-! ## Runs that lose the state -/

/-- What is no directory can be deleted. -/
theorem run_whole_delete (renames : Bool) (hp : p ≠ []) (hσ : σ.get p ≠ some .dir) :
    ∃ τ, Run (allOrNothing renames) (cfwDeleteFileNative p false) σ (some true) τ ∧
      ∀ q, τ.get q = if q = p then none else σ.get q := by
  have hsd : allOrNothing renames σ .fsdevGetDeviceFileSystem true σ := .inl rfl
  have htype : allOrNothing renames σ (.fsFsGetEntryType p) ((σ.get p).map Entry.isDir) σ :=
    .inl rfl
  cases he : σ.get p with
  | none =>
    rw [he] at htype
    refine ⟨σ, .call hsd (.call htype (.ret _ _)), fun q => ?_⟩
    by_cases hq : q = p
    · rw [if_pos hq, hq, he]
    · rw [if_neg hq]
  | some e =>
    cases e with
    | dir => exact absurd he hσ
    | file b =>
      rw [he] at htype
      have hdel : (σ.get p).map Entry.isDir = some false ∧ σ.CanDel p := by
        refine ⟨by rw [he]; rfl, hp, FileTree.childless_iff.mpr fun k => ?_⟩
        exact FileTree.get_append_of_not_dir hσ (by simp)
      have hfile : allOrNothing renames σ (.fsFsDeleteFile p) true (σ.del p hdel.2) := by
        left
        simp only [SD.hanswer]
        rw [dif_pos hdel]
      exact ⟨σ.del p hdel.2, .call hsd (.call htype (.call hfile (.ret _ _))),
        fun q => FileTree.get_del σ p q hdel.2⟩

/-- The only copy of the state is deleted before the new one is written. -/
theorem run_forgets (renames : Bool) {text : Bytes} (htext : text ≠ [])
    (hstate : textAt σ CFW_UPDATE_STATE_PATH = [])
    (htmp : textAt σ CFW_UPDATE_STATE_TMP_PATH ≠ []) :
    ∃ σ', Run (allOrNothing renames)
      (cfwWriteTextFileAtomic CFW_UPDATE_STATE_PATH CFW_UPDATE_STATE_TMP_PATH text) σ none σ' ∧
        stateText σ' = [] := by
  have hfile : σ.get CFW_UPDATE_STATE_TMP_PATH ≠ some .dir := by
    intro hd
    rw [textAt, hd] at htmp
    exact htmp rfl
  obtain ⟨τ, hrun, hget⟩ := run_whole_delete renames (by decide) hfile
  have hsd : allOrNothing renames σ .fsdevGetDeviceFileSystem true σ := .inl rfl
  have hempty : text.isEmpty = false := by simpa using htext
  refine ⟨τ, .call hsd ?_, ?_⟩
  · simp only [hempty, Prog.bind_eq, Bool.or_false]
    exact hrun.bind (.cut _ _)
  · have hs : textAt τ CFW_UPDATE_STATE_PATH = [] := by
      rw [textAt, hget, if_neg state_ne_tmp, ← textAt, hstate]
    rw [stateText_of_tmp hs, textAt_of_none (by rw [hget, if_pos rfl])]

/-- The new text reaches the temporary file. -/
theorem run_whole_writeTmp (renames : Bool) (text : Bytes) (hp : p ≠ [])
    (hdir : σ.get p.dropLast = some .dir) (hfree : σ.get p = none) :
    ∃ τ τ₁, allOrNothing renames σ (.fsFsCreateFile p text.length) true τ ∧
      Run (allOrNothing renames) (writeTmp p text) τ (some true) τ₁ ∧
      ∀ q, τ₁.get q = if q = p then some (.file text) else σ.get q := by
  have hput : σ.get p = none ∧ σ.CanPut p := ⟨hfree, hp, hdir, by rw [hfree]; nofun⟩
  have hcreate : allOrNothing renames σ (.fsFsCreateFile p text.length) true
      (σ.put p (.file (List.replicate text.length 0)) hput.2) := by
    left
    simp only [SD.hanswer]
    rw [dif_pos hput]
  generalize hτ : σ.put p (.file (List.replicate text.length 0)) hput.2 = τ at hcreate
  have hget : ∀ q, τ.get q = if q = p then some (.file (List.replicate text.length 0))
      else σ.get q := by
    intro q
    rw [← hτ, FileTree.get_put]
  have hfile : τ.get p = some (.file (List.replicate text.length 0)) := by rw [hget, if_pos rfl]
  have hroom : 0 + text.length ≤ (List.replicate text.length (0 : UInt8)).length := by simp
  obtain ⟨τ₁, hover⟩ := SD.overwrite_isSome hfile hroom
  obtain ⟨b, hb, -, hget₁⟩ := SD.overwrite_eq_some hover
  have hopen : allOrNothing renames τ (.fsFsOpenFile p) true τ := by
    left
    simp only [SD.hanswer, hfile]
    rfl
  have hwrite : allOrNothing renames τ (.fsFileWrite p 0 text) true τ₁ := by
    left
    simp only [SD.hanswer, hover]
  refine ⟨τ, τ₁, hcreate, .call hopen (.call hwrite (.ret _ _)), fun q => ?_⟩
  rw [hfile] at hb
  cases hb
  rw [hget₁]
  by_cases hq : q = p
  · rw [if_pos hq, if_pos hq, List.take_zero, List.nil_append, Nat.zero_add,
      List.drop_of_length_le (by simp), List.append_nil]
  · rw [if_neg hq, if_neg hq, hget, if_neg hq]

/-- The old state is deleted, the rename fails, and the new one is thrown away. -/
theorem run_rename_fails (text : Bytes) (htext : text ≠ [])
    (hstate : textAt σ CFW_UPDATE_STATE_PATH ≠ [])
    (htmp : σ.get CFW_UPDATE_STATE_TMP_PATH ≠ some .dir) :
    ∃ σ', Run (allOrNothing false)
      (cfwWriteTextFileAtomic CFW_UPDATE_STATE_PATH CFW_UPDATE_STATE_TMP_PATH text) σ
        (some false) σ' ∧ stateText σ' = [] := by
  have hst := state_ne_tmp
  have hsd : allOrNothing false σ .fsdevGetDeviceFileSystem true σ := .inl rfl
  have hempty : text.isEmpty = false := by simpa using htext
  have hfile : σ.get CFW_UPDATE_STATE_PATH ≠ none ∧ σ.get CFW_UPDATE_STATE_PATH ≠ some .dir := by
    constructor
    · intro h
      rw [textAt, h] at hstate
      exact hstate rfl
    · intro h
      rw [textAt, h] at hstate
      exact hstate rfl
  have hroot : σ.get CFW_UPDATE_ROOT_NATIVE = some .dir :=
    σ.parent CFW_UPDATE_STATE_PATH (by decide) hfile.1
  obtain ⟨τ₁, hrun₁, hget₁⟩ := run_whole_delete false (by decide) htmp
  have hroot₁ : τ₁.get CFW_UPDATE_STATE_TMP_PATH.dropLast = some .dir := by
    rw [hget₁, if_neg (by decide)]
    exact hroot
  obtain ⟨τ₂, τ₃, hcreate, hrun₃, hget₃⟩ := run_whole_writeTmp false text (by decide) hroot₁
    (by rw [hget₁, if_pos rfl])
  have hstate₃ : τ₃.get CFW_UPDATE_STATE_PATH ≠ some .dir := by
    rw [hget₃, if_neg hst, hget₁, if_neg hst]
    exact hfile.2
  obtain ⟨τ₄, hrun₄, hget₄⟩ := run_whole_delete false (by decide) hstate₃
  have hrename : allOrNothing false τ₄
      (.fsFsRenameFile CFW_UPDATE_STATE_TMP_PATH CFW_UPDATE_STATE_PATH) false τ₄ :=
    .inr ⟨by rintro ⟨⟩, rfl, rfl⟩
  have htmp₄ : τ₄.get CFW_UPDATE_STATE_TMP_PATH ≠ some .dir := by
    rw [hget₄, if_neg hst.symm, hget₃, if_pos rfl]
    rintro ⟨⟩
  obtain ⟨τ₅, hrun₅, hget₅⟩ := run_whole_delete false (by decide) htmp₄
  refine ⟨τ₅, .call hsd ?_, ?_⟩
  · simp only [hempty, Prog.bind_eq, Bool.or_false]
    refine hrun₁.bind (.call hcreate ?_)
    refine hrun₃.bind (hrun₄.bind (.call hrename ?_))
    exact hrun₅.bind (.ret _ _)
  · have hs : textAt τ₅ CFW_UPDATE_STATE_PATH = [] :=
      textAt_of_none (by rw [hget₅, if_neg hst, hget₄, if_pos rfl])
    rw [stateText_of_tmp hs, textAt_of_none (by rw [hget₅, if_pos rfl])]

/-! ## When the writer is atomic -/

/-- Wherever a run of the writer ends, `readCfwUpdateState` then returns what it would have
returned before, or the new text; after a success it returns the new text. -/
def Atomic (renames : Bool) (text : Bytes) (σ : SD) : Prop :=
  ∀ out σ', Run (allOrNothing renames)
      (cfwWriteTextFileAtomic CFW_UPDATE_STATE_PATH CFW_UPDATE_STATE_TMP_PATH text) σ out σ' →
    (∀ v, Reads σ' v → Reads σ v ∨ v = trimText text) ∧
      (out = some true → ∀ v, Reads σ' v → v = trimText text)

/-- The writer is atomic exactly on a guarded state. -/
theorem cfwWriteTextFileAtomic_atomic (renames : Bool) (text : Bytes) (σ : SD)
    (hlen : text.length ≤ 256) (hline : trimText text ≠ []) :
    Atomic renames text σ ↔ Guarded renames σ := by
  have htext : text ≠ [] := by
    rintro rfl
    exact hline rfl
  constructor
  · intro h
    -- a run that leaves no state had none to lose
    have hlost : ∀ out σ', Run (allOrNothing renames) (cfwWriteTextFileAtomic
        CFW_UPDATE_STATE_PATH CFW_UPDATE_STATE_TMP_PATH text) σ out σ' → stateText σ' = [] →
        stateText σ = [] := by
      intro out σ' hrun hnone
      rcases (h out σ' hrun).1 [] (reads_iff.mpr hnone.symm) with hv | hv
      · exact (reads_iff.mp hv).symm
      · exact absurd hv.symm hline
    by_cases hprev : stateText σ = []
    · exact .inl hprev
    by_cases hstate : textAt σ CFW_UPDATE_STATE_PATH = []
    · obtain ⟨σ', hrun, hnone⟩ := run_forgets renames htext hstate
        (by rw [← stateText_of_tmp hstate]; exact hprev)
      exact .inl (hlost none σ' hrun hnone)
    refine .inr ⟨hstate, ?_⟩
    by_contra hcon
    push Not at hcon
    obtain ⟨htmp, hren⟩ := hcon
    obtain rfl : renames = false := by simpa using hren
    obtain ⟨σ', hrun, hnone⟩ := run_rename_fails text htext hstate htmp
    exact hprev (hlost _ σ' hrun hnone)
  · intro hg out σ' hrun
    have hwp := wp_whole_cfwWriteTextFileAtomic hlen hline hg
    refine ⟨fun v hv => ?_, ?_⟩
    · rw [reads_iff] at hv ⊢
      rw [hv]
      have hkept : Kept text σ σ' := wp_end hwp hrun
      exact hkept
    · rintro rfl v hv
      rw [reads_iff] at hv
      rw [hv]
      exact wp_sound hwp hrun rfl

/-- A card on which the final path holds the state. -/
def journalCard : SD := SD.build
  [(CFW_UPDATE_ROOT_NATIVE, .dir), (CFW_UPDATE_STATE_PATH, .file (ascii "PENDING_BOOT" ++ [10]))]

/-- With renames that work the state of `journalCard` is replaced. -/
theorem cfwWriteTextFileAtomic_atomic_journalCard :
    Atomic true (ascii "COMMIT_IN_PROGRESS" ++ [10]) journalCard := by
  have hline : trimText (ascii "COMMIT_IN_PROGRESS" ++ [10]) ≠ [] := by decide
  have hg : Guarded true journalCard := .inr ⟨by decide, .inr rfl⟩
  exact (cfwWriteTextFileAtomic_atomic true _ _ (by decide) hline).mpr hg

/-- A rename that fails leaves `journalCard` without a state. -/
theorem failed_rename_loses_state :
    ¬ ∀ (text : Bytes) (σ : SD), text.length ≤ 256 → text.getLast? = some 10 →
      trimText text ≠ [] → Atomic false text σ := by
  intro h
  have htext := h (ascii "COMMIT_IN_PROGRESS" ++ [10]) journalCard (by decide) (by decide)
    (by decide)
  have hstate : textAt journalCard CFW_UPDATE_STATE_PATH ≠ [] := by decide
  obtain ⟨σ', hrun, hnone⟩ := run_rename_fails (ascii "COMMIT_IN_PROGRESS" ++ [10]) (by decide)
    hstate (by decide)
  rcases (htext (some false) σ' hrun).1 [] (reads_iff.mpr hnone.symm) with hv | hv
  · rw [reads_iff, stateText_of_state hstate] at hv
    exact hstate hv.symm
  · exact absurd hv (by decide)

end faults

end Util
