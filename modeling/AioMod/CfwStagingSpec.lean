/-
# What a staged update promises

Nothing is asked of the calls: any of them may fail, at any time, and the power may go between any
two.  A file that is replaced by way of a temporary one is the old one, or gone, or the new one in
full; and no marker is written before the package has been found complete.
-/
import AioMod.CfwStaging
import AioMod.CfwHorizonSpec
import AioMod.CfwAtomic

namespace Util

section calls

variable {F : SD → HFn → Prop} {C : SD → Prop} {σ : SD}

/-- A call that only looks answers from the card, or fails. -/
theorem wp_hlook {fn : HFn} (hfn : fn.readOnly = true) {Q : fn.Res → SD → Prop} (hC : C σ)
    (hQ : ∀ r, r = (σ.hanswer fn).1 ∨ r = SD.hfailed fn → Q r σ) :
    wp (horizon F) C Q (hcall fn) σ := by
  refine wp_hcall hC fun r σ' h => ?_
  obtain ⟨rfl, hr⟩ := horizon_readOnly hfn h
  exact ⟨hC, hQ r (hr.imp id And.right)⟩

/-- Deleting a file leaves everything else as it is, whatever fails. -/
theorem wp_delete (p : FsPath) (commit : Bool) {Q : Bool → SD → Prop}
    (hC : ∀ τ, Pruned p σ τ → C τ) (hQ : ∀ r τ, Pruned p σ τ → Q r τ) :
    wp (horizon F) C Q (cfwDeleteFileNative p commit) σ := by
  have h₀ := Pruned.refl p σ
  rw [cfwDeleteFileNative, cfwSdFileSystem]
  simp only [Prog.bind_eq, Prog.pure_eq]
  refine wp_bind.mpr (wp_hlook rfl (hC σ h₀) fun r _ => ?_)
  split
  · exact ⟨hC σ h₀, hQ _ σ h₀⟩
  refine wp_bind.mpr (wp_hlook rfl (hC σ h₀) fun r _ => ?_)
  split
  · exact ⟨hC σ h₀, hQ _ σ h₀⟩
  · exact ⟨hC σ h₀, hQ _ σ h₀⟩
  · refine wp_bind.mpr (wp_hcall (hC σ h₀) fun r τ hdelete => ?_)
    have hτ : Pruned p σ τ := by
      obtain ⟨-, -, hget⟩ | ⟨-, rfl, -⟩ := horizon_fsFsDeleteFile hdelete
      · exact .of_get hget
      · exact h₀
    refine ⟨hC τ hτ, ?_⟩
    split
    · exact ⟨hC τ hτ, hQ _ τ hτ⟩
    split
    · exact wp_hlook rfl (hC τ hτ) fun r _ => hQ r τ hτ
    · exact ⟨hC τ hτ, hQ _ τ hτ⟩

/-- A size is that of a file that is not empty. -/
theorem wp_nativeFileSize (p : FsPath) {Q : Option ℕ → SD → Prop} (hC : C σ)
    (hQ : ∀ r, (∀ n, r = some n → ∃ b, b ≠ [] ∧ σ.get p = some (.file b)) → Q r σ) :
    wp (horizon F) C Q (cfwNativeFileSize p) σ := by
  have hnone := hQ none fun n h => absurd h (by simp)
  rw [cfwNativeFileSize, cfwSdFileSystem]
  simp only [Prog.bind_eq, Prog.pure_eq]
  refine wp_bind.mpr (wp_hlook rfl hC fun r _ => ?_)
  split
  · exact ⟨hC, hnone⟩
  refine wp_bind.mpr (wp_hlook rfl hC fun r _ => ?_)
  split
  · exact ⟨hC, hnone⟩
  refine wp_bind.mpr (wp_hlook rfl hC fun r hr => ?_)
  rcases r with _ | size
  · exact ⟨hC, hnone⟩
  refine ⟨hC, hQ _ fun n hn => ?_⟩
  split at hn
  · cases hn
  rename_i hsize
  obtain hr | hr := hr
  · simp only [SD.hanswer] at hr
    split at hr
    · rename_i b hb
      obtain rfl := Option.some.inj hr
      exact ⟨b, fun h => hsize (h ▸ rfl), hb⟩
    · cases hr
  · cases hr

/-- A directory that is there is not made again. -/
theorem wp_createDirectory {p : FsPath} (hp : σ.get p = some .dir) {Q : Bool → SD → Prop} (hC : C σ)
    (hQ : ∀ r, Q r σ) : wp (horizon F) C Q (cfwCreateDirectoryNative p) σ := by
  have hcreate : ∀ {r : Bool} {τ : SD}, horizon F σ (.fsFsCreateDirectory p) r τ →
      r = false ∧ τ = σ := by
    intro r τ h
    obtain ⟨-, hnone, -⟩ | ⟨hr, hτ, -⟩ := horizon_fsFsCreateDirectory h
    · rw [hp] at hnone
      cases hnone
    · exact ⟨hr, hτ⟩
  rw [cfwCreateDirectoryNative, cfwProbeDirectory, cfwSdFileSystem]
  simp only [Prog.bind_eq, Prog.pure_eq]
  refine wp_bind.mpr (wp_hlook rfl hC fun r _ => ?_)
  split
  · exact ⟨hC, hQ _⟩
  refine wp_bind.mpr (wp_hcall hC fun r τ h => ?_)
  obtain ⟨rfl, rfl⟩ := hcreate h
  refine ⟨hC, ?_⟩
  rw [if_neg Bool.false_ne_true]
  refine wp_bind.mpr (wp_bind.mpr (wp_hlook rfl hC fun r _ => ?_))
  split
  · exact ⟨hC, hC, hQ _⟩
  refine wp_bind.mpr (wp_hlook rfl hC fun r _ => ?_)
  split
  · refine wp_bind.mpr (wp_hlook rfl hC fun r _ => ?_)
    rcases r with _ | count
    · exact ⟨hC, hC, hQ _⟩
    · exact ⟨hC, hC, hQ _⟩
  · refine wp_bind.mpr (wp_hcall hC fun r τ h => ?_)
    obtain ⟨rfl, rfl⟩ := hcreate h
    refine ⟨hC, ?_⟩
    rw [if_neg Bool.false_ne_true]
    exact ⟨hC, hC, hQ _⟩

end calls

/-! ## Replacing a file -/

section swap

variable {F : SD → HFn → Prop} {tmp final : FsPath} {content : Bytes} {σ σ₁ σ₂ : SD}

/-- While a file is replaced by way of a temporary one, it is the old one, or gone, or the new one
in full, and nothing but the two is touched. -/
structure Swapping (tmp final : FsPath) (content : Bytes) (σ σ' : SD) : Prop where
  touched : FileTree.Touch [tmp, final] σ σ'
  held : σ'.get final = σ.get final ∨ σ'.get final = none ∨ σ'.get final = some (.file content)

theorem Swapping.refl (tmp final : FsPath) (content : Bytes) (σ : SD) :
    Swapping tmp final content σ σ := ⟨fun _ _ => rfl, .inl rfl⟩

theorem Swapping.of_tmp (h : Swapping tmp final content σ σ₁) (hapart : ¬ tmp <+: final)
    (ht : FileTree.Touch [tmp] σ₁ σ₂) : Swapping tmp final content σ σ₂ where
  touched := h.touched.trans (ht.mono fun p hp => ⟨tmp, by simp, by simp_all⟩)
  held := by
    have hfinal : σ₂.get final = σ₁.get final := ht.get fun p hp => by
      rw [List.mem_singleton.mp hp]
      exact hapart
    rw [hfinal]
    exact h.held

theorem Swapping.pruned (h : Swapping tmp final content σ σ₁) (hp : Pruned final σ₁ σ₂) :
    Swapping tmp final content σ σ₂ where
  touched := h.touched.trans (hp.touch.mono fun p hp => ⟨final, by simp, by simp_all⟩)
  held := by
    obtain hsame | ⟨-, hnone⟩ := hp final
    · rw [hsame]
      exact h.held
    · exact .inr (.inl hnone)

/-- The temporary file, once it holds everything, may take the other's place. -/
theorem Swapping.renamed (h : Swapping tmp final content σ σ₁) (hm : σ₁.CanMove tmp final)
    (hget : σ₁.get tmp = some (.file content)) :
    Swapping tmp final content σ (σ₁.move tmp final hm) ∧
      (σ₁.move tmp final hm).get final = some (.file content) := by
  have hfinal : (σ₁.move tmp final hm).get final = some (.file content) := by
    rw [FileTree.get_move, if_pos (List.prefix_refl _), List.drop_length, List.append_nil]
    exact hget
  exact ⟨⟨h.touched.trans (FileTree.touch_move σ₁ tmp final hm), .inr (.inr hfinal)⟩, hfinal⟩

theorem touch_of_get {e : Entry Bytes} (h : ∀ q, σ₂.get q = if q = tmp then some e else σ₁.get q) :
    FileTree.Touch [tmp] σ₁ σ₂ := by
  intro q hq
  rw [h, if_neg]
  rintro rfl
  exact hq q (List.mem_singleton_self q) (List.prefix_refl q)

/-- Where the replacement is given up, the temporary file is deleted. -/
theorem wp_giveUp (hapart : ¬ tmp <+: final) (commit : Bool)
    (h : Swapping tmp final content σ σ₁) {Q : Bool → SD → Prop}
    (hQ : ∀ τ, Swapping tmp final content σ τ → Q false τ) :
    wp (horizon F) (Swapping tmp final content σ) Q
      ((cfwDeleteFileNative tmp commit).bind fun _ => .ret false) σ₁ := by
  refine wp_bind.mpr (wp_delete tmp commit (fun τ hτ => h.of_tmp hapart hτ.touch) fun _ τ hτ => ?_)
  have hend := h.of_tmp hapart hτ.touch
  exact ⟨hend, hQ τ hend⟩

/-- **A text file that is replaced is never half a file**, whatever fails. -/
theorem wp_writeTextFile (hapart : ¬ tmp <+: final) (hback : ¬ final <+: tmp) (σ : SD) :
    wp (horizon F) (Swapping tmp final content σ)
      (fun r σ' => r = true → σ'.get final = some (.file content))
      (cfwWriteTextFileAtomic final tmp content) σ := by
  have h₀ := Swapping.refl tmp final content σ
  rw [cfwWriteTextFileAtomic, cfwSdFileSystem]
  simp only [Prog.bind_eq, Prog.pure_eq]
  refine wp_bind.mpr (wp_hlook rfl h₀ fun r _ => ?_)
  split
  · exact ⟨h₀, fun h => absurd h Bool.false_ne_true⟩
  -- up to the renaming, the temporary file is what changes
  refine wp_bind.mpr (wp_delete tmp false (fun τ hτ => h₀.of_tmp hapart hτ.touch) fun _ σ₁ h₁ => ?_)
  replace h₁ := h₀.of_tmp hapart h₁.touch
  refine wp_bind.mpr (wp_hcall h₁ fun r σ₂ hcreate => ?_)
  obtain ⟨rfl, -, -, hget₂⟩ | ⟨rfl, rfl, -⟩ := horizon_fsFsCreateFile hcreate
  swap
  · exact ⟨h₁, h₁, fun h => absurd h Bool.false_ne_true⟩
  have h₂ := h₁.of_tmp hapart (touch_of_get hget₂)
  refine ⟨h₂, ?_⟩
  rw [if_neg (by simp), writeTmp]
  simp only [Prog.bind_eq, Prog.pure_eq]
  refine wp_bind.mpr (wp_bind.mpr (wp_hlook rfl h₂ fun r _ => ?_))
  split
  · exact wp_giveUp hapart false h₂ fun τ h => ⟨h, fun h => absurd h Bool.false_ne_true⟩
  refine wp_bind.mpr (wp_hcall h₂ fun r σ₃ hwrite => ?_)
  have hfile₂ : σ₂.get tmp = some (.file (List.replicate content.length 0)) := by
    rw [hget₂, if_pos rfl]
  obtain ⟨n, -, hget₃, hr⟩ := horizon_fsFileWrite hfile₂ (by simp) hwrite
  have h₃ := h₂.of_tmp hapart (touch_of_get hget₃)
  refine ⟨h₃, ?_⟩
  obtain ⟨rfl, rfl⟩ | ⟨rfl, -⟩ := hr
  swap
  · rw [if_pos (by simp)]
    exact wp_giveUp hapart false h₃ fun τ h => ⟨h, fun h => absurd h Bool.false_ne_true⟩
  have hfile₃ : σ₃.get tmp = some (.file content) := by
    rw [hget₃, if_pos rfl]
    simp
  rw [if_neg (by simp)]
  refine ⟨h₃, ?_⟩
  beta_reduce
  rw [if_neg (by simp)]
  -- the old file goes, and the temporary one takes its place
  refine wp_bind.mpr (wp_delete final false (fun τ hτ => h₃.pruned hτ) fun _ σ₄ h₄ => ?_)
  have hfile₄ : σ₄.get tmp = some (.file content) := by
    rw [h₄.get_other hback]
    exact hfile₃
  replace h₄ := h₃.pruned h₄
  refine wp_bind.mpr (wp_hcall h₄ fun r σ₅ hrename => ?_)
  obtain ⟨rfl, hm, rfl⟩ | ⟨rfl, rfl, -⟩ := horizon_fsFsRenameFile hrename
  swap
  · exact ⟨h₄, wp_giveUp hapart false h₄ fun _ _ h => absurd h Bool.false_ne_true⟩
  obtain ⟨h₅, hfinal⟩ := h₄.renamed hm hfile₄
  refine ⟨h₅, ?_⟩
  rw [if_neg (by simp)]
  exact wp_hlook rfl h₅ fun r _ _ => hfinal

/-- The rounds of the write loop fill the temporary file from the front. -/
theorem wp_writePayload {C : SD → Prop} {payload : Bytes} (n offset : ℕ) (σ : SD)
    (hle : offset ≤ payload.length)
    (hget : σ.get tmp =
      some (.file (payload.take offset ++ List.replicate (payload.length - offset) 0)))
    (hC : ∀ τ, FileTree.Touch [tmp] σ τ → C τ) :
    wp (horizon F) C (fun r τ => FileTree.Touch [tmp] σ τ ∧
        (r = true → τ.get tmp = some (.file payload)))
      (writePayload tmp payload n offset) σ := by
  have hrefl : FileTree.Touch [tmp] σ σ := fun _ _ => rfl
  have hdone : offset = payload.length → σ.get tmp = some (.file payload) := by
    intro h
    rw [hget, h, List.take_length, Nat.sub_self, List.replicate_zero, List.append_nil]
  induction n generalizing offset σ with
  | zero => exact ⟨hC σ hrefl, hrefl, fun h => hdone (of_decide_eq_true h)⟩
  | succ n ih =>
    rw [writePayload]
    split
    swap
    · exact ⟨hC σ hrefl, hrefl, fun h => hdone (of_decide_eq_true h)⟩
    rename_i hlt
    simp only [Prog.bind_eq, Prog.pure_eq]
    generalize hchunk : min (payload.length - offset) (16 * 1024) = chunk
    have hlen : ((payload.drop offset).take chunk).length = chunk := by
      rw [List.length_take, List.length_drop]
      omega
    have htake : (payload.take offset).length = offset := by
      rw [List.length_take]
      omega
    refine wp_bind.mpr (wp_hcall (hC σ hrefl) fun r τ hwrite => ?_)
    obtain ⟨m, -, hτ, hr⟩ := horizon_fsFileWrite hget
      (by rw [hlen, List.length_append, htake, List.length_replicate]; omega) hwrite
    have ht : FileTree.Touch [tmp] σ τ := touch_of_get hτ
    refine ⟨hC τ ht, ?_⟩
    obtain ⟨rfl, rfl⟩ | ⟨rfl, -⟩ := hr
    swap
    · exact ⟨hC τ ht, ht, fun h => absurd h Bool.false_ne_true⟩
    have hrest : (payload.take offset ++ List.replicate (payload.length - offset) 0).drop
        (offset + chunk) = List.replicate (payload.length - (offset + chunk)) 0 := by
      rw [List.drop_append, htake, List.drop_eq_nil_of_le
        (by omega : (payload.take offset).length ≤ offset + chunk), List.nil_append,
        List.drop_replicate]
      congr 1
      omega
    have hnext : τ.get tmp = some (.file (payload.take (offset + chunk) ++
        List.replicate (payload.length - (offset + chunk)) 0)) := by
      rw [hτ, if_pos rfl, hlen, hrest, List.take_of_length_le hlen.le, List.take_left' htake,
        List.take_add]
    rw [if_pos rfl]
    refine wp_conseq (ih (offset + chunk) τ (by omega) hnext (fun τ' h' => hC τ' (ht.trans h'))
      (fun _ _ => rfl) ?_) (fun _ h => h) fun r τ' _ h => ⟨ht.trans h.1, h.2⟩
    intro h
    rw [hnext, h, List.take_length, Nat.sub_self, List.replicate_zero, List.append_nil]

end swap

/-! ## The recovery payload -/

/-- **The recovery payload is never half a payload.**  Whatever the built-in payload is, whatever
calls fail and wherever the power goes: what stands in its place is what stood there before, or
nothing, or the built-in payload in full, and only it and its temporary file are touched; and if the
copy reports success it is the built-in payload, which is not empty. -/
theorem recovery_payload_whole (F : SD → HFn → Prop) (src : Option Bytes) (σ : SD) :
    wp (horizon F)
      (fun σ' => Swapping RECOVERY_TMP CFW_UPDATE_RECOVERY_PAYLOAD_PATH (src.getD []) σ σ')
      (fun r σ' => r = true → ∃ payload, src = some payload ∧ payload ≠ [] ∧
        σ'.get CFW_UPDATE_RECOVERY_PAYLOAD_PATH = some (.file payload))
      (copyRecoveryPayloadAtomic src) σ := by
  have hapart : ¬ RECOVERY_TMP <+: CFW_UPDATE_RECOVERY_PAYLOAD_PATH := by decide
  have hback : ¬ CFW_UPDATE_RECOVERY_PAYLOAD_PATH <+: RECOVERY_TMP := by decide
  rcases src with _ | payload
  · exact ⟨Swapping.refl _ _ _ σ, fun h => absurd h Bool.false_ne_true⟩
  show wp _ (Swapping _ _ payload σ) _ _ _
  have h₀ := Swapping.refl RECOVERY_TMP CFW_UPDATE_RECOVERY_PAYLOAD_PATH payload σ
  have hgiveUp : ∀ (commit : Bool) {σ' : SD},
      Swapping RECOVERY_TMP CFW_UPDATE_RECOVERY_PAYLOAD_PATH payload σ σ' →
      wp (horizon F) (Swapping RECOVERY_TMP CFW_UPDATE_RECOVERY_PAYLOAD_PATH payload σ)
        (fun r σ' => r = true → ∃ p, some payload = some p ∧ p ≠ [] ∧
          σ'.get CFW_UPDATE_RECOVERY_PAYLOAD_PATH = some (.file p))
        ((cfwDeleteFileNative RECOVERY_TMP commit).bind fun _ => .ret false) σ' :=
    fun commit _ h' => wp_giveUp hapart commit h' fun _ _ h => absurd h Bool.false_ne_true
  rw [copyRecoveryPayloadAtomic, cfwSdFileSystem]
  simp only [Prog.bind_eq, Prog.pure_eq]
  split
  · exact ⟨h₀, fun h => absurd h Bool.false_ne_true⟩
  rename_i hempty
  refine wp_bind.mpr (wp_hlook rfl h₀ fun r _ => ?_)
  split
  · exact ⟨h₀, fun h => absurd h Bool.false_ne_true⟩
  refine wp_bind.mpr (wp_delete RECOVERY_TMP false (fun τ hτ => h₀.of_tmp hapart hτ.touch)
    fun _ σ₁ h₁ => ?_)
  replace h₁ := h₀.of_tmp hapart h₁.touch
  refine wp_bind.mpr (wp_hcall h₁ fun r σ₂ hcreate => ?_)
  obtain ⟨rfl, -, -, hget₂⟩ | ⟨rfl, rfl, -⟩ := horizon_fsFsCreateFile hcreate
  swap
  · exact ⟨h₁, h₁, fun h => absurd h Bool.false_ne_true⟩
  have h₂ := h₁.of_tmp hapart (touch_of_get hget₂)
  refine ⟨h₂, ?_⟩
  rw [if_neg (by simp)]
  refine wp_bind.mpr (wp_hlook rfl h₂ fun r _ => ?_)
  split
  · exact hgiveUp false h₂
  -- the temporary file is filled, and counts as filled only if all of it was written
  have hzeros : σ₂.get RECOVERY_TMP =
      some (.file (payload.take 0 ++ List.replicate (payload.length - 0) 0)) := by
    rw [hget₂, if_pos rfl, List.take_zero, List.nil_append, Nat.sub_zero]
  rw [fillRecoveryTmp]
  simp only [Prog.bind_eq, Prog.pure_eq]
  refine wp_bind.mpr (wp_bind.mpr (wp_conseq (wp_writePayload payload.length 0 σ₂
    (Nat.zero_le _) hzeros fun τ hτ => h₂.of_tmp hapart hτ) (fun _ h => h)
      fun r σ₃ _ hwritten => ?_))
  obtain ⟨h₃, hfile₃⟩ := hwritten
  replace h₃ := h₂.of_tmp hapart h₃
  cases r with
  | false =>
    rw [if_neg Bool.false_ne_true]
    refine ⟨h₃, ?_⟩
    simp only [Bool.not_false, if_true]
    exact hgiveUp true h₃
  | true =>
  replace hfile₃ := hfile₃ rfl
  rw [if_pos rfl]
  refine wp_hlook rfl h₃ fun r _ => ?_
  split
  · exact hgiveUp true h₃
  refine wp_bind.mpr (wp_nativeFileSize RECOVERY_TMP h₃ fun tmp_size _ => ?_)
  split
  · exact hgiveUp true h₃
  -- the old payload goes, and the temporary file takes its place
  rw [renameRecovery]
  simp only [Prog.bind_eq, Prog.pure_eq]
  refine wp_bind.mpr (wp_delete CFW_UPDATE_RECOVERY_PAYLOAD_PATH false
    (fun τ hτ => h₃.pruned hτ) fun _ σ₄ h₄ => ?_)
  have hfile₄ : σ₄.get RECOVERY_TMP = some (.file payload) := by
    rw [h₄.get_other hback]
    exact hfile₃
  replace h₄ := h₃.pruned h₄
  refine wp_bind.mpr (wp_hcall h₄ fun r σ₅ hrename => ?_)
  obtain ⟨rfl, hm, rfl⟩ | ⟨rfl, rfl, -⟩ := horizon_fsFsRenameFile hrename
  swap
  · exact ⟨h₄, hgiveUp true h₄⟩
  obtain ⟨h₅, hfinal⟩ := h₄.renamed hm hfile₄
  refine ⟨h₅, ?_⟩
  rw [if_neg (by simp)]
  refine wp_bind.mpr (wp_hlook rfl h₅ fun r _ => ?_)
  split
  · exact hgiveUp true h₅
  refine wp_bind.mpr (wp_nativeFileSize CFW_UPDATE_RECOVERY_PAYLOAD_PATH h₅ fun size _ => ?_)
  exact ⟨h₅, fun _ => ⟨payload, rfl, by simpa using hempty, hfinal⟩⟩

/-! ## The markers -/

def markers : List FsPath :=
  [CFW_UPDATE_READY_PATH, READY_TMP, CFW_UPDATE_STATE_PATH, CFW_UPDATE_STATE_TMP_PATH]

/-- What the updater of the payload finds behind the markers: Atmosphère, something the console can
be started with, and the payload that takes the update back. -/
structure Complete (erista recoveryAlreadyVerified : Bool) (σ : SD) : Prop where
  package3 : NonEmpty σ NEW_PACKAGE3
  mariko : erista = false → NonEmpty σ NEW_PAYLOAD_BIN
  erista : erista = true →
    NonEmpty σ NEW_UPDATE_BIN ∨ NonEmpty σ NEW_REBOOT_PAYLOAD ∨ NonEmpty σ NEW_PAYLOAD_BIN
  recovery : recoveryAlreadyVerified = false → NonEmpty σ CFW_UPDATE_RECOVERY_PAYLOAD_PATH

/-- A marker that was not there before stands in front of a complete package, and nothing but the
markers is touched. -/
structure Promised (erista recoveryAlreadyVerified : Bool) (σ σ' : SD) : Prop where
  touched : FileTree.Touch markers σ σ'
  marked : ∀ p ∈ markers, σ'.get p = σ.get p ∨ σ'.get p = none ∨
    Complete erista recoveryAlreadyVerified σ'

section staging

variable {F : SD → HFn → Prop} {erista recoveryAlreadyVerified : Bool} {σ σ₁ σ₂ : SD}

/-- The markers are no part of the package. -/
theorem Complete.touched (h : Complete erista recoveryAlreadyVerified σ)
    (ht : FileTree.Touch markers σ σ₁) : Complete erista recoveryAlreadyVerified σ₁ where
  package3 := h.package3.touched ht (by decide)
  mariko he := (h.mariko he).touched ht (by decide)
  erista he := by
    obtain h | h | h := h.erista he
    · exact .inl (h.touched ht (by decide))
    · exact .inr (.inl (h.touched ht (by decide)))
    · exact .inr (.inr (h.touched ht (by decide)))
  recovery hr := (h.recovery hr).touched ht (by decide)

theorem Promised.refl (σ : SD) : Promised erista recoveryAlreadyVerified σ σ :=
  ⟨fun _ _ => rfl, fun _ _ => .inl rfl⟩

theorem Promised.of_complete (h : Complete erista recoveryAlreadyVerified σ)
    (ht : FileTree.Touch markers σ σ₁) : Promised erista recoveryAlreadyVerified σ σ₁ :=
  ⟨ht, fun _ _ => .inr (.inr (h.touched ht))⟩

theorem touch_of_mem {m : FsPath} (hm : m ∈ markers) (h : Pruned m σ σ₁) :
    FileTree.Touch markers σ σ₁ :=
  h.touch.mono fun p hp => ⟨m, hm, by rw [List.mem_singleton.mp hp]⟩

/-- Markers may be taken away at any time. -/
theorem Promised.pruned (h : Promised erista recoveryAlreadyVerified σ σ₁) {m : FsPath}
    (hm : m ∈ markers) (hp : Pruned m σ₁ σ₂) : Promised erista recoveryAlreadyVerified σ σ₂ := by
  have ht := touch_of_mem hm hp
  refine ⟨h.touched.trans ht, fun p hmem => ?_⟩
  obtain hsame | ⟨-, hnone⟩ := hp p
  · rw [hsame]
    exact (h.marked p hmem).imp id (Or.imp id fun hc => hc.touched ht)
  · exact .inr (.inl hnone)

theorem wp_refuseStaging {fault : StagingFault}
    (h : Promised erista recoveryAlreadyVerified σ σ₁) :
    wp (horizon F) (Promised erista recoveryAlreadyVerified σ) (fun r _ => r ≠ none)
      (refuseStaging fault) σ₁ := by
  rw [refuseStaging, clearMarkers, cfwSdFileSystem]
  simp only [Prog.bind_eq, Prog.pure_eq]
  refine wp_bind.mpr (wp_bind.mpr (wp_hlook rfl h fun r _ => ?_))
  split
  swap
  · exact ⟨h, h, Option.some_ne_none _⟩
  have hready : CFW_UPDATE_READY_PATH ∈ markers := by decide
  have hstate : CFW_UPDATE_STATE_PATH ∈ markers := by decide
  have htmp : CFW_UPDATE_STATE_TMP_PATH ∈ markers := by decide
  refine wp_bind.mpr (wp_delete _ false (fun τ hτ => h.pruned hready hτ) fun _ σ₂ h₂ => ?_)
  replace h₂ := h.pruned hready h₂
  refine wp_bind.mpr (wp_delete _ false (fun τ hτ => h₂.pruned hstate hτ) fun _ σ₃ h₃ => ?_)
  replace h₃ := h₂.pruned hstate h₃
  refine wp_bind.mpr (wp_delete _ false (fun τ hτ => h₃.pruned htmp hτ) fun _ σ₄ h₄ => ?_)
  replace h₄ := h₃.pruned htmp h₄
  exact wp_bind.mpr (wp_hlook rfl h₄ fun r _ => ⟨h₄, h₄, Option.some_ne_none _⟩)

/-- The card of an update that is about to be marked: no backup is left of another one. -/
structure Prepared (u : CfwUpdater.Update) (σ : SD) : Prop where
  backup : σ.get CfwUpdater.UPDATE_BACKUP = none
  staged : σ.sub CfwUpdater.UPDATE_NEW = u.staged
  original : ∀ i : CfwUpdater.Managed,
    σ.sub (CfwUpdater.originalPath u.patched i.name) = u.original i
  updater : u.patched = true → σ.get CfwUpdater.ROOT_PAYLOAD = some (.file u.updater)

/-- What a package that is marked looks like, and what the updater of the payload makes of it. -/
structure Marked (erista recoveryAlreadyVerified : Bool) (σ σ' : SD) : Prop where
  complete : Complete erista recoveryAlreadyVerified σ'
  ready : σ'.get CFW_UPDATE_READY_PATH = some (.file (ascii "AIO_MOD_CFW_UPDATE_V2" ++ [10]))
  staged : ∀ u, Prepared u σ → CfwUpdater.Staged u σ'
  valid : ∀ u, Prepared u σ → u.patched = !erista → u.Valid

theorem markers_apart : ∀ m ∈ markers,
    FileTree.Incomparable m CfwUpdater.UPDATE_NEW ∧
      ∀ patched : Bool, ∀ i : CfwUpdater.Managed,
        FileTree.Incomparable m (CfwUpdater.originalPath patched i.name) := by
  decide

/-- Both sides mean the same by a staged update. -/
theorem Prepared.handOver {u : CfwUpdater.Update} (h : Prepared u σ)
    (ht : FileTree.Touch markers σ σ₁)
    (hstate : σ₁.get CFW_UPDATE_STATE_PATH = some (.file (ascii "STAGED" ++ [10])))
    (hready : σ₁.get CFW_UPDATE_READY_PATH ≠ none) : CfwUpdater.Staged u σ₁ where
  token := by
    have htoken : σ₁.tokenAt CfwUpdater.journal.state = some CfwUpdater.State.STAGED.text := by
      rw [SD.tokenAt, show CfwUpdater.journal.state = CFW_UPDATE_STATE_PATH from rfl, hstate]
      exact (CfwUpdater.text_isToken .STAGED).2
    rw [JournalFiles.token, htoken]
    rfl
  ready := hready
  backup := (ht.get (by decide)).trans h.backup
  staged := (ht.sub fun m hm => (markers_apart m hm).1).trans h.staged
  original i := (ht.sub fun m hm => (markers_apart m hm).2 u.patched i).trans (h.original i)
  updater hp := (ht.get (by decide)).trans (h.updater hp)

/-- What was looked at is what the updater of the payload looks for. -/
theorem Prepared.valid {u : CfwUpdater.Update} (hu : Prepared u σ)
    (h : Complete erista recoveryAlreadyVerified σ) (hpatched : u.patched = !erista) :
    u.Valid := by
  have hnew : ∀ r, NonEmpty σ (CfwUpdater.UPDATE_NEW ++ r) → u.staged r ≠ none := by
    intro r hr
    rw [← hu.staged]
    exact hr.ne_none
  cases erista with
  | true =>
    refine ⟨hnew _ h.package3, fun hp => ?_, fun _ => ?_⟩
    · rw [hpatched] at hp
      exact absurd hp Bool.false_ne_true
    · exact (h.erista rfl).imp (hnew _) (Or.imp (hnew _) (hnew _))
  | false =>
    refine ⟨hnew _ h.package3, fun _ => hnew _ (h.mariko rfl), fun hp => ?_⟩
    rw [hpatched] at hp
    exact absurd hp (by decide)

theorem markStaged_promised (h : Complete erista recoveryAlreadyVerified σ) :
    wp (horizon F) (Promised erista recoveryAlreadyVerified σ)
      (fun r σ' => r = none → Marked erista recoveryAlreadyVerified σ σ') markStaged σ := by
  have hroot : σ.get CFW_UPDATE_ROOT_NATIVE = some .dir := by
    obtain ⟨b, -, hget⟩ := h.package3
    exact FileTree.get_prefix_of_ne_none (r := ["new", "atmosphere", "package3"]) (by decide)
      (by rw [show CFW_UPDATE_ROOT_NATIVE ++ ["new", "atmosphere", "package3"] = NEW_PACKAGE3
        from rfl, hget]; exact Option.some_ne_none _)
  have h₀ : Promised erista recoveryAlreadyVerified σ σ := .refl σ
  have hstate : ∀ τ, Swapping CFW_UPDATE_STATE_TMP_PATH CFW_UPDATE_STATE_PATH
      (ascii "STAGED" ++ [10]) σ τ → FileTree.Touch markers σ τ := fun τ hτ =>
    hτ.touched.mono fun p hp => ⟨p, by revert hp p; decide, List.prefix_refl p⟩
  have hready : ∀ σ₁ τ, Swapping READY_TMP CFW_UPDATE_READY_PATH
      (ascii "AIO_MOD_CFW_UPDATE_V2" ++ [10]) σ₁ τ → FileTree.Touch markers σ₁ τ := fun σ₁ τ hτ =>
    hτ.touched.mono fun p hp => ⟨p, by revert hp p; decide, List.prefix_refl p⟩
  rw [markStaged, writeCfwUpdateState]
  simp only [Prog.bind_eq, Prog.pure_eq]
  refine wp_bind.mpr (wp_bind.mpr (wp_createDirectory hroot h₀ fun r => ?_))
  split
  · refine ⟨h₀, ?_⟩
    simp only [Bool.not_false, if_true]
    exact wp_conseq (wp_refuseStaging h₀) (fun _ h => h) fun r _ _ hr hnone => absurd hnone hr
  refine wp_conseq (wp_writeTextFile (by decide) (by decide) σ)
    (fun τ hτ => .of_complete h (hstate τ hτ)) fun r σ₁ hswap hdone => ?_
  have h₁ := hstate σ₁ hswap
  split
  · exact wp_conseq (wp_refuseStaging (.of_complete h h₁)) (fun _ h => h)
      fun r _ _ hr hnone => absurd hnone hr
  rename_i hr
  refine wp_bind.mpr (wp_conseq (wp_writeTextFile (by decide) (by decide) σ₁)
    (fun τ hτ => .of_complete h (h₁.trans (hready σ₁ τ hτ))) fun r σ₂ hswap₂ hdone₂ => ?_)
  have h₂ := hready σ₁ σ₂ hswap₂
  split
  · exact wp_conseq (wp_refuseStaging (.of_complete h (h₁.trans h₂))) (fun _ h => h)
      fun r _ _ hr hnone => absurd hnone hr
  rename_i hr₂
  have hready₂ := hdone₂ (by simpa using hr₂)
  have hstate₂ : σ₂.get CFW_UPDATE_STATE_PATH = some (.file (ascii "STAGED" ++ [10])) := by
    rw [hswap₂.touched.get (by decide)]
    exact hdone (by simpa using hr)
  refine ⟨.of_complete h (h₁.trans h₂), fun _ => ⟨h.touched (h₁.trans h₂), hready₂, ?_,
    fun u hu hpatched => hu.valid h hpatched⟩⟩
  intro u hu
  refine hu.handOver (h₁.trans h₂) hstate₂ ?_
  rw [hready₂]
  exact Option.some_ne_none _

end staging

/-- **A package is marked only when it is complete.**  Whatever calls fail and wherever the power
goes: a journal or a ready marker that was not there before stands in front of a complete package,
and nothing but the markers and their temporary files is touched.  If no fault is reported, the card
is one that the updater of the payload starts from, with just this update, and it finds in it what
it looks for. -/
theorem staged_package_complete (F : SD → HFn → Prop) (erista recoveryAlreadyVerified : Bool)
    (σ : SD) :
    wp (horizon F) (Promised erista recoveryAlreadyVerified σ)
      (fun fault σ' => fault = none → Marked erista recoveryAlreadyVerified σ σ')
      (validateCfwUpdateStaging erista recoveryAlreadyVerified) σ := by
  have h₀ : Promised erista recoveryAlreadyVerified σ σ := .refl σ
  have hrefuse : ∀ fault, wp (horizon F) (Promised erista recoveryAlreadyVerified σ)
      (fun r σ' => r = none → Marked erista recoveryAlreadyVerified σ σ') (refuseStaging fault) σ :=
    fun fault => wp_conseq (wp_refuseStaging h₀) (fun _ h => h)
      fun r _ _ hr hnone => absurd hnone hr
  have hsize : ∀ {p : FsPath} {size : Option ℕ},
      (∀ n, size = some n → ∃ b, b ≠ [] ∧ σ.get p = some (.file b)) → size.isSome = true →
      NonEmpty σ p := fun h hsome => by
    obtain ⟨n, hn⟩ := Option.isSome_iff_exists.mp hsome
    exact h n hn
  rw [validateCfwUpdateStaging]
  simp only [Prog.bind_eq]
  refine wp_bind.mpr (wp_nativeFileSize _ h₀ fun atmosphere hatmosphere => ?_)
  refine wp_bind.mpr (wp_nativeFileSize _ h₀ fun hekate hhekate => ?_)
  refine wp_bind.mpr (wp_nativeFileSize _ h₀ fun reboot hreboot => ?_)
  refine wp_bind.mpr (wp_nativeFileSize _ h₀ fun root hroot => ?_)
  have hrecovery : wp (horizon F) (Promised erista recoveryAlreadyVerified σ)
      (fun r σ' => σ' = σ ∧ (r = true → recoveryAlreadyVerified = false →
        NonEmpty σ CFW_UPDATE_RECOVERY_PAYLOAD_PATH))
      (hasRecoveryPayload recoveryAlreadyVerified) σ := by
    rw [hasRecoveryPayload]
    simp only [Prog.bind_eq, Prog.pure_eq]
    split
    · rename_i hverified
      exact ⟨h₀, rfl, fun _ hnot => absurd (hverified.symm.trans hnot) (by decide)⟩
    · refine wp_bind.mpr (wp_nativeFileSize _ h₀ fun size hfile => ?_)
      exact ⟨h₀, rfl, fun hsome _ => hsize hfile hsome⟩
  refine wp_bind.mpr (wp_conseq hrecovery (fun _ h => h) fun recovery σ' _ h => ?_)
  obtain ⟨rfl, hrec⟩ := h
  split
  · exact hrefuse _
  rename_i hpackage
  split
  · exact hrefuse _
  rename_i hboot
  split
  · exact hrefuse _
  rename_i hthere
  -- only here, with everything looked at, are the markers written
  refine markStaged_promised ⟨hsize hatmosphere
    (by simpa [Option.isSome_iff_ne_none] using hpackage), ?_, ?_, hrec (by simpa using hthere)⟩
  · rintro rfl
    exact hsize hroot (by simpa [noBootMethod, Option.isSome_iff_ne_none] using hboot)
  · rintro rfl
    by_cases hh : hekate.isSome = true
    · exact .inl (hsize hhekate hh)
    by_cases hr : reboot.isSome = true
    · exact .inr (.inl (hsize hreboot hr))
    · refine .inr (.inr (hsize hroot ?_))
      rw [Bool.not_eq_true] at hh hr
      rw [noBootMethod, hh, hr] at hboot
      simpa [Option.isSome_iff_ne_none] using hboot

end Util
