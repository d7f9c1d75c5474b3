/-
# What the Horizon side finds and leaves

Rules for the helpers of `utils.cpp`.  All calls work here, except that a recursive
deletion may stop part way, which is how a power cut inside it shows.
-/
import AioMod.CfwHorizon
import AioMod.JournalSpec

namespace Util

open FileTree (Incomparable Touch)

/-- Only recursive deletions may fail. -/
def Reliable (F : SD → HFn → Prop) : Prop :=
  ∀ σ fn, F σ fn → ∃ p, fn = .fsFsCleanDirectoryRecursively p

theorem reliable_allWork : Reliable allWork := fun _ _ h => h.elim

theorem reliable_cleaningMayStop : Reliable cleaningMayStop := fun _ _ h => h

section rules

variable {F : SD → HFn → Prop} {C : SD → Prop} {σ : SD}

/-- A call that only looks answers from the card. -/
theorem wp_look (hF : Reliable F) {fn : HFn} (hfn : fn.readOnly = true) {Q : fn.Res → SD → Prop}
    (hC : C σ) (hQ : Q (σ.hanswer fn).1 σ) : wp (horizon F) C Q (hcall fn) σ := by
  refine wp_hcall hC fun r σ' h => ?_
  obtain ⟨rfl, rfl | ⟨hf, -⟩⟩ := horizon_readOnly hfn h
  · exact ⟨hC, hQ⟩
  · obtain ⟨p, rfl⟩ := hF _ _ hf
    cases hfn

/-! ## Deleting -/

/-- `cfwDeleteFileNative` deletes at its path only; with success nothing is left there, and
only a directory withstands it. -/
theorem wp_cfwDeleteFileNative (hF : Reliable F) (p : FsPath) (commit : Bool) (σ : SD) :
    wp (horizon F) (Pruned p σ)
      (fun r σ' => (r = true → σ'.get p = none) ∧ (r = false → σ' = σ ∧ σ.get p = some .dir))
      (cfwDeleteFileNative p commit) σ := by
  have h0 := Pruned.refl p σ
  rw [cfwDeleteFileNative, cfwSdFileSystem]
  simp only [Prog.bind_eq, Prog.pure_eq]
  refine wp_bind.mpr (wp_look hF rfl h0 ?_)
  refine wp_bind.mpr (wp_look hF rfl h0 ?_)
  simp only [SD.hanswer]
  cases hget : σ.get p with
  | none => exact ⟨h0, fun _ => hget, by simp⟩
  | some e =>
    cases e with
    | dir => exact ⟨h0, by simp, fun _ => ⟨rfl, rfl⟩⟩
    | file b =>
      refine wp_bind.mpr (wp_hcall h0 fun r τ h => ?_)
      rcases horizon_fsFsDeleteFile h with ⟨rfl, -, hdel⟩ | ⟨-, -, hf | hfile⟩
      · have hp : Pruned p σ τ := .of_get hdel
        have hgone : τ.get p = none := by rw [hdel, if_pos rfl]
        refine ⟨hp, ?_⟩
        cases commit with
        | false => exact ⟨hp, fun _ => hgone, by simp⟩
        | true => exact wp_look hF rfl hp ⟨fun _ => hgone, by simp [SD.hanswer]⟩
      · obtain ⟨q, hq⟩ := hF _ _ hf
        cases hq
      · exact absurd hget (hfile b)

/-- `cleanupFile` is the same on a single file. -/
theorem wp_cleanupFile (hF : Reliable F) (p : FsPath) (σ : SD) :
    wp (horizon F) (Pruned p σ) (fun r σ' => r = true → σ'.get p = none) (cleanupFile p) σ := by
  have h0 := Pruned.refl p σ
  rw [cleanupFile]
  simp only [Prog.bind_eq, Prog.pure_eq]
  refine wp_bind.mpr (wp_look hF rfl h0 ?_)
  simp only [SD.hanswer]
  cases hget : σ.get p with
  | none => exact ⟨h0, fun _ => hget⟩
  | some e =>
    cases e with
    | dir => exact ⟨h0, by simp⟩
    | file b =>
      refine wp_hcall h0 fun r τ h => ?_
      rcases horizon_fsFsDeleteFile h with ⟨rfl, -, hdel⟩ | ⟨rfl, rfl, -⟩
      · exact ⟨.of_get hdel, fun _ => by rw [hdel, if_pos rfl]⟩
      · exact ⟨h0, by simp⟩

theorem wp_cfwDeleteTreeNative (hF : Reliable F) (p : FsPath) (σ : SD) :
    wp (horizon F) (Pruned p σ) (fun r σ' => r = true → σ'.get p = none)
      (cfwDeleteTreeNative p) σ := by
  have h0 := Pruned.refl p σ
  rw [cfwDeleteTreeNative]
  simp only [Prog.bind_eq, Prog.pure_eq]
  refine wp_bind.mpr (wp_look hF rfl h0 ?_)
  simp only [SD.hanswer]
  cases hget : σ.get p with
  | none => exact ⟨h0, fun _ => hget⟩
  | some e =>
    cases e with
    | file b => exact ⟨h0, by simp⟩
    | dir =>
      refine wp_bind.mpr (wp_hcall h0 fun r τ h => ?_)
      have hp : Pruned p σ τ := fun q =>
        ((horizon_fsFsCleanDirectoryRecursively h).1 q).imp id fun hq => ⟨hq.1, hq.2.2⟩
      refine ⟨hp, ?_⟩
      cases r with
      | false => exact ⟨hp, by simp⟩
      | true =>
        refine wp_hcall hp fun r τ₂ h₂ => ?_
        rcases horizon_fsFsDeleteDirectory h₂ with ⟨rfl, -, hdel⟩ | ⟨rfl, rfl, -⟩
        · exact ⟨hp.trans (.of_get hdel), fun _ => by rw [hdel, if_pos rfl]⟩
        · exact ⟨hp, by simp⟩

/-! ## Reading the journal -/

/-- The text the Horizon side reads from a file. -/
def textAt (σ : SD) (p : FsPath) : Bytes :=
  match σ.get p with
  | some (.file b) => trimText (b.take 256)
  | _ => []

/-- The state the Horizon side reads. -/
def stateText (σ : SD) : Bytes :=
  if textAt σ CFW_UPDATE_STATE_PATH ≠ [] then textAt σ CFW_UPDATE_STATE_PATH
  else textAt σ CFW_UPDATE_STATE_TMP_PATH

theorem wp_readCfwUpdateStateFile (hF : Reliable F) {p : FsPath} {Q : Bytes → SD → Prop}
    (hC : C σ) (hQ : Q (textAt σ p) σ) :
    wp (horizon F) C Q (readCfwUpdateStateFile p) σ := by
  have hstdio : wp (horizon F) C Q (cfwReadSmallTextFileStdio p) σ := by
    rw [cfwReadSmallTextFileStdio]
    simp only [Prog.bind_eq, Prog.pure_eq]
    refine wp_bind.mpr (wp_look hF rfl hC ?_)
    cases hget : σ.get p with
    | none =>
      simp only [SD.hanswer, hget, Option.map_none, textAt] at hQ ⊢
      exact ⟨hC, hQ⟩
    | some e =>
      cases e with
      | dir =>
        simp only [SD.hanswer, hget, Option.map_some, textAt] at hQ ⊢
        exact ⟨hC, hQ⟩
      | file b =>
        simp only [SD.hanswer, hget, Option.map_some, textAt] at hQ ⊢
        refine wp_bind.mpr (wp_look hF rfl hC ?_)
        simp only [SD.hanswer, hget]
        exact ⟨hC, hQ⟩
  rw [readCfwUpdateStateFile, cfwReadSmallTextFileNative, cfwSdFileSystem]
  simp only [Prog.bind_eq, Prog.pure_eq]
  refine wp_bind.mpr (wp_bind.mpr (wp_look hF rfl hC ?_))
  simp only [SD.hanswer, Bool.not_true, Bool.false_eq_true, if_false]
  refine wp_bind.mpr (wp_look hF rfl hC ?_)
  cases hget : σ.get p with
  | none =>
    simp only [SD.hanswer, hget]
    exact ⟨hC, hstdio⟩
  | some e =>
    cases e with
    | dir =>
      simp only [SD.hanswer, hget]
      exact ⟨hC, hstdio⟩
    | file b =>
      simp only [SD.hanswer, hget]
      refine wp_bind.mpr (wp_look hF rfl hC ?_)
      simp only [SD.hanswer, hget]
      by_cases hsize : b.length = 0 ∨ b.length > 256
      · rw [if_pos hsize]
        exact ⟨hC, hstdio⟩
      rw [if_neg hsize]
      refine wp_bind.mpr (wp_look hF rfl hC ?_)
      simp only [SD.hanswer, hget, List.take_length]
      refine ⟨hC, ?_⟩
      dsimp only
      by_cases hempty : (trimText b).isEmpty = true
      · rw [if_neg (by simp [hempty])]
        exact hstdio
      · rw [if_pos (by simpa using hempty)]
        have htake : b.take 256 = b := List.take_of_length_le (by omega)
        rw [textAt, hget] at hQ
        simp only [htake] at hQ
        exact ⟨hC, hQ⟩

theorem wp_readCfwUpdateState (hF : Reliable F) {Q : Bytes → SD → Prop} (hC : C σ)
    (hQ : Q (stateText σ) σ) : wp (horizon F) C Q readCfwUpdateState σ := by
  rw [readCfwUpdateState]
  simp only [Prog.bind_eq, Prog.pure_eq]
  refine wp_bind.mpr (wp_readCfwUpdateStateFile hF hC ?_)
  rw [stateText] at hQ
  by_cases hs : textAt σ CFW_UPDATE_STATE_PATH = []
  · rw [if_neg (by simp [hs])]
    rw [if_neg (not_not.mpr hs)] at hQ
    exact wp_readCfwUpdateStateFile hF hC hQ
  · rw [if_pos (by simpa using hs)]
    rw [if_pos hs] at hQ
    exact ⟨hC, hQ⟩

/-- What is left of a text when line ends and NULs at its end are trimmed. -/
theorem trimText_spec (l : Bytes) :
    ∃ rest, l = trimText l ++ rest ∧ ∀ c ∈ rest, ¬ (c ≠ 0 ∧ c ≠ 10 ∧ c ≠ 13) := by
  refine ⟨l.rtakeWhile fun c => c = 10 || c = 13 || c = 0,
    List.rdropWhile_append_rtakeWhile.symm, fun c hc => ?_⟩
  have h := List.mem_rtakeWhile_imp hc
  simp only [Bool.or_eq_true, decide_eq_true_eq] at h
  tauto

/-- A token that the Horizon side reads is the one that the payload reads. -/
theorem parseState_of_trimText {b t : Bytes} (h : trimText (b.take 256) = t)
    (hlen : t.length ≤ 63) (hplain : ∀ c ∈ t, c ≠ 0 ∧ c ≠ 10 ∧ c ≠ 13) :
    parseState b = if t = [] then none else some t := by
  obtain ⟨rest, hb, hrest⟩ := trimText_spec (b.take 256)
  have htake : b.take 63 = t ++ rest.take (63 - t.length) := by
    have : b.take 63 = (b.take 256).take 63 := by rw [List.take_take]; rfl
    rw [this, hb, h, List.take_append, List.take_of_length_le hlen]
  have hstop : (rest.take (63 - t.length)).takeWhile (fun c => c ≠ 0 ∧ c ≠ 10 ∧ c ≠ 13) = [] := by
    cases hr : rest.take (63 - t.length) with
    | nil => rfl
    | cons c r =>
      have hc : c ∈ rest := List.mem_of_mem_take (by rw [hr]; simp)
      rw [List.takeWhile_cons_of_neg (by simpa using hrest c hc)]
  rw [parseState, htake, List.takeWhile_append_of_pos (by simpa using hplain), hstop,
    List.append_nil]
  cases t with
  | nil => rfl
  | cons c t => rfl

theorem tokenAt_of_textAt {p : FsPath} (hlen : (textAt σ p).length ≤ 63)
    (hplain : ∀ c ∈ textAt σ p, c ≠ 0 ∧ c ≠ 10 ∧ c ≠ 13) :
    σ.tokenAt p = if textAt σ p = [] then none else some (textAt σ p) := by
  cases hget : σ.get p with
  | none => simp [SD.tokenAt, textAt, hget]
  | some e =>
    cases e with
    | dir => simp [SD.tokenAt, textAt, hget]
    | file b =>
      simp only [textAt, hget] at hlen hplain ⊢
      rw [SD.tokenAt, hget]
      exact parseState_of_trimText rfl hlen hplain

/-- When the Horizon side reads one of the tokens, the payload reads the same. -/
theorem token_of_stateText {s : CfwUpdater.State} (h : stateText σ = s.text) :
    CfwUpdater.journal.token σ = some s.text := by
  have hplain : s.text.all (fun c => c ≠ 0 ∧ c ≠ 10 ∧ c ≠ 13) = true := by
    cases s <;> decide
  have hs : s.text.length ≤ 63 ∧ (∀ c ∈ s.text, c ≠ 0 ∧ c ≠ 10 ∧ c ≠ 13) ∧ s.text ≠ [] := by
    refine ⟨?_, by simpa using hplain, ?_⟩
    · cases s <;> decide
    · cases s <;> decide
  have hat : ∀ p, textAt σ p = s.text → σ.tokenAt p = some s.text := by
    intro p hp
    rw [tokenAt_of_textAt (by rw [hp]; exact hs.1) (by rw [hp]; exact hs.2.1), hp, if_neg hs.2.2]
  rw [stateText] at h
  by_cases he : textAt σ CFW_UPDATE_STATE_PATH = []
  · rw [if_neg (not_not.mpr he)] at h
    have hnone : σ.tokenAt CfwUpdater.journal.state = none := by
      have := tokenAt_of_textAt (σ := σ) (p := CFW_UPDATE_STATE_PATH) (by simp [he]) (by simp [he])
      rwa [if_pos he] at this
    rw [JournalFiles.token, hnone]
    exact hat _ h
  · rw [if_pos he] at h
    rw [JournalFiles.token, show σ.tokenAt CfwUpdater.journal.state = _ from hat _ h]
    rfl

/-! ## Probing and making directories -/

/-- What `cfwProbeDirectory` reports. -/
def Probed (σ : SD) (p : FsPath) : CfwDirProbe → Prop
  | .Missing => σ.get p = none
  | .Empty => σ.get p = some .dir ∧ σ.childless p = true
  | .NonEmpty => σ.get p = some .dir ∧ σ.childless p ≠ true
  | .Error => σ.get p ≠ some .dir ∧ (σ.get p = none → ¬ σ.CanPut p)

/-- The cards hold the same. -/
def Same (σ σ' : SD) : Prop := ∀ q, σ'.get q = σ.get q

theorem Same.refl (σ : SD) : Same σ σ := fun _ => rfl

/-- A directory put and deleted again. -/
theorem same_of_deleted {p : FsPath} {τ τ' : SD} (h : MadeDir p σ τ)
    (hp : σ.get p = none) (hd : ∀ q, τ'.get q = if q = p then none else τ.get q) :
    Same σ τ' := by
  intro q
  rw [hd]
  split
  · next hq => rw [hq, hp]
  · next hq => exact h.get_other hq

/-- `cfwProbeDirectory` makes a missing directory and deletes it again. -/
theorem wp_cfwProbeDirectory (hF : Reliable F) (p : FsPath) (σ : SD) :
    wp (horizon F) (MadeDir p σ) (fun r σ' => Probed σ p r ∧ Same σ σ')
      (cfwProbeDirectory p) σ := by
  have h0 : MadeDir p σ σ := fun _ => .inl rfl
  rw [cfwProbeDirectory, cfwSdFileSystem]
  simp only [Prog.bind_eq, Prog.pure_eq]
  refine wp_bind.mpr (wp_look hF rfl h0 ?_)
  refine wp_bind.mpr (wp_look hF rfl h0 ?_)
  simp only [SD.hanswer, decide_eq_true_eq]
  by_cases hdir : σ.get p = some .dir
  · rw [if_pos hdir]
    refine wp_bind.mpr (wp_look hF rfl h0 ?_)
    simp only [SD.hanswer, if_pos hdir]
    refine ⟨h0, ?_, .refl σ⟩
    by_cases hn : σ.names p = []
    · rw [if_pos (by simp [hn])]
      exact ⟨hdir, by simp [FileTree.childless, hn]⟩
    · have hlen : (σ.names p).length ≠ 0 := by simpa using hn
      rw [if_neg (by omega)]
      exact ⟨hdir, by simp [FileTree.childless, hn]⟩
  rw [if_neg hdir]
  refine wp_bind.mpr (wp_hcall h0 fun r τ h => ?_)
  rcases horizon_fsFsCreateDirectory h with ⟨rfl, hnone, hput, hget⟩ | ⟨rfl, rfl, hfail⟩
  · have hmade : MadeDir p σ τ := by
      intro q
      by_cases hq : q = p
      · exact .inr ⟨hq, hnone, by rw [hget, if_pos rfl]⟩
      · exact .inl (by rw [hget, if_neg hq])
    refine ⟨hmade, ?_⟩
    rw [if_pos rfl]
    refine wp_bind.mpr (wp_hcall hmade fun r₂ τ₂ h₂ => ?_)
    rcases horizon_fsFsDeleteDirectory h₂ with ⟨rfl, -, hdel⟩ | ⟨-, -, hfail⟩
    · have hback := same_of_deleted hmade hnone hdel
      have hmade₂ : MadeDir p σ τ₂ := fun q => .inl (hback q)
      exact ⟨hmade₂, hmade₂, hnone, hback⟩
    · exfalso
      rcases hfail with hf | hnd | hdel
      · obtain ⟨p', hp'⟩ := hF _ _ hf
        cases hp'
      · exact hnd (by rw [hget, if_pos rfl])
      · refine hdel ⟨hput.1, FileTree.childless_iff.mpr fun k => ?_⟩
        rw [hget, if_neg (by simp)]
        exact FileTree.get_append_of_none hnone [k]
  · refine ⟨h0, ?_⟩
    rw [if_neg (by simp)]
    refine ⟨h0, ⟨hdir, fun hn => ?_⟩, .refl _⟩
    rcases hfail with hf | hne | hput
    · obtain ⟨p', hp'⟩ := hF _ _ hf
      cases hp'
    · exact absurd hn hne
    · exact hput

/-- Making a directory that is there. -/
theorem wp_cfwCreateDirectoryNative (hF : Reliable F) {p : FsPath} (hp : σ.get p = some .dir) :
    wp (horizon F) (Same σ) (fun r _ => r = true)
      (cfwCreateDirectoryNative p) σ := by
  have h0 := Same.refl σ
  rw [cfwCreateDirectoryNative, cfwSdFileSystem]
  simp only [Prog.bind_eq, Prog.pure_eq]
  refine wp_bind.mpr (wp_look hF rfl h0 ?_)
  refine wp_bind.mpr (wp_hcall h0 fun r τ h => ?_)
  rcases horizon_fsFsCreateDirectory h with ⟨-, hnone, -⟩ | ⟨rfl, rfl, -⟩
  · rw [hp] at hnone
    cases hnone
  refine ⟨h0, ?_⟩
  rw [if_neg (by simp)]
  refine wp_bind.mpr (wp_conseq (wp_cfwProbeDirectory hF p τ) (fun σ' hm q => ?_) ?_)
  · rcases hm q with h | ⟨-, hn, -⟩
    · exact h
    · rw [hp] at hn
      cases hn
  · rintro r σ' - ⟨hr, hsame⟩
    refine ⟨hsame, ?_⟩
    cases r with
    | Missing => exact absurd (hp.symm.trans hr) (by simp)
    | Empty | NonEmpty => rfl
    | Error => exact absurd hp hr.1

/-! ## Writing the journal -/

/-- The text goes to the temporary file, which takes the place of the journal. -/
theorem wp_cfwWriteTextFileAtomic (hF : Reliable F) (j : JournalFiles) {t : Bytes}
    (ht : IsToken t) :
    wp (horizon F) (j.Writing t σ)
      (fun r σ' => r = true → σ'.tokenAt j.state = some t ∧ σ'.get j.tmp = none)
      (cfwWriteTextFileAtomic j.state j.tmp (t ++ [10])) σ := by
  have h0 : j.Writing t σ σ := JournalFiles.Writing.refl σ
  have hroot : ¬ j.tmp <+: j.root := by
    intro hq
    have := hq.length_le
    simp only [JournalFiles.tmp, List.length_append, List.length_singleton] at this
    omega
  rw [cfwWriteTextFileAtomic, cfwSdFileSystem]
  simp only [Prog.bind_eq, Prog.pure_eq]
  refine wp_bind.mpr (wp_look hF rfl h0 ?_)
  rw [if_neg (by simp [SD.hanswer])]
  -- up to the rename only the temporary file changes
  have htmp : ∀ {τ : SD}, (∀ q, ¬ j.tmp <+: q → τ.get q = σ.get q) →
      (τ.tokenAt j.tmp = σ.tokenAt j.tmp ∨ τ.tokenAt j.tmp = some t ∨ τ.tokenAt j.tmp = none) →
      j.Writing t σ τ :=
    fun hoff => .of_tmp (fun q _ hq => hoff q hq) (.inl (hoff _ hroot))
  have hpre : ∀ τ, Pruned j.tmp σ τ → j.Writing t σ τ := by
    intro τ hp
    refine htmp (fun q hq => hp.get_other hq) ?_
    rcases hp j.tmp with h | ⟨-, h⟩
    · exact .inl (by rw [SD.tokenAt, h, SD.tokenAt])
    · exact .inr (.inr (by rw [SD.tokenAt, h]))
  refine wp_bind.mpr (wp_conseq (wp_cfwDeleteFileNative hF j.tmp false σ) hpre ?_)
  intro _ τ₁ hp₁ _
  refine wp_bind.mpr (wp_hcall (hpre τ₁ hp₁) fun r τ₂ hcreate => ?_)
  rcases horizon_fsFsCreateFile hcreate with ⟨rfl, -, -, hget₂⟩ | ⟨rfl, rfl, -⟩
  swap
  · exact ⟨hpre _ hp₁, hpre _ hp₁, by simp⟩
  have hoff : ∀ {τ : SD} {c : Bytes},
      (∀ q, τ.get q = if q = j.tmp then some (.file c) else τ₁.get q) →
      ∀ q, ¬ j.tmp <+: q → τ.get q = σ.get q := by
    intro τ c h q hq
    rw [h, if_neg (by rintro rfl; exact hq (List.prefix_refl _)), hp₁.get_other hq]
  have hzeros : parseState (List.replicate (t ++ [10]).length 0) = none :=
    parseState_zeros fun c hc => List.eq_of_mem_replicate hc
  have h₂ : j.Writing t σ τ₂ :=
    htmp (hoff hget₂) (.inr (.inr (by rw [SD.tokenAt, hget₂, if_pos rfl]; exact hzeros)))
  refine ⟨h₂, ?_⟩
  rw [if_neg (by simp), writeTmp]
  simp only [Prog.bind_eq, Prog.pure_eq]
  have hfile₂ : τ₂.get j.tmp = some (.file (List.replicate (t ++ [10]).length 0)) := by
    rw [hget₂, if_pos rfl]
  refine wp_bind.mpr (wp_bind.mpr (wp_look hF rfl h₂ ?_))
  rw [if_neg (by simp [SD.hanswer, hfile₂, Entry.isDir])]
  refine wp_bind.mpr (wp_hcall h₂ fun r τ₃ hwrite => ?_)
  obtain ⟨n, -, hget₃, ⟨rfl, rfl⟩ | ⟨-, hf⟩⟩ := horizon_fsFileWrite hfile₂ (by simp) hwrite
  swap
  · obtain ⟨p, hp⟩ := hF _ _ hf
    cases hp
  have hfile₃ : τ₃.get j.tmp = some (.file (t ++ [10])) := by
    rw [hget₃, if_pos rfl]
    simp
  have htok₃ : τ₃.tokenAt j.tmp = some t := by rw [SD.tokenAt, hfile₃]; exact ht.2
  have hoff₃ : ∀ q, ¬ j.tmp <+: q → τ₃.get q = σ.get q := by
    intro q hq
    rw [hget₃, if_neg (by rintro rfl; exact hq (List.prefix_refl _)), hoff hget₂ q hq]
  have h₃ : j.Writing t σ τ₃ := htmp hoff₃ (.inr (.inl htok₃))
  refine ⟨h₃, ?_⟩
  rw [if_neg (by simp)]
  refine ⟨h₃, ?_⟩
  dsimp only
  rw [if_neg (by simp)]
  -- the old journal goes, and the temporary file takes its place
  have hstate₃ : τ₃.tokenAt j.state = σ.tokenAt j.state := by
    rw [SD.tokenAt, hoff₃ _ j.not_tmp_prefix_state, SD.tokenAt]
  have hlast : ∀ τ, Pruned j.state τ₃ τ → j.Writing t σ τ := fun τ h =>
    h₃.of_pruned htok₃ hstate₃ h
  refine wp_bind.mpr (wp_conseq (wp_cfwDeleteFileNative hF j.state false τ₃) hlast ?_)
  rintro r₄ τ₄ hp₄ ⟨hgone₄, hkept₄⟩
  refine wp_bind.mpr (wp_hcall (hlast τ₄ hp₄) fun r τ₅ hmove => ?_)
  have hfile₄ : τ₄.get j.tmp = some (.file (t ++ [10])) := by
    rw [hp₄.get_other j.not_state_prefix_tmp, hfile₃]
  rcases horizon_fsFsRenameFile hmove with ⟨rfl, hm, rfl⟩ | ⟨rfl, hsame, hfail⟩
  · have htok : SD.tokenAt (τ₄.move j.tmp j.state hm) j.state = some t := by
      rw [SD.tokenAt, FileTree.get_eq_sub, FileTree.sub_move_dst, ← FileTree.get_eq_sub, hfile₄]
      exact ht.2
    have h₅ := (hlast τ₄ hp₄).of_moved hm htok
    refine ⟨h₅, ?_⟩
    rw [if_neg (by simp)]
    exact wp_look hF rfl h₅ fun _ => ⟨htok, FileTree.get_move_src _ _ _ _⟩
  · subst hsame
    refine ⟨hlast _ hp₄, ?_⟩
    rw [if_pos (by simp)]
    -- only a directory at the journal's path stops the rename
    have hdir : r₄ = false := by
      by_contra hr₄
      have hgone := hgone₄ (by simpa using hr₄)
      rcases hfail with hf | hnf | hm
      · obtain ⟨p, hp⟩ := hF _ _ hf
        cases hp
      · exact hnf _ hfile₄
      · refine hm ⟨by simp [JournalFiles.tmp], by simp [JournalFiles.state], by simp [hfile₄],
          hgone, ?_, j.not_tmp_prefix_state⟩
        have := τ₅.parent j.tmp (by simp [JournalFiles.tmp]) (by simp [hfile₄])
        rw [JournalFiles.tmp, List.dropLast_concat] at this
        rw [JournalFiles.state, List.dropLast_concat, this]
    obtain ⟨rfl, -⟩ := hkept₄ hdir
    have hend : ∀ τ, Pruned j.tmp τ₅ τ → j.Writing t σ τ := by
      intro τ hp
      refine htmp (fun q hq => by rw [hp.get_other hq, hoff₃ q hq]) ?_
      rcases hp j.tmp with h | ⟨-, h⟩
      · exact .inr (.inl (by rw [SD.tokenAt, h, ← SD.tokenAt, htok₃]))
      · exact .inr (.inr (by rw [SD.tokenAt, h]))
    refine wp_bind.mpr (wp_conseq (wp_cfwDeleteFileNative hF j.tmp false τ₅) hend ?_)
    exact fun _ τ hp _ => ⟨hend τ hp, by simp⟩

/-- Writing a token after nothing has changed. -/
theorem writing_of_same {j : JournalFiles} {t : Bytes} {τ τ' : SD} (h : Same σ τ)
    (hw : j.Writing t τ τ') : j.Writing t σ τ' := by
  have hat : ∀ p, τ.tokenAt p = σ.tokenAt p := fun p => by rw [SD.tokenAt, h, SD.tokenAt]
  have htok : j.token τ = j.token σ := by rw [JournalFiles.token, hat, hat, ← JournalFiles.token]
  refine ⟨fun q hr hs ht => (hw.other q hr hs ht).trans (h q), ?_, ?_, fun hc => hw.clean ?_⟩
  · rw [← h j.root]
    exact hw.root
  · rw [← htok, ← hat]
    exact hw.token
  · intro hn
    rw [h]
    exact hc (by rw [← hat, hn])

theorem wp_writeCfwUpdateState (hF : Reliable F) {t : Bytes} (ht : IsToken t)
    (hroot : σ.get CFW_UPDATE_ROOT_NATIVE = some .dir) :
    wp (horizon F) (CfwUpdater.journal.Writing t σ)
      (fun r σ' => r = true → σ'.tokenAt CfwUpdater.journal.state = some t ∧
        σ'.get CfwUpdater.journal.tmp = none)
      (writeCfwUpdateState t) σ := by
  have hsame : ∀ τ, Same σ τ → CfwUpdater.journal.Writing t σ τ := fun τ h =>
    .of_tmp (fun q _ _ => h q) (.inl (h _)) (.inl (by rw [SD.tokenAt, h, SD.tokenAt]))
  rw [writeCfwUpdateState]
  simp only [Prog.bind_eq, Prog.pure_eq]
  refine wp_bind.mpr (wp_conseq (wp_cfwCreateDirectoryNative hF hroot) hsame ?_)
  rintro r τ hτ rfl
  rw [if_neg (by simp)]
  exact wp_conseq (wp_cfwWriteTextFileAtomic hF CfwUpdater.journal ht)
    (fun τ' h => writing_of_same hτ h) fun r τ' _ h => h

/-! ## Whether a transaction is pending -/

/-- What `hasPendingCfwUpdateTransaction` tests. -/
def HasPending (σ : SD) : Prop :=
  stateText σ ≠ [] ∨ (∃ b, b ≠ [] ∧ σ.get CFW_UPDATE_READY_PATH = some (.file b)) ∨
    (∃ b, σ.get CFW_UPDATE_ROOT_NATIVE = some (.file b)) ∨
      σ.get CFW_UPDATE_BACKUP_NATIVE ≠ none

theorem wp_cfwNativeFileSize (hF : Reliable F) {p : FsPath} {Q : Option ℕ → SD → Prop} (hC : C σ)
    (hQ : ∀ r : Option ℕ, (r.isSome = true ↔ ∃ b, b ≠ [] ∧ σ.get p = some (.file b)) → Q r σ) :
    wp (horizon F) C Q (cfwNativeFileSize p) σ := by
  rw [cfwNativeFileSize, cfwSdFileSystem]
  simp only [Prog.bind_eq, Prog.pure_eq]
  refine wp_bind.mpr (wp_look hF rfl hC ?_)
  rw [if_neg (by simp [SD.hanswer])]
  refine wp_bind.mpr (wp_look hF rfl hC ?_)
  cases hget : σ.get p with
  | none =>
    rw [if_pos (by simp [SD.hanswer, hget])]
    exact ⟨hC, hQ none (by simp [hget])⟩
  | some e =>
    cases e with
    | dir =>
      rw [if_pos (by simp [SD.hanswer, hget, Entry.isDir])]
      exact ⟨hC, hQ none (by simp [hget])⟩
    | file b =>
      rw [if_neg (by simp [SD.hanswer, hget, Entry.isDir])]
      refine wp_bind.mpr (wp_look hF rfl hC ?_)
      simp only [SD.hanswer, hget]
      refine ⟨hC, hQ _ ?_⟩
      cases b with
      | nil => simp [hget]
      | cons c b => simp [hget]

/-- The backup folder is looked for below the root only when something is there. -/
theorem hasPending_of_probes {root : CfwDirProbe} (hroot : Probed σ CFW_UPDATE_ROOT_NATIVE root)
    (ht : stateText σ = [])
    (hr : ¬ ∃ b, b ≠ [] ∧ σ.get CFW_UPDATE_READY_PATH = some (.file b)) :
    ((root = .Missing ∨ root = .Empty) → ¬ HasPending σ) ∧ (root = .Error → HasPending σ) ∧
      (root = .NonEmpty → (HasPending σ ↔ σ.get CFW_UPDATE_BACKUP_NATIVE ≠ none)) := by
  have hbelow : σ.get CFW_UPDATE_BACKUP_NATIVE = σ.get (CFW_UPDATE_ROOT_NATIVE ++ ["backup"]) := rfl
  refine ⟨?_, ?_, ?_⟩
  · rintro (rfl | rfl)
    · have hb := FileTree.get_append_of_none hroot ["backup"]
      simp only [HasPending, ht, hr, hbelow, hb, show σ.get CFW_UPDATE_ROOT_NATIVE = none from hroot]
      simp
    · have hb := FileTree.get_append_of_childless hroot.2 (r := ["backup"]) (by simp)
      simp only [HasPending, ht, hr, hbelow, hb, hroot.1]
      simp
  · rintro rfl
    refine .inr (.inr (.inl ?_))
    cases hget : σ.get CFW_UPDATE_ROOT_NATIVE with
    | none =>
      exact absurd ⟨by decide, σ.root, by simp [hget]⟩ (hroot.2 hget)
    | some e =>
      cases e with
      | dir => exact absurd hget hroot.1
      | file b => exact ⟨b, rfl⟩
  · rintro rfl
    simp [HasPending, ht, hr, hroot.1]

/-- `hasPendingCfwUpdateTransaction` leaves the card as it is, up to a folder that is made
and deleted at once. -/
theorem wp_hasPendingCfwUpdateTransaction (hF : Reliable F) (σ : SD) :
    wp (horizon F)
      (fun σ' => MadeDir CFW_UPDATE_ROOT_NATIVE σ σ' ∨ MadeDir CFW_UPDATE_BACKUP_NATIVE σ σ')
      (fun r σ' => Same σ σ' ∧ (r = true ↔ HasPending σ)) hasPendingCfwUpdateTransaction σ := by
  have h0 : MadeDir CFW_UPDATE_ROOT_NATIVE σ σ ∨ MadeDir CFW_UPDATE_BACKUP_NATIVE σ σ :=
    .inl fun _ => .inl rfl
  rw [hasPendingCfwUpdateTransaction]
  simp only [Prog.bind_eq, Prog.pure_eq]
  refine wp_bind.mpr (wp_readCfwUpdateState hF h0 ?_)
  by_cases ht : stateText σ = []
  swap
  · rw [if_pos (by simpa using ht)]
    exact ⟨h0, .refl σ, by simp [HasPending, ht]⟩
  rw [if_neg (by simp [ht])]
  refine wp_bind.mpr (wp_cfwNativeFileSize hF h0 fun r hr => ?_)
  by_cases hsome : r.isSome = true
  · rw [if_pos hsome]
    exact ⟨h0, .refl σ, by simpa using .inr (.inl (hr.mp hsome))⟩
  rw [if_neg hsome]
  refine wp_bind.mpr (wp_conseq (wp_cfwProbeDirectory hF CFW_UPDATE_ROOT_NATIVE σ)
    (fun _ h => .inl h) ?_)
  rintro root τ hmade ⟨hroot, hsame⟩
  obtain ⟨hnot, herr, hiff⟩ := hasPending_of_probes hroot ht fun h => hsome (hr.mpr h)
  by_cases h₁ : root = .Missing ∨ root = .Empty
  · rw [if_pos (by simpa using h₁)]
    exact ⟨.inl hmade, hsame, by simpa using hnot h₁⟩
  rw [if_neg (by simpa using h₁)]
  by_cases h₂ : root = .Error
  · rw [if_pos h₂]
    exact ⟨.inl hmade, hsame, by simpa using herr h₂⟩
  rw [if_neg h₂]
  obtain rfl : root = .NonEmpty := by
    cases root <;> simp_all
  refine wp_bind.mpr (wp_conseq (wp_cfwProbeDirectory hF CFW_UPDATE_BACKUP_NATIVE τ)
    (fun τ' h => .inr fun q => ?_) ?_)
  · rw [← hsame q, ← hsame CFW_UPDATE_BACKUP_NATIVE]
    exact h q
  rintro backup τ' hmade' ⟨hback, hsame'⟩
  have hmade'' : MadeDir CFW_UPDATE_ROOT_NATIVE σ τ' := fun q =>
    .inl ((hsame' q).trans (hsame q))
  refine ⟨.inl hmade'', fun q => (hsame' q).trans (hsame q), ?_⟩
  rw [hiff rfl, ← hsame CFW_UPDATE_BACKUP_NATIVE]
  cases backup with
  | Missing =>
    have hnone : τ.get CFW_UPDATE_BACKUP_NATIVE = none := hback
    simp [hnone]
  | Empty => simp [hback.1]
  | NonEmpty => simp [hback.1]
  | Error =>
    refine ⟨fun _ hn => hback.2 hn ⟨by decide, ?_, by simp [hn]⟩, fun _ => by simp⟩
    exact (hsame _).trans hroot.1

end rules

end Util
