/-
# The two sides of the commit

The payload and the application act on one journal.  After a boot the application commits
what the journal calls `FINALIZE_BOOT_PAYLOAD` or later; it deletes the backup, so the
installation has to be complete by then.
-/
import AioMod.CfwAtomic
import AioMod.CfwHorizonSpec

namespace CfwUpdater

open FileTree (Incomparable Touch)
open Util

/-! ## Histories of both sides -/

/-- A turn of either side, cut or not: the payload launched in a state with `launch`, or
the application started in a state with `start`. -/
inductive Turn (depth FSBuffSize : ℕ) (patched_or_mariko : Bool) (launch start : SD → Prop) :
    SD → SD → Prop where
  | payload {σ σ' : SD} {out : Option Exit} (hl : launch σ)
      (h : Run (payload copiesMayFail) (aio_cfw_update_run depth FSBuffSize patched_or_mariko)
        σ out σ') : Turn depth FSBuffSize patched_or_mariko launch start σ σ'
  | start {σ σ' : SD} {isErista : Bool} {out : Option Bool} (hs : start σ)
      (h : Run (horizon cleaningMayStop) (finalizeCfwUpdateAfterSuccessfulBoot isErista)
        σ out σ') : Turn depth FSBuffSize patched_or_mariko launch start σ σ'

/-- A start of the application that goes well: under `FINALIZE_BOOT_PAYLOAD` the boot
payload is the one of the pack already. -/
def Confirmable (u : Update) (σ : SD) : Prop :=
  stateText σ = State.FINALIZE_PAYLOAD.text →
    ∀ i, u.special i = true → (item u.patched σ i).root = u.pack i

section commit

variable {u : Update} {σ σ' : SD}

/-! ## Deleting the transaction -/

/-- The journal is at `COMMIT_IN_PROGRESS` and everything is installed. -/
structure Committing (u : Update) (σ : SD) : Prop where
  token : journal.token σ = some State.COMMIT_IN_PROGRESS.text
  root : σ.get UPDATE_ROOT = some .dir
  snap : Committed u (snapshot u.patched σ)

/-- What each cut of a commit leaves. -/
def Kept (u : Update) (σ : SD) : Prop := Inv u σ ∧ u.Installed (snapshot u.patched σ)

theorem Committing.kept (h : Committing u σ) : Kept u σ :=
  ⟨⟨some .COMMIT_IN_PROGRESS, h.token, h.snap⟩, h.snap.1⟩

theorem Committing.pruned (h : Committing u σ) {p : FsPath} (hp : Removable p)
    (htmp : ¬ p <+: UPDATE_STATE_TMP) (hready : p = UPDATE_READY → σ.get UPDATE_BACKUP = none)
    (hpr : Pruned p σ σ') : Committing u σ' := by
  obtain ⟨hroots, hstate, hroot, hr⟩ := hp
  refine ⟨?_, (hpr.get_other hroot).trans h.root, h.snap.pruned ⟨hroots, hstate, hroot, hr⟩ hready hpr⟩
  rw [(journal.token_congr (hpr.get_other hstate) (hpr.get_other htmp)).1, h.token]

/-- The backup and the ready marker are gone, and everything is installed. -/
structure Over (u : Update) (σ : SD) : Prop where
  token : journal.token σ = some State.COMMIT_IN_PROGRESS.text ∨ journal.token σ = none
  root : ∀ b, σ.get UPDATE_ROOT ≠ some (.file b)
  ready : σ.get UPDATE_READY = none
  backup : σ.get UPDATE_BACKUP = none
  installed : u.Installed (snapshot u.patched σ)

theorem Over.kept (h : Over u σ) : Kept u σ := by
  have hb : (snapshot u.patched σ).backup = none := by simp [snapshot, h.backup]
  refine ⟨?_, h.installed⟩
  rcases h.token with ht | ht
  · exact ⟨some .COMMIT_IN_PROGRESS, ht, h.installed, fun _ => hb⟩
  · exact ⟨none, ht, fun _ hne => absurd hb hne⟩

/-- The end of the transaction: nothing of it is pending for either side. -/
structure Gone (u : Update) (σ : SD) : Prop where
  finished : Over u σ
  state : σ.get UPDATE_STATE = none
  tmp : σ.get UPDATE_STATE_TMP = none

theorem Gone.not_pending (h : Gone u σ) : ¬ Pending σ ∧ ¬ HasPending σ := by
  have htok : journal.token σ = none := by
    rw [JournalFiles.token, SD.tokenAt, SD.tokenAt, show σ.get journal.state = none from h.state,
      show σ.get journal.tmp = none from h.tmp]
    rfl
  have htext : stateText σ = [] := by
    have hs : textAt σ CFW_UPDATE_STATE_PATH = [] := by
      rw [textAt, show σ.get CFW_UPDATE_STATE_PATH = none from h.state]
    have ht : textAt σ CFW_UPDATE_STATE_TMP_PATH = [] := by
      rw [textAt, show σ.get CFW_UPDATE_STATE_TMP_PATH = none from h.tmp]
    rw [stateText, hs, ht]
    rfl
  have hr : σ.get CFW_UPDATE_READY_PATH = none := h.finished.ready
  have hb : σ.get CFW_UPDATE_BACKUP_NATIVE = none := h.finished.backup
  have hroot : ∀ b, σ.get CFW_UPDATE_ROOT_NATIVE ≠ some (.file b) := h.finished.root
  constructor
  · simp [Pending, htok, h.finished.ready, h.finished.backup]
  · simp [HasPending, htext, hr, hb, hroot]

/-- A journal file goes: the token stays, or none is left. -/
theorem token_of_pruned {p : FsPath} (hp : Pruned p σ σ')
    (h : p = UPDATE_STATE_TMP ∨ p = UPDATE_STATE ∧ σ.get UPDATE_STATE_TMP = none) :
    journal.token σ' = journal.token σ ∨ journal.token σ' = none := by
  have hat : ∀ q, σ'.tokenAt q = σ.tokenAt q ∨ σ'.get q = none ∧ σ'.tokenAt q = none := by
    intro q
    rcases hp q with hq | ⟨-, hq⟩
    · exact .inl (by rw [SD.tokenAt, hq, SD.tokenAt])
    · exact .inr ⟨hq, by rw [SD.tokenAt, hq]⟩
  rcases h with rfl | ⟨rfl, htmp⟩
  · have hstate : σ'.tokenAt journal.state = σ.tokenAt journal.state := by
      rw [SD.tokenAt, hp.get_other (by decide), SD.tokenAt]
    rw [JournalFiles.token, JournalFiles.token, hstate]
    cases σ.tokenAt journal.state with
    | some t => exact .inl rfl
    | none => exact (hat journal.tmp).imp (fun h => by rw [h]) fun h => by rw [h.2]; rfl
  · have h₁ : ∀ τ : SD, τ.get UPDATE_STATE_TMP = none →
        journal.token τ = τ.tokenAt journal.state := by
      intro τ hτ
      rw [JournalFiles.token, show τ.tokenAt journal.tmp = none from by
        rw [SD.tokenAt, show τ.get journal.tmp = none from hτ], Option.or_none]
    rw [h₁ σ htmp, h₁ σ' (hp.get_none htmp)]
    exact (hat journal.state).imp id And.right

theorem Over.pruned (h : Over u σ) {p : FsPath} (hp : Pruned p σ σ')
    (hj : p = UPDATE_STATE_TMP ∨ p = UPDATE_STATE ∧ σ.get UPDATE_STATE_TMP = none) :
    Over u σ' := by
  have hmem : p ∈ [UPDATE_STATE, UPDATE_STATE_TMP] := by
    rcases hj with rfl | ⟨rfl, -⟩ <;> simp
  have hsnap : snapshot u.patched σ' = snapshot u.patched σ :=
    snapshot_touch hp.touch (by simpa using neutral_journal u.patched p hmem)
  refine ⟨?_, fun b hb => ?_, hp.get_none h.ready, hp.get_none h.backup,
    by rw [hsnap]; exact h.installed⟩
  · rcases token_of_pruned hp hj with ht | ht
    · rw [ht]
      exact h.token
    · exact .inr ht
  · rcases hp UPDATE_ROOT with hr | ⟨-, hr⟩
    · exact h.root b (hr ▸ hb)
    · rw [hr] at hb
      cases hb

theorem Over.off_root (h : Over u σ) (hget : ∀ q, q ≠ UPDATE_ROOT → σ'.get q = σ.get q)
    (hroot : ∀ b, σ'.get UPDATE_ROOT ≠ some (.file b)) : Over u σ' := by
  obtain ⟨hsnap, htok⟩ : snapshot u.patched σ' = snapshot u.patched σ ∧
      journal.token σ' = journal.token σ := snapshot_off_root hget
  refine ⟨by rw [htok]; exact h.token, hroot, (hget _ (by decide)).trans h.ready,
    (hget _ (by decide)).trans h.backup, by rw [hsnap]; exact h.installed⟩

/-- The journal files go last. -/
theorem wp_cleanupJournal (h : Over u σ) :
    wp (horizon cleaningMayStop) (Kept u) (fun r σ' => r = true → Gone u σ') cleanupJournal σ := by
  have hF := reliable_cleaningMayStop
  rw [cleanupJournal]
  simp only [Prog.bind_eq, Prog.pure_eq]
  have h₁ : ∀ τ, Pruned UPDATE_STATE_TMP σ τ → Over u τ := fun τ hp => h.pruned hp (.inl rfl)
  refine wp_bind.mpr (wp_conseq (wp_cleanupFile hF CFW_UPDATE_STATE_TMP_PATH σ)
    (fun τ hp => (h₁ τ hp).kept) fun r₁ τ₁ hp₁ hgone₁ => ?_)
  have hk₁ := (h₁ τ₁ hp₁).kept
  by_cases hr₁ : r₁ = true
  swap
  · rw [if_pos (by simpa using hr₁)]
    exact ⟨hk₁, by simp⟩
  rw [if_neg (by simp [hr₁])]
  have htmp₁ : τ₁.get UPDATE_STATE_TMP = none := hgone₁ hr₁
  refine wp_bind.mpr (wp_look hF rfl hk₁ ?_)
  rw [if_neg (by simp [SD.hanswer])]
  have h₂ : ∀ τ, Pruned UPDATE_STATE τ₁ τ → Over u τ := fun τ hp =>
    (h₁ τ₁ hp₁).pruned hp (.inr ⟨rfl, htmp₁⟩)
  refine wp_bind.mpr (wp_conseq (wp_cleanupFile hF CFW_UPDATE_STATE_PATH τ₁)
    (fun τ hp => (h₂ τ hp).kept) fun r₂ τ₂ hp₂ hgone₂ => ?_)
  have hk₂ := (h₂ τ₂ hp₂).kept
  by_cases hr₂ : r₂ = true
  swap
  · rw [if_pos (by simpa using hr₂)]
    exact ⟨hk₂, by simp⟩
  rw [if_neg (by simp [hr₂])]
  refine wp_bind.mpr (wp_look hF rfl hk₂ ?_)
  rw [if_neg (by simp [SD.hanswer])]
  -- the folder goes when nothing else is left in it
  refine wp_bind.mpr (wp_hcall hk₂ fun r₃ τ₃ hdel => ?_)
  have hget : (∀ q, q ≠ UPDATE_ROOT → τ₃.get q = τ₂.get q) ∧
      ∀ b, τ₃.get UPDATE_ROOT ≠ some (.file b) := by
    rcases horizon_fsFsDeleteDirectory hdel with ⟨-, -, hget⟩ | ⟨-, rfl, -⟩
    · refine ⟨fun q hq => by rw [hget]; exact if_neg hq, fun b => ?_⟩
      rw [show τ₃.get UPDATE_ROOT = none by rw [hget]; exact if_pos rfl]
      simp
    · exact ⟨fun _ _ => rfl, (h₂ τ₃ hp₂).root⟩
  have h₃ : Over u τ₃ := (h₂ τ₂ hp₂).off_root hget.1 hget.2
  refine ⟨h₃.kept, wp_look hF rfl h₃.kept fun _ => ⟨h₃, ?_, ?_⟩⟩
  · exact (hget.1 _ (by decide)).trans (hgone₂ hr₂)
  · exact (hget.1 _ (by decide)).trans (hp₂.get_none htmp₁)

theorem removable_before_state : ∀ p ∈ files_before_state,
    Removable p ∧ ¬ p <+: UPDATE_STATE_TMP := by
  decide

theorem ready_before_state : UPDATE_READY ∈ files_before_state := by decide

/-- `cfwCommitCleanupNative` deletes the transaction and leaves the installation alone. -/
theorem wp_cfwCommitCleanupNative (h : Committing u σ) :
    wp (horizon cleaningMayStop) (Kept u) (fun r σ' => r = true → Gone u σ')
      cfwCommitCleanupNative σ := by
  have hF := reliable_cleaningMayStop
  have hback : Removable UPDATE_BACKUP ∧ Removable UPDATE_NEW := by decide
  rw [cfwCommitCleanupNative, cfwSdFileSystem]
  simp only [Prog.bind_eq, Prog.pure_eq]
  refine wp_bind.mpr (wp_look hF rfl h.kept ?_)
  rw [if_neg (by simp [SD.hanswer])]
  have h₁ : ∀ τ, Pruned UPDATE_BACKUP σ τ → Committing u τ := fun τ hp =>
    h.pruned hback.1 (by decide) (fun h => absurd h (by decide)) hp
  refine wp_bind.mpr (wp_conseq (wp_cfwDeleteTreeNative hF CFW_UPDATE_BACKUP_NATIVE σ)
    (fun τ hp => (h₁ τ hp).kept) fun r₁ τ₁ hp₁ hgone₁ => ?_)
  by_cases hr₁ : r₁ = true
  swap
  · rw [if_pos (by simpa using hr₁)]
    exact ⟨(h₁ τ₁ hp₁).kept, by simp⟩
  rw [if_neg (by simp [hr₁])]
  have hb₁ : τ₁.get UPDATE_BACKUP = none := hgone₁ hr₁
  have h₂ : ∀ τ, Pruned UPDATE_NEW τ₁ τ → Committing u τ := fun τ hp =>
    (h₁ τ₁ hp₁).pruned hback.2 (by decide) (fun h => absurd h (by decide)) hp
  refine wp_bind.mpr (wp_conseq (wp_cfwDeleteTreeNative hF CFW_UPDATE_NEW_NATIVE τ₁)
    (fun τ hp => (h₂ τ hp).kept) fun r₂ τ₂ hp₂ _ => ?_)
  by_cases hr₂ : r₂ = true
  swap
  · rw [if_pos (by simpa using hr₂)]
    exact ⟨(h₂ τ₂ hp₂).kept, by simp⟩
  rw [if_neg (by simp [hr₂])]
  -- the single files go in order, the ready marker among them
  refine wp_bind.mpr (wp_untilSome (fun pre σ' => Committing u σ' ∧
    σ'.get UPDATE_BACKUP = none ∧ (UPDATE_READY ∈ pre → σ'.get UPDATE_READY = none))
    files_before_state ?_ ?_ ⟨h₂ τ₂ hp₂, hp₂.get_none hb₁, by simp⟩)
  · rintro pre p post τ hl ⟨hτ, hb, hready⟩
    obtain ⟨hrem, htmp⟩ := removable_before_state p (by rw [hl]; simp)
    have hstep : ∀ τ', Pruned p τ τ' → Committing u τ' := fun τ' hp =>
      hτ.pruned hrem htmp (fun _ => hb) hp
    refine wp_bind.mpr (wp_conseq (wp_cleanupFile hF p τ) (fun τ' hp => (hstep τ' hp).kept)
      fun r τ' hp hgone => ?_)
    by_cases hr : r = true
    swap
    · rw [if_neg hr]
      exact ⟨(hstep τ' hp).kept, (hstep τ' hp).kept, by simp⟩
    rw [if_pos hr]
    refine ⟨(hstep τ' hp).kept, hstep τ' hp, hp.get_none hb, fun hmem => ?_⟩
    rcases List.mem_append.mp hmem with hmem | hmem
    · exact hp.get_none (hready hmem)
    · rw [List.mem_singleton.mp hmem]
      exact hgone hr
  · rintro τ ⟨hτ, hb, hready⟩
    refine ⟨hτ.kept, wp_cleanupJournal ⟨.inl hτ.token, fun b hroot => ?_,
      hready ready_before_state, hb, hτ.snap.1⟩⟩
    rw [hτ.root] at hroot
    cases hroot

theorem wp_commitAfterBoot (h : Committing u σ) (isErista : Bool) :
    wp (horizon cleaningMayStop) (Kept u) (fun r σ' => r = true → Gone u σ')
      (commitAfterBoot isErista) σ := by
  rw [commitAfterBoot]
  simp only [Prog.bind_eq]
  cases isErista with
  | true =>
    rw [if_neg (by simp)]
    exact wp_cfwCommitCleanupNative h
  | false =>
    rw [if_pos (by simp)]
    have hrem : Removable MARIKO_PAYLOAD_FALLBACK := by decide
    have h₁ : ∀ τ, Pruned MARIKO_PAYLOAD_FALLBACK σ τ → Committing u τ := fun τ hp =>
      h.pruned hrem (by decide) (fun h => absurd h (by decide)) hp
    refine wp_bind.mpr (wp_conseq
      (wp_cfwDeleteFileNative reliable_cleaningMayStop MARIKO_PAYLOAD_PATH_TEMP true σ)
      (fun τ hp => (h₁ τ hp).kept) fun _ τ hp _ => ?_)
    exact wp_cfwCommitCleanupNative (h₁ τ hp)

/-! ## A start of the application -/

/-- What the application can see of a transaction that it may commit. -/
theorem committed_of_stateText (hi : Inv u σ) (hc : Confirmable u σ) {s : State}
    (hs : stateText σ = s.text)
    (hmem : s = .PENDING_BOOT ∨ s = .FINALIZE_PAYLOAD ∨ s = .COMMIT_IN_PROGRESS) :
    journal.token σ = some s.text ∧ σ.get UPDATE_ROOT = some .dir ∧
      Committed u (snapshot u.patched σ) := by
  have htok := token_of_stateText hs
  obtain ⟨s', hs', hp⟩ := hi
  have hss : s' = some s := by
    rw [htok] at hs'
    cases s' with
    | none => cases hs'
    | some s' => rw [text_injective (Option.some.inj hs')]
  subst hss
  refine ⟨htok, Pending.root (.inr (.inl (by simp [htok]))), ?_⟩
  rcases hmem with rfl | rfl | rfl
  · exact hp.elim
  · have hcopied : u.Copied (snapshot u.patched σ) := hp
    exact committed_of_installed hcopied.backedUp (hcopied.all (hc hs))
  · exact hp

/-- A start of the application: it leaves the card as it is, or everything is installed and
stays so; with success the transaction is gone. -/
theorem wp_finalizeCfwUpdateAfterSuccessfulBoot (hi : Inv u σ) (hc : Confirmable u σ)
    (isErista : Bool) :
    wp (horizon cleaningMayStop)
      (fun σ' => σ' = σ ∨ u.Installed (snapshot u.patched σ) ∧ Kept u σ')
      (fun r σ' => r = true → Gone u σ') (finalizeCfwUpdateAfterSuccessfulBoot isErista) σ := by
  have h0 : σ = σ ∨ u.Installed (snapshot u.patched σ) ∧ Kept u σ := .inl rfl
  rw [finalizeCfwUpdateAfterSuccessfulBoot]
  simp only [Prog.bind_eq, Prog.pure_eq]
  refine wp_bind.mpr (wp_readCfwUpdateState reliable_cleaningMayStop h0 ?_)
  by_cases hroll : stateText σ = ascii "ROLLBACK_IN_PROGRESS" ∨
      stateText σ = ascii "ROLLBACK_FAILED"
  · rw [if_pos hroll]
    exact ⟨h0, by simp⟩
  rw [if_neg hroll]
  by_cases hother : stateText σ ≠ ascii "PENDING_BOOT" ∧
      stateText σ ≠ ascii "FINALIZE_BOOT_PAYLOAD" ∧ stateText σ ≠ ascii "COMMIT_IN_PROGRESS"
  · rw [if_pos hother]
    exact ⟨h0, by simp⟩
  rw [if_neg hother]
  obtain ⟨s, hs, hmem⟩ : ∃ s : State, stateText σ = s.text ∧
      (s = .PENDING_BOOT ∨ s = .FINALIZE_PAYLOAD ∨ s = .COMMIT_IN_PROGRESS) := by
    by_contra hcon
    push Not at hcon
    exact hother ⟨fun h => (hcon .PENDING_BOOT h).1 rfl,
      fun h => (hcon .FINALIZE_PAYLOAD h).2.1 rfl, fun h => (hcon .COMMIT_IN_PROGRESS h).2.2 rfl⟩
  obtain ⟨htok, hroot, hcom⟩ := committed_of_stateText hi hc hs hmem
  have hend : ∀ τ, Committing u τ → wp (horizon cleaningMayStop)
      (fun σ' => σ' = σ ∨ u.Installed (snapshot u.patched σ) ∧ Kept u σ')
      (fun r σ' => r = true → Gone u σ') (commitAfterBoot isErista) τ := fun τ hτ =>
    wp_conseq (wp_commitAfterBoot hτ isErista) (fun _ h => .inr ⟨hcom.1, h⟩) fun _ _ _ h => h
  -- a commit that was begun goes on; otherwise the journal says so first
  by_cases hcommit : stateText σ ≠ ascii "COMMIT_IN_PROGRESS"
  swap
  · rw [if_neg hcommit]
    obtain rfl : s = .COMMIT_IN_PROGRESS :=
      text_injective (hs.symm.trans (not_not.mp hcommit))
    exact hend σ ⟨htok, hroot, hcom⟩
  rw [if_pos hcommit]
  have hw : ∀ τ, journal.Writing State.COMMIT_IN_PROGRESS.text σ τ →
      u.Installed (snapshot u.patched σ) ∧ Kept u τ := fun τ h =>
    ⟨hcom.1, hi.writing hcom hcom.phase_none h, by rw [snapshot_writing h]; exact hcom.1⟩
  refine wp_bind.mpr (wp_conseq (wp_writeCfwUpdateState reliable_cleaningMayStop
    (text_isToken .COMMIT_IN_PROGRESS) hroot) (fun τ h => .inr (hw τ h)) fun r τ h hok => ?_)
  by_cases hr : r = true
  swap
  · rw [if_pos (by simpa using hr)]
    exact ⟨.inr (hw τ h), by simp⟩
  rw [if_neg (by simp [hr])]
  have hτ : Holds u .COMMIT_IN_PROGRESS (Committed u) τ :=
    .of_writing hroot hcom h (hok hr).1 (hok hr).2
  exact hend τ ⟨hτ.token, hτ.root, hτ.snap⟩

end commit

/-! ## Histories -/

/-- Every turn keeps the phases. -/
theorem Turn.inv {depth FSBuffSize : ℕ} {u : Update} (hv : u.Valid) (ht : u.Tame)
    (hsize : u.Sized) {σ σ' : SD} (hi : Inv u σ)
    (h : Turn depth FSBuffSize u.patched (Launchable u) (Confirmable u) σ σ') : Inv u σ' := by
  cases h with
  | payload hl h => exact wp_end (wp_aio_cfw_update_run hv ht hsize hi hl) h
  | @start isErista _ hs h =>
    rcases wp_end (wp_finalizeCfwUpdateAfterSuccessfulBoot hi hs isErista) h with rfl | ⟨-, hk⟩
    · exact hi
    · exact hk.1

theorem inv_of_turns {depth FSBuffSize : ℕ} {u : Update} (hv : u.Valid) (ht : u.Tame)
    (hsize : u.Sized) {σ σ' : SD} (hi : Inv u σ)
    (h : Relation.ReflTransGen
      (Turn depth FSBuffSize u.patched (Launchable u) (Confirmable u)) σ σ') : Inv u σ' := by
  induction h with
  | refl => exact hi
  | tail _ hturn ih => exact hturn.inv hv ht hsize ih

/-- Turns of both sides in any order, cut anywhere: when a start of the application deletes
anything of the backup or the saved boot payload, the whole pack is installed, and when it
reports success, neither side sees a pending transaction. -/
theorem finalize_commits_complete (depth FSBuffSize : ℕ) {u : Update} (hv : u.Valid)
    (ht : u.Tame) (hsize : u.Sized) {σ₀ σ σ' : SD} (h₀ : Staged u σ₀)
    (hturns : Relation.ReflTransGen
      (Turn depth FSBuffSize u.patched (Launchable u) (Confirmable u)) σ₀ σ)
    (hc : Confirmable u σ) {isErista : Bool} {out : Option Bool}
    (hrun : Run (horizon cleaningMayStop) (finalizeCfwUpdateAfterSuccessfulBoot isErista)
      σ out σ') :
    (∀ q, UPDATE_BACKUP <+: q ∨ MARIKO_PAYLOAD_FALLBACK <+: q → σ'.get q ≠ σ.get q →
      u.Installed (snapshot u.patched σ) ∧ u.Installed (snapshot u.patched σ')) ∧
    (out = some true →
      (∀ b τ, Run (payload copiesMayFail) aio_cfw_update_pending σ' (some b) τ → b = false) ∧
      ∀ b τ, Run (horizon cleaningMayStop) hasPendingCfwUpdateTransaction σ' (some b) τ →
        b = false) := by
  have hi : Inv u σ := inv_of_turns hv ht hsize h₀.inv hturns
  have hwp := wp_finalizeCfwUpdateAfterSuccessfulBoot hi hc isErista
  constructor
  · intro q _ hne
    rcases wp_end hwp hrun with rfl | ⟨hin, hk⟩
    · exact absurd rfl hne
    · exact ⟨hin, hk.2⟩
  · rintro rfl
    obtain ⟨hpay, hhor⟩ := (wp_sound hwp hrun rfl).not_pending
    constructor
    · intro b τ h
      have hb := wp_sound (wp_aio_cfw_update_pending (C := fun _ => True)
        (Q := fun b _ => b = true ↔ Pending σ') trivial fun _ hb => hb) h
      simpa [hpay] using hb
    · intro b τ h
      have hb := wp_sound (wp_hasPendingCfwUpdateTransaction reliable_cleaningMayStop σ') h
      simpa [hhor] using hb.2

/-! ### A start that commits too early -/

/-- A small transaction on patched hardware: the boot payload is saved and the updater
stands in its place. -/
def patchedCard : SD := SD.build
  [(ROOT_PAYLOAD, .file [1]), (MARIKO_PAYLOAD_FALLBACK, .file [2, 2]), (UPDATE_ROOT, .dir),
   (UPDATE_READY, .file (ascii "1")), (UPDATE_STATE, .file State.STAGED.text),
   (UPDATE_NEW, .dir), (UPDATE_NEW ++ ["atmosphere"], .dir),
   (UPDATE_NEW ++ ["atmosphere", "package3"], .file [5]),
   (UPDATE_NEW ++ ["payload.bin"], .file [6, 6, 6])]

def patchedUpdate : Update := .ofCard true [1] patchedCard

theorem patchedCard_staged : Staged patchedUpdate patchedCard where
  token := by decide
  ready := by decide
  backup := by decide
  staged := rfl
  original _ := rfl
  updater _ := by decide

theorem patchedUpdate_valid : patchedUpdate.Valid where
  core := by decide
  payload _ := by decide
  boot h := by cases h

theorem patchedUpdate_tame : patchedUpdate.Tame where
  own r hr := by
    refine absurd ?_ hr
    have hnone : patchedCard.get (UPDATE_NEW ++ ["aio-mod-update"]) = none := by decide
    exact FileTree.get_append_of_none hnone r
  saved _ r := by
    have hnone : patchedCard.get (UPDATE_NEW ++ ["payload.bin.aio"]) = none := by decide
    exact FileTree.get_append_of_none hnone r

theorem patchedUpdate_sized : patchedUpdate.Sized := by
  have hget : patchedCard.get (UPDATE_NEW ++ ["payload.bin"]) = some (.file [6, 6, 6]) := by
    decide
  intro i b hs hpack hlen
  have hname : i.name = "payload.bin" := by
    rw [Update.special, Bool.and_eq_true] at hs
    exact of_decide_eq_true hs.2
  have hb : patchedCard.get (UPDATE_NEW ++ ["payload.bin"]) = some (.file b) := by
    have := congrFun hpack []
    rwa [Update.pack, hname] at this
  rw [hget] at hb
  cases hb
  cases hlen

theorem patchedCard_launchable : Launchable patchedUpdate patchedCard :=
  ⟨.inl (by decide), fun h => absurd h (by decide)⟩

/-- The power goes after the given number of calls. -/
def cutAfter (n : ℕ) : Script where
  calls := n
  mishap _ := none
  order := id

/-- The card after the update of `patchedCard` was cut. -/
def cutPatched (n : ℕ) : SD :=
  ((cutAfter n).play copyFails (aio_cfw_update_run 5 16 true) patchedCard).2

theorem cutPatched_run {n : ℕ}
    (h : ((cutAfter n).play copyFails (aio_cfw_update_run 5 16 true) patchedCard).1 = none) :
    Run (payload copiesMayFail) (aio_cfw_update_run 5 16 true) patchedCard none (cutPatched n) := by
  have hrun := (cutAfter n).run copyFails_sound (aio_cfw_update_run 5 16 true) patchedCard
  rwa [h] at hrun

/-- A start of the application in which every call works. -/
def started (isErista : Bool) (σ : SD) : Option Bool × SD :=
  (finalizeCfwUpdateAfterSuccessfulBoot isErista).follow (I := Horizon)
    (fun _ s fn => some (s.hanswer fn)) 0 σ

theorem started_run (isErista : Bool) (σ : SD) :
    Run (horizon cleaningMayStop) (finalizeCfwUpdateAfterSuccessfulBoot isErista) σ
      (started isErista σ).1 (started isErista σ).2 :=
  Prog.follow_run (I := Horizon) (fun _ _ _ _ _ h => .inl (Option.some.inj h).symm) _ 0 σ

/-- The update is cut once the boot payload is in place, and the application commits it. -/
theorem finalize_commits_complete_late :
    patchedUpdate.Installed (snapshot true (cutPatched 150)) ∧
      ∀ b τ, Run (payload copiesMayFail) aio_cfw_update_pending
        (started false (cutPatched 150)).2 (some b) τ → b = false := by
  have hcut := cutPatched_run (n := 150) (by decide +kernel)
  have hc : Confirmable patchedUpdate (cutPatched 150) := by
    intro _ i hs
    have hi := (special_paths true i hs).2
    have hroot : (cutPatched 150).sub (rootPath i.name) = Tree.single [6, 6, 6] := by
      rw [hi]
      exact SD.sub_eq_single.mpr (by decide +kernel)
    have hpack : patchedCard.sub (UPDATE_NEW ++ rootPath i.name) = Tree.single [6, 6, 6] := by
      rw [hi]
      exact SD.sub_eq_single.mpr (by decide +kernel)
    rw [patchedUpdate, Update.pack_ofCard, hpack]
    exact hroot
  have h := finalize_commits_complete 5 16 patchedUpdate_valid patchedUpdate_tame
    patchedUpdate_sized patchedCard_staged (.single (.payload patchedCard_launchable hcut)) hc
    (started_run false (cutPatched 150))
  exact ⟨(h.1 UPDATE_BACKUP (.inl (List.prefix_refl _)) (by decide +kernel)).1,
    (h.2 (by decide +kernel)).1⟩

/-- Without the condition of `Confirmable` the backup is lost: the update is cut when the
journal has just reached `FINALIZE_BOOT_PAYLOAD`, and the application deletes the backup
with the original boot payload while the updater still stands in its place. -/
theorem backup_deleted_before_payload :
    ¬ ∀ (depth FSBuffSize : ℕ) (u : Update) (σ₀ σ σ' : SD) (isErista : Bool)
      (out : Option Bool), u.Valid → Staged u σ₀ →
      Relation.ReflTransGen (Turn depth FSBuffSize u.patched Pending fun _ => True) σ₀ σ →
      Run (horizon cleaningMayStop) (finalizeCfwUpdateAfterSuccessfulBoot isErista) σ out σ' →
      ∀ q, UPDATE_BACKUP <+: q ∨ MARIKO_PAYLOAD_FALLBACK <+: q → σ'.get q ≠ σ.get q →
        u.Installed (snapshot u.patched σ) := by
  intro h
  have hcut := cutPatched_run (n := 125) (by decide +kernel)
  have hin := h 5 16 patchedUpdate patchedCard (cutPatched 125) _ false _ patchedUpdate_valid
    patchedCard_staged (.single (.payload patchedCard_launchable.pending hcut))
    (started_run false (cutPatched 125)) (backupPath "payload.bin") (.inl (by decide))
    (by decide +kernel)
  have hroot := installed_get hin (i := ⟨8, by decide⟩) (by decide) (k := "payload.bin")
    (by decide)
  have hold : (cutPatched 125).get ["payload.bin"] = some (.file [1]) ∧
      patchedUpdate.staged ["payload.bin"] = some (.file [6, 6, 6]) := by
    decide +kernel
  have heq := hold.1.symm.trans (hroot.trans hold.2)
  cases heq

end CfwUpdater
