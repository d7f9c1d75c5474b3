/-
# Atomicity of the application update under power cuts

Copies may stop part way and every other call works.  `Inv` says, for each token the
journal may read as, what the target, the backup and the staged file can hold; it is
kept by every run, cut anywhere, that is launched in a `Launchable` state.
-/
import AioMod.AppUpdaterSpec
import AioMod.Script

namespace AppUpdater

/-! ## The invariant -/

section invariant

variable (O N : Bytes)

/-- What the card holds while the journal reads as `s`: the target is the installed NRO
`O` or the new one `N`, or its backup is `O`. -/
def Phase (σ : SD) : Option State → Prop
  | none => σ.get APP_BACKUP_NRO = some (.file O) ∨
      σ.get APP_TARGET_NRO = some (.file O) ∧
        (σ.get APP_UPDATE_READY ≠ none ∨ ¬ NonEmpty σ APP_BACKUP_NRO)
  | some .STAGED => σ.get APP_TARGET_NRO = some (.file O) ∧
      (σ.get APP_BACKUP_NRO = some (.file O) ∨ σ.get APP_UPDATE_READY ≠ none ∨
        ¬ NonEmpty σ APP_BACKUP_NRO)
  | some .BACKUP_IN_PROGRESS => σ.get APP_TARGET_NRO = some (.file O)
  | some .BACKUP_COMPLETE => σ.get APP_TARGET_NRO = some (.file O) ∧
      (σ.get APP_BACKUP_NRO = some (.file O) ∨ ¬ NonEmpty σ APP_BACKUP_NRO)
  | some .COPY_IN_PROGRESS => σ.get APP_BACKUP_NRO = some (.file O)
  | some .COPY_COMPLETE => σ.get APP_TARGET_NRO = some (.file N) ∧
      σ.get APP_BACKUP_NRO = some (.file O) ∧ journal.Clean σ
  | some .ROLLBACK_IN_PROGRESS => σ.get APP_BACKUP_NRO = some (.file O) ∨
      σ.get APP_TARGET_NRO = some (.file O) ∧ ¬ NonEmpty σ APP_BACKUP_NRO
  | some .ROLLBACK_COMPLETE => σ.get APP_TARGET_NRO = some (.file O)
  | some .COMMIT_IN_PROGRESS => σ.get APP_TARGET_NRO = some (.file N) ∧ journal.Clean σ

/-- The staged file is whole or gone, and the rest is as the journal says. -/
def Inv (σ : SD) : Prop :=
  (σ.get APP_NEW_NRO = some (.file N) ∨ σ.get APP_NEW_NRO = none) ∧
    ∃ s : Option State, journal.token σ = s.map State.text ∧ Phase O N σ s

end invariant

/-- The transaction as `aio_app_update_pending` sees it, when its probes work. -/
def Pending (σ : SD) : Prop :=
  σ.get APP_UPDATE_READY ≠ none ∨ σ.get APP_UPDATE_STATE ≠ none ∨
    σ.get APP_UPDATE_STATE_TMP ≠ none ∨ σ.get APP_UPDATE_BACKUP_DIR ≠ none

/-- It finds out just that, and changes nothing. -/
theorem wp_aio_app_update_pending {C : SD → Prop} {Q : Bool → SD → Prop} {σ : SD} (hC : C σ)
    (hyes : Pending σ → Q true σ) (hno : ¬ Pending σ → Q false σ) :
    wp (payload copiesMayFail) C Q aio_app_update_pending σ := by
  have habsent : ∀ p, σ.get p = none ∨ copiesMayFail σ ⟨.probe, .f_stat p⟩ → σ.get p = none :=
    fun p h => h.elim id fun hfail => absurd hfail (by simp [copiesMayFail])
  rw [aio_app_update_pending]
  simp only [Prog.bind_eq, Prog.pure_eq]
  refine wp_bind.mpr (wp_path_exists hC (fun h => ⟨hC, hyes (.inl h)⟩) fun h₁ => ?_)
  refine wp_bind.mpr (wp_path_exists hC (fun h => ⟨hC, hyes (.inr (.inl h))⟩) fun h₂ => ?_)
  refine wp_bind.mpr (wp_path_exists hC (fun h => ⟨hC, hyes (.inr (.inr (.inl h)))⟩) fun h₃ => ?_)
  refine wp_path_exists hC (fun h => hyes (.inr (.inr (.inr h)))) fun h₄ => hno ?_
  rintro (h | h | h | h)
  · exact h (habsent _ h₁)
  · exact h (habsent _ h₂)
  · exact h (habsent _ h₃)
  · exact h (habsent _ h₄)

/-- A launch that does not go wrong: the transaction is pending; when the ready marker
stands without a readable journal, the target is still `O`; and when the backup phase
was cut and the staged file is gone, a backup that is there is whole. -/
structure Launchable (O : Bytes) (σ : SD) : Prop where
  pending : Pending σ
  ready : journal.token σ = none → σ.get APP_UPDATE_READY ≠ none →
    σ.get APP_TARGET_NRO = some (.file O)
  backup : journal.token σ = some State.BACKUP_IN_PROGRESS.text → ¬ NonEmpty σ APP_NEW_NRO →
    NonEmpty σ APP_BACKUP_NRO → σ.get APP_BACKUP_NRO = some (.file O)

/-- What an exit promises about the target. -/
def Atomic (O N : Bytes) (σ : SD) : Exit → Prop
  | .boot .success _ => σ.get APP_TARGET_NRO = some (.file N)
  | .boot (.warning _) _ => σ.get APP_TARGET_NRO = some (.file N)
  | .boot (.rollbackSuccess _) _ => σ.get APP_TARGET_NRO = some (.file O)
  | .boot (.unchanged _) _ => σ.get APP_TARGET_NRO = some (.file O)
  | .fatal _ => True

/-! ## Frames -/

theorem text_isToken (s : State) : IsToken s.text := by
  cases s <;> decide

theorem text_injective {s s' : State} (h : s.text = s'.text) : s = s' := by
  revert h
  cases s <;> cases s' <;> decide

/-- The paths the invariant speaks about, besides the journal. -/
def watched : List FsPath :=
  [APP_NEW_NRO, APP_UPDATE_READY, APP_TARGET_NRO, APP_BACKUP_NRO]

/-- The same entries at the watched paths. -/
def Agree (σ σ' : SD) : Prop := ∀ q ∈ watched, σ'.get q = σ.get q

section frames

variable {O N : Bytes} {σ σ' : SD}

theorem Agree.new (h : Agree σ σ') : σ'.get APP_NEW_NRO = σ.get APP_NEW_NRO := h _ (by decide)

theorem Agree.ready (h : Agree σ σ') : σ'.get APP_UPDATE_READY = σ.get APP_UPDATE_READY :=
  h _ (by decide)

theorem Agree.target (h : Agree σ σ') : σ'.get APP_TARGET_NRO = σ.get APP_TARGET_NRO :=
  h _ (by decide)

theorem Agree.backup (h : Agree σ σ') : σ'.get APP_BACKUP_NRO = σ.get APP_BACKUP_NRO :=
  h _ (by decide)

theorem Agree.nonempty (h : Agree σ σ') :
    NonEmpty σ' APP_BACKUP_NRO ↔ NonEmpty σ APP_BACKUP_NRO := by
  rw [NonEmpty, NonEmpty, h.backup]

theorem Phase.of_agree (h : Agree σ σ') (hc : journal.Clean σ → journal.Clean σ')
    {s : Option State} (hs : Phase O N σ s) : Phase O N σ' s := by
  rcases s with _ | s
  · simpa only [Phase, h.backup, h.target, h.ready, h.nonempty] using hs
  cases s <;> simp only [Phase, h.backup, h.target, h.ready, h.nonempty] at hs ⊢ <;>
    first
    | exact hs
    | exact ⟨hs.1, hs.2.1, hc hs.2.2⟩
    | exact ⟨hs.1, hc hs.2⟩

theorem token_eq (hs : σ'.get APP_UPDATE_STATE = σ.get APP_UPDATE_STATE)
    (ht : σ'.get APP_UPDATE_STATE_TMP = σ.get APP_UPDATE_STATE_TMP) :
    journal.token σ' = journal.token σ ∧ (journal.Clean σ → journal.Clean σ') :=
  journal.token_congr hs ht

theorem Inv.of_agree (h : Agree σ σ') (ht : journal.token σ' = journal.token σ)
    (hc : journal.Clean σ → journal.Clean σ') (hi : Inv O N σ) : Inv O N σ' := by
  obtain ⟨hnew, s, hs, hp⟩ := hi
  exact ⟨by rwa [h.new], s, by rw [ht, hs], hp.of_agree h hc⟩

/-- The part of a state that `writeState` leaves alone. -/
theorem agree_of_writing {t : Bytes} (h : journal.Writing t σ σ') :
    Agree σ σ' := by
  have key : ∀ q ∈ watched, q ≠ journal.root ∧ ¬ journal.state <+: q ∧ ¬ journal.tmp <+: q := by
    decide
  intro q hq
  obtain ⟨h1, h2, h3⟩ := key q hq
  exact h.other q h1 h2 h3

end frames

/-! ## The helpers under the invariant -/

section helpers

variable {O N : Bytes} {σ : SD} {depth FSBuffSize : ℕ} {patched : Bool}

/-- The crash condition of a run: what is left behind is nothing, or satisfies the
invariant. -/
def Recoverable (O N : Bytes) (σ : SD) : Prop := Pending σ → Inv O N σ

/-- A token is written from one phase to the next. -/
theorem wp_write_state {s : State} {Q : FRESULT → SD → Prop} (hi : Inv O N σ)
    (hroot : σ.get APP_UPDATE_ROOT = some .dir) (hnone : Phase O N σ none)
    (hs : Phase O N σ (some s))
    (hQ : ∀ σ', Agree σ σ' → σ'.get APP_UPDATE_ROOT = some .dir → journal.Clean σ' →
      journal.token σ' = some s.text → Inv O N σ' → Q .FR_OK σ') :
    wp (payload copiesMayFail) (Recoverable O N) Q (write_state depth s) σ := by
  have hinv : ∀ σ', journal.Writing s.text σ σ' → Inv O N σ' := by
    intro σ' hw
    have hnew : σ'.get APP_NEW_NRO = some (.file N) ∨ σ'.get APP_NEW_NRO = none := by
      rw [(agree_of_writing hw).new]
      exact hi.1
    rcases hw.token with ht | ht | ⟨ht, -⟩
    · exact hi.of_agree (agree_of_writing hw) ht hw.clean
    · exact ⟨hnew, some s, ht, hs.of_agree (agree_of_writing hw) hw.clean⟩
    · exact ⟨hnew, none, ht, hnone.of_agree (agree_of_writing hw) hw.clean⟩
  refine wp_conseq (wp_writeState_works not_mayFail_copiesMayFail journal (by simp) depth
    (text_isToken s) hroot) (fun σ' hw _ => hinv σ' hw) ?_
  rintro r σ' hw ⟨rfl, hst, -⟩
  refine hQ σ' (agree_of_writing hw) ?_ ?_ ?_ (hinv σ' hw)
  · exact hw.root.elim (fun h => h.trans hroot) And.right
  · intro h
    rw [hst] at h
    cases h
  · rw [JournalFiles.token, hst]
    rfl

/-- What `cleanup_transaction` leaves at any moment. -/
structure Cleaned (σ σ' : SD) : Prop where
  other : ∀ q, ¬ APP_UPDATE_ROOT <+: q → ¬ MARIKO_SAVED_PAYLOAD <+: q → σ'.get q = σ.get q
  below : ∀ q, APP_UPDATE_ROOT <+: q → σ'.get q = σ.get q ∨ σ'.get q = none
  ready : σ'.get APP_UPDATE_READY = σ.get APP_UPDATE_READY ∨ σ'.get APP_UPDATE_BACKUP_DIR = none
  token : journal.token σ' = journal.token σ ∨ journal.token σ' = none ∧
    σ'.get APP_UPDATE_BACKUP_DIR = none ∧ σ'.get APP_UPDATE_READY = none ∧
      σ'.get APP_UPDATE_STATE_TMP = none ∧
        (journal.Clean σ → σ'.get APP_UPDATE_STATE = none)
  clean : journal.Clean σ → journal.Clean σ'

/-- Entries of the transaction folder have been removed: the backup before the marker, and
both before the journal. -/
theorem Cleaned.of_pruned {τ : SD} (h : Pruned APP_UPDATE_ROOT σ τ)
    (hready : τ.get APP_UPDATE_READY = σ.get APP_UPDATE_READY ∨ τ.get APP_UPDATE_BACKUP_DIR = none)
    (htoken : τ.get APP_UPDATE_STATE = σ.get APP_UPDATE_STATE ∧
        τ.get APP_UPDATE_STATE_TMP = σ.get APP_UPDATE_STATE_TMP ∨
      τ.get APP_UPDATE_BACKUP_DIR = none ∧ τ.get APP_UPDATE_READY = none ∧
        τ.get APP_UPDATE_STATE_TMP = none) : Cleaned σ τ := by
  refine ⟨fun q hq _ => h.get_other hq, fun q _ => (h q).imp id And.right, hready, ?_, ?_⟩
  · rcases htoken with ⟨hs, ht⟩ | ⟨hb, hr, ht⟩
    · exact .inl (token_eq hs ht).1
    have htmp : τ.tokenAt journal.tmp = none := by
      have ht' : τ.get journal.tmp = none := ht
      rw [SD.tokenAt, ht']
    rcases h APP_UPDATE_STATE with hs | ⟨-, hs⟩
    · have hs' : τ.tokenAt journal.state = σ.tokenAt journal.state := by
        have : τ.get journal.state = σ.get journal.state := hs
        rw [SD.tokenAt, this, SD.tokenAt]
      cases htok : SD.tokenAt σ journal.state with
      | some t => exact .inl (by rw [JournalFiles.token, JournalFiles.token, hs', htok]; rfl)
      | none =>
        refine .inr ⟨?_, hb, hr, ht, fun hc => hs.trans (hc htok)⟩
        rw [JournalFiles.token, hs', htok, htmp]
        rfl
    · refine .inr ⟨?_, hb, hr, ht, fun _ => hs⟩
      have hs' : τ.get journal.state = none := hs
      rw [JournalFiles.token, SD.tokenAt, hs', htmp]
      rfl
  · intro hc hn
    rcases h APP_UPDATE_STATE with hs | ⟨-, hs⟩
    · have hs' : τ.get journal.state = σ.get journal.state := hs
      rw [SD.tokenAt, hs'] at hn
      rw [hs']
      exact hc hn
    · exact hs

theorem Cleaned.saved {τ τ' : SD} (h : Cleaned σ τ) (h' : Pruned MARIKO_SAVED_PAYLOAD τ τ') :
    Cleaned σ τ' := by
  have hsame : ∀ q, APP_UPDATE_ROOT <+: q → τ'.get q = τ.get q := by
    intro q hq
    refine h'.get_other fun hq' => ?_
    rcases List.prefix_or_prefix_of_prefix hq hq' with hp | hp
    · exact absurd hp (by decide)
    · exact absurd hp (by decide)
  have hst := hsame APP_UPDATE_STATE (by decide)
  have htm := hsame APP_UPDATE_STATE_TMP (by decide)
  obtain ⟨htok, hcl⟩ := token_eq hst htm
  refine ⟨fun q hq hq' => ?_, fun q hq => ?_, ?_, ?_, fun hc => hcl (h.clean hc)⟩
  · rw [h'.get_other hq', h.other q hq hq']
  · rw [hsame q hq]
    exact h.below q hq
  · rw [hsame _ (by decide), hsame _ (by decide)]
    exact h.ready
  · rw [htok, hsame APP_UPDATE_BACKUP_DIR (by decide), hsame APP_UPDATE_READY (by decide), htm, hst]
    exact h.token

theorem wp_remove_path_if_exists {p : FsPath} (hp : p ≠ []) (σ : SD) :
    wp (payload copiesMayFail) (Pruned p σ) (fun r σ' => r = .FR_OK ∧ σ'.get p = none)
      (remove_path_if_exists depth p) σ :=
  wp_removePath_works not_mayFail_copiesMayFail (by simp) depth hp σ

/-- The order of `cleanup_transaction`: at any moment the card is as `Cleaned` says. -/
theorem wp_cleanup_transaction (σ : SD) :
    wp (payload copiesMayFail) (Cleaned σ) (fun _ _ => True)
      (cleanup_transaction depth patched) σ := by
  rw [cleanup_transaction]
  simp only [Prog.bind_eq, Prog.pure_eq]
  -- the staged files
  refine wp_bind.mpr (wp_conseq (wp_remove_path_if_exists (by decide) σ) (fun τ h => ?_) ?_)
  · exact .of_pruned (h.mono (by decide)) (.inl (h.get_other (by decide)))
      (.inl ⟨h.get_other (by decide), h.get_other (by decide)⟩)
  rintro _ τ₁ h₁ ⟨rfl, -⟩
  -- the backup
  refine wp_bind.mpr (wp_conseq (wp_remove_path_if_exists (by decide) τ₁) (fun τ h => ?_) ?_)
  · refine .of_pruned ((h₁.mono (by decide)).trans (h.mono (by decide)))
      (.inl ((h.get_other (by decide)).trans (h₁.get_other (by decide))))
      (.inl ⟨(h.get_other (by decide)).trans (h₁.get_other (by decide)),
        (h.get_other (by decide)).trans (h₁.get_other (by decide))⟩)
  rintro _ τ₂ h₂ ⟨rfl, hbackup⟩
  have hp₂ : Pruned APP_UPDATE_ROOT σ τ₂ := (h₁.mono (by decide)).trans (h₂.mono (by decide))
  have hst₂ : τ₂.get APP_UPDATE_STATE = σ.get APP_UPDATE_STATE :=
    (h₂.get_other (by decide)).trans (h₁.get_other (by decide))
  have htm₂ : τ₂.get APP_UPDATE_STATE_TMP = σ.get APP_UPDATE_STATE_TMP :=
    (h₂.get_other (by decide)).trans (h₁.get_other (by decide))
  -- the marker
  refine wp_bind.mpr (wp_conseq (wp_remove_path_if_exists (by decide) τ₂) (fun τ h => ?_) ?_)
  · exact .of_pruned (hp₂.trans (h.mono (by decide))) (.inr (h.get_none hbackup))
      (.inl ⟨(h.get_other (by decide)).trans hst₂, (h.get_other (by decide)).trans htm₂⟩)
  rintro _ τ₃ h₃ ⟨rfl, hready⟩
  have hp₃ := hp₂.trans (h₃.mono (r := APP_UPDATE_ROOT) (by decide))
  have hbackup₃ := h₃.get_none hbackup
  -- the temporary file
  refine wp_bind.mpr (wp_conseq (wp_remove_path_if_exists (by decide) τ₃) (fun τ h => ?_) ?_)
  · refine .of_pruned (hp₃.trans (h.mono (by decide))) (.inr (h.get_none hbackup₃)) ?_
    rcases h APP_UPDATE_STATE_TMP with ht | ⟨-, ht⟩
    · exact .inl ⟨(h.get_other (by decide)).trans ((h₃.get_other (by decide)).trans hst₂),
        ht.trans ((h₃.get_other (by decide)).trans htm₂)⟩
    · exact .inr ⟨h.get_none hbackup₃, h.get_none hready, ht⟩
  rintro _ τ₄ h₄ ⟨rfl, htmp⟩
  have hp₄ := hp₃.trans (h₄.mono (r := APP_UPDATE_ROOT) (by decide))
  have hgone : ∀ τ, Pruned APP_UPDATE_ROOT τ₄ τ → Cleaned σ τ := fun τ h =>
    .of_pruned (hp₄.trans h) (.inr (h.get_none (h₄.get_none hbackup₃)))
      (.inr ⟨h.get_none (h₄.get_none hbackup₃), h.get_none (h₄.get_none hready),
        h.get_none htmp⟩)
  rw [if_neg (by decide)]
  -- the journal and the folder
  refine wp_bind.mpr (wp_conseq (wp_remove_path_if_exists (by decide) τ₄)
    (fun τ h => hgone τ (h.mono (by decide))) ?_)
  rintro _ τ₅ h₅ ⟨rfl, -⟩
  rw [if_neg (by decide)]
  have h₅' := h₅.mono (r := APP_UPDATE_ROOT) (by decide)
  refine wp_bind.mpr (wp_conseq (wp_remove_path_if_exists (by decide) τ₅)
    (fun τ h => hgone τ (h₅'.trans h)) ?_)
  rintro _ τ₆ h₆ ⟨rfl, -⟩
  have hc₆ := hgone τ₆ (h₅'.trans h₆)
  rw [if_neg (by decide)]
  cases patched
  · exact ⟨hc₆, trivial⟩
  · exact wp_conseq (wp_remove_path_if_exists (by decide) τ₆) (fun τ h => hc₆.saved h)
      fun _ _ _ _ => trivial

/-! ## Ways out -/

/-- The target is still `O`, or `O` again, and the journal does not say otherwise. -/
def Unchanged (O N : Bytes) (σ : SD) : Prop :=
  σ.get APP_TARGET_NRO = some (.file O) ∧ ∀ s, journal.token σ = s.map State.text →
    s = some .BACKUP_IN_PROGRESS ∨ s = some .ROLLBACK_COMPLETE ∨
      (s = none ∨ s = some .STAGED) ∧ Phase O N σ none

theorem Unchanged.of_token {s : State} (ht : σ.get APP_TARGET_NRO = some (.file O))
    (htok : journal.token σ = some s.text) (hs : s = .BACKUP_IN_PROGRESS ∨ s = .ROLLBACK_COMPLETE) :
    Unchanged O N σ := by
  refine ⟨ht, fun s' hs' => ?_⟩
  rw [htok] at hs'
  cases s' with
  | none => cases hs'
  | some s' =>
    rw [← text_injective (Option.some.inj hs')]
    exact hs.imp (congrArg some) fun h => .inl (congrArg some h)

theorem Unchanged.of_agree {σ' : SD} (h : Unchanged O N σ) (ha : Agree σ σ')
    (ht : journal.token σ' = journal.token σ) (hc : journal.Clean σ → journal.Clean σ') :
    Unchanged O N σ' := by
  refine ⟨by rw [ha.target, h.1], fun s hs => ?_⟩
  rw [ht] at hs
  exact (h.2 s hs).imp id (Or.imp id (And.imp_right fun hp => hp.of_agree ha hc))

/-- What `cleanup_transaction` leaves of a transaction that never changed the target, or
undid its changes. -/
theorem Cleaned.recoverable_old {τ : SD} (h : Cleaned σ τ) (hi : Inv O N σ)
    (hu : Unchanged O N σ) : Inv O N τ := by
  have ht' : τ.get APP_TARGET_NRO = some (.file O) := by
    rw [h.other _ (by decide) (by decide), hu.1]
  have hnew : τ.get APP_NEW_NRO = some (.file N) ∨ τ.get APP_NEW_NRO = none := by
    rcases h.below APP_NEW_NRO (by decide) with hn | hn
    · rw [hn]
      exact hi.1
    · exact .inr hn
  have hgone : τ.get APP_UPDATE_BACKUP_DIR = none → ¬ NonEmpty τ APP_BACKUP_NRO := by
    rintro hb ⟨b, -, hb'⟩
    have := FileTree.get_append_of_none hb ["aio-switch-updater-mod.nro"]
    rw [show APP_UPDATE_BACKUP_DIR ++ ["aio-switch-updater-mod.nro"] = APP_BACKUP_NRO from rfl,
      hb'] at this
    cases this
  rcases h.token with htk | htk
  swap
  · exact ⟨hnew, none, htk.1, .inr ⟨ht', .inr (hgone htk.2.1)⟩⟩
  obtain ⟨s, hs, -⟩ := hi.2
  refine ⟨hnew, s, by rw [htk, hs], ?_⟩
  have hrest : Phase O N σ none → τ.get APP_BACKUP_NRO = some (.file O) ∨
      τ.get APP_UPDATE_READY ≠ none ∨ ¬ NonEmpty τ APP_BACKUP_NRO := by
    intro hnone
    rcases h.below APP_BACKUP_NRO (by decide) with hb | hb
    · rcases h.ready with hr | hr
      · have hiff : NonEmpty τ APP_BACKUP_NRO ↔ NonEmpty σ APP_BACKUP_NRO := by
          rw [NonEmpty, NonEmpty, hb]
        rw [hb, hr, hiff]
        exact hnone.imp id And.right
      · exact .inr (.inr (hgone hr))
    · refine .inr (.inr ?_)
      rintro ⟨b, -, hb'⟩
      rw [hb] at hb'
      cases hb'
  rcases hu.2 s hs with rfl | rfl | ⟨rfl | rfl, hnone⟩
  · exact ht'
  · exact ht'
  · exact (hrest hnone).imp id fun h => ⟨ht', h⟩
  · exact ⟨ht', hrest hnone⟩

/-- What it leaves of a committed transaction. -/
theorem Cleaned.recoverable_new {τ : SD} (h : Cleaned σ τ) (hi : Inv O N σ)
    (ht : σ.get APP_TARGET_NRO = some (.file N)) (hc : journal.Clean σ)
    (htok : journal.token σ = some State.COMMIT_IN_PROGRESS.text) : Recoverable O N τ := by
  intro hpend
  rcases h.token with htk | ⟨-, hb, hr, hm, hs⟩
  · refine ⟨?_, some .COMMIT_IN_PROGRESS, by rw [htk, htok]; rfl, ?_, h.clean hc⟩
    · rcases h.below APP_NEW_NRO (by decide) with hn | hn
      · rw [hn]
        exact hi.1
      · exact .inr hn
    · rw [h.other _ (by decide) (by decide), ht]
  · rcases hpend with hp | hp | hp | hp
    · exact absurd hr hp
    · exact absurd (hs hc) hp
    · exact absurd hm hp
    · exact absurd hb hp

/-- Restoring the boot payload keeps the invariant and what it rests on. -/
theorem payload_frame {τ : SD} (h : ∀ q, ¬ ROOT_PAYLOAD <+: q → τ.get q = σ.get q) :
    Agree σ τ ∧ τ.get APP_UPDATE_ROOT = σ.get APP_UPDATE_ROOT ∧
      journal.token τ = journal.token σ ∧ (journal.Clean σ → journal.Clean τ) :=
  ⟨fun q hq => h q (by revert q hq; decide), h _ (by decide),
    token_eq (h _ (by decide)) (h _ (by decide))⟩

/-- Restore the boot payload, clean up, and go on: the part the ways out share. -/
theorem wp_restore_then_cleanup {k : FRESULT → Prog FatFs Exit} (hi : Inv O N σ)
    (hcut : ∀ τ τ', Inv O N τ → Agree σ τ → journal.token τ = journal.token σ →
      (journal.Clean σ → journal.Clean τ) → Cleaned τ τ' → Recoverable O N τ')
    (hk : ∀ τ r, Recoverable O N τ → τ.get APP_TARGET_NRO = σ.get APP_TARGET_NRO →
      wp (payload copiesMayFail) (Recoverable O N) (fun e τ' => Atomic O N τ' e) (k r) τ) :
    wp (payload copiesMayFail) (Recoverable O N) (fun e τ' => Atomic O N τ' e)
      ((restore_boot_payload_if_needed FSBuffSize patched).bind fun
        | some e => .ret (.fatal e)
        | none => (cleanup_transaction depth patched).bind k) σ := by
  have hpay : ∀ τ, (∀ q, ¬ ROOT_PAYLOAD <+: q → τ.get q = σ.get q) → Inv O N τ := fun τ h =>
    hi.of_agree (payload_frame h).1 (payload_frame h).2.2.1 (payload_frame h).2.2.2
  refine wp_bind.mpr (wp_conseq (wp_restore_boot_payload_if_needed patched σ)
    (fun τ h _ => hpay τ h) ?_)
  rintro e τ h -
  obtain ⟨ha, -, ht, hc⟩ := payload_frame h
  have hτ := hpay τ h
  cases e with
  | some e => exact ⟨fun _ => hτ, trivial⟩
  | none =>
    refine wp_bind.mpr (wp_conseq (wp_cleanup_transaction τ)
      (fun τ' h' => hcut τ τ' hτ ha ht hc h') ?_)
    intro r τ' h' _
    refine hk τ' r (hcut τ τ' hτ ha ht hc h') ?_
    rw [h'.other _ (by decide) (by decide), ha.target]

theorem wp_boot {Q : Boot → SD → Prop} (hC : Recoverable O N σ) (hQ : ∀ b, Q b σ) :
    wp (payload copiesMayFail) (Recoverable O N) Q (boot_installed_cfw_now patched) σ :=
  wp_looks (calls_bootInstalled patched) hC hQ

/-- `abort_before_changes` while the target is still `O`. -/
theorem wp_abort_before_changes {err : UiError} (hi : Inv O N σ) (hu : Unchanged O N σ) :
    wp (payload copiesMayFail) (Recoverable O N) (fun e τ => Atomic O N τ e)
      (abort_before_changes depth FSBuffSize patched err) σ := by
  rw [abort_before_changes]
  simp only [Prog.bind_eq, Prog.pure_eq]
  refine wp_restore_then_cleanup hi (fun τ τ' hτ ha htk hc h _ => ?_) fun τ r hτ ht' => ?_
  · exact h.recoverable_old hτ (hu.of_agree ha htk hc)
  · exact wp_bind.mpr (wp_boot hτ fun b => ⟨hτ, ht'.trans hu.1⟩)

/-- The end of a committed transaction. -/
theorem wp_finish (hi : Inv O N σ) (ht : σ.get APP_TARGET_NRO = some (.file N))
    (hc : journal.Clean σ) (htok : journal.token σ = some State.COMMIT_IN_PROGRESS.text) :
    wp (payload copiesMayFail) (Recoverable O N) (fun e τ => Atomic O N τ e)
      ((restore_boot_payload_if_needed FSBuffSize patched).bind fun
        | some e => .ret (.fatal e)
        | none => (cleanup_transaction depth patched).bind fun res =>
          boot_installed_cfw patched res) σ := by
  refine wp_restore_then_cleanup hi (fun τ τ' hτ ha htk hcl h => ?_) fun τ r hτ ht' => ?_
  · exact h.recoverable_new hτ (by rw [ha.target, ht]) (hcl hc) (by rw [htk, htok])
  · rw [boot_installed_cfw, bootAfterCommit]
    simp only [Prog.bind_eq, Prog.pure_eq]
    refine wp_bind.mpr (wp_boot hτ fun b => ⟨hτ, ?_⟩)
    have hN : τ.get APP_TARGET_NRO = some (.file N) := ht'.trans ht
    split <;> exact hN

/-- `rollback_transaction` puts the backup back, if there is one; there is none only
while the target is still `O`. -/
theorem wp_rollback_transaction {err : UiError} (hi : Inv O N σ)
    (hroot : σ.get APP_UPDATE_ROOT = some .dir)
    (hb : σ.get APP_BACKUP_NRO = some (.file O) ∨
      σ.get APP_TARGET_NRO = some (.file O) ∧ ¬ NonEmpty σ APP_BACKUP_NRO) :
    wp (payload copiesMayFail) (Recoverable O N) (fun e τ => Atomic O N τ e)
      (rollback_transaction depth FSBuffSize patched err) σ := by
  rw [rollback_transaction]
  simp only [Prog.bind_eq, Prog.pure_eq]
  refine wp_bind.mpr (wp_write_state hi hroot (hb.imp id fun h => ⟨h.1, .inr h.2⟩) hb
    fun τ ha hroot₁ hc₁ htok₁ hi₁ => ?_)
  rw [if_neg (by decide)]
  have hrec₁ : Recoverable O N τ := fun _ => hi₁
  refine wp_bind.mpr (wp_valid_nonempty_file hrec₁ (fun hne => ?_) fun _ => ⟨hrec₁, trivial⟩)
  have hb₁ : τ.get APP_BACKUP_NRO = some (.file O) := by
    rw [ha.backup]
    exact hb.resolve_right fun h => h.2 (ha.nonempty.mp hne)
  -- the copy back: whatever it leaves at the target, the backup stays
  have hcopy : ∀ τ', Copied APP_BACKUP_NRO APP_TARGET_NRO τ τ' →
      τ'.get APP_BACKUP_NRO = some (.file O) ∧ τ'.get APP_UPDATE_ROOT = some .dir ∧
        journal.Clean τ' ∧ Inv O N τ' := by
    intro τ' h
    have hb' : τ'.get APP_BACKUP_NRO = some (.file O) := by
      rw [h.get_other (by decide), hb₁]
    obtain ⟨htok, hcl⟩ := token_eq (h.get_other (q := APP_UPDATE_STATE) (by decide))
      (h.get_other (q := APP_UPDATE_STATE_TMP) (by decide))
    refine ⟨hb', by rw [h.get_other (by decide), hroot₁], hcl hc₁, ?_,
      some .ROLLBACK_IN_PROGRESS, by rw [htok, htok₁]; rfl, .inl hb'⟩
    rw [h.get_other (by decide)]
    exact hi₁.1
  refine wp_bind.mpr (wp_conseq (wp_copy_verified _ _ τ) (fun τ' h _ => (hcopy τ' h).2.2.2) ?_)
  intro r τ₂ h hok
  obtain ⟨hb₂, hroot₂, -, hi₂⟩ := hcopy τ₂ h
  by_cases hr : r = .FR_OK
  swap
  · rw [if_pos hr]
    exact ⟨fun _ => hi₂, trivial⟩
  rw [if_neg (not_not.mpr hr)]
  have ht₂ : τ₂.get APP_TARGET_NRO = some (.file O) := by
    obtain ⟨b, -, hsrc, hdst⟩ := hok hr
    rw [hb₁] at hsrc
    cases hsrc
    exact hdst
  refine wp_bind.mpr (wp_write_state hi₂ hroot₂ (.inl hb₂) ht₂ fun τ₃ ha₃ _ _ htok₃ hi₃ => ?_)
  rw [if_neg (by decide)]
  have ht₃ : τ₃.get APP_TARGET_NRO = some (.file O) := by rw [ha₃.target, ht₂]
  have hu₃ : Unchanged O N τ₃ := .of_token ht₃ htok₃ (.inr rfl)
  refine wp_restore_then_cleanup hi₃ (fun τ₄ τ' hτ ha htk hc h _ => ?_) fun τ₄ r hτ ht' => ?_
  · exact h.recoverable_old hτ (hu₃.of_agree ha htk hc)
  · exact wp_bind.mpr (wp_boot hτ fun b => ⟨hτ, ht'.trans ht₃⟩)

/-- `commit_transaction` once the target is `N`. -/
theorem wp_commit_transaction (hi : Inv O N σ) (hroot : σ.get APP_UPDATE_ROOT = some .dir)
    (ht : σ.get APP_TARGET_NRO = some (.file N)) (hb : σ.get APP_BACKUP_NRO = some (.file O))
    (hc : journal.Clean σ) :
    wp (payload copiesMayFail) (Recoverable O N) (fun e τ => Atomic O N τ e)
      (commit_transaction depth FSBuffSize patched) σ := by
  rw [commit_transaction]
  simp only [Prog.bind_eq, Prog.pure_eq]
  refine wp_bind.mpr (wp_write_state hi hroot (.inl hb) ⟨ht, hc⟩ fun τ ha _ hc₁ htok₁ hi₁ => ?_)
  rw [if_neg (by decide)]
  exact wp_finish hi₁ (by rw [ha.target, ht]) hc₁ htok₁

/-! ## The run -/

/-- `install_new_nro` from a whole backup, or from none and an untouched target. -/
theorem wp_install_new_nro (hi : Inv O N σ) (hroot : σ.get APP_UPDATE_ROOT = some .dir)
    (ht : σ.get APP_TARGET_NRO = some (.file O))
    (hb : σ.get APP_BACKUP_NRO = some (.file O) ∨ ¬ NonEmpty σ APP_BACKUP_NRO) :
    wp (payload copiesMayFail) (Recoverable O N) (fun e τ => Atomic O N τ e)
      (install_new_nro depth FSBuffSize patched) σ := by
  have hrec : Recoverable O N σ := fun _ => hi
  rw [install_new_nro]
  simp only [Prog.bind_eq]
  refine wp_bind.mpr (wp_valid_nonempty_file hrec (fun hne => ?_) fun _ => ?_)
  swap
  · exact wp_rollback_transaction hi hroot (hb.imp id fun h => ⟨ht, h⟩)
  have hbO : σ.get APP_BACKUP_NRO = some (.file O) := hb.resolve_right fun h => h hne
  simp only [Bool.not_true, Bool.false_eq_true, if_false]
  refine wp_bind.mpr (wp_looks (calls_file_sizes_match _ _) hrec fun same => ?_)
  cases same
  · exact wp_rollback_transaction hi hroot (.inl hbO)
  simp only [Bool.not_true, Bool.false_eq_true, if_false]
  refine wp_bind.mpr (wp_write_state hi hroot (.inl hbO) hbO
    fun τ ha hroot₁ hc₁ htok₁ hi₁ => ?_)
  rw [if_neg (by decide)]
  have hb₁ : τ.get APP_BACKUP_NRO = some (.file O) := by rw [ha.backup, hbO]
  -- the copy onto the target, behind the backup
  have hcopy : ∀ τ', Copied APP_NEW_NRO APP_TARGET_NRO τ τ' →
      τ'.get APP_BACKUP_NRO = some (.file O) ∧ τ'.get APP_UPDATE_ROOT = some .dir ∧
        journal.Clean τ' ∧ Inv O N τ' := by
    intro τ' h
    have hb' : τ'.get APP_BACKUP_NRO = some (.file O) := by
      rw [h.get_other (by decide), hb₁]
    obtain ⟨htok, hcl⟩ := token_eq (h.get_other (q := APP_UPDATE_STATE) (by decide))
      (h.get_other (q := APP_UPDATE_STATE_TMP) (by decide))
    refine ⟨hb', by rw [h.get_other (by decide), hroot₁], hcl hc₁, ?_,
      some .COPY_IN_PROGRESS, by rw [htok, htok₁]; rfl, hb'⟩
    rw [h.get_other (by decide)]
    exact hi₁.1
  refine wp_bind.mpr (wp_conseq (wp_copy_verified _ _ τ) (fun τ' h _ => (hcopy τ' h).2.2.2) ?_)
  intro r τ₂ h hok
  obtain ⟨hb₂, hroot₂, hc₂, hi₂⟩ := hcopy τ₂ h
  by_cases hr : r = .FR_OK
  swap
  · rw [if_pos hr]
    exact wp_rollback_transaction hi₂ hroot₂ (.inl hb₂)
  rw [if_neg (not_not.mpr hr)]
  have ht₂ : τ₂.get APP_TARGET_NRO = some (.file N) := by
    obtain ⟨b, -, hsrc, hdst⟩ := hok hr
    rcases hi₁.1 with hn | hn <;> rw [hsrc] at hn <;> cases hn
    exact hdst
  refine wp_bind.mpr (wp_looks (calls_file_sizes_match _ _) (fun _ => hi₂) fun same => ?_)
  cases same
  · exact wp_rollback_transaction hi₂ hroot₂ (.inl hb₂)
  simp only [Bool.not_true, Bool.false_eq_true, if_false]
  refine wp_bind.mpr (wp_write_state hi₂ hroot₂ (.inl hb₂) ⟨ht₂, hb₂, hc₂⟩
    fun τ₃ ha₃ hroot₃ hc₃ _ hi₃ => ?_)
  rw [if_neg (by decide)]
  exact wp_commit_transaction hi₃ hroot₃ (by rw [ha₃.target, ht₂]) (by rw [ha₃.backup, hb₂]) hc₃

/-- `prepare_backup` changes nothing outside the backup folder. -/
theorem wp_prepare_backup (σ : SD) :
    wp (payload copiesMayFail) (fun τ => ∀ q, ¬ APP_UPDATE_BACKUP_DIR <+: q → τ.get q = σ.get q)
      (fun r τ => r = .FR_OK → τ.get APP_BACKUP_NRO = σ.get APP_TARGET_NRO)
      (prepare_backup depth FSBuffSize) σ := by
  rw [prepare_backup]
  simp only [Prog.bind_eq, Prog.pure_eq]
  refine wp_bind.mpr (wp_mkdir_if_needed (fun _ _ => rfl) fun r τ hmade _ _ => ?_)
  have h₁ : ∀ q, ¬ APP_UPDATE_BACKUP_DIR <+: q → τ.get q = σ.get q := fun q hq =>
    hmade.get_other fun h => hq (h ▸ List.prefix_refl _)
  refine ⟨h₁, ?_⟩
  by_cases hr : r = .FR_OK
  swap
  · rw [if_pos hr]
    exact ⟨h₁, fun h => absurd h hr⟩
  rw [if_neg (not_not.mpr hr)]
  have hdir : APP_UPDATE_BACKUP_DIR <+: APP_BACKUP_NRO := by decide
  refine wp_bind.mpr (wp_conseq (wp_remove_path_if_exists (by decide) τ) (fun τ' h q hq => ?_) ?_)
  · rw [h.get_other fun hp => hq (hdir.trans hp), h₁ q hq]
  rintro r₂ τ₂ h₂ -
  have h₂' : ∀ q, ¬ APP_UPDATE_BACKUP_DIR <+: q → τ₂.get q = σ.get q := fun q hq => by
    rw [h₂.get_other fun hp => hq (hdir.trans hp), h₁ q hq]
  refine wp_conseq (wp_copy_verified _ _ τ₂) (fun τ' h q hq => ?_) ?_
  · rw [h.get_other fun hp => hq (hdir.trans hp), h₂' q hq]
  intro r₃ τ₃ _ hok hr₃
  obtain ⟨b, -, hsrc, hdst⟩ := hok hr₃
  rw [hdst, ← h₂' _ (by decide), hsrc]

/-- `back_up_and_install` in the backup phase. -/
theorem wp_back_up_and_install (hi : Inv O N σ) (hroot : σ.get APP_UPDATE_ROOT = some .dir)
    (ht : σ.get APP_TARGET_NRO = some (.file O))
    (htok : journal.token σ = some State.BACKUP_IN_PROGRESS.text) :
    wp (payload copiesMayFail) (Recoverable O N) (fun e τ => Atomic O N τ e)
      (back_up_and_install depth FSBuffSize patched) σ := by
  rw [back_up_and_install]
  simp only [Prog.bind_eq]
  have hframe : ∀ τ, (∀ q, ¬ APP_UPDATE_BACKUP_DIR <+: q → τ.get q = σ.get q) →
      τ.get APP_TARGET_NRO = some (.file O) ∧ τ.get APP_UPDATE_ROOT = some .dir ∧
        journal.token τ = some State.BACKUP_IN_PROGRESS.text ∧ Inv O N τ := by
    intro τ h
    have ht' : τ.get APP_TARGET_NRO = some (.file O) := by rw [h _ (by decide), ht]
    have htk : journal.token τ = some State.BACKUP_IN_PROGRESS.text := by
      rw [(token_eq (h _ (by decide)) (h _ (by decide))).1, htok]
    refine ⟨ht', by rw [h _ (by decide), hroot], htk, ?_, some .BACKUP_IN_PROGRESS, htk, ht'⟩
    rw [h _ (by decide)]
    exact hi.1
  refine wp_bind.mpr (wp_conseq (wp_prepare_backup σ) (fun τ h _ => (hframe τ h).2.2.2) ?_)
  intro r τ h hok
  obtain ⟨ht₁, hroot₁, htok₁, hi₁⟩ := hframe τ h
  by_cases hr : r = .FR_OK
  swap
  · rw [if_pos hr]
    exact wp_abort_before_changes hi₁ (.of_token ht₁ htok₁ (.inl rfl))
  rw [if_neg (not_not.mpr hr)]
  have hb₁ : τ.get APP_BACKUP_NRO = some (.file O) := by rw [hok hr, ht]
  refine wp_bind.mpr (wp_write_state hi₁ hroot₁ (.inl hb₁) ⟨ht₁, .inl hb₁⟩
    fun τ₂ ha hroot₂ _ _ hi₂ => ?_)
  rw [if_neg (by decide)]
  exact wp_install_new_nro hi₂ hroot₂ (by rw [ha.target, ht₁]) (.inl (by rw [ha.backup, hb₁]))

theorem phase_of_token {s : State} (hi : Inv O N σ) (htok : journal.token σ = some s.text) :
    Phase O N σ (some s) := by
  obtain ⟨-, s', hs', hp⟩ := hi
  rw [htok] at hs'
  cases s' with
  | none => cases hs'
  | some s' => rwa [← text_injective (Option.some.inj hs')] at hp

/-- The tokens at which the run still has the package and the target to check. -/
def State.early (s : State) : Prop := s = .STAGED ∨ s = .BACKUP_IN_PROGRESS ∨ s = .BACKUP_COMPLETE

theorem Phase.target_of_early {s : State} (hs : s.early) (hp : Phase O N σ (some s)) :
    σ.get APP_TARGET_NRO = some (.file O) := by
  rcases hs with rfl | rfl | rfl
  · exact hp.1
  · exact hp
  · exact hp.1

/-- The package is gone: abort when nothing was done, otherwise roll back. -/
theorem wp_package_gone {s : State} (hs : s.early) {err : UiError} (hi : Inv O N σ)
    (hroot : σ.get APP_UPDATE_ROOT = some .dir) (htok : journal.token σ = some s.text)
    (hcond : s = .BACKUP_IN_PROGRESS → NonEmpty σ APP_BACKUP_NRO →
      σ.get APP_BACKUP_NRO = some (.file O)) :
    wp (payload copiesMayFail) (Recoverable O N) (fun e τ => Atomic O N τ e)
      (if s.text = State.STAGED.text then abort_before_changes depth FSBuffSize patched err
        else rollback_transaction depth FSBuffSize patched err) σ := by
  have hp := phase_of_token hi htok
  have ht := hp.target_of_early hs
  by_cases hst : s = .STAGED
  · subst hst
    rw [if_pos rfl]
    refine wp_abort_before_changes hi ⟨ht, fun s' hs' => ?_⟩
    rw [htok] at hs'
    cases s' with
    | none => cases hs'
    | some s' =>
      rw [← text_injective (Option.some.inj hs')]
      exact .inr (.inr ⟨.inr rfl, hp.2.imp id fun h => ⟨ht, h⟩⟩)
  rw [if_neg fun h => hst (text_injective h)]
  refine wp_rollback_transaction hi hroot ?_
  rcases hs with rfl | rfl | rfl
  · exact absurd rfl hst
  · by_cases hne : NonEmpty σ APP_BACKUP_NRO
    · exact .inl (hcond rfl hne)
    · exact .inr ⟨ht, hne⟩
  · exact hp.2.imp id fun h => ⟨ht, h⟩

/-- `aio_app_update_run` from a token that the journal holds. -/
theorem wp_run_from {s : State} (hO : O ≠ []) (hi : Inv O N σ)
    (hroot : σ.get APP_UPDATE_ROOT = some .dir) (htok : journal.token σ = some s.text)
    (hcond : s = .BACKUP_IN_PROGRESS → ¬ NonEmpty σ APP_NEW_NRO →
      NonEmpty σ APP_BACKUP_NRO → σ.get APP_BACKUP_NRO = some (.file O)) :
    wp (payload copiesMayFail) (Recoverable O N) (fun e τ => Atomic O N τ e)
      (run_from depth FSBuffSize patched s.text) σ := by
  have hp := phase_of_token hi htok
  have hrec : Recoverable O N σ := fun _ => hi
  rw [run_from]
  simp only [Prog.bind_eq, Prog.pure_eq]
  by_cases hlate : s.early
  swap
  · cases s with
    | STAGED => exact absurd (.inl rfl) hlate
    | BACKUP_IN_PROGRESS => exact absurd (.inr (.inl rfl)) hlate
    | BACKUP_COMPLETE => exact absurd (.inr (.inr rfl)) hlate
    | COMMIT_IN_PROGRESS =>
      rw [if_pos rfl]
      exact wp_finish hi hp.1 hp.2 htok
    | ROLLBACK_COMPLETE =>
      rw [if_neg (by decide), if_pos rfl]
      have hu : Unchanged O N σ := .of_token hp htok (.inr rfl)
      refine wp_restore_then_cleanup hi (fun τ τ' hτ ha htk hc h _ => ?_) fun τ r hτ ht' => ?_
      · exact h.recoverable_old hτ (hu.of_agree ha htk hc)
      · exact wp_bind.mpr (wp_boot hτ fun b => ⟨hτ, ht'.trans hu.1⟩)
    | ROLLBACK_IN_PROGRESS =>
      rw [if_neg (by decide), if_neg (by decide), if_pos rfl]
      exact wp_rollback_transaction hi hroot hp
    | COPY_IN_PROGRESS =>
      rw [if_neg (by decide), if_neg (by decide), if_neg (by decide), if_pos rfl]
      exact wp_rollback_transaction hi hroot (.inl hp)
    | COPY_COMPLETE =>
      rw [if_neg (by decide), if_neg (by decide), if_neg (by decide), if_neg (by decide),
        if_pos rfl]
      exact wp_commit_transaction hi hroot hp.1 hp.2.1 hp.2.2
  have hskip : s.text ≠ State.COMMIT_IN_PROGRESS.text ∧ s.text ≠ State.ROLLBACK_COMPLETE.text ∧
      s.text ≠ State.ROLLBACK_IN_PROGRESS.text ∧ s.text ≠ State.COPY_IN_PROGRESS.text ∧
        s.text ≠ State.COPY_COMPLETE.text := by
    rcases hlate with rfl | rfl | rfl <;> decide
  rw [if_neg hskip.1, if_neg hskip.2.1, if_neg hskip.2.2.1, if_neg hskip.2.2.2.1,
    if_neg hskip.2.2.2.2]
  have ht := hp.target_of_early hlate
  refine wp_bind.mpr (wp_nonempty_file_status hrec fun n hok herr => ?_)
  by_cases hn : n = code .FR_OK
  swap
  · rw [if_pos hn]
    have hgone := (herr hn).resolve_right not_mayFail_copiesMayFail
    exact wp_package_gone hlate hi hroot htok fun hs hne => hcond hs hgone hne
  rw [if_neg (not_not.mpr hn)]
  -- the target is `O`, so its check passes
  refine wp_bind.mpr (wp_nonempty_file_status hrec fun n hok herr => ?_)
  have hn : n = code .FR_OK := by
    by_contra hn
    exact (herr hn).elim (fun h => h ⟨O, hO, ht⟩) not_mayFail_copiesMayFail
  rw [if_neg (not_not.mpr hn)]
  rcases hlate with rfl | rfl | rfl
  · rw [if_pos rfl]
    have hnone : Phase O N σ none := hp.2.imp id fun h => ⟨ht, h⟩
    refine wp_bind.mpr (wp_write_state hi hroot hnone ht fun τ ha hroot₁ _ htok₁ hi₁ => ?_)
    rw [if_neg (by decide)]
    exact wp_back_up_and_install hi₁ hroot₁ (by rw [ha.target, ht]) htok₁
  · rw [if_neg (by decide), if_pos rfl]
    exact wp_back_up_and_install hi hroot ht htok
  · rw [if_neg (by decide), if_neg (by decide), if_pos rfl]
    exact wp_install_new_nro hi hroot ht hp.2

/-- One launch in a launchable state. -/
theorem wp_aio_app_update_run (hO : O ≠ []) (hi : Inv O N σ) (hl : Launchable O σ) :
    wp (payload copiesMayFail) (Recoverable O N) (fun e τ => Atomic O N τ e)
      (aio_app_update_run depth FSBuffSize patched) σ := by
  have hrec : Recoverable O N σ := fun _ => hi
  have hroot : σ.get APP_UPDATE_ROOT = some .dir := by
    rcases hl.pending with h | h | h | h
    · exact FileTree.get_prefix_of_ne_none (r := ["ready"]) (by simp) h
    · exact FileTree.get_prefix_of_ne_none (r := ["state"]) (by simp) h
    · exact FileTree.get_prefix_of_ne_none (r := ["state.tmp"]) (by simp) h
    · exact FileTree.get_prefix_of_ne_none (r := ["backup"]) (by simp) h
  rw [aio_app_update_run]
  simp only [Prog.bind_eq]
  refine wp_bind.mpr (wp_readState hrec fun o ho => ?_)
  obtain rfl : o = journal.token σ := by
    refine ho.resolve_right ?_
    rintro ⟨p, -, h | h⟩ <;> cases h
  -- without a journal the ready marker decides, and then the backup
  obtain ⟨s, hs, hp⟩ := hi.2
  cases s with
  | some s =>
    rw [hs]
    exact wp_run_from hO hi hroot hs fun h => hl.backup (by rw [hs, h]; rfl)
  | none =>
    rw [hs]
    refine wp_bind.mpr (wp_path_exists hrec (fun hready => ?_) fun hready => ?_)
    · simp only [if_true]
      have ht := hl.ready hs hready
      have hstaged : Phase O N σ (some .STAGED) := ⟨ht, .inr (.inl hready)⟩
      refine wp_bind.mpr (wp_write_state hi hroot hp hstaged
        fun τ ha hroot₁ _ htok₁ hi₁ => ?_)
      rw [if_neg (by decide)]
      exact wp_run_from hO hi₁ hroot₁ htok₁ fun h => by cases h
    · simp only [Bool.false_eq_true, if_false]
      have hready : σ.get APP_UPDATE_READY = none := hready.resolve_right fun h => by cases h
      refine wp_bind.mpr (wp_valid_nonempty_file hrec (fun hne => ?_) fun hne => ?_)
      · refine wp_rollback_transaction hi hroot (hp.imp id fun h => ⟨h.1, ?_⟩)
        exact h.2.resolve_left fun h => h hready
      · simp only [Bool.false_eq_true, if_false]
        have hne := hne.resolve_right not_mayFail_copiesMayFail
        have ht : σ.get APP_TARGET_NRO = some (.file O) := by
          rcases hp with hb | h
          · exact absurd ⟨O, hO, hb⟩ hne
          · exact h.1
        refine wp_abort_before_changes hi ⟨ht, fun s' hs' => ?_⟩
        rw [hs] at hs'
        cases s' with
        | none => exact .inr (.inr ⟨.inl rfl, hp⟩)
        | some s' => cases hs'

end helpers

/-! ## Histories -/

/-- A staged transaction: the installed NRO `O`, the new one `N`, the journal at `STAGED`
and no backup. -/
structure Staged (O N : Bytes) (patched : Bool) (σ : SD) : Prop where
  target : σ.get APP_TARGET_NRO = some (.file O)
  new : σ.get APP_NEW_NRO = some (.file N)
  state : journal.token σ = some State.STAGED.text
  backup : σ.get APP_UPDATE_BACKUP_DIR = none
  saved : patched = true → NonEmpty σ MARIKO_SAVED_PAYLOAD

theorem Staged.inv {O N : Bytes} {patched : Bool} {σ : SD} (h : Staged O N patched σ) :
    Inv O N σ := by
  refine ⟨.inl h.new, some .STAGED, h.state, h.target, .inr (.inr ?_)⟩
  rintro ⟨b, -, hb⟩
  have := FileTree.get_append_of_none h.backup ["aio-switch-updater-mod.nro"]
  rw [show APP_UPDATE_BACKUP_DIR ++ ["aio-switch-updater-mod.nro"] = APP_BACKUP_NRO from rfl,
    hb] at this
  cases this

/-- Runs of the application updater, all but the last cut, each launched in a launchable
state: an exit that boots finds `N` at the target when it reports success, and `O` when it
reports a rollback or that nothing was changed. -/
theorem app_update_atomic (depth FSBuffSize : ℕ) (patched : Bool) {O N : Bytes} (hO : O ≠ [])
    {σ₀ σ σ' : SD} {e : Exit} (h₀ : Staged O N patched σ₀)
    (hcuts : Relaunch (payload copiesMayFail) (aio_app_update_run depth FSBuffSize patched)
      (Launchable O) σ₀ σ)
    (hl : Launchable O σ)
    (hrun : Run (payload copiesMayFail) (aio_app_update_run depth FSBuffSize patched) σ
      (some e) σ') :
    Atomic O N σ' e := by
  have hrec : Recoverable O N σ :=
    hcuts.invariant (fun _ => h₀.inv) fun τ hτ hrec => wp_aio_app_update_run hO (hrec hτ.pending) hτ
  exact wp_sound (wp_aio_app_update_run hO (hrec hl.pending) hl) hrun

/-! ### A launch that goes wrong -/

/-- A small staged transaction. -/
def stagedCard : SD := SD.build
  [(["switch"], .dir), (["switch", "aio-switch-updater-mod"], .dir),
   (APP_TARGET_NRO, .file [2, 3]),
   (APP_UPDATE_ROOT, .dir), (APP_UPDATE_READY, .file (ascii "1")),
   (APP_UPDATE_STATE, .file State.STAGED.text),
   (APP_UPDATE_NEW_DIR, .dir), (APP_UPDATE_NEW_DIR ++ ["switch"], .dir),
   (APP_UPDATE_NEW_DIR ++ ["switch", "aio-switch-updater-mod"], .dir),
   (APP_NEW_NRO, .file [1])]

theorem stagedCard_staged : Staged [2, 3] [1] false stagedCard where
  target := by decide
  new := by decide
  state := by decide
  backup := by decide
  saved := by simp

/-- The copy to the backup stops after one byte, and the power goes while the aborted
transaction is removed, right after the new NRO. -/
def partialBackup : Script where
  calls := 31
  mishap i := if i = 23 then some (.stops .FR_DISK_ERR 1) else none
  order := id

/-- The card after the first run, and the end of the second. -/
def cutCard : SD := (partialBackup.play copyFails (aio_app_update_run 5 16 false) stagedCard).2

/-- The power goes after twelve calls, while the journal is advanced. -/
def earlyCut : Script where
  calls := 12
  mishap _ := none
  order := id

/-- A run cut early and a run that completes: the new NRO is installed. -/
theorem app_update_atomic_resumed :
    Atomic [2, 3] [1]
      (Script.undisturbed.play copyFails (aio_app_update_run 5 16 false)
        (earlyCut.play copyFails (aio_app_update_run 5 16 false) stagedCard).2).2
      (.boot .success .none) := by
  have h₁ := earlyCut.run copyFails_sound (aio_app_update_run 5 16 false) stagedCard
  have hcut : (earlyCut.play copyFails (aio_app_update_run 5 16 false) stagedCard).1 = none := by
    decide +kernel
  have h₂ := Script.undisturbed.run copyFails_sound (aio_app_update_run 5 16 false)
    (earlyCut.play copyFails (aio_app_update_run 5 16 false) stagedCard).2
  have hend : (Script.undisturbed.play copyFails (aio_app_update_run 5 16 false)
      (earlyCut.play copyFails (aio_app_update_run 5 16 false) stagedCard).2).1 =
        some (.boot .success .none) := by
    decide +kernel
  rw [hcut] at h₁
  rw [hend] at h₂
  have hl₀ : Launchable [2, 3] stagedCard :=
    ⟨.inl (by decide +kernel), fun h => absurd h (by decide +kernel),
      fun h => absurd h (by decide +kernel)⟩
  have hl₁ : Launchable [2, 3]
      (earlyCut.play copyFails (aio_app_update_run 5 16 false) stagedCard).2 :=
    ⟨.inl (by decide +kernel), fun h => absurd h (by decide +kernel),
      fun h => absurd h (by decide +kernel)⟩
  exact app_update_atomic 5 16 false (by simp) stagedCard_staged (.single ⟨hl₀, h₁⟩) hl₁ h₂

/-- Without the conditions of `Launchable` a truncated backup is restored: the relaunched
updater finds the backup phase cut and the new NRO gone, rolls back to one byte of `O`
and reports success. -/
theorem truncated_backup_restored :
    ¬ ∀ (depth FSBuffSize : ℕ) (patched : Bool) (O N : Bytes) (σ₀ σ σ' : SD) (e : Exit),
      O ≠ [] → N ≠ [] → Staged O N patched σ₀ →
      Relaunch (payload copiesMayFail) (aio_app_update_run depth FSBuffSize patched) Pending σ₀ σ →
      Pending σ →
      Run (payload copiesMayFail) (aio_app_update_run depth FSBuffSize patched) σ (some e) σ' →
      Atomic O N σ' e := by
  intro h
  have h₁ := partialBackup.run copyFails_sound (aio_app_update_run 5 16 false) stagedCard
  have hcut : (partialBackup.play copyFails (aio_app_update_run 5 16 false) stagedCard).1 = none := by
    decide +kernel
  have h₂ := Script.undisturbed.run copyFails_sound (aio_app_update_run 5 16 false) cutCard
  have hend : (Script.undisturbed.play copyFails (aio_app_update_run 5 16 false) cutCard).1 =
      some (.boot (.rollbackSuccess ⟨"PACKAGE", 4⟩) .none) := by
    decide +kernel
  rw [hcut] at h₁
  rw [hend] at h₂
  have hpend₀ : Pending stagedCard := .inl (by decide +kernel)
  have hpend₁ : Pending cutCard := .inl (by decide +kernel)
  have hbad : (Script.undisturbed.play copyFails (aio_app_update_run 5 16 false) cutCard).2.get
      APP_TARGET_NRO = some (.file [2, 3]) :=
    h 5 16 false [2, 3] [1] stagedCard cutCard _ _ (by simp) (by simp) stagedCard_staged
      (.single ⟨hpend₀, h₁⟩) hpend₁ h₂
  revert hbad
  decide +kernel

end AppUpdater
