/-
# What the journal helpers do to the card

A journal is read from its file or, when that holds no token, from the temporary
one.  While a token is written the journal reads as before, or as the new token, or
not at all; the last only when the journal file itself held no token.
-/
import AioMod.FsCopySpec
import AioMod.Journal

section helpers

variable {F : SD → Op → Prop} {α : Type} {C : SD → Prop} {σ : SD}

/-- Some call made outside the copy routines and outside `path_exists` may fail. -/
def MayFail (F : SD → Op → Prop) : Prop := ∃ τ fn, F τ ⟨.other, fn⟩

theorem not_mayFail_copiesMayFail : ¬ MayFail copiesMayFail := by
  rintro ⟨τ, fn, h⟩
  cases h

/-- `path_exists` finds what is there; it misses it only when its probe fails. -/
theorem wp_path_exists {p : FsPath} {Q : Bool → SD → Prop} (hC : C σ)
    (htrue : σ.get p ≠ none → Q true σ)
    (hfalse : σ.get p = none ∨ F σ ⟨.probe, .f_stat p⟩ → Q false σ) :
    wp (payload F) C Q (path_exists p) σ := by
  rw [path_exists]
  simp only [Prog.bind_eq, Prog.pure_eq]
  refine wp_bind.mpr (wp_at hC fun r τ h => ?_)
  obtain ⟨rfl, hr⟩ := payload_f_stat h
  refine ⟨hC, ?_⟩
  cases r with
  | ok info =>
    refine ⟨hC, htrue ?_⟩
    rcases hr with hr | ⟨-, e, -, hr⟩
    · intro hn
      rw [SD.stat, hn] at hr
      cases hr
    · cases hr
  | error e =>
    refine ⟨hC, hfalse ?_⟩
    rcases hr with hr | ⟨hF, -⟩
    · rw [SD.stat] at hr
      split at hr
      · cases hr
      · cases hr
      · next hn => exact .inl hn
    · exact .inr hF

/-- `removePath` prunes what stands at `p` and below. -/
theorem wp_removePath {unlinked : FRESULT → FRESULT} (hu : unlinked .FR_OK = .FR_OK)
    (depth : ℕ) (p : FsPath) (σ : SD) :
    wp (payload F) (Pruned p σ)
      (fun r σ' => (r = .FR_OK → σ'.get p = none ∨ MayFail F) ∧
        (r ≠ .FR_OK → MayFail F ∨ p = []))
      (removePath unlinked depth p) σ := by
  have h0 := Pruned.refl p σ
  rw [removePath]
  simp only [Prog.bind_eq, Prog.pure_eq]
  refine wp_bind.mpr (wp_at h0 fun r τ h => ?_)
  obtain ⟨rfl, hr⟩ := payload_f_stat h
  refine ⟨h0, ?_⟩
  cases r with
  -- what cannot be looked at is not there, or the look failed
  | error e =>
    rcases hr with hr | ⟨hF, -⟩
    swap
    · exact ⟨h0, fun _ => .inr ⟨_, _, hF⟩, fun _ => .inl ⟨_, _, hF⟩⟩
    rw [SD.stat] at hr
    split at hr
    · cases hr
    · cases hr
    next hn =>
      cases hr
      refine ⟨h0, fun _ => .inl hn, fun h => ?_⟩
      refine absurd (if_pos ?_) h
      unfold SD.missing
      split
      · exact .inl rfl
      · exact .inr rfl
  | ok info =>
    have hinfo : SD.stat τ p = .ok info := by
      rcases hr with hr | ⟨-, e, -, hr⟩
      · exact hr.symm
      · cases hr
    by_cases hd : info.isDir = true
    · simp only [hd, if_true]
      refine wp_conseq (wp_deleteTree depth p τ) (fun _ h => h) ?_
      rintro r τ₁ hp ⟨hok, herr⟩
      refine ⟨fun h => .inl (hok h), fun h => ?_⟩
      rcases herr h with h | h | h
      · exact .inl h
      · rw [SD.stat] at hinfo
        split at hinfo
        · next hdir => exact absurd hdir h
        · cases hinfo
          cases hd
        · cases hinfo
      · exact .inr h
    · simp only [hd, if_false, Bool.false_eq_true]
      refine wp_bind.mpr (wp_at h0 fun r τ h => ?_)
      rcases payload_f_unlink h with ⟨rfl, -, -, hget⟩ | ⟨hne, rfl, hF⟩
      · have hp := Pruned.of_get hget
        exact ⟨hp, hp, fun _ => .inl (by simp [hget]), fun h => absurd hu h⟩
      -- the card gives no reason of its own for the failure
      · have hmf : MayFail F := by
          rcases hF with hF | ⟨-, hn⟩ | hF
          · exact ⟨_, _, hF⟩
          · rw [SD.stat, hn] at hinfo
            cases hinfo
          · have hndir : τ.get p ≠ some .dir := by
              intro hdir
              rw [SD.stat, hdir] at hinfo
              cases hinfo
              exact hd rfl
            refine absurd ⟨?_, FileTree.childless_iff.mpr fun k =>
              FileTree.get_append_of_not_dir hndir (by simp)⟩ hF
            rintro rfl
            exact hndir τ.root
        exact ⟨h0, h0, fun _ => .inr hmf, fun _ => .inl hmf⟩

/-- When calls outside the copy routines work, `removePath` removes. -/
theorem wp_removePath_works (hF : ¬ MayFail F) {unlinked : FRESULT → FRESULT}
    (hu : unlinked .FR_OK = .FR_OK) (depth : ℕ) {p : FsPath} (hp : p ≠ []) (σ : SD) :
    wp (payload F) (Pruned p σ) (fun r σ' => r = .FR_OK ∧ σ'.get p = none)
      (removePath unlinked depth p) σ := by
  refine wp_conseq (wp_removePath hu depth p σ) (fun _ h => h) ?_
  rintro r τ - ⟨hok, herr⟩
  have hr : r = .FR_OK := by
    by_contra hr
    exact (herr hr).elim hF hp
  exact ⟨hr, (hok hr).resolve_right hF⟩

/-! ## Reading a journal -/

/-- The token a file holds. -/
def SD.tokenAt (σ : SD) (p : FsPath) : Option Bytes :=
  match σ.get p with
  | some (.file b) => parseState b
  | _ => none

/-- The token a journal reads as. -/
def JournalFiles.token (j : JournalFiles) (σ : SD) : Option Bytes :=
  (σ.tokenAt j.state).or (σ.tokenAt j.tmp)

/-- A call by which a journal is read may fail. -/
def JournalFiles.ReadFails (j : JournalFiles) (F : SD → Op → Prop) (σ : SD) : Prop :=
  ∃ p, (p = j.state ∨ p = j.tmp) ∧ (F σ ⟨.other, .f_open p⟩ ∨ F σ ⟨.other, .f_read p 0 63⟩)

theorem parseState_take (b : Bytes) : parseState (b.take 63) = parseState b := by
  simp [parseState, List.take_take]

theorem wp_read_state_from {p : FsPath} {Q : Option Bytes → SD → Prop} (hC : C σ)
    (hQ : ∀ o, (o = σ.tokenAt p ∨
      o = none ∧ (F σ ⟨.other, .f_open p⟩ ∨ F σ ⟨.other, .f_read p 0 63⟩)) → Q o σ) :
    wp (payload F) C Q (read_state_from p) σ := by
  rw [read_state_from]
  simp only [Prog.bind_eq, Prog.pure_eq]
  refine wp_bind.mpr (wp_at hC fun r τ h => ?_)
  obtain ⟨rfl, ⟨b, hb, rfl⟩ | ⟨⟨e, -, rfl⟩, hF⟩⟩ := payload_f_open h
  swap
  · refine ⟨hC, hC, hQ _ ?_⟩
    rcases hF with hF | hF
    · exact .inr ⟨rfl, .inl hF⟩
    · refine .inl ?_
      rw [SD.tokenAt]
      split
      · next b hb => exact absurd hb (hF b)
      · rfl
  refine ⟨hC, wp_bind.mpr (wp_at hC fun r τ₁ h => ?_)⟩
  obtain ⟨rfl, hr⟩ := payload_f_read h
  refine ⟨hC, wp_bind.mpr (wp_at hC fun r₁ τ₂ h => ?_)⟩
  obtain ⟨rfl, -⟩ := payload_f_close h
  refine ⟨hC, ?_⟩
  rcases hr with ⟨b', hb', rfl⟩ | ⟨⟨e, -, rfl⟩, hF⟩
  · rw [hb] at hb'
    cases hb'
    refine ⟨hC, hQ _ (.inl ?_)⟩
    rw [List.drop_zero, parseState_take, SD.tokenAt, hb]
  · refine ⟨hC, hQ _ (.inr ⟨rfl, ?_⟩)⟩
    exact hF.elim .inr fun h => absurd hb (h b)

/-- Reading gives the token, unless a call fails. -/
theorem wp_readState {j : JournalFiles} {Q : Option Bytes → SD → Prop} (hC : C σ)
    (hQ : ∀ o, (o = j.token σ ∨ j.ReadFails F σ) → Q o σ) :
    wp (payload F) C Q (readState j) σ := by
  rw [readState]
  simp only [Prog.bind_eq, Prog.pure_eq]
  refine wp_bind.mpr (wp_read_state_from hC fun o ho => ?_)
  rcases ho with rfl | ⟨rfl, hF⟩
  · cases hs : SD.tokenAt σ j.state with
    | some state => exact ⟨hC, hQ _ (.inl (by simp [JournalFiles.token, hs]))⟩
    | none =>
      refine wp_read_state_from hC fun o ho => hQ o ?_
      rcases ho with rfl | ⟨rfl, hF⟩
      · exact .inl (by simp [JournalFiles.token, hs])
      · exact .inr ⟨_, .inr rfl, hF⟩
  · exact wp_read_state_from hC fun o _ => hQ o (.inr ⟨_, .inl rfl, hF⟩)

/-! ## Writing a journal -/

/-- `σ'` is `σ`, with the directory `p` if nothing was there. -/
def MadeDir (p : FsPath) (σ σ' : SD) : Prop :=
  ∀ q, σ'.get q = σ.get q ∨ q = p ∧ σ.get p = none ∧ σ'.get p = some .dir

theorem MadeDir.get_other {p q : FsPath} {σ σ' : SD} (h : MadeDir p σ σ') (hq : q ≠ p) :
    σ'.get q = σ.get q :=
  (h q).resolve_right fun hp => hq hp.1

theorem MadeDir.touch {p : FsPath} {σ σ' : SD} (h : MadeDir p σ σ') : FileTree.Touch [p] σ σ' :=
  fun q hq => h.get_other fun hqp => hq p (by simp) (hqp ▸ List.prefix_refl q)

theorem wp_mkdir_if_needed {p : FsPath} {Q : FRESULT → SD → Prop} (hC : C σ)
    (hQ : ∀ r σ', MadeDir p σ σ' →
      (r = .FR_OK → σ'.get p ≠ none ∨ F σ ⟨.other, .f_mkdir p⟩) →
      (r ≠ .FR_OK → F σ ⟨.other, .f_mkdir p⟩ ∨ σ.get p = none ∧ ¬ σ.CanPut p) →
      C σ' ∧ Q r σ') :
    wp (payload F) C Q (mkdir_if_needed p) σ := by
  rw [mkdir_if_needed]
  simp only [Prog.bind_eq, Prog.pure_eq]
  refine wp_bind.mpr (wp_at hC fun r τ h => ?_)
  rcases payload_f_mkdir h with ⟨rfl, hn, -, hget⟩ | ⟨hne, rfl, hF⟩
  · have hmade : MadeDir p σ τ := by
      intro q
      rw [hget q]
      split
      · next hq => exact .inr ⟨hq, hn, by rw [hget, if_pos rfl]⟩
      · exact .inl rfl
    have := hQ .FR_OK τ hmade (fun _ => .inl (by rw [hget, if_pos rfl]; simp)) (by simp)
    exact ⟨this.1, this⟩
  · refine ⟨hC, hQ _ _ (fun q => .inl rfl) (fun h => ?_) fun h => ?_⟩
    · rcases hF with hF | ⟨-, hF⟩ | ⟨rfl, -⟩
      · exact .inr hF
      · exact .inl hF
      · cases h
    · rcases hF with hF | ⟨rfl, -⟩ | ⟨-, hF⟩
      · exact .inl hF
      · exact absurd rfl h
      · exact .inr hF

/-- A token survives the way through a journal file. -/
def IsToken (t : Bytes) : Prop := parseState t = some t ∧ parseState (t ++ [10]) = some t

instance (t : Bytes) : Decidable (IsToken t) := inferInstanceAs (Decidable (_ ∧ _))

theorem parseState_zeros {b : Bytes} (h : ∀ c ∈ b, c = 0) : parseState b = none := by
  cases b with
  | nil => rfl
  | cons c b =>
    obtain rfl : c = 0 := h c (by simp)
    simp [parseState]

namespace JournalFiles

variable (j : JournalFiles)

theorem state_ne_tmp : j.state ≠ j.tmp := by
  intro h
  simp only [state, tmp, List.append_cancel_left_eq, List.cons.injEq, and_true] at h
  exact j.ne h

theorem not_state_prefix_tmp : ¬ j.state <+: j.tmp := fun h =>
  j.state_ne_tmp (h.eq_of_length (by simp [state, tmp]))

theorem not_tmp_prefix_state : ¬ j.tmp <+: j.state := fun h =>
  j.state_ne_tmp (h.eq_of_length (by simp [state, tmp])).symm

/-- Whether the journal file is free or holds a token. -/
def Clean (σ : SD) : Prop := σ.tokenAt j.state = none → σ.get j.state = none

/-- Unchanged files leave the token alone. -/
theorem token_congr {σ σ' : SD} (hs : σ'.get j.state = σ.get j.state)
    (ht : σ'.get j.tmp = σ.get j.tmp) :
    j.token σ' = j.token σ ∧ (j.Clean σ → j.Clean σ') := by
  have h1 : σ'.tokenAt j.state = σ.tokenAt j.state := by rw [SD.tokenAt, hs, SD.tokenAt]
  have h2 : σ'.tokenAt j.tmp = σ.tokenAt j.tmp := by rw [SD.tokenAt, ht, SD.tokenAt]
  refine ⟨by rw [token, h1, h2, token], ?_⟩
  rw [Clean, Clean, h1, hs]
  exact id

/-- What the card can look like while the token `t` is written. -/
structure Writing (t : Bytes) (σ σ' : SD) : Prop where
  other : ∀ q, q ≠ j.root → ¬ j.state <+: q → ¬ j.tmp <+: q → σ'.get q = σ.get q
  root : σ'.get j.root = σ.get j.root ∨ σ.get j.root = none ∧ σ'.get j.root = some .dir
  token : j.token σ' = j.token σ ∨ j.token σ' = some t ∨
    j.token σ' = none ∧ σ.tokenAt j.state = none
  clean : j.Clean σ → j.Clean σ'

variable {j} {t : Bytes} {σ σ' : SD}

theorem Writing.refl (σ : SD) : j.Writing t σ σ :=
  ⟨fun _ _ _ _ => rfl, .inl rfl, .inl rfl, id⟩

/-- A subtree apart from the journal's files is unchanged. -/
theorem Writing.sub (h : j.Writing t σ σ') {w : FsPath} (hr : ¬ w <+: j.root)
    (hs : FileTree.Incomparable j.state w) (ht : FileTree.Incomparable j.tmp w) :
    σ'.sub w = σ.sub w := by
  funext r
  refine h.other _ ?_ (hs.not_prefix_append r) (ht.not_prefix_append r)
  intro hwr
  exact hr ⟨r, hwr⟩

/-- Only the temporary file has changed, and it holds the old token, the new one, or
none. -/
theorem Writing.of_tmp (other : ∀ q, q ≠ j.root → ¬ j.tmp <+: q → σ'.get q = σ.get q)
    (root : σ'.get j.root = σ.get j.root ∨ σ.get j.root = none ∧ σ'.get j.root = some .dir)
    (h : σ'.tokenAt j.tmp = σ.tokenAt j.tmp ∨ σ'.tokenAt j.tmp = some t ∨
      σ'.tokenAt j.tmp = none) : j.Writing t σ σ' := by
  have hstate : σ'.get j.state = σ.get j.state :=
    other _ (by simp [state]) j.not_tmp_prefix_state
  have htok : σ'.tokenAt j.state = σ.tokenAt j.state := by rw [SD.tokenAt, hstate, SD.tokenAt]
  refine ⟨fun q hr _ hq => other q hr hq, root, ?_, ?_⟩
  · rw [JournalFiles.token, JournalFiles.token, htok]
    cases hs : σ.tokenAt j.state with
    | some s => exact .inl rfl
    | none =>
      rcases h with h | h | h
      · exact .inl (by rw [h])
      · exact .inr (.inl (by simp [h]))
      · exact .inr (.inr ⟨by simp [h], rfl⟩)
  · rw [Clean, Clean, htok, hstate]
    exact id

/-- The temporary file holds the new token, and the journal file is going away. -/
theorem Writing.of_pruned {τ : SD} (hw : j.Writing t σ τ) (hτ : τ.tokenAt j.tmp = some t)
    (htok : τ.tokenAt j.state = σ.tokenAt j.state) (h : Pruned j.state τ σ') :
    j.Writing t σ σ' := by
  have htmp : σ'.tokenAt j.tmp = some t := by
    rw [SD.tokenAt, h.get_other j.not_state_prefix_tmp, ← SD.tokenAt, hτ]
  have hroot : σ'.get j.root = τ.get j.root := h.get_other fun hp => by
    have hlen := hp.length_le
    rw [state, List.length_append, List.length_singleton] at hlen
    omega
  have hstate : σ'.tokenAt j.state = σ.tokenAt j.state ∨ σ'.get j.state = none := by
    rw [← htok]
    exact (h j.state).imp (fun h => by rw [SD.tokenAt, h, ← SD.tokenAt]) fun h => h.2
  refine ⟨fun q hr hs ht => by rw [h.get_other hs, hw.other q hr hs ht],
    by rw [hroot]; exact hw.root, ?_, fun hc => ?_⟩
  · rcases hstate with hs | hs
    · rw [JournalFiles.token, JournalFiles.token, hs, htmp]
      cases σ.tokenAt j.state with
      | some s => exact .inl rfl
      | none => exact .inr (.inl rfl)
    · refine .inr (.inl ?_)
      rw [JournalFiles.token, SD.tokenAt, hs, htmp]
      rfl
  · rcases h j.state with hs | hs
    · have := hw.clean hc
      rw [Clean, SD.tokenAt, hs, ← SD.tokenAt]
      exact this
    · exact fun _ => hs.2

/-- The temporary file has taken the place of the journal file. -/
theorem Writing.of_moved {τ : SD} (hw : j.Writing t σ τ) (hm : τ.CanMove j.tmp j.state)
    (h : SD.tokenAt (τ.move j.tmp j.state hm) j.state = some t) :
    j.Writing t σ (τ.move j.tmp j.state hm) := by
  have hroot : (τ.move j.tmp j.state hm).get j.root = τ.get j.root := by
    refine FileTree.get_move_other _ _ _ _ (fun hp => ?_) fun hp => ?_
    · have := hp.length_le
      simp only [state, List.length_append, List.length_singleton] at this
      omega
    · have := hp.length_le
      simp only [tmp, List.length_append, List.length_singleton] at this
      omega
  refine ⟨fun q hr hs ht => ?_, by rw [hroot]; exact hw.root, .inr (.inl ?_), fun _ hn => ?_⟩
  · rw [FileTree.get_move_other _ _ _ _ hs ht, hw.other q hr hs ht]
  · rw [JournalFiles.token, h]
    rfl
  · rw [h] at hn
    cases hn

end JournalFiles

/-- Only the temporary file differs, and it holds what it held, the token `t`, or none. -/
def JournalFiles.TmpOnly (j : JournalFiles) (t : Bytes) (σ σ' : SD) : Prop :=
  (∀ q, ¬ j.tmp <+: q → σ'.get q = σ.get q) ∧
    (σ'.tokenAt j.tmp = σ.tokenAt j.tmp ∨ σ'.tokenAt j.tmp = some t ∨ σ'.tokenAt j.tmp = none)

theorem wp_writeNewline {j : JournalFiles} {t : Bytes} (ht : IsToken t) {complete : Bool}
    {res : FRESULT} {σ₀ : SD} (h0 : j.TmpOnly t σ₀ σ) (hσ : σ.get j.tmp = some (.file t)) :
    wp (payload F) (j.TmpOnly t σ₀)
      (fun r σ' => (r = .FR_OK → complete = true → σ'.get j.tmp = some (.file (t ++ [10]))) ∧
        (r ≠ .FR_OK → res ≠ .FR_OK ∨ MayFail F))
      (writeNewline j.tmp complete res) σ := by
  rw [writeNewline]
  simp only [Prog.bind_eq, Prog.pure_eq]
  by_cases hres : res = .FR_OK ∧ complete = true
  swap
  · rw [if_neg hres]
    exact ⟨h0, fun h hc => absurd ⟨h, hc⟩ hres, fun h => .inl h⟩
  rw [if_pos hres]
  refine wp_bind.mpr (wp_at h0 fun r τ h => ?_)
  obtain ⟨n, hget, hr⟩ := payload_f_write hσ h
  have hτ : j.TmpOnly t σ₀ τ := by
    refine ⟨fun q hq => ?_, ?_⟩
    · rw [hget, if_neg (fun h : q = j.tmp => hq (h ▸ List.prefix_refl _)), h0.1 q hq]
    · rw [SD.tokenAt, hget, if_pos rfl]
      cases n with
      | zero => exact .inr (.inl (by simpa using ht.1))
      | succ n => exact .inr (.inl (by simpa using ht.2))
  refine ⟨hτ, hτ, ?_⟩
  rcases hr with ⟨rfl, hn⟩ | ⟨hF, hbad, -⟩
  · exact ⟨fun _ _ => by rw [hget, if_pos rfl, hn], fun h => absurd (by simp) h⟩
  · refine ⟨fun hok _ => ?_, fun _ => .inr ⟨_, _, hF⟩⟩
    by_cases h1 : r.1 = .FR_OK
    · rw [if_pos ⟨h1, by simpa [h1] using hbad⟩] at hok
      cases hok
    · rw [if_neg fun h => h1 h.1] at hok
      exact absurd hok h1

theorem wp_writeToken {j : JournalFiles} {t : Bytes} (ht : IsToken t) :
    wp (payload F) (j.TmpOnly t σ)
      (fun r σ' => (r = .FR_OK → σ'.get j.tmp = some (.file (t ++ [10]))) ∧
        (r ≠ .FR_OK → ¬ σ.CanPut j.tmp ∨ MayFail F))
      (writeToken j t) σ := by
  have h0 : j.TmpOnly t σ σ := ⟨fun _ _ => rfl, .inl rfl⟩
  rw [writeToken]
  simp only [Prog.bind_eq, Prog.pure_eq]
  refine wp_bind.mpr (wp_at h0 fun r τ h => ?_)
  rcases payload_f_create h with ⟨rfl, -, hget⟩ | ⟨hne, rfl, hF⟩
  swap
  · rw [if_pos hne]
    exact ⟨h0, h0, fun h => absurd h hne, fun _ => hF.symm.imp id fun h => ⟨_, _, h⟩⟩
  have hmk : ∀ b τ', (∀ q, τ'.get q = if q = j.tmp then some (.file b) else σ.get q) →
      parseState b = some t ∨ parseState b = none → j.TmpOnly t σ τ' := by
    intro b τ' hget hb
    refine ⟨fun q hq => ?_, ?_⟩
    · rw [hget, if_neg (fun h : q = j.tmp => hq (h ▸ List.prefix_refl _))]
    · rw [SD.tokenAt, hget, if_pos rfl]
      exact .inr hb
  have h1 := hmk [] τ hget (.inr rfl)
  rw [if_neg (not_not.mpr rfl)]
  refine ⟨h1, wp_bind.mpr (wp_at h1 fun r τ₁ h => ?_)⟩
  obtain ⟨n, hget₁, hr⟩ := payload_f_write (b := []) (by rw [hget, if_pos rfl]) h
  have hget₁' : ∀ q, τ₁.get q = if q = j.tmp then some (.file (t.take n)) else σ.get q := by
    intro q
    rw [hget₁ q, hget q]
    split <;> simp
  rcases hr with ⟨rfl, hn⟩ | ⟨hF, -, ⟨hbad, rfl⟩ | hs⟩
  · -- the whole token is written
    rw [hn] at hget₁'
    have h2 := hmk t τ₁ hget₁' (.inl ht.1)
    refine ⟨h2, ?_⟩
    simp only [ne_eq, not_true_eq_false, false_and, and_false, if_false, decide_true]
    refine wp_bind.mpr (wp_conseq (wp_writeNewline ht h2 (by rw [hget₁', if_pos rfl]))
      (fun _ h => h) ?_)
    rintro r τ₂ h3 ⟨hok, herr⟩
    -- behind the newline only the file is closed
    have hsync : ∀ r' : FRESULT, (r' = .FR_OK → r = .FR_OK) → (r' ≠ .FR_OK → r ≠ .FR_OK ∨ MayFail F) →
        wp (payload F) (j.TmpOnly t σ) (fun r σ' =>
          (r = .FR_OK → σ'.get j.tmp = some (.file (t ++ [10]))) ∧
            (r ≠ .FR_OK → ¬ σ.CanPut j.tmp ∨ MayFail F))
          ((call (.f_close j.tmp)).bind fun _ => .ret r') τ₂ := by
      intro r' h h'
      refine wp_bind.mpr (wp_at h3 fun r τ₃ hc => ?_)
      obtain ⟨rfl, -⟩ := payload_f_close hc
      refine ⟨h3, h3, fun hr => hok (h hr) rfl, fun hr => .inr ?_⟩
      rcases h' hr with hr | hr
      · exact (herr hr).resolve_left (by simp)
      · exact hr
    rw [syncWritten]
    split
    · next hr =>
      refine wp_bind.mpr (wp_at h3 fun r' τ₃ h => ?_)
      obtain ⟨rfl, hF⟩ := payload_f_sync h
      exact ⟨h3, hsync r' (fun _ => hr) fun h => .inr ⟨_, _, hF.resolve_left h⟩⟩
    · next hr => exact hsync r (fun h => h) fun h => .inl hr
  · -- nothing is written
    have h2 := hmk [] τ₁ (by simpa using hget₁') (.inr rfl)
    refine ⟨h2, ?_⟩
    have hres : (if r.1 = .FR_OK ∧ r.2 ≠ t.length ∧ j.strict = true then FRESULT.FR_DISK_ERR
        else r.1) = r.1 := if_neg fun h => hbad h.1
    rw [hres, writeNewline, if_neg fun h => hbad h.1]
    simp only [Prog.pure_eq, Prog.ret_bind, syncWritten, hbad, if_false]
    refine wp_bind.mpr (wp_at h2 fun r' τ₃ h => ?_)
    obtain ⟨rfl, -⟩ := payload_f_close h
    exact ⟨h2, h2, fun h => absurd h hbad, fun _ => .inr ⟨_, _, hF⟩⟩
  · cases hs

/-- `write_state`: at any moment the card is as `Writing` says; with `FR_OK` the journal
file holds the token and the temporary file is gone. -/
theorem wp_writeState (j : JournalFiles) {unlinked : FRESULT → FRESULT}
    (hu : unlinked .FR_OK = .FR_OK) (depth : ℕ) {t : Bytes} (ht : IsToken t) (σ : SD) :
    wp (payload F) (j.Writing t σ)
      (fun r σ' => (r = .FR_OK → σ'.tokenAt j.state = some t ∧ σ'.get j.tmp = none) ∧
        (r ≠ .FR_OK → MayFail F ∨ σ.get j.root ≠ some .dir))
      (writeState j unlinked depth t) σ := by
  have h0 : j.Writing t σ σ := JournalFiles.Writing.refl σ
  have htr : j.tmp ≠ j.root := by simp [JournalFiles.tmp]
  have hroot : ¬ j.tmp <+: j.root := by
    intro hq
    have := hq.length_le
    simp only [JournalFiles.tmp, List.length_append, List.length_singleton] at this
    omega
  rw [writeState]
  simp only [Prog.bind_eq, Prog.pure_eq]
  refine wp_bind.mpr (wp_mkdir_if_needed h0 fun r τ hmade hok herr => ?_)
  have hother : ∀ q, q ≠ j.root → τ.get q = σ.get q := fun q hq => hmade.get_other hq
  have hdir : τ.get j.root = σ.get j.root ∨ σ.get j.root = none ∧ τ.get j.root = some .dir :=
    (hmade j.root).imp id And.right
  have h1 : j.Writing t σ τ := .of_tmp (fun q hq _ => hother q hq) hdir
    (.inl (by rw [SD.tokenAt, hother _ htr, ← SD.tokenAt]))
  refine ⟨h1, ?_⟩
  by_cases hr : r = .FR_OK
  swap
  · rw [if_pos hr]
    refine ⟨h1, fun h => absurd h hr, fun _ => ?_⟩
    rcases herr hr with h | h
    · exact .inl ⟨_, _, h⟩
    · exact .inr fun hd => by simp [hd] at h
  rw [if_neg (not_not.mpr hr)]
  -- the old temporary file goes
  have hpre : ∀ τ', Pruned j.tmp τ τ' → j.Writing t σ τ' := by
    intro τ' hp
    refine .of_tmp (fun q hq hq' => by rw [hp.get_other hq', hother q hq]) ?_ ?_
    · rw [hp.get_other hroot]
      exact hdir
    · rcases hp j.tmp with h | ⟨-, h⟩
      · exact .inl (by rw [SD.tokenAt, h, hother _ htr, ← SD.tokenAt])
      · exact .inr (.inr (by rw [SD.tokenAt, h]))
  refine wp_bind.mpr (wp_conseq (wp_removePath hu depth j.tmp τ) hpre ?_)
  rintro r₁ τ₁ hp ⟨hgone, hmf⟩
  -- the new token goes to the temporary file
  have hmid : ∀ τ', j.TmpOnly t τ₁ τ' → j.Writing t σ τ' := by
    rintro τ' ⟨hoff, htok⟩
    refine .of_tmp (fun q hq hq' => by rw [hoff q hq', hp.get_other hq', hother q hq]) ?_ ?_
    · rw [hoff _ hroot, hp.get_other hroot]
      exact hdir
    · rcases htok with h | h
      · rw [h]
        rcases hp j.tmp with h | ⟨-, h⟩
        · exact .inl (by rw [SD.tokenAt, h, hother _ htr, ← SD.tokenAt])
        · exact .inr (.inr (by rw [SD.tokenAt, h]))
      · exact .inr h
  refine wp_bind.mpr (wp_conseq (wp_writeToken ht) hmid ?_)
  rintro r₂ τ₂ htmp ⟨hok₂, herr₂⟩
  by_cases hr₂ : r₂ = .FR_OK
  swap
  · rw [if_pos hr₂]
    refine ⟨hmid τ₂ htmp, fun h => absurd h hr₂, fun _ => ?_⟩
    rcases herr₂ hr₂ with h | h
    · by_contra hcon
      push Not at hcon
      refine h ⟨by simp [JournalFiles.tmp], ?_, ?_⟩
      · rw [JournalFiles.tmp, List.dropLast_concat, hp.get_other hroot]
        exact hdir.elim (fun h => h.trans hcon.2) And.right
      · by_cases hr₁ : r₁ = .FR_OK
        · simp [(hgone hr₁).resolve_right hcon.1]
        · exact absurd ((hmf hr₁).resolve_left hcon.1) (by simp [JournalFiles.tmp])
    · exact .inl h
  rw [if_neg (not_not.mpr hr₂)]
  have hwritten := hok₂ hr₂
  have htok₂ : τ₂.tokenAt j.tmp = some t := by rw [SD.tokenAt, hwritten]; exact ht.2
  have hstate₂ : τ₂.tokenAt j.state = σ.tokenAt j.state := by
    rw [SD.tokenAt, htmp.1 _ j.not_tmp_prefix_state, hp.get_other j.not_tmp_prefix_state,
      hother _ (by simp [JournalFiles.state]), ← SD.tokenAt]
  -- the old journal goes, and the temporary file takes its place
  have hlast : ∀ τ', Pruned j.state τ₂ τ' → j.Writing t σ τ' := fun τ' h =>
    (hmid τ₂ htmp).of_pruned htok₂ hstate₂ h
  refine wp_bind.mpr (wp_conseq (wp_removePath hu depth j.state τ₂) hlast ?_)
  rintro r₃ τ₃ hp₃ ⟨hgone₃, hmf₃⟩
  by_cases hr₃ : r₃ = .FR_OK
  swap
  · rw [if_pos hr₃]
    refine ⟨hlast τ₃ hp₃, fun h => absurd h hr₃, fun _ => .inl ?_⟩
    exact (hmf₃ hr₃).resolve_right (by simp [JournalFiles.state])
  rw [if_neg (not_not.mpr hr₃)]
  refine wp_at (hlast τ₃ hp₃) fun r₄ τ₄ h => ?_
  have htmp₃ : τ₃.get j.tmp = some (.file (t ++ [10])) := by
    rw [hp₃.get_other j.not_state_prefix_tmp, hwritten]
  rcases payload_f_rename h with ⟨rfl, hm, rfl⟩ | ⟨hne, rfl, hF⟩
  · have htok : SD.tokenAt (τ₃.move j.tmp j.state hm) j.state = some t := by
      rw [SD.tokenAt, FileTree.get_eq_sub, FileTree.sub_move_dst, ← FileTree.get_eq_sub, htmp₃]
      exact ht.2
    exact ⟨(hlast τ₃ hp₃).of_moved hm htok,
      fun _ => ⟨htok, FileTree.get_move_src _ _ _ _⟩, by simp⟩
  · refine ⟨hlast _ hp₃, fun h => absurd h hne, fun _ => .inl ?_⟩
    rcases hF with hF | hF
    · exact ⟨_, _, hF⟩
    rcases hgone₃ hr₃ with hgone₃ | hmf
    · refine absurd ⟨by simp [JournalFiles.tmp], by simp [JournalFiles.state], by simp [htmp₃],
        hgone₃, ?_, j.not_tmp_prefix_state⟩ hF
      have := τ₄.parent j.tmp (by simp [JournalFiles.tmp]) (by simp [htmp₃])
      rw [JournalFiles.tmp, List.dropLast_concat] at this
      rw [JournalFiles.state, List.dropLast_concat, this]
    · exact hmf

/-- When calls outside the copy routines work and the journal has its directory,
`write_state` succeeds. -/
theorem wp_writeState_works (hF : ¬ MayFail F) (j : JournalFiles) {unlinked : FRESULT → FRESULT}
    (hu : unlinked .FR_OK = .FR_OK) (depth : ℕ) {t : Bytes} (ht : IsToken t) {σ : SD}
    (hroot : σ.get j.root = some .dir) :
    wp (payload F) (j.Writing t σ)
      (fun r σ' => r = .FR_OK ∧ σ'.tokenAt j.state = some t ∧ σ'.get j.tmp = none)
      (writeState j unlinked depth t) σ := by
  refine wp_conseq (wp_writeState j hu depth ht σ) (fun _ h => h) ?_
  rintro r τ - ⟨hok, herr⟩
  have hr : r = .FR_OK := by
    by_contra hr
    exact (herr hr).elim hF fun h => h hroot
  exact ⟨hr, hok hr⟩

/-! ## Booting -/

theorem calls_path_exists (p : FsPath) : (path_exists p).Calls (I := FatFs) Op.looks := by
  refine ⟨rfl, fun r => ?_⟩
  cases r <;> trivial

theorem calls_launch_if_exists (p : FsPath) :
    (launch_if_exists p).Calls (I := FatFs) Op.looks := by
  refine Prog.calls_bind (calls_path_exists p) fun there => ?_
  cases there
  · trivial
  · exact ⟨rfl, fun _ => trivial⟩

/-- Booting writes nothing. -/
theorem calls_bootInstalled (patched : Bool) :
    (bootInstalled patched).Calls (I := FatFs) Op.looks := by
  rw [bootInstalled]
  cases patched
  · refine Prog.calls_bind (calls_launch_if_exists _) fun started => ?_
    cases started
    · refine Prog.calls_bind (calls_launch_if_exists _) fun started => ?_
      cases started
      · refine Prog.calls_bind (calls_launch_if_exists _) fun started => ?_
        cases started <;> trivial
      · trivial
    · trivial
  · trivial

end helpers
