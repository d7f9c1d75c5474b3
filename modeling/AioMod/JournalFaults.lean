/-
# The journals when calls fail

Every call of `write_state` may fail, and a write may stop part way, with an error or, where the
card reports a short count only, without one.  The journal then reads as before or as the new token
exactly when `state` itself held a token and no short count goes unnoticed.
-/
import AioMod.JournalSpec
import AioMod.CfwUpdater
import AioMod.AppUpdater
import AioMod.Script

/-! ## A card on which every call may fail -/

/-- The result of a write that tells of an error. -/
def SD.Reported : (fn : Fn) → fn.Res → Prop
  | .f_write _ _, r => r.1 ≠ FRESULT.FR_OK
  | _, _ => True

/-- Every call may work. -/
def Working (M : Machine FatFs SD) : Prop :=
  ∀ (σ : SD) (o : Op) (r : o.fn.Res) (σ' : SD), σ.Works o.fn r σ' → M σ o r σ'

theorem working_payload (F : SD → Op → Prop) : Working (payload F) := fun _ _ _ _ => .inl

/-- Every call works, or fails without effect, or is a write that stops part way; with `short` such
a write may return `FR_OK`. -/
def faulty (short : Bool) : Machine FatFs SD := fun σ o r σ' =>
  σ.Works o.fn r σ' ∨ SD.Fails o.fn r ∧ σ' = σ ∨
    σ.Stops o.fn r σ' ∧ (short = true ∨ SD.Reported o.fn r)

theorem working_faulty (short : Bool) : Working (faulty short) := fun _ _ _ _ => .inl

section faults

variable {short : Bool} {α β : Type} {C : SD → Prop} {σ σ' : SD} {s : Site} {p : FsPath}

/-- The calls that are no writes. -/
def NoWrite (o : Op) : Prop := ∀ p data, o.fn ≠ .f_write p data

/-- A call that is no write works or fails without effect. -/
theorem payload_of_faulty {fn : Fn} {r : fn.Res} (h : faulty short σ ⟨s, fn⟩ r σ')
    (hfn : NoWrite ⟨s, fn⟩) : payload (fun _ _ => True) σ ⟨s, fn⟩ r σ' := by
  rcases h with h | h | ⟨h, -⟩
  · exact .inl h
  · exact .inr ⟨trivial, .inl h⟩
  · cases fn <;> first | exact h.elim | exact absurd rfl (hfn _ _)

/-- What holds of a program without writes when every call may fail holds here. -/
theorem wp_faulty {p : Prog FatFs α} {Q : α → SD → Prop} (hp : p.Calls (I := FatFs) NoWrite)
    (h : wp (payload fun _ _ => True) C Q p σ) : wp (faulty short) C Q p σ := by
  induction p generalizing σ with
  | ret a => exact h
  | call o k ih =>
    refine ⟨h.1, fun r σ' hs => ?_⟩
    obtain ⟨site, fn⟩ := o
    exact ih r (hp.2 r) (h.2 r σ' (payload_of_faulty hs hp.1))

/-- The rule of a single call that is no write. -/
theorem wp_faulty_at {fn : Fn} {Q : fn.Res → SD → Prop} (hfn : NoWrite ⟨s, fn⟩) (hC : C σ)
    (hQ : ∀ r σ', payload (fun _ _ => True) σ ⟨s, fn⟩ r σ' → C σ' ∧ Q r σ') :
    wp (faulty short) C Q (Prog.op (I := FatFs) ⟨s, fn⟩) σ :=
  (wp_op (I := FatFs) _).mpr ⟨hC, fun r σ' h => hQ r σ' (payload_of_faulty h hfn)⟩

/-- A write appends what its count says. -/
theorem faulty_f_write {data b : Bytes} {r : FRESULT × ℕ} (hb : σ.get p = some (.file b))
    (h : faulty short σ ⟨s, .f_write p data⟩ r σ') :
    (∀ q, σ'.get q = if q = p then some (.file (b ++ data.take r.2)) else σ.get q) ∧
      (r.1 = .FR_OK → r.2 = data.length ∨ short = true) := by
  rcases h with h | ⟨h, rfl⟩ | ⟨⟨-, -, h⟩, hr⟩
  · simp only [SD.Works, SD.answer] at h
    obtain ⟨τ, hτ⟩ := SD.append_isSome hb data
    rw [hτ] at h
    cases h
    obtain ⟨b', hb', hget⟩ := SD.append_eq_some hτ
    rw [hb] at hb'
    cases hb'
    exact ⟨by simpa using hget, fun _ => .inl rfl⟩
  · refine ⟨fun q => ?_, fun hok => absurd hok h.1⟩
    rw [h.2]
    by_cases hq : q = p
    · simp [hq, hb]
    · simp [hq]
  · obtain ⟨b', hb', hget⟩ := SD.append_eq_some h
    rw [hb] at hb'
    cases hb'
    refine ⟨hget, fun hok => .inr ?_⟩
    exact hr.resolve_right fun hrep => hrep hok

end faults

/-! ## Programs without writes -/

theorem noWrite_deleteTree (depth : ℕ) :
    ∀ path, (deleteTree depth path).Calls (I := FatFs) NoWrite := by
  induction depth with
  | zero =>
    intro path
    exact ⟨by rintro _ _ ⟨⟩, fun e => e.elim⟩
  | succ depth ih =>
    intro path
    rw [deleteTree]
    refine Prog.calls_bind ⟨by rintro _ _ ⟨⟩, fun _ => trivial⟩ fun r => ?_
    cases r with
    | error res => exact trivial
    | ok fs =>
      refine Prog.calls_bind (Prog.calls_untilSome (fun e => ?_) fs) fun r => ?_
      · dsimp only
        split
        · exact Prog.calls_bind (ih _) fun _ => trivial
        · exact Prog.calls_bind ⟨by rintro _ _ ⟨⟩, fun _ => trivial⟩ fun _ => trivial
      · cases r with
        | none => exact ⟨by rintro _ _ ⟨⟩, fun _ => trivial⟩
        | some err => exact trivial

theorem noWrite_removePath (unlinked : FRESULT → FRESULT) (depth : ℕ) (path : FsPath) :
    (removePath unlinked depth path).Calls (I := FatFs) NoWrite := by
  rw [removePath]
  refine Prog.calls_bind ⟨by rintro _ _ ⟨⟩, fun _ => trivial⟩ fun r => ?_
  cases r with
  | error res => exact trivial
  | ok info =>
    dsimp only
    split
    · exact noWrite_deleteTree depth path
    · exact Prog.calls_bind ⟨by rintro _ _ ⟨⟩, fun _ => trivial⟩ fun _ => trivial

theorem noWrite_mkdir_if_needed (path : FsPath) :
    (mkdir_if_needed path).Calls (I := FatFs) NoWrite :=
  Prog.calls_bind ⟨by rintro _ _ ⟨⟩, fun _ => trivial⟩ fun _ => trivial

/-! ## The token while it is written -/

namespace JournalFiles

/-- What a following `read_state` yields when its own calls work. -/
def Yields (j : JournalFiles) (σ : SD) (o : Option Bytes) : Prop :=
  ∃ σ', Run (payload fun _ _ => False) (readState j) σ (some o) σ'

/-- The journal reads as before, or as the new token. -/
def Kept (j : JournalFiles) (t : Bytes) (σ σ' : SD) : Prop :=
  j.token σ' = j.token σ ∨ j.token σ' = some t

/-- No previous value is lost, and no part of the token passes for the token. -/
def Safe (j : JournalFiles) (t : Bytes) (σ : SD) : Prop :=
  σ.tokenAt j.state ≠ none ∨ j.token σ = none ∧ t.length = 1

variable {j : JournalFiles} {t : Bytes} {σ σ' τ : SD} {short : Bool}

/-- Only the temporary file has changed, and it holds a beginning of the new line. -/
structure Begun (j : JournalFiles) (t : Bytes) (σ σ' : SD) : Prop where
  other : ∀ q, ¬ j.tmp <+: q → σ'.get q = σ.get q
  tmp : σ'.get j.tmp = σ.get j.tmp ∨ ∃ n, σ'.get j.tmp = some (.file ((t ++ [10]).take n))

theorem Begun.refl (j : JournalFiles) (t : Bytes) (σ : SD) : j.Begun t σ σ :=
  ⟨fun _ _ => rfl, .inl rfl⟩

/-- A beginning of a line of one byte is no token or that byte. -/
theorem parseState_begun (ht : IsToken t) (h1 : t.length = 1) (n : ℕ) :
    parseState ((t ++ [10]).take n) = none ∨ parseState ((t ++ [10]).take n) = some t := by
  rcases n with _ | _ | n
  · exact .inl rfl
  · right
    rw [List.take_append_of_le_length (by omega), List.take_of_length_le (by omega)]
    exact ht.1
  · right
    rw [List.take_of_length_le (by rw [List.length_append, h1]; simp)]
    exact ht.2

/-- As long as the journal file is as it was, the journal reads as before or as the new token. -/
theorem Safe.kept (hg : j.Safe t σ) (ht : IsToken t) (hs : σ'.tokenAt j.state = σ.tokenAt j.state)
    (htmp : σ'.tokenAt j.tmp = σ.tokenAt j.tmp ∨ σ'.tokenAt j.tmp = none ∨
      ∃ n, σ'.tokenAt j.tmp = parseState ((t ++ [10]).take n)) : j.Kept t σ σ' := by
  rcases hg with hg | ⟨hnone, h1⟩
  · left
    obtain ⟨v, hv⟩ := Option.ne_none_iff_exists'.mp hg
    rw [token, token, hs, hv]
    rfl
  · have hor : σ.tokenAt j.state = none ∧ σ.tokenAt j.tmp = none := Option.or_eq_none_iff.mp hnone
    have htok : j.token σ' = σ'.tokenAt j.tmp := by
      rw [token, hs, hor.1]
      rfl
    rw [Kept, htok, hnone]
    rcases htmp with h | h | ⟨n, h⟩
    · exact .inl (h.trans hor.2)
    · exact .inl h
    · rw [h]
      exact parseState_begun ht h1 n

theorem Begun.tokenAt (h : j.Begun t τ σ') :
    σ'.tokenAt j.tmp = τ.tokenAt j.tmp ∨
      ∃ n, σ'.tokenAt j.tmp = parseState ((t ++ [10]).take n) := by
  rcases h.tmp with h | ⟨n, h⟩
  · exact .inl (by rw [SD.tokenAt, h, ← SD.tokenAt])
  · exact .inr ⟨n, by rw [SD.tokenAt, h]⟩

end JournalFiles

open JournalFiles (Begun Kept Safe)

section write

variable {j : JournalFiles} {t : Bytes} {σ : SD} {short : Bool}

/-- A write to the temporary file, when `m` bytes of the line are there. -/
theorem wp_writeLine {data : Bytes} {m : ℕ} {σ₀ : SD} {Q : FRESULT × ℕ → SD → Prop}
    (h0 : j.Begun t σ₀ σ) (hσ : σ.get j.tmp = some (.file ((t ++ [10]).take m)))
    (hdata : ∀ n, (t ++ [10]).take m ++ data.take n = (t ++ [10]).take (m + min n data.length))
    (hQ : ∀ r τ, j.Begun t σ₀ τ →
      τ.get j.tmp = some (.file ((t ++ [10]).take (m + min r.2 data.length))) →
      (r.1 = .FR_OK → r.2 = data.length ∨ short = true) → Q r τ) :
    wp (faulty short) (j.Begun t σ₀) Q (call (.f_write j.tmp data)) σ := by
  refine (wp_op (I := FatFs) _).mpr ⟨h0, fun r τ h => ?_⟩
  obtain ⟨hget, hr⟩ := faulty_f_write hσ h
  have htmp : τ.get j.tmp = some (.file ((t ++ [10]).take (m + min r.2 data.length))) := by
    rw [hget, if_pos rfl, hdata]
  have hτ : j.Begun t σ₀ τ := by
    refine ⟨fun q hq => ?_, .inr ⟨_, htmp⟩⟩
    rw [hget, if_neg (fun h : q = j.tmp => hq (h ▸ List.prefix_refl _)), h0.other q hq]
  exact ⟨hτ, hQ r τ hτ htmp hr⟩

/-- The line goes to the temporary file; when no short count goes unnoticed, `FR_OK` says that the
line is complete. -/
theorem wp_writeToken_faulty (hstrict : j.strict = true ∨ short = false) :
    wp (faulty short) (j.Begun t σ)
      (fun r σ' => r = .FR_OK → σ'.get j.tmp = some (.file (t ++ [10]))) (writeToken j t) σ := by
  have h0 := Begun.refl j t σ
  rw [writeToken]
  simp only [Prog.bind_eq, Prog.pure_eq]
  refine wp_bind.mpr (wp_faulty_at (by rintro _ _ ⟨⟩) h0 fun r τ h => ?_)
  rcases payload_f_create h with ⟨rfl, -, hget⟩ | ⟨hne, rfl, -⟩
  swap
  · rw [if_pos hne]
    exact ⟨h0, h0, fun h => absurd h hne⟩
  rw [if_neg (not_not.mpr rfl)]
  have hempty : τ.get j.tmp = some (.file ((t ++ [10]).take 0)) := by
    rw [hget, if_pos rfl]
    rfl
  have h1 : j.Begun t σ τ := by
    refine ⟨fun q hq => ?_, .inr ⟨0, hempty⟩⟩
    rw [hget, if_neg fun h : q = j.tmp => hq (h ▸ List.prefix_refl _)]
  refine ⟨h1, wp_bind.mpr (wp_writeLine h1 hempty ?_ ?_)⟩
  · intro n
    rw [List.take_zero, List.nil_append, Nat.zero_add, List.take_append_of_le_length (by omega)]
    exact (List.take_eq_take_iff.mpr (by omega))
  intro r τ₁ h2 htmp hr
  -- what is left of the call when the line is there, or an error is on its way
  have hend : ∀ (r' : FRESULT) (τ₂ : SD), j.Begun t σ τ₂ →
      (r' = .FR_OK → τ₂.get j.tmp = some (.file (t ++ [10]))) →
      wp (faulty short) (j.Begun t σ)
        (fun r σ' => r = .FR_OK → σ'.get j.tmp = some (.file (t ++ [10])))
        ((syncWritten j.tmp r').bind fun res => (call (.f_close j.tmp)).bind fun _ => .ret res)
        τ₂ := by
    intro r' τ₂ h3 hdone
    have hclose : ∀ r'' : FRESULT, (r'' = .FR_OK → r' = .FR_OK) →
        wp (faulty short) (j.Begun t σ)
          (fun r σ' => r = .FR_OK → σ'.get j.tmp = some (.file (t ++ [10])))
          ((call (.f_close j.tmp)).bind fun _ => .ret r'') τ₂ := by
      intro r'' hr''
      refine wp_bind.mpr (wp_faulty_at (by rintro _ _ ⟨⟩) h3 fun _ τ₃ h => ?_)
      obtain ⟨rfl, -⟩ := payload_f_close h
      exact ⟨h3, h3, fun h => hdone (hr'' h)⟩
    rw [syncWritten]
    split
    · next hok =>
      refine wp_bind.mpr (wp_faulty_at (by rintro _ _ ⟨⟩) h3 fun r'' τ₃ h => ?_)
      obtain ⟨rfl, -⟩ := payload_f_sync h
      exact ⟨h3, hclose r'' fun _ => hok⟩
    · exact hclose r' id
  by_cases hok : r.1 = .FR_OK ∧ r.2 = t.length
  · -- the whole token is there
    obtain ⟨hok, hn⟩ := hok
    rw [hn, Nat.zero_add, Nat.min_self] at htmp
    simp only [hok, hn, ne_eq, not_true_eq_false, false_and, and_false, if_false, decide_true,
      writeNewline, and_self, if_true]
    refine wp_bind.mpr (wp_bind.mpr (wp_writeLine h2 htmp ?_ ?_))
    · intro n
      rcases n with _ | n
      · simp
      · have htake : ([10] : Bytes).take (n + 1) = [10] := List.take_of_length_le (by simp)
        rw [htake, List.take_append_of_le_length le_rfl, List.take_length]
        exact (List.take_of_length_le (by simp)).symm
    intro r₁ τ₂ h3 htmp₂ hr₁
    refine ⟨h3, hend _ τ₂ h3 fun hok₁ => ?_⟩
    split at hok₁
    · cases hok₁
    · next hcount =>
      have h1 : r₁.2 = 1 := by
        by_contra hne
        exact hcount ⟨hok₁, hne⟩
      rw [h1] at htmp₂
      rw [htmp₂, List.take_of_length_le (by simp)]
  · -- the token is not all there, and the result says so
    have hne : ∀ res : FRESULT, res = (if r.1 = .FR_OK ∧ r.2 ≠ t.length ∧ j.strict = true then
        FRESULT.FR_DISK_ERR else r.1) → res ≠ .FR_OK := by
      rintro res rfl
      split
      · simp
      · next hno =>
        intro hr1
        rcases hr hr1 with hn | hs
        · exact hok ⟨hr1, hn⟩
        · refine hno ⟨hr1, fun hn => hok ⟨hr1, hn⟩, ?_⟩
          exact hstrict.resolve_right (by rw [hs]; simp)
    generalize hres : (if r.1 = .FR_OK ∧ r.2 ≠ t.length ∧ j.strict = true then
      FRESULT.FR_DISK_ERR else r.1) = res
    have hbad := hne res hres.symm
    rw [writeNewline, if_neg fun h => hbad h.1]
    exact hend res τ₁ h2 fun h => absurd h hbad

/-- While `write_state` runs, the journal of a safe card reads as before or as the new token, and
`FR_OK` says that it reads as the new one. -/
theorem wp_writeState_faulty {unlinked : FRESULT → FRESULT} (hu : unlinked .FR_OK = .FR_OK)
    (depth : ℕ) (ht : IsToken t) (hg : j.Safe t σ) (hstrict : j.strict = true ∨ short = false) :
    wp (faulty short) (j.Kept t σ) (fun r σ' => r = .FR_OK → j.token σ' = some t)
      (writeState j unlinked depth t) σ := by
  have htr : j.tmp ≠ j.root := by simp [JournalFiles.tmp]
  have hsr : j.state ≠ j.root := by simp [JournalFiles.state]
  rw [writeState]
  simp only [Prog.bind_eq, Prog.pure_eq]
  refine wp_bind.mpr (wp_faulty (noWrite_mkdir_if_needed _)
    (wp_mkdir_if_needed (.inl rfl) fun r τ hmade _ _ => ?_))
  have hother : ∀ q, q ≠ j.root → τ.get q = σ.get q := fun q hq => hmade.get_other hq
  have hstate : τ.tokenAt j.state = σ.tokenAt j.state := by
    rw [SD.tokenAt, hother _ hsr, ← SD.tokenAt]
  have htmp : τ.tokenAt j.tmp = σ.tokenAt j.tmp := by
    rw [SD.tokenAt, hother _ htr, ← SD.tokenAt]
  have h1 : j.Kept t σ τ := hg.kept ht hstate (.inl htmp)
  refine ⟨h1, ?_⟩
  by_cases hr : r = .FR_OK
  swap
  · rw [if_pos hr]
    exact ⟨h1, fun h => absurd h hr⟩
  rw [if_neg (not_not.mpr hr)]
  -- the old temporary file goes
  have hpruned : ∀ τ', Pruned j.tmp τ τ' → τ'.tokenAt j.state = σ.tokenAt j.state ∧
      (τ'.tokenAt j.tmp = σ.tokenAt j.tmp ∨ τ'.tokenAt j.tmp = none) := by
    intro τ' hp
    refine ⟨by rw [SD.tokenAt, hp.get_other j.not_tmp_prefix_state, ← SD.tokenAt, hstate], ?_⟩
    rcases hp j.tmp with h | ⟨-, h⟩
    · exact .inl (by rw [SD.tokenAt, h, ← SD.tokenAt, htmp])
    · exact .inr (by rw [SD.tokenAt, h])
  refine wp_bind.mpr (wp_faulty (noWrite_removePath _ _ _)
    (wp_conseq (wp_removePath hu depth j.tmp τ) ?_ ?_))
  · intro τ' hp
    obtain ⟨hs, h⟩ := hpruned τ' hp
    exact hg.kept ht hs (h.imp id .inl)
  rintro r₁ τ₁ hp -
  obtain ⟨hs₁, ht₁⟩ := hpruned τ₁ hp
  -- the new line goes to the temporary file
  have hbegun : ∀ τ', j.Begun t τ₁ τ' → τ'.tokenAt j.state = σ.tokenAt j.state := by
    intro τ' h
    rw [SD.tokenAt, h.other _ j.not_tmp_prefix_state, ← SD.tokenAt, hs₁]
  have hkept : ∀ τ', j.Begun t τ₁ τ' → j.Kept t σ τ' := by
    intro τ' h
    refine hg.kept ht (hbegun τ' h) ?_
    rcases h.tokenAt with h | h
    · rw [h]
      exact ht₁.imp id .inl
    · exact .inr (.inr h)
  refine wp_bind.mpr (wp_conseq (wp_writeToken_faulty hstrict) hkept ?_)
  intro r₂ τ₂ h₂ hok₂
  by_cases hr₂ : r₂ = .FR_OK
  swap
  · rw [if_pos hr₂]
    exact ⟨hkept τ₂ h₂, fun h => absurd h hr₂⟩
  rw [if_neg (not_not.mpr hr₂)]
  have hline := hok₂ hr₂
  -- the old journal goes, and the temporary file, complete now, takes its place
  have hlast : ∀ τ', Pruned j.state τ₂ τ' → j.Kept t σ τ' ∧ τ'.tokenAt j.tmp = some t := by
    intro τ' hp'
    have hnew : τ'.tokenAt j.tmp = some t := by
      rw [SD.tokenAt, hp'.get_other j.not_state_prefix_tmp, hline]
      exact ht.2
    refine ⟨?_, hnew⟩
    rcases hp' j.state with h | ⟨-, h⟩
    · refine hg.kept ht ?_ (.inr (.inr ⟨t.length + 1, ?_⟩))
      · rw [SD.tokenAt, h, ← SD.tokenAt, hbegun τ₂ h₂]
      · rw [hnew, List.take_of_length_le (by simp)]
        exact ht.2.symm
    · right
      rw [JournalFiles.token, SD.tokenAt, h, hnew]
      rfl
  refine wp_bind.mpr (wp_faulty (noWrite_removePath _ _ _)
    (wp_conseq (wp_removePath hu depth j.state τ₂) (fun τ' h => (hlast τ' h).1) ?_))
  rintro r₃ τ₃ hp₃ -
  obtain ⟨hk₃, hnew₃⟩ := hlast τ₃ hp₃
  by_cases hr₃ : r₃ = .FR_OK
  swap
  · rw [if_pos hr₃]
    exact ⟨hk₃, fun h => absurd h hr₃⟩
  rw [if_neg (not_not.mpr hr₃)]
  refine wp_faulty_at (by rintro _ _ ⟨⟩) hk₃ fun r₄ τ₄ h => ?_
  rcases payload_f_rename h with ⟨rfl, hm, rfl⟩ | ⟨hne, rfl, -⟩
  · have htok : j.token (τ₃.move j.tmp j.state hm) = some t := by
      rw [JournalFiles.token, SD.tokenAt, FileTree.get_eq_sub, FileTree.sub_move_dst,
        ← FileTree.get_eq_sub, ← SD.tokenAt, hnew₃]
      rfl
    exact ⟨.inr htok, fun _ => htok⟩
  · exact ⟨hk₃, fun h => absurd h hne⟩

end write

/-! ## What a following `read_state` yields -/

theorem run_read_state_from {F : SD → Op → Prop} (p : FsPath) (σ : SD) :
    Run (payload F) (read_state_from p) σ (some (σ.tokenAt p)) σ := by
  have hopen : ∀ (r : Except FRESULT ℕ) (k : Except FRESULT ℕ → Prog FatFs (Option Bytes))
      (out : Option (Option Bytes)), σ.answer (.f_open p) = some (r, σ) →
      Run (payload F) (k r) σ out σ → Run (payload F) ((call (.f_open p)).bind k) σ out σ := by
    intro r k out hr hk
    exact .call (.inl hr) hk
  rw [read_state_from]
  simp only [Prog.bind_eq, Prog.pure_eq]
  cases hσ : σ.get p with
  | none =>
    have htok : σ.tokenAt p = none := by rw [SD.tokenAt, hσ]
    rw [htok]
    exact hopen (.error (σ.missing p)) _ _ (by simp only [SD.answer, hσ]) (.ret _ _)
  | some e =>
    cases e with
    | dir =>
      have htok : σ.tokenAt p = none := by rw [SD.tokenAt, hσ]
      rw [htok]
      exact hopen (.error .FR_NO_FILE) _ _ (by simp only [SD.answer, hσ]) (.ret _ _)
    | file b =>
      have htok : σ.tokenAt p = parseState ((b.drop 0).take 63) := by
        rw [SD.tokenAt, hσ, List.drop_zero, parseState_take]
      rw [htok]
      refine hopen (.ok b.length) _ _ (by simp only [SD.answer, hσ]) ?_
      have hread : payload F σ ⟨.other, .f_read p 0 63⟩ (.ok ((b.drop 0).take 63)) σ := by
        left
        simp only [SD.Works, SD.answer, hσ]
      have hclose : payload F σ ⟨.other, .f_close p⟩ .FR_OK σ := .inl rfl
      exact .call hread (.call hclose (.ret _ _))

theorem run_readState {F : SD → Op → Prop} (j : JournalFiles) (σ : SD) :
    Run (payload F) (readState j) σ (some (j.token σ)) σ := by
  rw [readState]
  simp only [Prog.bind_eq, Prog.pure_eq]
  refine Run.bind (run_read_state_from j.state σ) ?_
  cases hs : σ.tokenAt j.state with
  | some v =>
    rw [JournalFiles.token, hs]
    exact .ret _ _
  | none =>
    rw [JournalFiles.token, hs]
    exact run_read_state_from j.tmp σ

/-- A following `read_state` yields the token. -/
theorem JournalFiles.yields_iff {j : JournalFiles} {σ : SD} {o : Option Bytes} :
    j.Yields σ o ↔ o = j.token σ := by
  constructor
  · rintro ⟨σ', hrun⟩
    refine wp_sound (wp_readState (C := fun _ => True) (Q := fun o _ => o = j.token σ)
      trivial fun o ho => ?_) hrun
    rcases ho with ho | ⟨p, -, h | h⟩
    · exact ho
    · exact h.elim
    · exact h.elim
  · rintro rfl
    exact ⟨σ, run_readState j σ⟩

/-! ## Runs that lose the journal -/

/-- The journal's directory is there or can be made, and its two names stand for files, if for
anything. -/
structure JournalFiles.Laid (j : JournalFiles) (σ : SD) : Prop where
  root : σ.get j.root = some .dir ∨ σ.get j.root = none ∧ σ.CanPut j.root
  state : σ.get j.state ≠ some .dir
  tmp : σ.get j.tmp ≠ some .dir

/-- The first byte of a token passes for a token. -/
theorem parseState_take_one {t : Bytes} (ht : parseState t = some t) :
    parseState (t.take 1) = some (t.take 1) := by
  cases t with
  | nil => cases ht
  | cons c t =>
    by_cases hc : c ≠ 0 ∧ c ≠ 10 ∧ c ≠ 13
    · simp [parseState, hc]
    · have hnone : parseState (c :: t) = none := by
        unfold parseState
        rw [List.take_succ_cons, List.takeWhile_cons_of_neg (by simpa using hc)]
      rw [hnone] at ht
      cases ht

section losses

variable {σ : SD} {j : JournalFiles} {t : Bytes} {unlinked : FRESULT → FRESULT}

theorem JournalFiles.Laid.run_mkdir (short : Bool) (hl : j.Laid σ) :
    ∃ τ, Run (faulty short) (mkdir_if_needed j.root) σ (some .FR_OK) τ ∧
      τ.get j.root = some .dir ∧ ∀ q, q ≠ j.root → τ.get q = σ.get q := by
  rcases hl.root with hdir | ⟨hnone, hput⟩
  · have hmk : faulty short σ ⟨.other, .f_mkdir j.root⟩ .FR_EXIST σ := by
      left
      simp only [SD.Works, SD.answer, hdir]
      rfl
    exact ⟨σ, .call hmk (.ret _ _), hdir, fun _ _ => rfl⟩
  · have hmk : faulty short σ ⟨.other, .f_mkdir j.root⟩ .FR_OK (σ.put j.root .dir hput) := by
      left
      simp only [SD.Works, SD.answer]
      rw [dif_pos ⟨hnone, hput⟩]
    refine ⟨_, .call hmk (.ret _ _), by simp, fun q hq => ?_⟩
    rw [FileTree.get_put, if_neg hq]

/-- A path that is no directory can be removed. -/
theorem Working.run_removePath {M : Machine FatFs SD} (hM : Working M)
    (hu : unlinked .FR_OK = .FR_OK) (depth : ℕ) {p : FsPath} (hp : p ≠ [])
    (hσ : σ.get p ≠ some .dir) :
    ∃ τ, Run M (removePath unlinked depth p) σ (some .FR_OK) τ ∧
      ∀ q, τ.get q = if q = p then none else σ.get q := by
  have hstat : M σ ⟨.other, .f_stat p⟩ (σ.stat p) σ := hM _ _ _ _ rfl
  cases he : σ.get p with
  | none =>
    refine ⟨σ, ?_, fun q => ?_⟩
    · have hs : σ.stat p = .error (σ.missing p) := by rw [SD.stat, he]
      rw [hs] at hstat
      refine .call hstat ?_
      have hm : σ.missing p = .FR_NO_FILE ∨ σ.missing p = .FR_NO_PATH := by
        unfold SD.missing
        split
        · exact .inl rfl
        · exact .inr rfl
      show Run _ (.ret (if σ.missing p = .FR_NO_FILE ∨ σ.missing p = .FR_NO_PATH then
        FRESULT.FR_OK else σ.missing p)) σ _ σ
      rw [if_pos hm]
      exact .ret _ _
    · by_cases hq : q = p
      · rw [if_pos hq, hq, he]
      · rw [if_neg hq]
  | some e =>
    cases e with
    | dir => exact absurd he hσ
    | file b =>
      have hdel : σ.CanDel p := ⟨hp, FileTree.childless_iff.mpr fun k =>
        FileTree.get_append_of_not_dir hσ (by simp)⟩
      have hunlink : M σ ⟨.other, .f_unlink p⟩ .FR_OK (σ.del p hdel) := by
        refine hM _ _ _ _ ?_
        simp only [SD.Works, SD.answer]
        rw [dif_pos ⟨by rw [he]; simp, hdel⟩]
      have hs : σ.stat p = .ok ⟨false, b.length⟩ := by rw [SD.stat, he]
      rw [hs] at hstat
      refine ⟨σ.del p hdel, .call hstat ?_, fun q => FileTree.get_del σ p q hdel⟩
      refine .call hunlink ?_
      show Run _ (.ret (unlinked .FR_OK)) _ _ _
      rw [hu]
      exact .ret _ _

/-- The temporary file can be created where the old one was removed. -/
theorem JournalFiles.Laid.run_start (short : Bool) (hl : j.Laid σ) (hu : unlinked .FR_OK = .FR_OK)
    (depth : ℕ) :
    ∃ τ τ₁, Run (faulty short) (mkdir_if_needed j.root) σ (some .FR_OK) τ ∧
      Run (faulty short) (removePath unlinked depth j.tmp) τ (some .FR_OK) τ₁ ∧
      τ₁.get j.root = some .dir ∧ τ₁.get j.state = σ.get j.state ∧ τ₁.get j.tmp = none := by
  obtain ⟨τ, hmk, hdir, hother⟩ := hl.run_mkdir short
  have htr : j.tmp ≠ j.root := by simp [JournalFiles.tmp]
  have hsr : j.state ≠ j.root := by simp [JournalFiles.state]
  have hfile : τ.get j.tmp ≠ some .dir := by
    rw [hother _ htr]
    exact hl.tmp
  obtain ⟨τ₁, hrm, hget⟩ :=
    (working_faulty short).run_removePath hu depth (by simp [JournalFiles.tmp]) hfile
  refine ⟨τ, τ₁, hmk, hrm, ?_, ?_, ?_⟩
  · rw [hget, if_neg htr.symm, hdir]
  · rw [hget, if_neg j.state_ne_tmp, hother _ hsr]
  · rw [hget, if_pos rfl]

/-- A write may stop after `n` bytes. -/
theorem faulty_stops (short : Bool) {p : FsPath} {b data : Bytes} {res : FRESULT} {n : ℕ} (s : Site)
    (hσ : σ.get p = some (.file b)) (hn : n ≤ data.length)
    (hres : res ≠ .FR_OK ∨ n < data.length ∧ short = true) :
    ∃ τ, faulty short σ ⟨s, .f_write p data⟩ (res, n) τ ∧
      ∀ q, τ.get q = if q = p then some (.file (b ++ data.take n)) else σ.get q := by
  obtain ⟨τ, hτ⟩ := SD.append_isSome hσ (data.take n)
  obtain ⟨b', hb', hget⟩ := SD.append_eq_some hτ
  rw [hσ] at hb'
  cases hb'
  refine ⟨τ, .inr (.inr ⟨⟨hn, hres.imp id And.left, hτ⟩, ?_⟩), hget⟩
  rcases hres with h | ⟨-, h⟩
  · exact .inr h
  · exact .inl h

/-- The temporary file is created, and the write of the token stops after `n` bytes. -/
theorem run_create_stop (short : Bool) (res : FRESULT) {n : ℕ} (hroot : σ.get j.root = some .dir)
    (htmp : σ.get j.tmp = none) (hn : n ≤ t.length)
    (hres : res ≠ .FR_OK ∨ n < t.length ∧ short = true) :
    ∃ τ τ₁, faulty short σ ⟨.other, .f_create j.tmp⟩ .FR_OK τ ∧
      faulty short τ ⟨.other, .f_write j.tmp t⟩ (res, n) τ₁ ∧
      ∀ q, τ₁.get q = if q = j.tmp then some (.file (t.take n)) else σ.get q := by
  have hput : σ.CanPut j.tmp := by
    refine ⟨by simp [JournalFiles.tmp], ?_, by rw [htmp]; simp⟩
    rw [JournalFiles.tmp, List.dropLast_concat, hroot]
  have hcreate : faulty short σ ⟨.other, .f_create j.tmp⟩ .FR_OK (σ.put j.tmp (.file []) hput) := by
    left
    simp only [SD.Works, SD.answer]
    rw [dif_pos hput]
  have hempty : (σ.put j.tmp (.file []) hput).get j.tmp = some (.file []) := by simp
  obtain ⟨τ₁, hwrite, hget⟩ := faulty_stops short .other hempty hn hres
  refine ⟨_, τ₁, hcreate, hwrite, fun q => ?_⟩
  rw [hget, List.nil_append, FileTree.get_put]
  split
  · rfl
  · rfl

/-- The only copy of the previous token is removed before the new one is written. -/
theorem JournalFiles.Laid.run_forgets (short : Bool) (hl : j.Laid σ) (hu : unlinked .FR_OK = .FR_OK)
    (depth : ℕ) (hstate : σ.tokenAt j.state = none) :
    ∃ σ', Run (faulty short) (writeState j unlinked depth t) σ none σ' ∧ j.token σ' = none := by
  obtain ⟨τ, τ₁, hmk, hrm, -, hs, htmp⟩ := hl.run_start short hu depth
  refine ⟨τ₁, ?_, ?_⟩
  · rw [writeState]
    simp only [Prog.bind_eq, Prog.pure_eq]
    exact hmk.bind (hrm.bind (.cut _ _))
  · have h1 : τ₁.tokenAt j.state = none := by rw [SD.tokenAt, hs, ← SD.tokenAt, hstate]
    have h2 : τ₁.tokenAt j.tmp = none := by rw [SD.tokenAt, htmp]
    rw [JournalFiles.token, h1, h2]
    rfl

/-- When the journal file holds no token, the first byte of a longer one passes for it. -/
theorem JournalFiles.Laid.run_prefix (short : Bool) (hl : j.Laid σ) (hu : unlinked .FR_OK = .FR_OK)
    (depth : ℕ) (hstate : σ.tokenAt j.state = none) (ht : IsToken t) (h2 : 2 ≤ t.length) :
    ∃ σ', Run (faulty short) (writeState j unlinked depth t) σ none σ' ∧
      j.token σ' = some (t.take 1) := by
  obtain ⟨τ, τ₁, hmk, hrm, hroot, hs, htmp⟩ := hl.run_start short hu depth
  obtain ⟨τ₂, τ₃, hcreate, hwrite, hget⟩ := run_create_stop (t := t) (n := 1) short .FR_DISK_ERR
    hroot htmp (by omega) (.inl nofun)
  refine ⟨τ₃, ?_, ?_⟩
  · rw [writeState, writeToken]
    simp only [Prog.bind_eq, Prog.pure_eq]
    exact hmk.bind (hrm.bind (Run.bind_cut (.call hcreate (.call hwrite (.cut _ _)))))
  · have h1 : τ₃.tokenAt j.state = none := by
      rw [SD.tokenAt, hget, if_neg j.state_ne_tmp, hs, ← SD.tokenAt, hstate]
    have h2 : τ₃.tokenAt j.tmp = some (t.take 1) := by
      rw [SD.tokenAt, hget, if_pos rfl]
      exact parseState_take_one ht.1
    rw [JournalFiles.token, h1, h2]
    rfl

/-- A write of nothing that returns `FR_OK` goes unnoticed, and leaves no token at all. -/
theorem JournalFiles.Laid.run_unnoticed (hl : j.Laid σ) (hu : unlinked .FR_OK = .FR_OK)
    (depth : ℕ) (hstrict : j.strict = false) (ht : 0 < t.length) :
    ∃ σ', Run (faulty true) (writeState j unlinked depth t) σ (some .FR_OK) σ' ∧
      j.token σ' = none := by
  obtain ⟨τ, τ₁, hmk, hrm, hroot, hs, htmp⟩ := hl.run_start true hu depth
  obtain ⟨τ₂, τ₃, hcreate, hwrite, hget⟩ := run_create_stop (t := t) (n := 0) true .FR_OK
    hroot htmp (by omega) (.inr ⟨ht, rfl⟩)
  have hstate : τ₃.get j.state ≠ some .dir := by
    rw [hget, if_neg j.state_ne_tmp, hs]
    exact hl.state
  obtain ⟨τ₄, hrm₄, hget₄⟩ :=
    (working_faulty true).run_removePath hu depth (by simp [JournalFiles.state]) hstate
  have htmp₄ : τ₄.get j.tmp = some (.file []) := by
    rw [hget₄, if_neg j.state_ne_tmp.symm, hget, if_pos rfl, List.take_zero]
  have hroot₄ : τ₄.get j.root = some .dir := by
    rw [hget₄, if_neg (by simp [JournalFiles.state]), hget, if_neg (by simp [JournalFiles.tmp]),
      hroot]
  have hmove : τ₄.CanMove j.tmp j.state := by
    refine ⟨by simp [JournalFiles.tmp], by simp [JournalFiles.state], by rw [htmp₄]; simp,
      by rw [hget₄, if_pos rfl], ?_, j.not_tmp_prefix_state⟩
    rw [JournalFiles.state, List.dropLast_concat, hroot₄]
  have hrename : faulty true τ₄ ⟨.other, .f_rename j.tmp j.state⟩ .FR_OK
      (τ₄.move j.tmp j.state hmove) := by
    left
    simp only [SD.Works, SD.answer]
    rw [dif_pos hmove]
  have htoken : Run (faulty true) (writeToken j t) τ₁ (some .FR_OK) τ₃ := by
    have hsync : faulty true τ₃ ⟨.other, .f_sync j.tmp⟩ .FR_OK τ₃ := .inl rfl
    have hclose : faulty true τ₃ ⟨.other, .f_close j.tmp⟩ .FR_OK τ₃ := .inl rfl
    rw [writeToken]
    refine .call hcreate ?_
    refine .call hwrite ?_
    have hne : ¬ (0 = t.length) := by omega
    simp only [hstrict, hne, Bool.false_eq_true, and_false, if_false, writeNewline, decide_false,
      Prog.bind_eq, Prog.pure_eq, Prog.ret_bind, syncWritten, if_true]
    exact .call hsync (.call hclose (.ret _ _))
  refine ⟨τ₄.move j.tmp j.state hmove, ?_, ?_⟩
  · rw [writeState]
    simp only [Prog.bind_eq, Prog.pure_eq]
    exact hmk.bind (hrm.bind (htoken.bind (hrm₄.bind (.call hrename (.ret _ _)))))
  · rw [JournalFiles.token, SD.tokenAt, FileTree.get_eq_sub, FileTree.sub_move_dst,
      ← FileTree.get_eq_sub, htmp₄, SD.tokenAt, FileTree.get_move_src]
    rfl

end losses

/-! ## The two updaters -/

/-- The payload's two updaters. -/
inductive Updater : Type where
  | app | cfw

namespace Updater

def journal : Updater → JournalFiles
  | app => AppUpdater.journal
  | cfw => CfwUpdater.journal

/-- What `remove_path` of the updater makes of the result of `f_unlink`. -/
def unlinked : Updater → FRESULT → FRESULT
  | app => fun res => if res = .FR_NO_FILE then .FR_OK else res
  | cfw => id

/-- `write_state` of the updater, for any text. -/
def write_state (u : Updater) (depth : ℕ) (text : Bytes) : Prog FatFs FRESULT :=
  writeState u.journal u.unlinked depth text

example (depth : ℕ) (state : AppUpdater.State) :
    AppUpdater.write_state depth state = app.write_state depth state.text := rfl

example (depth : ℕ) (state : CfwUpdater.State) :
    CfwUpdater.write_state depth state = cfw.write_state depth state.text := rfl

/-- Wherever a run of `write_state` ends, a following `read_state` yields what it would have
yielded before, or the new token; after `FR_OK` it yields the new token. -/
def Atomic (u : Updater) (short : Bool) (depth : ℕ) (t : Bytes) (σ : SD) : Prop :=
  ∀ out σ', Run (faulty short) (u.write_state depth t) σ out σ' →
    (∀ o, u.journal.Yields σ' o → u.journal.Yields σ o ∨ o = some t) ∧
      (out = some .FR_OK → ∀ o, u.journal.Yields σ' o → o = some t)

/-- Either `state` itself holds a token, or there is no token to lose and the new one has no
proper prefix; and no short count goes unnoticed. -/
def Guarded (u : Updater) (short : Bool) (t : Bytes) (σ : SD) : Prop :=
  (σ.tokenAt u.journal.state ≠ none ∨ u.journal.token σ = none ∧ t.length = 1) ∧
    (u = app ∨ short = false)

theorem unlinked_ok (u : Updater) : u.unlinked .FR_OK = .FR_OK := by
  cases u
  · rfl
  · rfl

theorem strict_iff (u : Updater) : u.journal.strict = true ↔ u = app := by
  cases u
  · exact ⟨fun _ => rfl, fun _ => rfl⟩
  · exact ⟨nofun, nofun⟩

/-- A journal survives `write_state` exactly when it is guarded. -/
theorem write_state_atomic (u : Updater) (short : Bool) (depth : ℕ) (t : Bytes) (σ : SD)
    (ht : IsToken t) (hl : u.journal.Laid σ) : u.Atomic short depth t σ ↔ u.Guarded short t σ := by
  have hpos : 0 < t.length := by
    rcases t with _ | ⟨c, t⟩
    · cases ht.1
    · simp
  have hu := u.unlinked_ok
  constructor
  · intro h
    have hcut : ∀ σ', Run (faulty short) (u.write_state depth t) σ none σ' →
        u.journal.token σ' = u.journal.token σ ∨ u.journal.token σ' = some t := by
      intro σ' hrun
      rcases (h _ _ hrun).1 _ (JournalFiles.yields_iff.mpr rfl) with hy | hy
      · exact .inl (JournalFiles.yields_iff.mp hy)
      · exact .inr hy
    refine ⟨?_, ?_⟩
    · by_cases hstate : σ.tokenAt u.journal.state = none
      swap
      · exact .inl hstate
      right
      -- cut behind the removal of the temporary file, nothing can be read
      obtain ⟨σ', hrun, hnone⟩ := hl.run_forgets (t := t) short hu depth hstate
      have hprev : u.journal.token σ = none := by
        rcases hcut σ' hrun with hk | hk
        · rw [← hk, hnone]
        · rw [hnone] at hk
          cases hk
      refine ⟨hprev, ?_⟩
      by_contra hlen
      -- cut within the write, a front of the token can be read
      obtain ⟨σ₁, hrun₁, htok⟩ := hl.run_prefix short hu depth hstate ht (by omega)
      rcases hcut σ₁ hrun₁ with hk | hk
      · rw [htok, hprev] at hk
        cases hk
      · rw [htok] at hk
        have := congrArg List.length (Option.some.inj hk)
        rw [List.length_take] at this
        omega
    · by_contra hcon
      push Not at hcon
      obtain ⟨hcfw, hshort⟩ := hcon
      obtain rfl : short = true := by simpa using hshort
      have hstrict : u.journal.strict = false := by
        rw [← Bool.not_eq_true]
        exact fun hs => hcfw (u.strict_iff.mp hs)
      obtain ⟨σ', hrun, hnone⟩ := hl.run_unnoticed hu depth hstrict hpos
      have := (h _ _ hrun).2 rfl _ (JournalFiles.yields_iff.mpr rfl)
      rw [hnone] at this
      cases this
  · rintro ⟨hsafe, hshort⟩ out σ' hrun
    have hwp : wp (faulty short) (u.journal.Kept t σ)
        (fun r σ' => r = FRESULT.FR_OK → u.journal.token σ' = some t)
        (writeState u.journal u.unlinked depth t) σ :=
      wp_writeState_faulty hu depth ht hsafe
      (hshort.imp u.strict_iff.mpr id)
    refine ⟨fun o ho => ?_, ?_⟩
    · rw [JournalFiles.yields_iff] at ho ⊢
      rw [ho]
      have hkept : u.journal.Kept t σ σ' := wp_end hwp hrun
      exact hkept
    · rintro rfl o ho
      rw [JournalFiles.yields_iff] at ho
      rw [ho]
      exact wp_sound hwp hrun rfl

/-- A card whose journal file is `state`. -/
def plainCard : SD := SD.build
  [(AppUpdater.APP_UPDATE_ROOT, .dir),
   (AppUpdater.APP_UPDATE_STATE, .file (AppUpdater.State.STAGED.text ++ [10]))]

/-- The application updater advances its journal. -/
theorem write_state_atomic_plain :
    app.Atomic true 5 AppUpdater.State.BACKUP_IN_PROGRESS.text plainCard := by
  have ht : IsToken AppUpdater.State.BACKUP_IN_PROGRESS.text := by decide
  have hl : app.journal.Laid plainCard := ⟨.inl (by decide), by decide, by decide⟩
  have hg : app.Guarded true AppUpdater.State.BACKUP_IN_PROGRESS.text plainCard :=
    ⟨.inl (by decide), .inl rfl⟩
  exact (write_state_atomic app true 5 _ _ ht hl).mpr hg

/-- A card whose journal was cut between its last two calls: the token is in `state.tmp`. -/
def strandedCard : SD := SD.build
  [(CfwUpdater.UPDATE_ROOT, .dir),
   (CfwUpdater.UPDATE_STATE_TMP, .file (CfwUpdater.State.COPY_COMPLETE.text ++ [10]))]

/-- The next `write_state` removes `state.tmp` first; cut there, it leaves no token. -/
theorem stranded_token_lost :
    ¬ ∀ (u : Updater) (short : Bool) (depth : ℕ) (t : Bytes) (σ : SD),
      IsToken t → u.journal.Laid σ → u.Atomic short depth t σ := by
  intro h
  have ht : IsToken CfwUpdater.State.FINALIZE_PAYLOAD.text := by decide
  have hl : cfw.journal.Laid strandedCard := ⟨.inl (by decide), by decide, by decide⟩
  obtain ⟨σ', hrun, hnone⟩ := hl.run_forgets (t := CfwUpdater.State.FINALIZE_PAYLOAD.text) false
    cfw.unlinked_ok 5 (by decide)
  rcases (h cfw false 5 _ strandedCard ht hl none σ' hrun).1 none
    (JournalFiles.yields_iff.mpr hnone.symm) with hy | hy
  · have htok : cfw.journal.token strandedCard ≠ none := by decide
    exact htok (JournalFiles.yields_iff.mp hy).symm
  · cases hy

end Updater
