/-
# Scripted runs of the payload

A script says at which call the power is cut, which calls inside the copy
routines go wrong and in which order directories are listed.  Running a program
on a script computes a run of the payload's machine.
-/
import AioMod.FatFs

/-- What may go wrong with a call. -/
inductive Mishap : Type where
  | fails (e : FRESULT)
  | stops (e : FRESULT) (bytes : ℕ)

/-- A script: the number of calls before the cut, the mishaps by call number, and
the order in which directories are listed. -/
structure Script where
  calls : ℕ
  mishap : ℕ → Option Mishap
  order : List FSEntry_t → List FSEntry_t

namespace Script

/-- A run in which nothing goes wrong. -/
def undisturbed : Script where
  calls := 1000
  mishap _ := none
  order := id

/-- The answer to a call that fails with `e`. -/
def failed (e : FRESULT) : (fn : Fn) → Option fn.Res
  | .f_stat _ => some (.error e)
  | .f_open _ => some (.error e)
  | .f_read _ _ _ => some (.error e)
  | .ReadFolder _ => some (.error e)
  | .f_write _ _ => some (e, 0)
  | .malloc _ => some false
  | .launch_payload _ => some false
  | .hang => none
  | .f_mkdir _ => some e
  | .f_unlink _ => some e
  | .f_rename _ _ => some e
  | .f_create _ => some e
  | .f_sync _ => some e
  | .f_close _ => some e
  | .f_chmod _ => some e

/-- The answer to a call that goes wrong. -/
def wrong (σ : SD) (o : Op) : Mishap → Option (o.fn.Res × SD)
  | .fails e => if e = .FR_OK then none else (failed e o.fn).map fun r => (r, σ)
  | .stops e n =>
    match o with
    | ⟨.copy, .f_write p data⟩ =>
      if n ≤ data.length ∧ e ≠ .FR_OK then
        (σ.append p (data.take n)).map fun σ' => ((e, n), σ')
      else none
    | _ => none

/-- The answer to a call that works. -/
def right (order : List FSEntry_t → List FSEntry_t) (σ : SD) : (fn : Fn) → Option (fn.Res × SD)
  | .ReadFolder p =>
    if σ.get p = some .dir then
      if σ.IsListing p (order (σ.list p)) then some (.ok (order (σ.list p)), σ) else none
    else some (.error .FR_NO_PATH, σ)
  | fn => σ.answer fn

/-- The schedule a script describes, under a decidable fault model. -/
def sched (fails : SD → Op → Bool) (S : Script) (i : ℕ) (σ : SD) (o : Op) :
    Option (o.fn.Res × SD) :=
  if S.calls ≤ i then none
  else match S.mishap i with
    | none => right S.order σ o.fn
    | some m => if fails σ o then wrong σ o m else none

theorem right_works {order : List FSEntry_t → List FSEntry_t} {σ σ' : SD} {fn : Fn} {r : fn.Res}
    (h : right order σ fn = some (r, σ')) : σ.Works fn r σ' := by
  cases fn with
  | ReadFolder p =>
    simp only [right] at h
    split at h
    · next hd =>
      split at h
      · next hl =>
        cases h
        exact ⟨rfl, by rw [if_pos hd]; exact ⟨_, rfl, hl⟩⟩
      · cases h
    · next hd =>
      cases h
      exact ⟨rfl, by rw [if_neg hd]⟩
  | _ => exact h

theorem failed_fails {e : FRESULT} (he : e ≠ .FR_OK) {fn : Fn} {r : fn.Res}
    (h : failed e fn = some r) : SD.Fails fn r := by
  cases fn <;> simp only [failed, Option.some.injEq, reduceCtorEq] at h <;> subst h <;>
    simp [SD.Fails, he]

theorem wrong_fails {σ σ' : SD} {o : Op} {m : Mishap} {r : o.fn.Res}
    (h : wrong σ o m = some (r, σ')) :
    SD.Fails o.fn r ∧ σ' = σ ∨ o.site = .copy ∧ σ.Stops o.fn r σ' := by
  cases m with
  | fails e =>
    simp only [wrong] at h
    split at h
    · cases h
    · next he =>
      obtain ⟨r', hr, hx⟩ := Option.map_eq_some_iff.mp h
      cases hx
      exact .inl ⟨failed_fails he hr, rfl⟩
  | stops e n =>
    simp only [wrong] at h
    split at h
    · next p data =>
      split at h
      · next hn =>
        obtain ⟨τ, hτ, hx⟩ := Option.map_eq_some_iff.mp h
        cases hx
        exact .inr ⟨rfl, hn.1, .inl hn.2, hτ⟩
      · cases h
    · cases h

/-- The end of a scripted run: the result, or none when it is cut, and the card. -/
def play (fails : SD → Op → Bool) (S : Script) {α : Type} (p : Prog FatFs α) (σ : SD) :
    Option α × SD :=
  p.follow (I := FatFs) (S.sched fails) 0 σ

/-- A scripted run is a run. -/
theorem run {fails : SD → Op → Bool} {F : SD → Op → Prop} (hF : ∀ σ o, fails σ o = true → F σ o)
    (S : Script) {α : Type} (p : Prog FatFs α) (σ : SD) :
    Run (payload F) p σ (S.play fails p σ).1 (S.play fails p σ).2 := by
  refine Prog.follow_run (I := FatFs) (fun i s o r s' h => ?_) p 0 σ
  simp only [sched] at h
  split at h
  · cases h
  · split at h
    · exact .inl (right_works h)
    · split at h
      · next hf => exact .inr ⟨hF s o hf, wrong_fails h⟩
      · cases h

end Script

/-- The fault model `copiesMayFail`, as a test. -/
def copyFails : SD → Op → Bool := fun _ o => o.site = .copy

theorem copyFails_sound (σ : SD) (o : Op) (h : copyFails σ o = true) : copiesMayFail σ o := by
  simpa [copyFails, copiesMayFail] using h

/-! ## Writing down an SD card -/

/-- A tree with the given directories and files, each put in turn. -/
def SD.build (es : List (FsPath × Entry Bytes)) : SD :=
  es.foldl (fun σ e => if h : σ.CanPut e.1 then σ.put e.1 e.2 h else σ)
    FileTree.empty
