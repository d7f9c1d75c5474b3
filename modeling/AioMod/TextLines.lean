/-
# Lines of a text

A text is read line by line: a line ends before each terminator `nl`, and what stands behind the
last terminator is a line of its own unless it is empty.  Written again, each line gets an ending,
the last one only on demand.

Nothing here depends on a particular program.
-/
import Mathlib

namespace TextLines

variable {α : Type} [DecidableEq α] {nl : α}

/-- The lines that reading up to `nl` again and again gives. -/
def getlines (nl : α) : List α → List (List α)
  | [] => []
  | c :: cs =>
    if c = nl then [] :: getlines nl cs
    else
      match getlines nl cs with
      | [] => [[c]]
      | l :: ls => (c :: l) :: ls

/-- The lines, each with the ending `eol`, the last one only if `trailing`. -/
def join (eol : List α) (trailing : Bool) : List (List α) → List α
  | [] => []
  | [l] => l ++ if trailing then eol else []
  | l :: l' :: ls => l ++ eol ++ join eol trailing (l' :: ls)

/-- Whether a text ends with a terminator. -/
def endsWith (nl : α) (text : List α) : Bool := text.getLast? = some nl

omit [DecidableEq α] in
@[simp] theorem join_nil (eol : List α) (trailing : Bool) : join eol trailing [] = [] := rfl

omit [DecidableEq α] in
theorem join_cons {eol : List α} {trailing : Bool} {l : List α} {ls : List (List α)}
    (h : ls ≠ []) : join eol trailing (l :: ls) = l ++ eol ++ join eol trailing ls := by
  cases ls with
  | nil => exact absurd rfl h
  | cons l' ls => rfl

@[simp] theorem getlines_nil : getlines nl [] = [] := rfl

theorem getlines_terminator (cs : List α) : getlines nl (nl :: cs) = [] :: getlines nl cs := by
  simp [getlines]

theorem getlines_eq_nil {text : List α} : getlines nl text = [] ↔ text = [] := by
  cases text with
  | nil => simp
  | cons c cs =>
    simp only [getlines, reduceCtorEq, iff_false]
    split
    · simp
    · split
      · simp
      · simp

/-- A line in front of a terminator. -/
theorem getlines_append {l : List α} (hl : nl ∉ l) (cs : List α) :
    getlines nl (l ++ nl :: cs) = l :: getlines nl cs := by
  induction l with
  | nil => exact getlines_terminator cs
  | cons c l ih =>
    have hc : c ≠ nl := fun h => hl (h ▸ List.mem_cons_self)
    have hl' : nl ∉ l := fun h => hl (List.mem_cons_of_mem c h)
    rw [List.cons_append, getlines, if_neg hc, ih hl']

/-- A text without a terminator is one line, unless it is empty. -/
theorem getlines_single {l : List α} (hl : nl ∉ l) (hne : l ≠ []) : getlines nl l = [l] := by
  induction l with
  | nil => exact absurd rfl hne
  | cons c l ih =>
    have hc : c ≠ nl := fun h => hl (h ▸ List.mem_cons_self)
    have hl' : nl ∉ l := fun h => hl (List.mem_cons_of_mem c h)
    rw [getlines, if_neg hc]
    by_cases hnil : l = []
    · subst hnil
      rfl
    · rw [ih hl' hnil]

/-- No line has a terminator in it. -/
theorem notMem_of_mem_getlines {text l : List α} (h : l ∈ getlines nl text) : nl ∉ l := by
  induction text generalizing l with
  | nil => cases h
  | cons c cs ih =>
    rw [getlines] at h
    split at h
    · rcases List.mem_cons.mp h with rfl | h
      · simp
      · exact ih h
    · rename_i hc
      split at h
      · rw [List.mem_singleton.mp h]
        simpa using fun h => hc h.symm
      · rename_i l' ls hls
        rcases List.mem_cons.mp h with rfl | h
        · have hl' := ih (l := l') (by rw [hls]; simp)
          simp only [List.mem_cons, not_or]
          exact ⟨fun h => hc h.symm, hl'⟩
        · exact ih (by rw [hls]; exact List.mem_cons_of_mem _ h)

/-- A text that ends without a terminator ends with a line that is not empty. -/
theorem getLast_getlines {text : List α} (h : endsWith nl text = false) (hne : text ≠ []) :
    ∃ ls l, getlines nl text = ls ++ [l] ∧ l ≠ [] ∧ l.getLast? = text.getLast? := by
  induction text with
  | nil => exact absurd rfl hne
  | cons c cs ih =>
    by_cases hcs : cs = []
    · subst hcs
      have hc : c ≠ nl := by simpa [endsWith] using h
      exact ⟨[], [c], by simp [getlines, hc], by simp, rfl⟩
    · have hlast : (c :: cs).getLast? = cs.getLast? := by
        rw [List.getLast?_cons, List.getLast?_eq_getLast_of_ne_nil hcs]
        rfl
      have hends : endsWith nl cs = false := by
        unfold endsWith at h ⊢
        rw [← hlast]
        exact h
      obtain ⟨ls, l, hls, hl, hl'⟩ := ih hends hcs
      rw [getlines, hls, hlast]
      split
      · exact ⟨[] :: ls, l, rfl, hl, hl'⟩
      · cases ls with
        | nil =>
          refine ⟨[], c :: l, rfl, by simp, ?_⟩
          rw [List.getLast?_cons, List.getLast?_eq_getLast_of_ne_nil hl, ← hl',
            List.getLast?_eq_getLast_of_ne_nil hl]
          rfl
        | cons l' ls => exact ⟨(c :: l') :: ls, l, rfl, hl, hl'⟩

/-- Lines read and written again are the text. -/
theorem join_getlines (text : List α) :
    join [nl] (endsWith nl text) (getlines nl text) = text := by
  induction text with
  | nil => rfl
  | cons c cs ih =>
    by_cases hcs : cs = []
    · subst hcs
      by_cases hc : c = nl
      · simp [getlines, join, endsWith, hc]
      · simp [getlines, join, endsWith, hc]
    · have hends : endsWith nl (c :: cs) = endsWith nl cs := by
        unfold endsWith
        rw [List.getLast?_cons, List.getLast?_eq_getLast_of_ne_nil hcs]
        rfl
      have hne : getlines nl cs ≠ [] := mt getlines_eq_nil.mp hcs
      rw [hends, getlines]
      split
      · rename_i hc
        rw [join_cons hne, ih, hc]
        rfl
      · split
        · rename_i hnil
          exact absurd hnil hne
        · rename_i l ls hls
          rw [hls] at ih
          cases ls with
          | nil =>
            rw [join] at ih ⊢
            rw [List.cons_append, ih]
          | cons l' ls =>
            rw [join] at ih ⊢
            rw [List.cons_append, List.cons_append, ih]

/-- Lines written and read again, when the last one can be seen. -/
theorem getlines_join {trailing : Bool} {ls : List (List α)} (hls : ∀ l ∈ ls, nl ∉ l)
    (hlast : trailing = false → ls.getLast? ≠ some []) :
    getlines nl (join [nl] trailing ls) = ls := by
  induction ls with
  | nil => rfl
  | cons l ls ih =>
    have hl : nl ∉ l := hls l List.mem_cons_self
    by_cases hnil : ls = []
    · subst hnil
      cases trailing with
      | true => exact getlines_append hl []
      | false =>
        have hne : l ≠ [] := by simpa using hlast rfl
        simpa [join] using getlines_single hl hne
    · rw [join_cons hnil, List.append_assoc]
      show getlines nl (l ++ nl :: join [nl] trailing ls) = l :: ls
      rw [getlines_append hl, ih (fun l' h => hls l' (List.mem_cons_of_mem _ h)) ?_]
      intro ht
      have h := hlast ht
      rw [List.getLast?_cons, List.getLast?_eq_getLast_of_ne_nil hnil] at h
      rw [List.getLast?_eq_getLast_of_ne_nil hnil]
      exact h

omit [DecidableEq α] in
/-- A line in its place among the written lines. -/
theorem join_middle {eol : List α} {trailing : Bool} (ls : List (List α)) (l : List α)
    (ls' : List (List α)) :
    join eol trailing (ls ++ l :: ls') = (ls.flatMap fun l => l ++ eol) ++ l ++
      (if ls' = [] then (if trailing then eol else []) else eol ++ join eol trailing ls') := by
  induction ls with
  | nil =>
    cases ls' with
    | nil => simp [join]
    | cons l' ls' => simp [join]
  | cons k ls ih =>
    rw [List.cons_append, join_cons (by simp), ih]
    simp

/-! ## Lines with and without a terminator -/

omit [DecidableEq α] in
/-- The first terminator of a text. -/
theorem first_terminator {l l' : List α} (hl : nl ∉ l) (hl' : nl ∉ l') {cs cs' : List α}
    (h : l ++ nl :: cs = l' ++ nl :: cs') : l = l' ∧ cs = cs' := by
  induction l generalizing l' with
  | nil =>
    cases l' with
    | nil => exact ⟨rfl, (List.cons.inj h).2⟩
    | cons c l' => exact absurd (List.cons.inj h).1 fun hc => hl' (hc ▸ List.mem_cons_self)
  | cons c l ih =>
    cases l' with
    | nil => exact absurd (List.cons.inj h).1.symm fun hc => hl (hc ▸ List.mem_cons_self)
    | cons c' l' =>
      rw [List.cons_append, List.cons_append] at h
      obtain ⟨rfl, htail⟩ := List.cons.inj h
      obtain ⟨rfl, rfl⟩ := ih (fun h => hl (List.mem_cons_of_mem _ h))
        (fun h => hl' (List.mem_cons_of_mem _ h)) htail
      exact ⟨rfl, rfl⟩

/-- The lines that have a terminator. -/
def terminated (trailing : Bool) (ls : List (List α)) : List (List α) :=
  if trailing then ls else ls.dropLast

/-- The line that has none. -/
def unterminated (trailing : Bool) (ls : List (List α)) : Option (List α) :=
  if trailing then none else ls.getLast?

omit [DecidableEq α] in
theorem terminated_cons {trailing : Bool} {l : List α} {ls : List (List α)} (h : ls ≠ []) :
    terminated trailing (l :: ls) = l :: terminated trailing ls := by
  cases trailing with
  | true => rfl
  | false => exact List.dropLast_cons_of_ne_nil h

omit [DecidableEq α] in
theorem unterminated_cons {trailing : Bool} {l : List α} {ls : List (List α)} (h : ls ≠ []) :
    unterminated trailing (l :: ls) = unterminated trailing ls := by
  cases trailing with
  | true => rfl
  | false => exact List.getLast?_cons_of_ne_nil h

omit [DecidableEq α] in
/-- Changed lines with other endings are the same text exactly if each line with its ending is. -/
theorem join_map_iff {f : List α → List α} {e : List α} (trailing : Bool) (he : nl ∉ e)
    {ls : List (List α)} (hls : ∀ l ∈ ls, nl ∉ l) (hf : ∀ l ∈ ls, nl ∉ f l) :
    join (e ++ [nl]) trailing (ls.map f) = join [nl] trailing ls ↔
      (∀ l ∈ terminated trailing ls, f l ++ e = l) ∧
        ∀ l ∈ unterminated trailing ls, f l = l := by
  induction ls with
  | nil => cases trailing <;> simp [terminated, unterminated]
  | cons l ls ih =>
    have ih := ih (fun l h => hls l (List.mem_cons_of_mem _ h))
      (fun l h => hf l (List.mem_cons_of_mem _ h))
    by_cases hnil : ls = []
    · subst hnil
      cases trailing with
      | true =>
        simp only [List.map_cons, List.map_nil, join, if_true, terminated, unterminated,
          List.mem_singleton, forall_eq, Option.not_mem_none, false_imp_iff, implies_true, and_true]
        rw [← List.append_assoc, List.append_cancel_right_eq]
      | false => simp [join, terminated, unterminated]
    · have hmap : ls.map f ≠ [] := by simpa using hnil
      rw [terminated_cons hnil, unterminated_cons hnil, List.map_cons, join_cons hmap,
        join_cons hnil, List.forall_mem_cons, and_assoc, ← ih]
      have hassoc : f l ++ (e ++ [nl]) ++ join (e ++ [nl]) trailing (ls.map f)
          = (f l ++ e) ++ nl :: join (e ++ [nl]) trailing (ls.map f) := by simp
      have hassoc' : l ++ [nl] ++ join [nl] trailing ls = l ++ nl :: join [nl] trailing ls := by simp
      rw [hassoc, hassoc']
      constructor
      · intro h
        refine first_terminator ?_ (hls l List.mem_cons_self) h
        rw [List.mem_append, not_or]
        exact ⟨hf l List.mem_cons_self, he⟩
      · rintro ⟨h, h'⟩
        rw [h, h']

omit [DecidableEq α] in
/-- What stands before each terminator of a text, for a property that looks only at the last
line. -/
theorem forall_split_iff {P : List α → Prop} (hP : ∀ l p, P (l ++ nl :: p) ↔ P p)
    {trailing : Bool} {ls : List (List α)} (hls : ∀ l ∈ ls, nl ∉ l) :
    (∀ p q, join [nl] trailing ls = p ++ nl :: q → P p) ↔ ∀ l ∈ terminated trailing ls, P l := by
  induction ls with
  | nil =>
    cases trailing <;> simp [terminated]
  | cons l ls ih =>
    have hl := hls l List.mem_cons_self
    have ih := ih fun l h => hls l (List.mem_cons_of_mem _ h)
    by_cases hnil : ls = []
    · subst hnil
      cases trailing with
      | true =>
        simp only [join, if_true, terminated, List.mem_singleton, forall_eq]
        constructor
        · intro h
          exact h l [] rfl
        · intro h p q hpq
          by_cases hp : nl ∈ p
          · obtain ⟨p₁, p₂, rfl, hp₁⟩ := List.eq_append_cons_of_mem hp
            rw [List.append_assoc] at hpq
            obtain ⟨-, hnone⟩ := first_terminator hl hp₁ hpq
            simp at hnone
          · obtain ⟨rfl, -⟩ := first_terminator hl hp hpq
            exact h
      | false =>
        simp only [join, terminated]
        constructor
        · intro _ l' hl'
          cases hl'
        · intro _ p q hpq
          refine absurd ?_ hl
          simp only [Bool.false_eq_true, if_false, List.append_nil] at hpq
          rw [hpq]
          simp
    · rw [terminated_cons hnil, List.forall_mem_cons, ← ih, join_cons hnil]
      have hassoc : l ++ [nl] ++ join [nl] trailing ls = l ++ nl :: join [nl] trailing ls := by simp
      rw [hassoc]
      constructor
      · intro h
        refine ⟨h l _ rfl, ?_⟩
        intro p q hpq
        exact (hP l p).mp (h (l ++ nl :: p) q (by rw [hpq]; simp))
      · rintro ⟨h, h'⟩ p q hpq
        by_cases hp : nl ∈ p
        · obtain ⟨p₁, p₂, rfl, hp₁⟩ := List.eq_append_cons_of_mem hp
          rw [List.append_assoc] at hpq
          obtain ⟨rfl, hq⟩ := first_terminator hl hp₁ hpq
          exact (hP _ p₂).mpr (h' p₂ q hq)
        · obtain ⟨rfl, -⟩ := first_terminator hl hp hpq
          exact h

/-- What reading gives of lines with the ending `e` and a terminator: the last line is lost if it is
blank and has none. -/
theorem getlines_join_ending {e : List α} (he : nl ∉ e) {trailing : Bool} {ls : List (List α)}
    (hls : ∀ l ∈ ls, nl ∉ l) :
    getlines nl (join (e ++ [nl]) trailing ls) =
      (terminated trailing ls).map (· ++ e) ++
        (unterminated trailing ls).toList.filter (fun l => l ≠ []) := by
  induction ls with
  | nil => cases trailing <;> simp [terminated, unterminated]
  | cons l ls ih =>
    have hl := hls l List.mem_cons_self
    have hle : nl ∉ l ++ e := fun h => (List.mem_append.mp h).elim hl he
    by_cases hnil : ls = []
    · subst hnil
      cases trailing with
      | true =>
        have hassoc : join (e ++ [nl]) true [l] = (l ++ e) ++ [nl] := by simp [join]
        rw [hassoc, getlines_append hle]
        simp [terminated, unterminated]
      | false =>
        have hsame : join (e ++ [nl]) false [l] = l := by simp [join]
        rw [hsame]
        by_cases hblank : l = []
        · subst hblank
          simp [terminated, unterminated]
        · rw [getlines_single hl hblank]
          simp [terminated, unterminated, hblank]
    · have hassoc : join (e ++ [nl]) trailing (l :: ls) =
          (l ++ e) ++ nl :: join (e ++ [nl]) trailing ls := by
        rw [join_cons hnil]
        simp
      rw [hassoc, getlines_append hle, ih fun l h => hls l (List.mem_cons_of_mem _ h),
        terminated_cons hnil, unterminated_cons hnil]
      rfl

omit [DecidableEq α] in
theorem mem_iff_terminated (trailing : Bool) {ls : List (List α)} {l : List α} :
    l ∈ ls ↔ l ∈ terminated trailing ls ∨ l ∈ unterminated trailing ls := by
  cases trailing with
  | true => simp [terminated, unterminated]
  | false =>
    cases ls using List.reverseRecOn with
    | nil => simp [terminated, unterminated]
    | append_singleton ls l' => simp [terminated, unterminated, eq_comm]

end TextLines
