/-
# Texts as literals and repetitions

A text is given by tokens: a symbol, or a repetition of symbols that stand some way back.  A list of
tokens that factors a text, each repetition being one of the text, expands to it.  Nothing depends
on how tokens are written, or on how the repetitions were found.
-/
import Mathlib.Data.List.Basic
import Mathlib.Tactic.Common

namespace LzTokens

/-- A symbol, or so many symbols from so far back. -/
inductive Token (α : Type) where
  | literal (a : α)
  | copy (length offset : ℕ)

variable {α : Type}

/-- Symbol by symbol, each from `offset` places back; nothing stands before the beginning. -/
def copyBack (offset : ℕ) : ℕ → List α → Option (List α)
  | 0, out => some out
  | n + 1, out =>
    if offset ≤ out.length then
      match out[out.length - offset]? with
      | some a => copyBack offset n (out ++ [a])
      | none => none
    else none

/-- The text so far with one more token. -/
def emit (out : List α) : Token α → Option (List α)
  | .literal a => some (out ++ [a])
  | .copy length offset => copyBack offset length out

/-- The text of some tokens, behind the text so far. -/
def expand (out : List α) : List (Token α) → Option (List α)
  | [] => some out
  | t :: ts => (emit out t).bind fun out => expand out ts

/-- What stands at a place of a text stands `offset` places further back as well. -/
structure Repeats (text : List α) (pos offset length : ℕ) : Prop where
  positive : 0 < offset
  back : offset ≤ pos
  inside : pos + length ≤ text.length
  same : ∀ k < length, text[pos + k]? = text[pos + k - offset]?

/-- The tokens are those of the text from a place on. -/
inductive Factors (text : List α) : ℕ → List (Token α) → Prop where
  | done : Factors text text.length []
  | literal {pos : ℕ} {a : α} {ts : List (Token α)} (h : text[pos]? = some a)
      (hrest : Factors text (pos + 1) ts) : Factors text pos (.literal a :: ts)
  | copy {pos length offset : ℕ} {ts : List (Token α)} (h : Repeats text pos offset length)
      (hrest : Factors text (pos + length) ts) : Factors text pos (.copy length offset :: ts)

theorem take_succ_of_getElem? {text : List α} {pos : ℕ} {a : α} (h : text[pos]? = some a) :
    text.take pos ++ [a] = text.take (pos + 1) := by
  rw [List.take_add_one, h]
  rfl

theorem lt_of_getElem?_some {text : List α} {pos : ℕ} {a : α} (h : text[pos]? = some a) :
    pos < text.length := (List.getElem?_eq_some_iff.mp h).1

/-- A repetition of the text goes on with the text. -/
theorem copyBack_take {text : List α} {pos offset length : ℕ} (hpos : 0 < offset)
    (hback : offset ≤ pos) (hinside : pos + length ≤ text.length)
    (hsame : ∀ k < length, text[pos + k]? = text[pos + k - offset]?) :
    copyBack offset length (text.take pos) = some (text.take (pos + length)) := by
  induction length generalizing pos with
  | zero => rfl
  | succ n ih =>
    have hlen : (text.take pos).length = pos := by
      rw [List.length_take]
      omega
    have hlt : pos < text.length := by omega
    obtain ⟨a, ha⟩ : ∃ a, text[pos]? = some a := ⟨_, List.getElem?_eq_getElem hlt⟩
    have hget : (text.take pos)[pos - offset]? = some a := by
      rw [List.getElem?_take_of_lt (by omega), ← ha]
      exact (hsame 0 (by omega)).symm
    unfold copyBack
    rw [if_pos (hlen.symm ▸ hback), hlen, hget]
    dsimp only
    rw [take_succ_of_getElem? ha, ih (by omega) (by omega) ?_, Nat.add_right_comm, Nat.add_assoc]
    intro k hk
    rw [Nat.add_assoc, Nat.add_comm 1 k]
    exact hsame (k + 1) (by omega)

/-- A repetition is as long as it says. -/
theorem length_copyBack {offset n : ℕ} {out out' : List α}
    (h : copyBack offset n out = some out') : out'.length = out.length + n := by
  induction n generalizing out with
  | zero =>
    cases h
    rfl
  | succ n ih =>
    unfold copyBack at h
    split at h
    · split at h
      · rw [ih h, List.length_append, List.length_singleton]
        omega
      · cases h
    · cases h

/-- The first token goes on with the text. -/
theorem Factors.step {text : List α} {pos : ℕ} {t : Token α} {ts : List (Token α)}
    (h : Factors text pos (t :: ts)) :
    ∃ pos', emit (text.take pos) t = some (text.take pos') ∧ Factors text pos' ts := by
  cases h with
  | literal ha hrest =>
    refine ⟨pos + 1, ?_, hrest⟩
    rw [emit, take_succ_of_getElem? ha]
  | copy hrep hrest =>
    exact ⟨_, copyBack_take hrep.positive hrep.back hrep.inside hrep.same, hrest⟩

/-- Tokens are there for places of the text only. -/
theorem Factors.le {text : List α} {pos : ℕ} {ts : List (Token α)} (h : Factors text pos ts) :
    pos ≤ text.length := by
  cases h with
  | done => exact Nat.le_refl _
  | literal ha _ => exact Nat.le_of_lt (lt_of_getElem?_some ha)
  | copy hrep _ => exact Nat.le_trans (Nat.le_add_right _ _) hrep.inside

/-- Without tokens, the text has come to its end. -/
theorem Factors.end_eq {text : List α} {pos : ℕ} (h : Factors text pos []) : pos = text.length := by
  cases h
  rfl

/-- **A factored text is what its tokens expand to.** -/
theorem expand_of_factors {text : List α} {pos : ℕ} {ts : List (Token α)}
    (h : Factors text pos ts) : expand (text.take pos) ts = some text := by
  induction ts generalizing pos with
  | nil => rw [h.end_eq, List.take_length, expand]
  | cons t ts ih =>
    obtain ⟨pos', hemit, hrest⟩ := h.step
    rw [expand, hemit]
    exact ih hrest

end LzTokens
