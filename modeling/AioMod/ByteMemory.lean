/-
# A memory of cells

A memory gives what stands at each address.  It holds a list at an address if the elements stand
there one behind the other, and a list stays where it is when only other addresses are written.  A
range that is moved upwards word by word may be moved onto itself, if its last word goes first.
Nothing depends on what the cells hold.
-/
import Mathlib.Data.List.GetD
import Mathlib.Logic.Function.Basic
import Mathlib.Tactic.Common

namespace ByteMemory

/-- What stands at each address. -/
abbrev Memory (α : Type) := ℕ → α

variable {α : Type} {mem mem' mem'' : Memory α} {addr lo hi : ℕ} {bs cs : List α}

/-! ## What a memory holds -/

/-- The list stands at an address. -/
def Holds (mem : Memory α) (addr : ℕ) (bs : List α) : Prop :=
  ∀ i b, bs[i]? = some b → mem (addr + i) = b

theorem holds_nil : Holds mem addr [] := by
  intro i b h
  cases h

theorem holds_cons {b : α} : Holds mem addr (b :: bs) ↔ mem addr = b ∧ Holds mem (addr + 1) bs := by
  constructor
  · intro h
    refine ⟨h 0 b rfl, fun i c hc => ?_⟩
    rw [Nat.add_assoc, Nat.add_comm 1 i]
    exact h (i + 1) c hc
  · rintro ⟨hb, hbs⟩ i c hc
    cases i with
    | zero =>
      rw [← Option.some.inj hc]
      exact hb
    | succ i =>
      rw [Nat.add_comm i 1, ← Nat.add_assoc]
      exact hbs i c hc

theorem holds_append :
    Holds mem addr (bs ++ cs) ↔ Holds mem addr bs ∧ Holds mem (addr + bs.length) cs := by
  induction bs generalizing addr with
  | nil => exact ⟨fun h => ⟨holds_nil, h⟩, fun h => h.2⟩
  | cons b bs ih =>
    have hplace : addr + (b :: bs).length = addr + 1 + bs.length := by
      rw [List.length_cons]
      omega
    rw [List.cons_append, holds_cons, holds_cons, ih, hplace, and_assoc]

theorem Holds.left (h : Holds mem addr (bs ++ cs)) : Holds mem addr bs := (holds_append.mp h).1

theorem Holds.right (h : Holds mem addr (bs ++ cs)) : Holds mem (addr + bs.length) cs :=
  (holds_append.mp h).2

/-- What a list ends with stands behind the rest. -/
theorem Holds.suffix (h : Holds mem addr bs) (hend : cs <:+ bs) :
    Holds mem (addr + (bs.length - cs.length)) cs := by
  obtain ⟨front, rfl⟩ := hend
  rw [List.length_append, Nat.add_sub_cancel]
  exact h.right

/-! ## What is not written -/

/-- Two memories differ only in a range. -/
def Within (lo hi : ℕ) (mem mem' : Memory α) : Prop := ∀ a, a < lo ∨ hi ≤ a → mem' a = mem a

theorem Within.refl (lo hi : ℕ) (mem : Memory α) : Within lo hi mem mem := fun _ _ => rfl

theorem Within.trans (h : Within lo hi mem mem') (h' : Within lo hi mem' mem'') :
    Within lo hi mem mem'' := fun a ha => (h' a ha).trans (h a ha)

theorem Within.mono {lo' hi' : ℕ} (h : Within lo hi mem mem') (hlo : lo' ≤ lo) (hhi : hi ≤ hi') :
    Within lo' hi' mem mem' := by
  intro a ha
  apply h
  omega

/-- What stands outside of the range still stands there. -/
theorem Holds.within (h : Holds mem addr bs) (hw : Within lo hi mem mem')
    (hout : addr + bs.length ≤ lo ∨ hi ≤ addr) : Holds mem' addr bs := by
  intro i b hb
  have hi' : i < bs.length := (List.getElem?_eq_some_iff.mp hb).1
  rw [hw (addr + i) (by omega)]
  exact h i b hb

/-! ## What is written -/

/-- One cell is written. -/
theorem within_update (mem : Memory α) (addr : ℕ) (b : α) :
    Within addr (addr + 1) mem (Function.update mem addr b) := by
  intro a ha
  apply Function.update_of_ne
  omega

/-- A cell is written behind what is there. -/
theorem Holds.snoc (h : Holds mem addr bs) (b : α) :
    Holds (Function.update mem (addr + bs.length) b) addr (bs ++ [b]) := by
  apply holds_append.mpr
  constructor
  · exact h.within (within_update mem _ b) (.inl (Nat.le_refl _))
  · exact holds_cons.mpr ⟨Function.update_self .., holds_nil⟩

theorem within_snoc (mem : Memory α) (addr : ℕ) (bs : List α) (b : α) :
    Within (addr + bs.length) (addr + (bs ++ [b]).length) mem
      (Function.update mem (addr + bs.length) b) := by
  rw [List.length_append]
  exact within_update mem _ b

/-- A list is written. -/
def storeList (mem : Memory α) (addr : ℕ) (bs : List α) : Memory α := fun a =>
  if addr ≤ a then bs.getD (a - addr) (mem a) else mem a

theorem holds_storeList (mem : Memory α) (addr : ℕ) (bs : List α) :
    Holds (storeList mem addr bs) addr bs := by
  intro i b hb
  unfold storeList
  rw [if_pos (Nat.le_add_right addr i), Nat.add_sub_cancel_left, List.getD_eq_getElem?_getD, hb]
  rfl

theorem within_storeList (mem : Memory α) (addr : ℕ) (bs : List α) :
    Within addr (addr + bs.length) mem (storeList mem addr bs) := by
  intro a ha
  unfold storeList
  split
  · apply List.getD_eq_default
    omega
  · rfl

/-! ## Moving words -/

/-- A word of four cells is moved. -/
def moveWord (mem : Memory α) (src dst : ℕ) : Memory α := fun a =>
  if dst ≤ a ∧ a < dst + 4 then mem (src + (a - dst)) else mem a

/-- So many words are moved, from those at two addresses downwards. -/
def moveWords : ℕ → ℕ → ℕ → Memory α → Memory α
  | 0, _, _, mem => mem
  | n + 1, src, dst, mem => moveWords n (src - 4) (dst - 4) (moveWord mem src dst)

/-- Moved upwards, every word arrives as it was. -/
theorem moveWords_up (n : ℕ) {src dst : ℕ} (hup : src ≤ dst) (mem : Memory α) (a : ℕ) :
    moveWords n (src + 4 * n - 4) (dst + 4 * n - 4) mem a =
      if dst ≤ a ∧ a < dst + 4 * n then mem (src + (a - dst)) else mem a := by
  induction n generalizing mem with
  | zero =>
    rw [moveWords, if_neg]
    omega
  | succ n ih =>
    have hlast : ∀ x, x + 4 * (n + 1) - 4 = x + 4 * n := by
      intro x
      omega
    rw [hlast, hlast, moveWords, ih]
    unfold moveWord
    by_cases hin : dst ≤ a ∧ a < dst + 4 * n
    · -- the word is below the one that went first
      rw [if_pos hin, if_neg (by omega), if_pos (by omega)]
    · rw [if_neg hin]
      by_cases hword : dst + 4 * n ≤ a ∧ a < dst + 4 * n + 4
      · rw [if_pos hword, if_pos (by omega)]
        congr 1
        omega
      · rw [if_neg hword, if_neg (by omega)]

/-- A list that is moved upwards stands where it was moved to. -/
theorem Holds.moveWords {n src dst off : ℕ} (h : Holds mem (src + off) bs) (hup : src ≤ dst)
    (hin : off + bs.length ≤ 4 * n) :
    Holds (moveWords n (src + 4 * n - 4) (dst + 4 * n - 4) mem) (dst + off) bs := by
  intro i b hb
  have hi' : i < bs.length := (List.getElem?_eq_some_iff.mp hb).1
  rw [moveWords_up n hup, if_pos (by omega)]
  have hplace : src + (dst + off + i - dst) = src + off + i := by omega
  rw [hplace]
  exact h i b hb

end ByteMemory
