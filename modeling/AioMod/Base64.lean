/-
# Base64

The standard encoding of bytes in an alphabet of 64 characters: three bytes become four characters,
and a last group of one or two bytes is filled with padding when it is decoded.

Nothing here depends on a particular program.
-/
import Mathlib

namespace Base64

/-- The character `=`. -/
def PAD : UInt8 := 61

/-- The character of six bits. -/
def char (n : ℕ) : UInt8 :=
  if n < 26 then UInt8.ofNat (65 + n)
  else if n < 52 then UInt8.ofNat (71 + n)
  else if n < 62 then UInt8.ofNat (n - 4)
  else if n = 62 then 43
  else 47

/-- The six bits of a character. -/
def value (c : UInt8) : Option ℕ :=
  if 65 ≤ c ∧ c ≤ 90 then some (c.toNat - 65)
  else if 97 ≤ c ∧ c ≤ 122 then some (c.toNat - 71)
  else if 48 ≤ c ∧ c ≤ 57 then some (c.toNat + 4)
  else if c = 43 then some 62
  else if c = 47 then some 63
  else none

/-- The text of some bytes, without padding. -/
def encode : List UInt8 → List UInt8
  | [] => []
  | [a] => [char (a.toNat / 4), char (a.toNat % 4 * 16)]
  | [a, b] =>
    [char (a.toNat / 4), char (a.toNat % 4 * 16 + b.toNat / 16), char (b.toNat % 16 * 4)]
  | a :: b :: c :: rest =>
    char (a.toNat / 4) :: char (a.toNat % 4 * 16 + b.toNat / 16)
      :: char (b.toNat % 16 * 4 + c.toNat / 64) :: char (c.toNat % 64) :: encode rest

/-- The first byte of a group. -/
def byte₁ (x y : ℕ) : UInt8 := UInt8.ofNat (x * 4 + y / 16)

/-- The second one. -/
def byte₂ (y z : ℕ) : UInt8 := UInt8.ofNat (y % 16 * 16 + z / 4)

/-- The third one. -/
def byte₃ (z u : ℕ) : UInt8 := UInt8.ofNat (z % 4 * 64 + u)

/-- The bytes of a padded text; the bits behind the last byte are ignored. -/
def decode : List UInt8 → Option (List UInt8)
  | [] => some []
  | a :: b :: c :: d :: rest => do
    let x ← value a
    let y ← value b
    if c = PAD then
      if d = PAD ∧ rest = [] then some [byte₁ x y] else none
    else
      let z ← value c
      if d = PAD then
        if rest = [] then some [byte₁ x y, byte₂ y z] else none
      else
        let u ← value d
        let bytes ← decode rest
        some (byte₁ x y :: byte₂ y z :: byte₃ z u :: bytes)
  | _ => none

/-! ## Characters -/

theorem value_char : ∀ n < 64, value (char n) = some n := by decide

theorem ne_pad_of_value {c : UInt8} {n : ℕ} (h : value c = some n) : c ≠ PAD := by
  rintro rfl
  cases h

/-! ## Groups -/

theorem decode_group {a b c d : UInt8} {x y z u : ℕ} (ha : value a = some x) (hb : value b = some y)
    (hc : value c = some z) (hd : value d = some u) (rest : List UInt8) :
    decode (a :: b :: c :: d :: rest)
      = (decode rest).map fun bytes => byte₁ x y :: byte₂ y z :: byte₃ z u :: bytes := by
  conv_lhs => unfold decode
  rw [ha, hb]
  simp only [Option.bind_eq_bind, Option.bind_some]
  rw [if_neg (ne_pad_of_value hc), hc, Option.bind_some, if_neg (ne_pad_of_value hd), hd,
    Option.bind_some]
  cases decode rest <;> rfl

theorem decode_two {a b c : UInt8} {x y z : ℕ} (ha : value a = some x) (hb : value b = some y)
    (hc : value c = some z) : decode [a, b, c, PAD] = some [byte₁ x y, byte₂ y z] := by
  unfold decode
  rw [ha, hb]
  simp only [Option.bind_eq_bind, Option.bind_some]
  rw [if_neg (ne_pad_of_value hc), hc]
  rfl

theorem decode_one {a b : UInt8} {x y : ℕ} (ha : value a = some x) (hb : value b = some y) :
    decode [a, b, PAD, PAD] = some [byte₁ x y] := by
  unfold decode
  rw [ha, hb]
  rfl

theorem byte₁_eq (a : UInt8) (y : ℕ) (hy : y / 16 = a.toNat % 4) :
    byte₁ (a.toNat / 4) y = a := by
  unfold byte₁
  rw [hy, show a.toNat / 4 * 4 + a.toNat % 4 = a.toNat by omega, UInt8.ofNat_toNat]

theorem byte₂_eq (b : UInt8) (y z : ℕ) (hy : y % 16 = b.toNat / 16) (hz : z / 4 = b.toNat % 16) :
    byte₂ y z = b := by
  unfold byte₂
  rw [hy, hz, show b.toNat / 16 * 16 + b.toNat % 16 = b.toNat by omega, UInt8.ofNat_toNat]

theorem byte₃_eq (c : UInt8) (z : ℕ) (hz : z % 4 = c.toNat / 64) :
    byte₃ z (c.toNat % 64) = c := by
  unfold byte₃
  rw [hz, show c.toNat / 64 * 64 + c.toNat % 64 = c.toNat by omega, UInt8.ofNat_toNat]

/-! ## Whole texts -/

/-- The padding that the standard asks for. -/
def padding (text : List UInt8) : List UInt8 :=
  List.replicate ((4 - text.length % 4) % 4) PAD

theorem padding_group (a b c d : UInt8) (rest : List UInt8) :
    padding (a :: b :: c :: d :: rest) = padding rest := by
  unfold padding
  congr 1
  simp only [List.length_cons]
  omega

/-- A padded text is decoded to the bytes it comes from. -/
theorem decode_encode : ∀ bytes, decode (encode bytes ++ padding (encode bytes)) = some bytes
  | [] => rfl
  | [a] => by
    have ha := a.toNat_lt
    have htext := decode_one (value_char (a.toNat / 4) (by omega))
      (value_char (a.toNat % 4 * 16) (by omega))
    rw [byte₁_eq a _ (by omega)] at htext
    exact htext
  | [a, b] => by
    have ha := a.toNat_lt
    have hb := b.toNat_lt
    have htext := decode_two (value_char (a.toNat / 4) (by omega))
      (value_char (a.toNat % 4 * 16 + b.toNat / 16) (by omega))
      (value_char (b.toNat % 16 * 4) (by omega))
    rw [byte₁_eq a _ (by omega), byte₂_eq b _ _ (by omega) (by omega)] at htext
    exact htext
  | a :: b :: c :: rest => by
    have ha := a.toNat_lt
    have hb := b.toNat_lt
    have hc := c.toNat_lt
    have hrest := decode_encode rest
    unfold encode
    rw [padding_group]
    simp only [List.cons_append]
    rw [decode_group (value_char (a.toNat / 4) (by omega))
      (value_char (a.toNat % 4 * 16 + b.toNat / 16) (by omega))
      (value_char (b.toNat % 16 * 4 + c.toNat / 64) (by omega))
      (value_char (c.toNat % 64) (by omega)), hrest, Option.map_some, byte₁_eq a _ (by omega),
      byte₂_eq b _ _ (by omega) (by omega), byte₃_eq c _ (by omega)]

theorem length_encode : ∀ bytes, (encode bytes).length = (bytes.length * 4 + 2) / 3
  | [] => rfl
  | [_] => by simp [encode]
  | [_, _] => by simp [encode]
  | _ :: _ :: _ :: rest => by
    have hrest := length_encode rest
    unfold encode
    simp only [List.length_cons]
    omega

/-- All characters of a text are of the alphabet. -/
theorem value_encode : ∀ bytes, ∀ c ∈ encode bytes, ∃ n < 64, c = char n
  | [] => by
    intro c hc
    cases hc
  | [a] => by
    have ha := a.toNat_lt
    intro c hc
    rcases List.mem_pair.mp hc with rfl | rfl
    · exact ⟨_, by omega, rfl⟩
    · exact ⟨_, by omega, rfl⟩
  | [a, b] => by
    have ha := a.toNat_lt
    have hb := b.toNat_lt
    intro c hc
    rcases List.mem_cons.mp hc with rfl | hc
    · exact ⟨_, by omega, rfl⟩
    · rcases List.mem_pair.mp hc with rfl | rfl
      · exact ⟨_, by omega, rfl⟩
      · exact ⟨_, by omega, rfl⟩
  | a :: b :: d :: rest => by
    have ha := a.toNat_lt
    have hb := b.toNat_lt
    have hd := d.toNat_lt
    have hrest := value_encode rest
    intro c hc
    unfold encode at hc
    rcases List.mem_cons.mp hc with rfl | hc
    · exact ⟨_, by omega, rfl⟩
    rcases List.mem_cons.mp hc with rfl | hc
    · exact ⟨_, by omega, rfl⟩
    rcases List.mem_cons.mp hc with rfl | hc
    · exact ⟨_, by omega, rfl⟩
    rcases List.mem_cons.mp hc with rfl | hc
    · exact ⟨_, by omega, rfl⟩
    exact hrest c hc

/-! ## Texts of the alphabet -/

theorem decode_pad (rest : List UInt8) : decode (PAD :: rest) = none := by
  match rest with
  | [] => rfl
  | [_] => rfl
  | [_, _] => rfl
  | _ :: _ :: _ :: _ => rfl

theorem decode_second_pad {a : UInt8} {x : ℕ} (ha : value a = some x) (rest : List UInt8) :
    decode (a :: PAD :: rest) = none := by
  match rest with
  | [] => rfl
  | [_] => rfl
  | _ :: _ :: _ =>
    unfold decode
    rw [ha]
    rfl

theorem decode_one_pad {a b : UInt8} {x y : ℕ} (ha : value a = some x) (hb : value b = some y)
    (d : UInt8) (rest : List UInt8) : decode (a :: b :: PAD :: PAD :: d :: rest) = none := by
  unfold decode
  rw [ha, hb]
  simp

theorem decode_two_pad {a b c : UInt8} {x y z : ℕ} (ha : value a = some x) (hb : value b = some y)
    (hc : value c = some z) (d : UInt8) (rest : List UInt8) :
    decode (a :: b :: c :: PAD :: d :: rest) = none := by
  unfold decode
  rw [ha, hb]
  simp [ne_pad_of_value hc, hc]

/-- A text of the alphabet with `p` characters of padding is decoded exactly if these fill the last
group and are at most two. -/
theorem decode_replicate (p : ℕ) : ∀ text : List UInt8, (∀ c ∈ text, (value c).isSome) →
    if (text.length + p) % 4 = 0 ∧ p ≤ 2 then
      ∃ bytes, decode (text ++ List.replicate p PAD) = some bytes ∧
        bytes.length = text.length * 3 / 4
    else decode (text ++ List.replicate p PAD) = none
  | [], _ => by
    match p with
    | 0 => exact ⟨[], rfl, rfl⟩
    | p + 1 =>
      rw [if_neg (by rw [List.length_nil]; omega)]
      exact decode_pad _
  | [a], h => by
    obtain ⟨x, ha⟩ := Option.isSome_iff_exists.mp (h a (by simp))
    rw [if_neg (by rw [List.length_singleton]; omega)]
    match p with
    | 0 => rfl
    | p + 1 => exact decode_second_pad ha _
  | [a, b], h => by
    obtain ⟨x, ha⟩ := Option.isSome_iff_exists.mp (h a (by simp))
    obtain ⟨y, hb⟩ := Option.isSome_iff_exists.mp (h b (by simp))
    match p with
    | 0 => rfl
    | 1 => rfl
    | 2 =>
      rw [if_pos (by simp)]
      exact ⟨_, decode_one ha hb, by simp⟩
    | p + 3 =>
      rw [if_neg (by omega)]
      exact decode_one_pad ha hb _ _
  | [a, b, c], h => by
    obtain ⟨x, ha⟩ := Option.isSome_iff_exists.mp (h a (by simp))
    obtain ⟨y, hb⟩ := Option.isSome_iff_exists.mp (h b (by simp))
    obtain ⟨z, hc⟩ := Option.isSome_iff_exists.mp (h c (by simp))
    match p with
    | 0 => rfl
    | 1 =>
      rw [if_pos (by simp)]
      exact ⟨_, decode_two ha hb hc, by simp⟩
    | p + 2 =>
      rw [if_neg (by simp only [List.length_cons, List.length_nil]; omega)]
      exact decode_two_pad ha hb hc _ _
  -- a whole group is three bytes, and the padding is that of the rest
  | a :: b :: c :: d :: rest, h => by
    obtain ⟨x, ha⟩ := Option.isSome_iff_exists.mp (h a (by simp))
    obtain ⟨y, hb⟩ := Option.isSome_iff_exists.mp (h b (by simp))
    obtain ⟨z, hc⟩ := Option.isSome_iff_exists.mp (h c (by simp))
    obtain ⟨u, hd⟩ := Option.isSome_iff_exists.mp (h d (by simp))
    have hrest := decode_replicate p rest fun e he => h e (by simp [he])
    have hlength : (a :: b :: c :: d :: rest).length = rest.length + 4 := rfl
    simp only [List.cons_append]
    rw [decode_group ha hb hc hd, hlength]
    by_cases hfill : (rest.length + p) % 4 = 0 ∧ p ≤ 2
    · rw [if_pos hfill] at hrest
      obtain ⟨bytes, hbytes, hcount⟩ := hrest
      rw [if_pos (by omega), hbytes]
      refine ⟨_, rfl, ?_⟩
      show bytes.length + 3 = _
      omega
    · rw [if_neg hfill] at hrest
      rw [if_neg (by omega), hrest]
      rfl

end Base64
