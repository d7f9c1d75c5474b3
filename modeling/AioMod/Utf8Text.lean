/-
# Text in UTF-8, cut between bytes

A text is the bytes of a list of characters.  A cut lies between characters where the byte behind
it is the first one of a character, and only there are both sides texts.

Nothing here depends on a particular program.
-/
import Mathlib

namespace Utf8Text

/-- The bytes of characters. -/
def encode (cs : List Char) : List UInt8 := cs.flatMap String.utf8EncodeChar

/-- Bytes that are valid UTF-8. -/
def Valid (bs : List UInt8) : Prop := ∃ cs, bs = encode cs

/-- The place `k` lies between two characters. -/
def Boundary (bs : List UInt8) (k : ℕ) : Prop := Valid (bs.take k)

section encode

variable {cs ds : List Char}

theorem encode_append (cs ds : List Char) : encode (cs ++ ds) = encode cs ++ encode ds :=
  List.flatMap_append

theorem encode_cons (c : Char) (cs : List Char) :
    encode (c :: cs) = String.utf8EncodeChar c ++ encode cs := rfl

theorem valid_nil : Valid [] := ⟨[], rfl⟩

theorem valid_encode (cs : List Char) : Valid (encode cs) := ⟨cs, rfl⟩

theorem Valid.append {a b : List UInt8} (ha : Valid a) (hb : Valid b) : Valid (a ++ b) := by
  obtain ⟨cs, rfl⟩ := ha
  obtain ⟨ds, rfl⟩ := hb
  exact ⟨cs ++ ds, (encode_append cs ds).symm⟩

theorem length_pos_encodeChar (c : Char) : 0 < (String.utf8EncodeChar c).length := by
  rw [String.length_utf8EncodeChar]
  exact c.utf8Size_pos

/-- Only where there is no character are there no bytes. -/
theorem length_encode_pos : 0 < (encode cs).length ↔ cs ≠ [] := by
  cases cs with
  | nil => exact iff_of_false (lt_irrefl 0) (not_not.mpr rfl)
  | cons c cs =>
    have hpos := length_pos_encodeChar c
    rw [encode_cons, List.length_append]
    exact iff_of_true (by omega) (List.cons_ne_nil c cs)

/-- Only the first byte of a character is taken for one. -/
theorem isFirst_encodeChar (c : Char) {i : ℕ} (hi : i < (String.utf8EncodeChar c).length) :
    (String.utf8EncodeChar c)[i].IsUTF8FirstByte ↔ i = 0 :=
  UInt8.isUTF8FirstByte_getElem_utf8EncodeChar

theorem ascii_head : ∀ v < 0x80, UInt8.ofNat v < 0x80 := by decide

theorem two_head : ∀ h < 0x20, ¬UInt8.ofNat (h + 0xC0) < 0x80 ∧
    UInt8.ofNat (h + 0xC0) &&& 0xE0 = 0xC0 := by
  decide

theorem three_head : ∀ h < 0x10, ¬UInt8.ofNat (h + 0xE0) < 0x80 ∧
    ¬UInt8.ofNat (h + 0xE0) &&& 0xE0 = 0xC0 ∧ UInt8.ofNat (h + 0xE0) &&& 0xF0 = 0xE0 := by
  decide

theorem four_head : ∀ h < 0x08, ¬UInt8.ofNat (h + 0xF0) < 0x80 ∧
    ¬UInt8.ofNat (h + 0xF0) &&& 0xE0 = 0xC0 ∧ ¬UInt8.ofNat (h + 0xF0) &&& 0xF0 = 0xE0 ∧
    UInt8.ofNat (h + 0xF0) &&& 0xF8 = 0xF0 := by
  decide

/-- How many bytes a character has that begins with this one; one, if none does. -/
def leadLength (first : UInt8) : ℕ :=
  if first < 0x80 then 1 else if first &&& 0xE0 = 0xC0 then 2
  else if first &&& 0xF0 = 0xE0 then 3 else if first &&& 0xF8 = 0xF0 then 4 else 1

/-- The first byte of a character tells its length. -/
theorem leadLength_head (c : Char) : ∃ first rest, String.utf8EncodeChar c = first :: rest ∧
    leadLength first = (String.utf8EncodeChar c).length := by
  unfold String.utf8EncodeChar leadLength
  dsimp only
  split_ifs with hone htwo hthree
  · exact ⟨_, _, rfl, if_pos (ascii_head _ (by omega))⟩
  · obtain ⟨hwide, hlead⟩ := two_head (c.val.toNat / 64 % 0x20) (Nat.mod_lt _ (by decide))
    exact ⟨_, _, rfl, by rw [if_neg hwide, if_pos hlead]; rfl⟩
  · obtain ⟨hwide, htwo, hlead⟩ := three_head (c.val.toNat / 4096 % 0x10) (Nat.mod_lt _ (by decide))
    exact ⟨_, _, rfl, by rw [if_neg hwide, if_neg htwo, if_pos hlead]; rfl⟩
  · obtain ⟨hwide, htwo, hthree, hlead⟩ :=
      four_head (c.val.toNat / 262144 % 0x08) (Nat.mod_lt _ (by decide))
    exact ⟨_, _, rfl, by rw [if_neg hwide, if_neg htwo, if_neg hthree, if_pos hlead]; rfl⟩

/-- What stands before the first byte of a character is text, if all is. -/
theorem valid_of_append {p r : List UInt8} (h : Valid (p ++ r))
    (hr : ∀ b ∈ r.head?, b.IsUTF8FirstByte) : Valid p := by
  obtain ⟨cs, h⟩ := h
  induction cs generalizing p with
  | nil =>
    obtain ⟨rfl, -⟩ := List.append_eq_nil_iff.mp h
    exact valid_nil
  | cons c cs ih =>
    rw [encode_cons] at h
    rcases List.append_eq_append_iff.mp h with ⟨rest, hchar, hr'⟩ | ⟨rest, rfl, hrest⟩
    · -- `p` ends within the first character or behind it
      cases rest with
      | nil =>
        rw [List.append_nil] at hchar
        rw [← hchar]
        exact ⟨[c], (List.append_nil _).symm⟩
      | cons b rest =>
        have hfirst : b.IsUTF8FirstByte := hr b (by rw [hr']; rfl)
        have hi : p.length < (String.utf8EncodeChar c).length := by
          rw [hchar, List.length_append, List.length_cons]
          omega
        have hget : (String.utf8EncodeChar c)[p.length] = b := by
          simp [hchar]
        have hzero : p.length = 0 := (isFirst_encodeChar c hi).mp (by rw [hget]; exact hfirst)
        rw [List.length_eq_zero_iff.mp hzero]
        exact valid_nil
    · exact Valid.append ⟨[c], (List.append_nil _).symm⟩ (ih hrest.symm)

/-- Two characters of which one text begins with both have the same bytes. -/
theorem encodeChar_of_append {c d : Char} {a b : List UInt8}
    (h : String.utf8EncodeChar c ++ a = String.utf8EncodeChar d ++ b) :
    String.utf8EncodeChar c = String.utf8EncodeChar d ∧ a = b := by
  obtain ⟨first, rest, hc, hclen⟩ := leadLength_head c
  obtain ⟨first', rest', hd, hdlen⟩ := leadLength_head d
  have hfirst : first = first' := by
    rw [hc, hd] at h
    exact (List.cons.inj h).1
  rw [hfirst, hdlen] at hclen
  exact List.append_inj h hclen.symm

/-- What is left of a text behind another one is text. -/
theorem valid_of_append_left {p r : List UInt8} (h : Valid (p ++ r)) (hp : Valid p) : Valid r := by
  obtain ⟨cs, h⟩ := h
  obtain ⟨ds, rfl⟩ := hp
  induction ds generalizing cs with
  | nil => exact ⟨cs, h⟩
  | cons d ds ih =>
    rw [encode_cons, List.append_assoc] at h
    cases cs with
    | nil =>
      have hpos := length_pos_encodeChar d
      have hlength := congrArg List.length h
      rw [List.length_append] at hlength
      simp only [encode, List.flatMap_nil, List.length_nil] at hlength
      omega
    | cons c cs =>
      rw [encode_cons] at h
      exact ih cs (encodeChar_of_append h).2

/-- A text begins with the first byte of a character. -/
theorem Valid.head {bs : List UInt8} (h : Valid bs) : ∀ b ∈ bs.head?, b.IsUTF8FirstByte := by
  obtain ⟨cs, rfl⟩ := h
  cases cs with
  | nil =>
    intro b hb
    cases hb
  | cons c cs =>
    obtain ⟨first, rest, hchar, -⟩ := leadLength_head c
    have hfirst := (isFirst_encodeChar c (length_pos_encodeChar c)).mpr rfl
    intro b hb
    rw [encode_cons, hchar] at hb
    cases hb
    simpa only [hchar, List.getElem_cons_zero] using hfirst

/-- A place is a boundary of a text just if what is behind it is text. -/
theorem boundary_iff {bs : List UInt8} {k : ℕ} (hbs : Valid bs) :
    Boundary bs k ↔ Valid (bs.drop k) := by
  rw [← List.take_append_drop k bs] at hbs
  constructor
  · intro h
    exact valid_of_append_left hbs h
  · intro h
    exact valid_of_append hbs h.head

end encode

end Utf8Text
