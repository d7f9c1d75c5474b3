/-
# Object names on their way through the responder

The host writes a name in UTF-16, `utf16Name` turns each code unit into the bytes that UTF-8 has
for it, and `addString` turns them back.  A surrogate, which UTF-8 has no bytes for, comes back as
a question mark; every other code unit comes back as it was.
-/
import AioMod.MtpDatasets

namespace MtpNativeServer

open ByteImage

/-! ## A code unit and its bytes -/

/-- What is reported of a code unit. -/
def shown (u : UInt16) : UInt16 := if 0xD800 ≤ u ∧ u ≤ 0xDFFF then 63 else u

/-- The first byte of two. -/
theorem lead_two : ∀ h < 32, (UInt8.ofNat h ||| 0xC0) &&& 0xE0 = 0xC0 ∧
    ¬UInt8.ofNat h ||| 0xC0 < 0x80 ∧
    ((UInt8.ofNat h ||| 0xC0) &&& 0x1F).toUInt16 = UInt16.ofNat h := by
  decide

/-- The first byte of three. -/
theorem lead_three : ∀ h < 16, (UInt8.ofNat h ||| 0xE0) &&& 0xF0 = 0xE0 ∧
    ¬(UInt8.ofNat h ||| 0xE0) &&& 0xE0 = 0xC0 ∧ ¬UInt8.ofNat h ||| 0xE0 < 0x80 ∧
    ((UInt8.ofNat h ||| 0xE0) &&& 0x0F).toUInt16 = UInt16.ofNat h := by
  decide

/-- Every later byte. -/
theorem continuation : ∀ l < 64,
    ((UInt8.ofNat l ||| 0x80) &&& 0x3F).toUInt16 = UInt16.ofNat l := by
  decide

/-- Six bits are put behind others. -/
theorem shift_or {h l : ℕ} (hh : h < 1024) (hl : l < 64) :
    UInt16.ofNat h <<< 6 ||| UInt16.ofNat l = UInt16.ofNat (h * 64 + l) := by
  apply UInt16.toNat_inj.mp
  have hshift := Nat.shiftLeft_add_eq_or_of_lt (i := 6) hl h
  rw [UInt16.toNat_or, UInt16.toNat_shiftLeft,
    UInt16.toNat_ofNat_of_lt' (by unfold UInt16.size; omega),
    UInt16.toNat_ofNat_of_lt' (by unfold UInt16.size; omega),
    UInt16.toNat_ofNat_of_lt' (by unfold UInt16.size; omega)]
  have hsix : (6 : UInt16).toNat % 16 = 6 := rfl
  rw [hsix, Nat.mod_eq_of_lt (by rw [Nat.shiftLeft_eq]; omega), ← hshift, Nat.shiftLeft_eq]

theorem shift_shift_or {h m l : ℕ} (hh : h < 16) (hm : m < 64) (hl : l < 64) :
    UInt16.ofNat h <<< 12 ||| UInt16.ofNat m <<< 6 ||| UInt16.ofNat l =
      UInt16.ofNat ((h * 64 + m) * 64 + l) := by
  have hfirst : UInt16.ofNat h <<< 12 ||| UInt16.ofNat m <<< 6 =
      (UInt16.ofNat h <<< 6 ||| UInt16.ofNat m) <<< 6 := by
    rw [UInt16.shiftLeft_or, ← UInt16.shiftLeft_add (by decide) (by decide) (by decide)]
    rfl
  rw [hfirst, shift_or (by omega) hm, shift_or (by omega) hl]

theorem low_bits (u : UInt16) : (u &&& 0x3F).toUInt8 = UInt8.ofNat (u.toNat % 64) := by
  apply UInt8.toNat_inj.mp
  have hmask : (0x3F : UInt16).toNat = 2 ^ 6 - 1 := rfl
  rw [UInt16.toNat_toUInt8, UInt16.toNat_and, hmask, Nat.and_two_pow_sub_one_eq_mod,
    UInt8.toNat_ofNat']

theorem high_bits (u : UInt16) : (u >>> 6).toUInt8 = UInt8.ofNat (u.toNat / 64) := by
  apply UInt8.toNat_inj.mp
  have hsix : (6 : UInt16).toNat % 16 = 6 := rfl
  rw [UInt16.toNat_toUInt8, UInt16.toNat_shiftRight, hsix, Nat.shiftRight_eq_div_pow,
    UInt8.toNat_ofNat']

theorem middle_bits (u : UInt16) :
    (u >>> 6 &&& 0x3F).toUInt8 = UInt8.ofNat (u.toNat / 64 % 64) := by
  have hsix : (6 : UInt16).toNat % 16 = 6 := rfl
  rw [low_bits, UInt16.toNat_shiftRight, hsix, Nat.shiftRight_eq_div_pow]

theorem top_bits (u : UInt16) : (u >>> 12).toUInt8 = UInt8.ofNat (u.toNat / 4096) := by
  apply UInt8.toNat_inj.mp
  have htwelve : (12 : UInt16).toNat % 16 = 12 := rfl
  rw [UInt16.toNat_toUInt8, UInt16.toNat_shiftRight, htwelve, Nat.shiftRight_eq_div_pow,
    UInt8.toNat_ofNat']

theorem toNat_lt_of_lt {u : UInt16} {k : ℕ} (hk : k < 2 ^ 16) (h : u < UInt16.ofNat k) :
    u.toNat < k := by
  have hlt := UInt16.lt_iff_toNat_lt.mp h
  rwa [UInt16.toNat_ofNat_of_lt' hk] at hlt

/-- A code unit comes back from its bytes. -/
theorem stringUnits_unitBytes (n : ℕ) (u : UInt16) (rest : Bytes) :
    stringUnits (n + 1) (unitBytes u ++ rest) = shown u :: stringUnits n rest := by
  have hu := u.toNat_lt
  have hnat : UInt16.ofNat u.toNat = u := UInt16.ofNat_toNat
  unfold unitBytes
  dsimp only
  split_ifs with hone htwo
  · have hlt : u.toNat < 0x80 := toNat_lt_of_lt (by decide) hone
    have hbyte : u.toUInt8.toNat = u.toNat := by
      rw [UInt16.toNat_toUInt8]
      exact Nat.mod_eq_of_lt (by omega)
    have hascii : u.toUInt8 < 0x80 := by
      apply UInt8.lt_iff_toNat_lt.mpr
      rw [hbyte]
      exact hlt
    have hwide : u.toUInt8.toUInt16 = u := by
      apply UInt16.toNat_inj.mp
      rw [UInt8.toNat_toUInt16, hbyte]
    have hshown : shown u = u := by
      apply if_neg
      rintro ⟨hle, -⟩
      have := UInt16.le_iff_toNat_le.mp hle
      have hd : (0xD800 : UInt16).toNat = 0xD800 := rfl
      omega
    rw [List.singleton_append, stringUnits.eq_def]
    dsimp only
    rw [if_pos hascii, hwide, hshown]
  · have hlt : u.toNat < 0x800 := toNat_lt_of_lt (by decide) htwo
    obtain ⟨hlead, hwide, hhigh⟩ := lead_two (u.toNat / 64) (by omega)
    have hlow := continuation (u.toNat % 64) (by omega)
    have hboth := shift_or (h := u.toNat / 64) (l := u.toNat % 64) (by omega) (by omega)
    rw [Nat.div_add_mod', hnat] at hboth
    rw [high_bits, low_bits, List.cons_append, List.singleton_append, stringUnits.eq_def]
    dsimp only
    rw [if_neg hwide, if_pos hlead, hhigh, hlow, hboth]
    rfl
  · obtain ⟨hlead, htwo', hwide, hhigh⟩ := lead_three (u.toNat / 4096) (by omega)
    have hmiddle := continuation (u.toNat / 64 % 64) (by omega)
    have hlow := continuation (u.toNat % 64) (by omega)
    have hall := shift_shift_or (h := u.toNat / 4096) (m := u.toNat / 64 % 64)
      (l := u.toNat % 64) (by omega) (by omega) (by omega)
    have hvalue : (u.toNat / 4096 * 64 + u.toNat / 64 % 64) * 64 + u.toNat % 64 = u.toNat := by
      omega
    rw [hvalue, hnat] at hall
    rw [top_bits, middle_bits, low_bits, List.cons_append, List.cons_append, List.singleton_append,
      stringUnits.eq_def]
    dsimp only
    rw [if_neg hwide, if_neg htwo', if_pos hlead, hhigh, hmiddle, hlow, hall]
    rfl

theorem unitBytes_ne_nil (u : UInt16) : unitBytes u ≠ [] := by
  unfold unitBytes
  dsimp only
  split_ifs
  · exact List.cons_ne_nil _ _
  · exact List.cons_ne_nil _ _
  · exact List.cons_ne_nil _ _

/-! ## Strings -/

/-- The bytes that `utf16Name` makes of a string. -/
def nameOf (units : List UInt16) : Bytes := units.flatMap unitBytes

/-- Each code unit takes at least one byte. -/
theorem length_le_nameOf (units : List UInt16) : units.length ≤ (nameOf units).length := by
  induction units with
  | nil => exact le_rfl
  | cons u units ih =>
    have hpos := List.length_pos_iff.mpr (unitBytes_ne_nil u)
    unfold nameOf at ih ⊢
    rw [List.flatMap_cons, List.length_append, List.length_cons]
    omega

theorem stringUnits_nameOf {n : ℕ} {units : List UInt16} (h : units.length ≤ n) :
    stringUnits n (nameOf units) = units.map shown := by
  induction units generalizing n with
  | nil =>
    unfold nameOf
    rw [List.flatMap_nil, List.map_nil, stringUnits.eq_def]
    cases n with
    | zero => rfl
    | succ n => rfl
  | cons u units ih =>
    cases n with
    | zero => exact absurd h (Nat.not_succ_le_zero _)
    | succ n =>
      have hrest := ih (Nat.le_of_succ_le_succ h)
      unfold nameOf at hrest ⊢
      rw [List.flatMap_cons, stringUnits_unitBytes, hrest, List.map_cons]

/-- An MTP string of these code units. -/
def mtpString (units : List UInt16) : Bytes :=
  UInt8.ofNat (units.length + 1) :: units.flatMap add16 ++ add16 0

/-- What is written of a name. -/
theorem addString_nameOf {units : List UInt16} (hne : units ≠ []) (h : units.length ≤ 253) :
    addString (nameOf units) = mtpString (units.map shown) := by
  have hname : nameOf units ≠ [] := by
    intro hnil
    have hle := length_le_nameOf units
    rw [hnil, List.length_nil] at hle
    exact hne (List.length_eq_zero_iff.mp (by omega))
  unfold addString mtpString
  rw [if_neg hname, stringUnits_nameOf h]

/-- The code units in an MTP string, less the last one and up to the first NUL. -/
def wireUnits (p : Bytes) : List UInt16 :=
  ((List.range ((p.headD 0).toNat - 1)).map fun i => read16 p (1 + 2 * i)).takeWhile (· ≠ 0)

/-- The loop reads the code units up to the first NUL. -/
theorem nameUnits_eq {n : ℕ} {units : Bytes} (h : 2 * n ≤ units.length) :
    nameUnits n units =
      nameOf (((List.range n).map fun i => read16 units (2 * i)).takeWhile (· ≠ 0)) := by
  induction n generalizing units with
  | zero =>
    rw [nameUnits.eq_def]
    rfl
  | succ n ih =>
    match units, h with
    | lo :: hi :: rest, h =>
      have hlength : 2 * n ≤ rest.length := by
        simp only [List.length_cons] at h
        omega
      have hrest := ih hlength
      have hmap : (List.range (n + 1)).map (fun i => read16 (lo :: hi :: rest) (2 * i)) =
          read16 [lo, hi] 0 :: (List.range n).map fun i => read16 rest (2 * i) := by
        rw [List.range_succ_eq_map, List.map_cons, List.map_map]
        rfl
      rw [hmap, nameUnits]
      by_cases hzero : read16 [lo, hi] 0 = 0
      · rw [if_pos hzero, List.takeWhile_cons_of_neg (by simpa using hzero)]
        rfl
      · rw [if_neg hzero, List.takeWhile_cons_of_pos (by simpa using hzero), hrest]
        rfl

/-- A name that is read is that of the code units in the string. -/
theorem utf16Name_eq {p name : Bytes} (h : utf16Name p = some name) :
    name = nameOf (wireUnits p) := by
  unfold utf16Name at h
  split at h
  · cases h
  · rename_i count units
    split_ifs at h with hzero hshort
    · cases h
      rw [hzero]
      rfl
    · cases h
      rw [List.length_cons] at hshort
      rw [nameUnits_eq (by omega)]
      unfold wireUnits
      congr 2
      apply List.map_congr_left
      intro i _
      rw [Nat.add_comm 1]
      rfl

theorem wireUnits_ne_zero {p : Bytes} {u : UInt16} (h : u ∈ wireUnits p) : u ≠ 0 := by
  have := List.mem_takeWhile_imp h
  simpa using this

/-! ## What is written is read -/

/-- Two bytes of a row of code units. -/
theorem read16_flatMap (units : List UInt16) (post : Bytes) {i : ℕ} (hi : i < units.length) :
    read16 (units.flatMap add16 ++ post) (2 * i) = units[i] := by
  induction units generalizing i with
  | nil => exact absurd hi (Nat.not_lt_zero _)
  | cons u units ih =>
    rw [List.flatMap_cons, List.append_assoc]
    cases i with
    | zero => exact read16_append [] (units.flatMap add16 ++ post) u rfl
    | succ i => exact ih (Nat.lt_of_succ_lt_succ hi)

theorem length_flatMap_add16 (units : List UInt16) :
    (units.flatMap add16).length = 2 * units.length := by
  rw [List.length_flatMap, List.map_congr_left fun u _ => length_add16 u, List.map_const',
    List.sum_replicate, smul_eq_mul, Nat.mul_comm]

section mtpString

variable {units : List UInt16} (hlen : units.length < 255) (post : Bytes)

include hlen

theorem toNat_count : (UInt8.ofNat (units.length + 1)).toNat = units.length + 1 :=
  UInt8.toNat_ofNat_of_lt' (by unfold UInt8.size; omega)

theorem wireUnits_mtpString : wireUnits (mtpString units ++ post) = units.takeWhile (· ≠ 0) := by
  have hread : ((List.range units.length).map fun i => read16 (mtpString units ++ post) (1 + 2 * i))
      = units := by
    apply List.ext_getElem
    · simp
    · intro i h₁ h₂
      rw [List.getElem_map, List.getElem_range, Nat.add_comm 1]
      unfold mtpString
      rw [List.append_assoc]
      exact read16_flatMap units _ h₂
  unfold wireUnits
  have hhead : (mtpString units ++ post).headD 0 = UInt8.ofNat (units.length + 1) := rfl
  rw [hhead, toNat_count hlen, Nat.add_sub_cancel, hread]

theorem utf16Name_mtpString :
    utf16Name (mtpString units ++ post) = some (nameOf (units.takeWhile (· ≠ 0))) := by
  have hcount := toNat_count hlen
  obtain ⟨name, hname⟩ : ∃ name, utf16Name (mtpString units ++ post) = some name := by
    unfold utf16Name mtpString
    rw [List.cons_append, List.cons_append]
    dsimp only
    rw [hcount, if_neg, if_neg]
    · exact ⟨_, rfl⟩
    · rw [List.length_cons, List.length_append, List.length_append, length_flatMap_add16,
        length_add16]
      omega
    · intro hzero
      rw [hzero] at hcount
      cases hcount
  rw [hname, utf16Name_eq hname, wireUnits_mtpString hlen]

end mtpString

end MtpNativeServer
