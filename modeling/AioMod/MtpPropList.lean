/-
# The property list of a new object

`handleSendObjectPropList` reads a list from the host, whose elements tell the types of their
values.  It is written out here with offsets into the buffer and a check at each read, and none of
the checks fails.  What is accepted is said by a grammar of such lists.
-/
import AioMod.MtpNames

namespace MtpNativeServer

open ByteImage

/-! ## The parser with its reads -/

/-- What is read from a buffer; there is nothing where a read reaches outside of it. -/
abbrev Reading (α : Type) := Option α

def read8At (data : Bytes) (off : ℕ) : Reading UInt8 := data[off]?

def read16At (data : Bytes) (off : ℕ) : Reading UInt16 :=
  if off + 2 ≤ data.length then some (read16 data off) else none

def read32At (data : Bytes) (off : ℕ) : Reading UInt32 :=
  if off + 4 ≤ data.length then some (read32 data off) else none

def read64At (data : Bytes) (off : ℕ) : Reading UInt64 :=
  if off + 8 ≤ data.length then some (read64 data off) else none

/-- `mtpValueSize` on the `remaining` bytes at an offset. -/
def mtpValueSizeAt (type : UInt16) (data : Bytes) (off remaining : ℕ) : Reading (Option ℕ) :=
  if type = TYPE_STRING then
    if remaining < 1 then some none
    else do
      let count ← read8At data off
      let bytes := 1 + count.toNat * 2
      return if remaining < bytes then none else some bytes
  else if scalarSize type ≠ 0 then
    some (if remaining < scalarSize type then none else some (scalarSize type))
  else if type &&& 0x4000 ≠ 0 ∧ 4 ≤ remaining then
    let elem := scalarSize (type &&& ~~~0x4000)
    if elem = 0 then some none
    else do
      let count ← read32At data off
      return if (remaining - 4) / elem < count.toNat then none else some (4 + count.toNat * elem)
  else some none

/-- The loop of `utf16Name` from the code unit `i` on, with `n` units left. -/
def unitsAt (data : Bytes) (off : ℕ) : ℕ → ℕ → Reading Bytes
  | 0, _ => some []
  | n + 1, i => do
    let ch ← read16At data (off + 1 + i * 2)
    if ch = 0 then return [] else return unitBytes ch ++ (← unitsAt data off n (i + 1))

/-- `utf16Name` on the `remaining` bytes at an offset. -/
def utf16NameAt (data : Bytes) (off remaining : ℕ) : Reading (Option Bytes) :=
  if remaining < 1 then some none
  else do
    let count ← read8At data off
    if count = 0 then return some []
    else if remaining < 1 + count.toNat * 2 then return none
    else return some (← unitsAt data off (count.toNat - 1) 0)

/-- What the loop notes of an element. -/
def noteAt (prop type : UInt16) (data : Bytes) (off valueSize : ℕ) (found : PropScan) :
    Reading PropScan :=
  if prop = PROP_OBJECT_FILE_NAME ∧ type = TYPE_STRING then do
    match ← utf16NameAt data off valueSize with
    | some candidate => return if candidate = [] then found else { found with name := candidate }
    | none => return found
  else if prop = PROP_OBJECT_SIZE ∧ type = TYPE_UINT64 ∧ valueSize = 8 then do
    return { found with sizeFromProp := some (← read64At data off) }
  else some found

/-- The loop over the elements, which returns the offset behind the last one. -/
def propLoopAt (data : Bytes) : ℕ → ℕ → PropScan → Reading (Option (PropScan × ℕ))
  | 0, off, found => some (some (found, off))
  | count + 1, off, found =>
    if data.length < off + 8 then some none
    else do
      let _ ← read32At data off
      let prop ← read16At data (off + 4)
      let type ← read16At data (off + 6)
      let off := off + 8
      match ← mtpValueSizeAt type data off (data.length - off) with
      | none => return none
      | some valueSize =>
        if valueSize = 0 ∨ data.length < off + valueSize then return none
        else
          let found ← noteAt prop type data off valueSize found
          propLoopAt data count (off + valueSize) found

/-- The parser of `handleSendObjectPropList`. -/
def parsePropListAt (data : Bytes) (objectSize : UInt64) : Reading (Option Bytes) :=
  if data.length < 4 then some none
  else do
    let count ← read32At data 0
    if 256 < count.toNat then return none
    else
      match ← propLoopAt data count.toNat 4 {} with
      | none => return none
      | some (found, off) =>
        if off ≠ data.length ∨ found.name = [] then return none
        else if found.sizeFromProp ≠ none ∧ found.sizeFromProp ≠ some objectSize then return none
        else return some found.name

/-! ## No read reaches outside of the buffer -/

section reads

variable {data : Bytes} {off : ℕ}

theorem read16_drop (i : ℕ) : read16 (data.drop off) i = read16 data (off + i) := by
  unfold read16 u16 slice
  rw [List.drop_drop]

theorem read32_drop (i : ℕ) : read32 (data.drop off) i = read32 data (off + i) := by
  unfold read32 u32 slice
  rw [List.drop_drop]

theorem read64_drop (i : ℕ) : read64 (data.drop off) i = read64 data (off + i) := by
  unfold read64 u64 slice
  rw [List.drop_drop]

theorem read8At_eq (h : off < data.length) :
    ∃ count rest, read8At data off = some count ∧ data.drop off = count :: rest :=
  ⟨data[off], data.drop (off + 1), List.getElem?_eq_getElem h, List.drop_eq_getElem_cons h⟩

theorem read16At_eq {i : ℕ} (h : i + 2 ≤ data.length) :
    read16At data i = some (read16 data i) := if_pos h

theorem read32At_eq {i : ℕ} (h : i + 4 ≤ data.length) :
    read32At data i = some (read32 data i) := if_pos h

theorem read64At_eq {i : ℕ} (h : i + 8 ≤ data.length) :
    read64At data i = some (read64 data i) := if_pos h

theorem mtpValueSizeAt_eq (type : UInt16) (h : off ≤ data.length) :
    mtpValueSizeAt type data off (data.length - off)
      = some (mtpValueSize type (data.drop off)) := by
  have hlength : (data.drop off).length = data.length - off := List.length_drop
  unfold mtpValueSizeAt mtpValueSize
  by_cases hstring : type = TYPE_STRING
  · rw [if_pos hstring, if_pos hstring]
    split_ifs with hshort
    · have hnil : data.drop off = [] := List.drop_eq_nil_of_le (by omega)
      rw [hnil]
    · obtain ⟨count, rest, hread, hdrop⟩ := read8At_eq (show off < data.length by omega)
      rw [← hlength, hread, hdrop]
      rfl
  · rw [if_neg hstring, if_neg hstring, hlength]
    by_cases hscalar : scalarSize type ≠ 0
    · rw [if_pos hscalar, if_pos hscalar]
    · rw [if_neg hscalar, if_neg hscalar]
      by_cases harray : type &&& 0x4000 ≠ 0 ∧ 4 ≤ data.length - off
      · rw [if_pos harray, if_pos harray]
        dsimp only
        have hcount : read32 (data.drop off) 0 = read32 data off := read32_drop 0
        by_cases helem : scalarSize (type &&& ~~~0x4000) = 0
        · rw [if_pos helem, if_pos (Or.inl helem)]
        · rw [if_neg helem, read32At_eq (by omega), hcount]
          simp only [helem, false_or]
          rfl
      · rw [if_neg harray, if_neg harray]

/-- The loop of `utf16Name` reads the bytes of its code units. -/
theorem unitsAt_eq {n i m : ℕ} (hn : 2 * n ≤ m) (h : off + 1 + i * 2 + m ≤ data.length) :
    unitsAt data off n i = some (nameUnits n ((data.drop (off + 1 + i * 2)).take m)) := by
  induction n generalizing i m with
  | zero =>
    rw [unitsAt, nameUnits.eq_def]
  | succ n ih =>
    obtain ⟨m, rfl⟩ : ∃ k, m = k + 2 := ⟨m - 2, by omega⟩
    have hlo : off + 1 + i * 2 < data.length := by omega
    have hhi : off + 1 + i * 2 + 1 < data.length := by omega
    have htake : (data.drop (off + 1 + i * 2)).take (m + 2) =
        data[off + 1 + i * 2] :: data[off + 1 + i * 2 + 1] ::
          (data.drop (off + 1 + (i + 1) * 2)).take m := by
      rw [List.drop_eq_getElem_cons hlo, List.take_succ_cons, List.drop_eq_getElem_cons hhi,
        List.take_succ_cons]
      have hnext : off + 1 + i * 2 + 1 + 1 = off + 1 + (i + 1) * 2 := by omega
      rw [hnext]
    have hunit : read16 [data[off + 1 + i * 2], data[off + 1 + i * 2 + 1]] 0
        = read16 data (off + 1 + i * 2) := by
      unfold read16 u16 slice
      rw [List.drop_eq_getElem_cons hlo, List.drop_eq_getElem_cons hhi]
      rfl
    rw [unitsAt, read16At_eq (by omega), htake, nameUnits, hunit]
    dsimp only [bind, Option.bind]
    split_ifs with hzero
    · rfl
    · rw [ih (m := m) (by omega) (by omega)]
      rfl

theorem utf16NameAt_eq {remaining : ℕ} (h : off + remaining ≤ data.length) :
    utf16NameAt data off remaining = some (utf16Name ((data.drop off).take remaining)) := by
  unfold utf16NameAt
  by_cases hempty : remaining < 1
  · rw [if_pos hempty, Nat.lt_one_iff.mp hempty]
    rfl
  obtain ⟨count, rest, hread, hdrop⟩ := read8At_eq (show off < data.length by omega)
  obtain ⟨m, rfl⟩ : ∃ m, remaining = m + 1 := ⟨remaining - 1, by omega⟩
  have htake : (data.drop off).take (m + 1) = count :: rest.take m := by
    rw [hdrop, List.take_succ_cons]
  have hrest : rest = data.drop (off + 1) := by
    rw [← List.drop_drop, hdrop]
    rfl
  have hlength : (count :: rest.take m).length = m + 1 := by
    rw [← htake, List.length_take, List.length_drop]
    omega
  rw [if_neg hempty, hread, htake]
  unfold utf16Name
  dsimp only [bind, Option.bind]
  rw [hlength]
  split_ifs with hzero hneed
  · rfl
  · rfl
  · rw [unitsAt_eq (m := m) (by omega) (by omega), hrest]
    rfl

theorem noteAt_eq (prop type : UInt16) {valueSize : ℕ} (h : off + valueSize ≤ data.length)
    (found : PropScan) : noteAt prop type data off valueSize found = some
      (if prop = PROP_OBJECT_FILE_NAME ∧ type = TYPE_STRING then
        match utf16Name ((data.drop off).take valueSize) with
        | some candidate => if candidate = [] then found else { found with name := candidate }
        | none => found
      else if prop = PROP_OBJECT_SIZE ∧ type = TYPE_UINT64 ∧ valueSize = 8 then
        { found with sizeFromProp := some (read64 (data.drop off) 0) }
      else found) := by
  unfold noteAt
  split_ifs with hname hsize
  · rw [utf16NameAt_eq h]
    dsimp only [bind, Option.bind]
    cases utf16Name ((data.drop off).take valueSize) with
    | none => rfl
    | some candidate => rfl
  · rw [read64At_eq (by omega), read64_drop]
    rfl
  · rfl

/-- The loop with offsets is the loop over the bytes that are left. -/
theorem propLoopAt_eq (count : ℕ) (found : PropScan) (h : off ≤ data.length) :
    ∃ r, propLoopAt data count off found = some r ∧
      (∀ found' off', r = some (found', off') → off' ≤ data.length) ∧
      r.map (fun p => (p.1, data.drop p.2)) = propLoop count (data.drop off) found := by
  induction count generalizing off found with
  | zero =>
    refine ⟨_, rfl, ?_, rfl⟩
    intro found' off' hr
    cases hr
    exact h
  | succ count ih =>
    rw [propLoopAt, propLoop, List.length_drop]
    by_cases hshort : data.length < off + 8
    · rw [if_pos hshort, if_pos (by omega)]
      exact ⟨none, rfl, fun _ _ hr => absurd hr (Option.some_ne_none _).symm, rfl⟩
    rw [if_neg hshort, if_neg (by omega), read32At_eq (by omega), read16At_eq (by omega),
      read16At_eq (by omega), read16_drop, read16_drop, List.drop_drop]
    dsimp only [bind, Option.bind]
    rw [mtpValueSizeAt_eq _ (by omega)]
    dsimp only
    cases mtpValueSize (read16 data (off + 6)) (data.drop (off + 8)) with
    | none => exact ⟨none, rfl, fun _ _ hr => absurd hr (Option.some_ne_none _).symm, rfl⟩
    | some valueSize =>
      dsimp only
      rw [List.length_drop]
      by_cases hvalue : valueSize = 0 ∨ data.length < off + 8 + valueSize
      · rw [if_pos hvalue, if_pos (by omega)]
        exact ⟨none, rfl, fun _ _ hr => absurd hr (Option.some_ne_none _).symm, rfl⟩
      · rw [if_neg hvalue, if_neg (by omega), noteAt_eq _ _ (by omega), List.drop_drop]
        exact ih _ (by omega)

/-- No read of the parser reaches outside of the buffer, and it finds what `parsePropList` says. -/
theorem parsePropListAt_eq (data : Bytes) (objectSize : UInt64) :
    parsePropListAt data objectSize = some (parsePropList data objectSize) := by
  unfold parsePropListAt parsePropList
  by_cases hshort : data.length < 4
  · rw [if_pos hshort, if_pos hshort]
  rw [if_neg hshort, if_neg hshort, read32At_eq (by omega)]
  dsimp only [bind, Option.bind]
  split_ifs with hcount
  · rfl
  obtain ⟨r, hrun, hinside, hloop⟩ := propLoopAt_eq (read32 data 0).toNat {}
    (show 4 ≤ data.length by omega)
  rw [hrun, ← hloop]
  dsimp only
  cases r with
  | none => rfl
  | some p =>
    obtain ⟨found, off⟩ := p
    have hoff := hinside found off rfl
    have hend : data.drop off ≠ [] ↔ off ≠ data.length := by
      rw [ne_eq, List.drop_eq_nil_iff]
      omega
    dsimp only [Option.map]
    simp only [hend]
    split_ifs
    · rfl
    · rfl
    · rfl

end reads

/-! ## The grammar of a property list -/

/-- The values of a type, in bytes: ten scalar types, of which two each have the same width, arrays
of these with a count, and strings. -/
inductive MtpValue : UInt16 → Bytes → Prop where
  | scalar {k : ℕ} (hk : k < 10) {bytes : Bytes} (h : bytes.length = 2 ^ (k / 2)) :
    MtpValue (.ofNat (k + 1)) bytes
  | array {k : ℕ} (hk : k < 10) (count : UInt32) {elements : Bytes}
    (h : elements.length = count.toNat * 2 ^ (k / 2)) :
    MtpValue (.ofNat (0x4000 + k + 1)) (add32 count ++ elements)
  | string (count : UInt8) {units : Bytes} (h : units.length = count.toNat * 2) :
    MtpValue TYPE_STRING (count :: units)

/-- An element of a property list, whose value is of its type. -/
structure PropElement where
  objectHandle : UInt32
  prop : UInt16
  type : UInt16
  value : Bytes
  typed : MtpValue type value

namespace PropElement

def encode (e : PropElement) : Bytes :=
  add32 e.objectHandle ++ add16 e.prop ++ add16 e.type ++ e.value

/-- The name in an element for the file name, unless it is empty. -/
def fileName? (e : PropElement) : Option Bytes :=
  if e.prop = PROP_OBJECT_FILE_NAME ∧ e.type = TYPE_STRING then
    (utf16Name e.value).filter (· ≠ [])
  else none

/-- The size in an element for the size, if it is a 64-bit number. -/
def objectSize? (e : PropElement) : Option UInt64 :=
  if e.prop = PROP_OBJECT_SIZE ∧ e.type = TYPE_UINT64 then some (read64 e.value 0) else none

section others

variable {objectHandle : UInt32} {prop type : UInt16} {value : Bytes} {typed : MtpValue type value}

theorem fileName?_of_ne (h : prop ≠ PROP_OBJECT_FILE_NAME) :
    fileName? ⟨objectHandle, prop, type, value, typed⟩ = none := if_neg fun hname => h hname.1

theorem objectSize?_of_ne (h : prop ≠ PROP_OBJECT_SIZE) :
    objectSize? ⟨objectHandle, prop, type, value, typed⟩ = none := if_neg fun hsize => h hsize.1

end others

end PropElement

/-- A count, and as many elements. -/
def encodePropList (es : List PropElement) : Bytes :=
  add32 (.ofNat es.length) ++ es.flatMap PropElement.encode

/-! ## The values -/

theorem scalarSize_ofNat : ∀ k < 10, scalarSize (.ofNat (k + 1)) = 2 ^ (k / 2) ∧
    UInt16.ofNat (k + 1) ≠ TYPE_STRING := by
  decide

theorem scalarSize_array : ∀ k < 10,
    scalarSize (.ofNat (0x4000 + k + 1)) = 0 ∧ UInt16.ofNat (0x4000 + k + 1) ≠ TYPE_STRING ∧
    UInt16.ofNat (0x4000 + k + 1) &&& 0x4000 ≠ 0 ∧
    scalarSize (UInt16.ofNat (0x4000 + k + 1) &&& ~~~0x4000) = 2 ^ (k / 2) := by
  decide

/-- The types that have a size are the ten. -/
theorem exists_of_scalarSize {type : UInt16} (h : scalarSize type ≠ 0) :
    ∃ k < 10, type = .ofNat (k + 1) := by
  unfold scalarSize at h
  split_ifs at h with h₁ h₂ h₄ h₈ h₁₆
  · rcases h₁ with rfl | rfl
    · exact ⟨0, by decide, rfl⟩
    · exact ⟨1, by decide, rfl⟩
  · rcases h₂ with rfl | rfl
    · exact ⟨2, by decide, rfl⟩
    · exact ⟨3, by decide, rfl⟩
  · rcases h₄ with rfl | rfl
    · exact ⟨4, by decide, rfl⟩
    · exact ⟨5, by decide, rfl⟩
  · rcases h₈ with rfl | rfl
    · exact ⟨6, by decide, rfl⟩
    · exact ⟨7, by decide, rfl⟩
  · rcases h₁₆ with rfl | rfl
    · exact ⟨8, by decide, rfl⟩
    · exact ⟨9, by decide, rfl⟩
  · exact absurd rfl h

/-- A type with bit 14 is what is left without it, and the bit. -/
theorem bit_or {t : UInt16} (h : t &&& 0x4000 ≠ 0) : t = (t &&& ~~~0x4000) ||| 0x4000 := by
  have hm : (0x4000 : UInt16).toBitVec = BitVec.twoPow 16 14 := rfl
  have hbit : t.toBitVec.getLsbD 14 = true := by
    by_contra hbit
    apply h
    apply UInt16.toBitVec_inj.mp
    rw [UInt16.toBitVec_and, hm, BitVec.and_twoPow, if_neg hbit]
    rfl
  apply UInt16.toBitVec_inj.mp
  rw [UInt16.toBitVec_or, UInt16.toBitVec_and, UInt16.toBitVec_not, hm]
  apply BitVec.eq_of_getLsbD_eq
  intro i hi
  rw [BitVec.getLsbD_or, BitVec.getLsbD_and, BitVec.getLsbD_not, BitVec.getLsbD_twoPow]
  by_cases h14 : 14 = i
  · subst h14
    simp [hbit]
  · simp [h14, hi]

theorem ofNat_or_bit : ∀ k < 10,
    UInt16.ofNat (k + 1) ||| 0x4000 = UInt16.ofNat (0x4000 + k + 1) := by
  decide

/-- The array types are the ten with bit 14. -/
theorem exists_of_array {type : UInt16} (hbit : type &&& 0x4000 ≠ 0)
    (h : scalarSize (type &&& ~~~0x4000) ≠ 0) : ∃ k < 10, type = .ofNat (0x4000 + k + 1) := by
  obtain ⟨k, hk, hbase⟩ := exists_of_scalarSize h
  refine ⟨k, hk, ?_⟩
  rw [bit_or hbit, hbase, ofNat_or_bit k hk]

/-- A number is the four bytes that it is read from. -/
theorem take_four {data : Bytes} (h : 4 ≤ data.length) : data.take 4 = add32 (read32 data 0) := by
  unfold add32 read32 u32
  rw [UInt32.toNat_ofNat_of_lt' (ofLe_slice_lt data 0 4)]
  exact (le_ofLe_take h).symm

/-- A count fits where its elements do. -/
theorem count_fits {count elem room : ℕ} (helem : 0 < elem) :
    ¬room / elem < count ↔ count * elem ≤ room := by
  rw [not_lt, Nat.le_div_iff_mul_le helem]

/-- The size is that of the value with which the bytes begin. -/
theorem mtpValueSize_of_value {type : UInt16} {value : Bytes} (h : MtpValue type value)
    (rest : Bytes) : mtpValueSize type (value ++ rest) = some value.length ∧ value ≠ [] := by
  cases h with
  | @scalar k hk bytes h =>
    obtain ⟨hsize, hstring⟩ := scalarSize_ofNat k hk
    have hpos : 0 < 2 ^ (k / 2) := Nat.two_pow_pos _
    unfold mtpValueSize
    rw [if_neg hstring, hsize, if_pos hpos.ne', if_neg, h]
    · refine ⟨rfl, ?_⟩
      rintro rfl
      exact hpos.ne h
    · rw [List.length_append]
      omega
  | @array k hk count elements h =>
    obtain ⟨hscalar, hstring, hbit, helem⟩ := scalarSize_array k hk
    have hpos : 0 < 2 ^ (k / 2) := Nat.two_pow_pos _
    have hcount : read32 (add32 count ++ elements ++ rest) 0 = count := by
      rw [List.append_assoc]
      exact read32_append [] (elements ++ rest) count rfl
    have hlength : (add32 count ++ elements ++ rest).length
        = 4 + count.toNat * 2 ^ (k / 2) + rest.length := by
      rw [List.length_append, List.length_append, length_add32, h]
    have hfits : ¬((4 + count.toNat * 2 ^ (k / 2) + rest.length - 4) / 2 ^ (k / 2)
        < count.toNat) := by
      rw [count_fits hpos]
      omega
    unfold mtpValueSize
    rw [if_neg hstring, if_neg (not_not.mpr hscalar), if_pos ⟨hbit, by omega⟩]
    dsimp only
    rw [helem, hcount, hlength, if_neg (not_or.mpr ⟨hpos.ne', hfits⟩), List.length_append,
      length_add32, h]
    refine ⟨rfl, ?_⟩
    intro hnil
    have hzero := congrArg List.length hnil
    rw [List.length_append, length_add32, List.length_nil] at hzero
    omega
  | @string count units h =>
    unfold mtpValueSize
    rw [if_pos rfl, List.cons_append]
    dsimp only
    rw [if_neg, List.length_cons, h, Nat.add_comm]
    · exact ⟨rfl, List.cons_ne_nil _ _⟩
    · rw [List.length_cons, List.length_append]
      omega

/-- A size is that of a value. -/
theorem value_of_mtpValueSize {type : UInt16} {data : Bytes} {n : ℕ}
    (h : mtpValueSize type data = some n) : n ≤ data.length ∧ MtpValue type (data.take n) := by
  unfold mtpValueSize at h
  by_cases hstring : type = TYPE_STRING
  · rw [if_pos hstring] at h
    cases data with
    | nil => cases h
    | cons count rest =>
      dsimp only at h
      rw [List.length_cons] at h
      split_ifs at h with hshort
      cases h
      rw [hstring, Nat.add_comm 1, List.take_succ_cons, List.length_cons]
      refine ⟨by omega, .string count ?_⟩
      rw [List.length_take]
      omega
  rw [if_neg hstring] at h
  by_cases hscalar : scalarSize type ≠ 0
  · rw [if_pos hscalar] at h
    split_ifs at h with hshort
    cases h
    obtain ⟨k, hk, rfl⟩ := exists_of_scalarSize hscalar
    refine ⟨not_lt.mp hshort, .scalar hk ?_⟩
    rw [List.length_take, Nat.min_eq_left (not_lt.mp hshort), (scalarSize_ofNat k hk).1]
  rw [if_neg hscalar] at h
  split_ifs at h with harray
  dsimp only at h
  split_ifs at h with hlarge
  cases h
  obtain ⟨helem, hfits⟩ := not_or.mp hlarge
  rw [count_fits (Nat.pos_of_ne_zero helem)] at hfits
  obtain ⟨k, hk, rfl⟩ := exists_of_array harray.1 helem
  have hwidth := (scalarSize_array k hk).2.2.2
  rw [hwidth] at hfits ⊢
  refine ⟨by omega, ?_⟩
  have htake : data.take (4 + (read32 data 0).toNat * 2 ^ (k / 2)) =
      add32 (read32 data 0) ++ (data.drop 4).take ((read32 data 0).toNat * 2 ^ (k / 2)) := by
    rw [List.take_add, take_four harray.2]
  rw [htake]
  apply MtpValue.array hk
  rw [List.length_take, List.length_drop]
  omega

/-! ## The elements -/

theorem take_two {data : Bytes} (h : 2 ≤ data.length) : data.take 2 = add16 (read16 data 0) := by
  unfold add16 read16 u16
  rw [UInt16.toNat_ofNat_of_lt' (ofLe_slice_lt data 0 2)]
  exact (le_ofLe_take h).symm

/-- The head of an element. -/
theorem take_eight {data : Bytes} (h : 8 ≤ data.length) :
    data.take 8 = add32 (read32 data 0) ++ add16 (read16 data 4) ++ add16 (read16 data 6) := by
  have hfour := take_four (show 4 ≤ data.length by omega)
  have hprop := take_two (show 2 ≤ (data.drop 4).length by rw [List.length_drop]; omega)
  have htype := take_two (show 2 ≤ (data.drop 6).length by rw [List.length_drop]; omega)
  rw [read16_drop] at hprop htype
  calc data.take 8 = data.take (4 + 2 + 2) := rfl
    _ = data.take 4 ++ (data.drop 4).take 2 ++ (data.drop 6).take 2 := by
      rw [List.take_add, List.take_add]
    _ = _ := by rw [hfour, hprop, htype]

/-- What is noted of an element. -/
def PropElement.note (found : PropScan) (e : PropElement) : PropScan where
  name := e.fileName?.getD found.name
  sizeFromProp := e.objectSize?.or found.sizeFromProp

/-- A 64-bit number has eight bytes. -/
theorem MtpValue.length_uint64 {value : Bytes} (h : MtpValue TYPE_UINT64 value) :
    value.length = 8 := by
  have hsize := (mtpValueSize_of_value h []).1
  unfold mtpValueSize at hsize
  rw [if_neg (by decide), if_pos (by decide)] at hsize
  split_ifs at hsize
  exact (Option.some.inj hsize).symm

/-- What the loop does with an element. -/
theorem PropElement.note_eq (found : PropScan) (e : PropElement) (rest : Bytes) :
    (if e.prop = PROP_OBJECT_FILE_NAME ∧ e.type = TYPE_STRING then
      match utf16Name e.value with
      | some candidate => if candidate = [] then found else { found with name := candidate }
      | none => found
    else if e.prop = PROP_OBJECT_SIZE ∧ e.type = TYPE_UINT64 ∧ e.value.length = 8 then
      { found with sizeFromProp := some (read64 (e.value ++ rest) 0) }
    else found) = e.note found := by
  unfold note fileName? objectSize?
  by_cases hname : e.prop = PROP_OBJECT_FILE_NAME ∧ e.type = TYPE_STRING
  · have hsize : ¬(e.prop = PROP_OBJECT_SIZE ∧ e.type = TYPE_UINT64) := by
      rw [hname.1]
      rintro ⟨hprop, -⟩
      revert hprop
      decide
    rw [if_pos hname, if_pos hname, if_neg hsize, Option.none_or]
    cases utf16Name e.value with
    | none => rfl
    | some candidate =>
      dsimp only
      split_ifs with hempty
      · rw [hempty]
        rfl
      · rw [Option.filter_some_pos (by simpa using hempty)]
        rfl
  · rw [if_neg hname, if_neg hname]
    by_cases hsize : e.prop = PROP_OBJECT_SIZE ∧ e.type = TYPE_UINT64
    · have htyped : MtpValue TYPE_UINT64 e.value := hsize.2 ▸ e.typed
      have hlength : e.value.length = 8 := htyped.length_uint64
      have hread : read64 (e.value ++ rest) 0 = read64 e.value 0 := by
        unfold read64 u64
        rw [slice_append_left (by omega)]
      rw [if_pos hsize, if_pos ⟨hsize.1, hsize.2, hlength⟩, hread]
      rfl
    · rw [if_neg hsize, if_neg fun h => hsize ⟨h.1, h.2.1⟩, Option.none_or]
      rfl

section elements

variable {found : PropScan}

/-- An element is read as a whole. -/
theorem propLoop_element (n : ℕ) (e : PropElement) (rest : Bytes) (found : PropScan) :
    propLoop (n + 1) (e.encode ++ rest) found = propLoop n rest (e.note found) := by
  obtain ⟨hsize, hne⟩ := mtpValueSize_of_value e.typed rest
  have hprop : read16 (e.encode ++ rest) 4 = e.prop := by
    simpa [PropElement.encode] using read16_append (add32 e.objectHandle)
      (add16 e.type ++ e.value ++ rest) e.prop rfl
  have htype : read16 (e.encode ++ rest) 6 = e.type := by
    simpa [PropElement.encode] using read16_append (add32 e.objectHandle ++ add16 e.prop)
      (e.value ++ rest) e.type rfl
  have hdrop : (e.encode ++ rest).drop 8 = e.value ++ rest := by
    unfold PropElement.encode
    rw [List.append_assoc]
    exact List.drop_left' (by simp)
  have hlength : ¬(e.encode ++ rest).length < 8 := by
    simp [PropElement.encode]
    omega
  have hvalue : ¬(e.value.length = 0 ∨ (e.value ++ rest).length < e.value.length) := by
    rw [List.length_append, List.length_eq_zero_iff]
    exact not_or.mpr ⟨hne, by omega⟩
  rw [propLoop, if_neg hlength, hprop, htype, hdrop]
  dsimp only
  rw [hsize]
  dsimp only
  rw [if_neg hvalue, List.take_left, List.drop_left]
  exact congrArg (propLoop n rest) (e.note_eq found rest)

/-- What the loop accepts is a row of elements. -/
theorem elements_of_propLoop {n : ℕ} {data : Bytes} {found' : PropScan} {rest : Bytes}
    (h : propLoop n data found = some (found', rest)) :
    ∃ es : List PropElement, es.length = n ∧ data = es.flatMap PropElement.encode ++ rest := by
  induction n generalizing data found with
  | zero =>
    cases h
    exact ⟨[], rfl, rfl⟩
  | succ n ih =>
    have hloop := h
    rw [propLoop] at h
    dsimp only at h
    split at h
    · cases h
    rename_i hlength
    split at h
    · cases h
    rename_i valueSize hsize
    obtain ⟨hle, hvalue⟩ := value_of_mtpValueSize hsize
    obtain ⟨e, hdata⟩ : ∃ e : PropElement, data = e.encode ++ (data.drop 8).drop valueSize := by
      refine ⟨⟨read32 data 0, read16 data 4, read16 data 6, _, hvalue⟩, ?_⟩
      unfold PropElement.encode
      rw [← take_eight (not_lt.mp hlength), List.append_assoc, List.take_append_drop,
        List.take_append_drop]
    rw [hdata, propLoop_element] at hloop
    obtain ⟨es, hes, hrest⟩ := ih hloop
    refine ⟨e :: es, congrArg (· + 1) hes, ?_⟩
    rw [List.flatMap_cons, List.append_assoc, ← hrest]
    exact hdata

theorem propLoop_elements (es : List PropElement) (rest : Bytes) (found : PropScan) :
    propLoop es.length (es.flatMap PropElement.encode ++ rest) found =
      some (es.foldl PropElement.note found, rest) := by
  induction es generalizing found with
  | nil => rfl
  | cons e es ih =>
    rw [List.length_cons, List.flatMap_cons, List.append_assoc, propLoop_element, ih,
      List.foldl_cons]

/-- The last of the names, and the last of the sizes, are what is left. -/
theorem foldl_note (es : List PropElement) (found : PropScan) :
    es.foldl PropElement.note found =
      { name := (es.filterMap PropElement.fileName?).getLast?.getD found.name
        sizeFromProp :=
          (es.filterMap PropElement.objectSize?).getLast?.or found.sizeFromProp } := by
  induction es generalizing found with
  | nil => rfl
  | cons e es ih =>
    rw [List.foldl_cons, ih, List.filterMap_cons, List.filterMap_cons]
    unfold PropElement.note
    cases e.fileName? with
    | none =>
      cases e.objectSize? with
      | none => rfl
      | some size =>
        dsimp only
        rw [List.getLast?_cons]
        cases (es.filterMap PropElement.objectSize?).getLast? <;> rfl
    | some name =>
      dsimp only
      rw [List.getLast?_cons]
      cases e.objectSize? with
      | none => rfl
      | some size =>
        dsimp only
        rw [List.getLast?_cons]
        cases (es.filterMap PropElement.objectSize?).getLast? <;> rfl

theorem fileName_ne_nil {es : List PropElement} {name : Bytes}
    (h : (es.filterMap PropElement.fileName?).getLast? = some name) : name ≠ [] := by
  obtain ⟨e, -, he⟩ := List.mem_filterMap.mp (List.mem_of_getLast? h)
  unfold PropElement.fileName? at he
  split_ifs at he
  obtain ⟨-, hne⟩ := Option.filter_eq_some_iff.mp he
  exact of_decide_eq_true hne

/-- What the parser says of a list of elements. -/
theorem parsePropList_encode {es : List PropElement} (hlen : es.length ≤ 256) (objectSize : UInt64)
    (name : Bytes) : parsePropList (encodePropList es) objectSize = some name ↔
      (es.filterMap PropElement.fileName?).getLast? = some name ∧
        ∀ size, (es.filterMap PropElement.objectSize?).getLast? = some size →
          size = objectSize := by
  have hnat : (UInt32.ofNat es.length).toNat = es.length :=
    UInt32.toNat_ofNat_of_lt' (by unfold UInt32.size; omega)
  have hcount : read32 (encodePropList es) 0 = .ofNat es.length :=
    read32_append [] (es.flatMap PropElement.encode) _ rfl
  have hdrop : (encodePropList es).drop 4 = es.flatMap PropElement.encode :=
    List.drop_left' (length_add32 _)
  have hlength : ¬(encodePropList es).length < 4 := by
    unfold encodePropList
    rw [List.length_append, length_add32]
    omega
  have hloop := propLoop_elements es [] {}
  rw [List.append_nil, foldl_note] at hloop
  unfold parsePropList
  rw [if_neg hlength, hcount, hnat, if_neg (by omega), hdrop, hloop]
  dsimp only
  cases hname : (es.filterMap PropElement.fileName?).getLast? with
  | none => simp
  | some last =>
    have hne := fileName_ne_nil hname
    cases (es.filterMap PropElement.objectSize?).getLast? with
    | none => simp [hne]
    | some size =>
      by_cases hsize : size = objectSize
      · simp [hne, hsize]
      · simp [hne, hsize]

/-- The parser accepts the lists of the grammar that have a name, and no other size than the
command's. -/
theorem parsePropList_iff (data : Bytes) (objectSize : UInt64) (name : Bytes) :
    parsePropList data objectSize = some name ↔
      ∃ es : List PropElement, es.length ≤ 256 ∧ data = encodePropList es ∧
        (es.filterMap PropElement.fileName?).getLast? = some name ∧
        ∀ size, (es.filterMap PropElement.objectSize?).getLast? = some size →
          size = objectSize := by
  constructor
  · intro h
    have hparse := h
    unfold parsePropList at h
    dsimp only at h
    split at h
    · cases h
    rename_i hlength
    split at h
    · cases h
    rename_i hcount
    split at h
    · cases h
    rename_i found rest hloop
    split at h
    · cases h
    rename_i hrest
    obtain ⟨es, hes, hdata⟩ := elements_of_propLoop hloop
    have hnil : rest = [] := not_not.mp (not_or.mp hrest).1
    have hlist : data = encodePropList es := by
      unfold encodePropList
      rw [hes, UInt32.ofNat_toNat, ← take_four (not_lt.mp hlength)]
      rw [hnil, List.append_nil] at hdata
      rw [← hdata, List.take_append_drop]
    have hlen : es.length ≤ 256 := by omega
    rw [hlist, parsePropList_encode hlen] at hparse
    exact ⟨es, hlen, hlist, hparse⟩
  · rintro ⟨es, hlen, rfl, h⟩
    exact (parsePropList_encode hlen objectSize name).mpr h

end elements

/-! ## The list of an object -/

section object

variable {s : Server} {wire : Bytes}

theorem length_stringUnits (n : ℕ) (value : Bytes) : (stringUnits n value).length ≤ n := by
  induction n generalizing value with
  | zero =>
    rw [stringUnits.eq_def]
    exact le_rfl
  | succ n ih =>
    have hcons : ∀ (u : UInt16) (rest : Bytes), (u :: stringUnits n rest).length ≤ n + 1 :=
      fun u rest => Nat.succ_le_succ (ih rest)
    cases value with
    | nil =>
      rw [stringUnits.eq_def]
      exact Nat.zero_le _
    | cons c rest =>
      rw [stringUnits.eq_def]
      dsimp only
      split
      · exact hcons _ _
      cases rest with
      | nil => exact hcons _ _
      | cons b tail =>
        dsimp only
        split
        · exact hcons _ _
        cases tail with
        | nil => exact hcons _ _
        | cons b' tail' =>
          dsimp only
          split
          · exact hcons _ _
          · exact hcons _ _

/-- What is written of a string is one. -/
theorem mtpValue_addString (value : Bytes) : MtpValue TYPE_STRING (addString value) := by
  unfold addString
  split_ifs with hempty
  · exact .string 0 rfl
  · have hle := length_stringUnits 253 value
    apply MtpValue.string
    show ((stringUnits 253 value).flatMap add16 ++ add16 0).length = _
    rw [List.length_append, length_flatMap_add16, length_add16,
      UInt8.toNat_ofNat_of_lt' (by unfold UInt8.size; omega)]
    omega

theorem mtpValue_add16 (v : UInt16) : MtpValue TYPE_UINT16 (add16 v) :=
  .scalar (k := 3) (by decide) (length_add16 v)

theorem mtpValue_add32 (v : UInt32) : MtpValue TYPE_UINT32 (add32 v) :=
  .scalar (k := 5) (by decide) (length_add32 v)

theorem mtpValue_add64 (v : UInt64) : MtpValue TYPE_UINT64 (add64 v) :=
  .scalar (k := 7) (by decide) (length_le 8 v.toNat)

theorem mtpValue_add128 (lo hi : UInt64) : MtpValue TYPE_UINT128 (add128 lo hi) :=
  .scalar (k := 9) (by decide) (by simp [add128, add64])

/-- The elements of the list of all properties. -/
def Server.propElements (s : Server) : List PropElement :=
  [⟨s.currentObjectHandle, PROP_STORAGE_ID, TYPE_UINT32, add32 STORAGE_ID, mtpValue_add32 _⟩,
    ⟨s.currentObjectHandle, PROP_OBJECT_FORMAT, TYPE_UINT16, add16 FORMAT_UNDEFINED,
      mtpValue_add16 _⟩,
    ⟨s.currentObjectHandle, PROP_OBJECT_SIZE, TYPE_UINT64, add64 (.ofNat s.currentObjectSize),
      mtpValue_add64 _⟩,
    ⟨s.currentObjectHandle, PROP_OBJECT_FILE_NAME, TYPE_STRING, addString s.currentObjectName,
      mtpValue_addString _⟩,
    ⟨s.currentObjectHandle, PROP_PARENT, TYPE_UINT32, add32 ROOT_PARENT, mtpValue_add32 _⟩,
    ⟨s.currentObjectHandle, PROP_PERSISTENT_ID, TYPE_UINT128,
      add128 s.currentObjectHandle.toUInt64 0, mtpValue_add128 _ _⟩]

/-- The list of all properties is of the grammar. -/
theorem Server.makeObjectPropList_all {handle : UInt32} {requested : UInt16} {list : Bytes}
    (hvalid : s.pendingValid = true) (hall : requested = 0xFFFF ∨ requested = 0)
    (h : s.makeObjectPropList handle requested = some list) :
    list = encodePropList s.propElements := by
  have hexists : s.currentObjectExists = true := hvalid
  unfold makeObjectPropList at h
  dsimp only at h
  rw [if_neg (not_not.mpr hexists), if_pos hall] at h
  split at h
  · cases h
  · exact (Option.some.inj h).symm

/-- The names in the list: that of the object. -/
theorem Server.fileNames_propElements (h : s.Announced wire)
    (hplain : ∀ u ∈ wireUnits wire, ¬(0xD800 ≤ u ∧ u ≤ 0xDFFF)) :
    s.propElements.filterMap PropElement.fileName? = [s.pendingName] := by
  obtain ⟨hname, hne, hle⟩ := h.accepted.units
  have hshown : (wireUnits wire).map shown = wireUnits wire :=
    (List.map_congr_left fun u hu => if_neg (hplain u hu)).trans (List.map_id _)
  have hread : utf16Name (addString s.currentObjectName) = some s.pendingName := by
    have hstring := utf16Name_mtpString
      (show ((wireUnits wire).map shown).length < 255 by rw [List.length_map]; omega) []
    rw [List.append_nil, takeWhile_shown, hshown, ← hname] at hstring
    rw [h.addString_name, hshown, hstring]
  have helement : ∀ typed, PropElement.fileName? ⟨s.currentObjectHandle, PROP_OBJECT_FILE_NAME,
      TYPE_STRING, addString s.currentObjectName, typed⟩ = some s.pendingName := by
    intro typed
    unfold PropElement.fileName?
    rw [if_pos ⟨rfl, rfl⟩, hread, Option.filter_some_pos (by simpa using h.accepted.bounds.1)]
  unfold propElements
  rw [List.filterMap_cons_none (PropElement.fileName?_of_ne (by decide)),
    List.filterMap_cons_none (PropElement.fileName?_of_ne (by decide)),
    List.filterMap_cons_none (PropElement.fileName?_of_ne (by decide)),
    List.filterMap_cons_some (helement _),
    List.filterMap_cons_none (PropElement.fileName?_of_ne (by decide)),
    List.filterMap_cons_none (PropElement.fileName?_of_ne (by decide)), List.filterMap_nil]

/-- The sizes in the list: that of the object. -/
theorem Server.objectSizes_propElements (s : Server) :
    s.propElements.filterMap PropElement.objectSize? = [.ofNat s.currentObjectSize] := by
  have helement : ∀ typed, PropElement.objectSize? ⟨s.currentObjectHandle, PROP_OBJECT_SIZE,
      TYPE_UINT64, add64 (.ofNat s.currentObjectSize), typed⟩
        = some (.ofNat s.currentObjectSize) := by
    intro typed
    have hread : read64 (add64 (.ofNat s.currentObjectSize)) 0 = .ofNat s.currentObjectSize := by
      apply u64_of
      exact slice_all (length_le 8 _).le
    unfold PropElement.objectSize?
    rw [if_pos ⟨rfl, rfl⟩, hread]
  unfold propElements
  rw [List.filterMap_cons_none (PropElement.objectSize?_of_ne (by decide)),
    List.filterMap_cons_none (PropElement.objectSize?_of_ne (by decide)),
    List.filterMap_cons_some (helement _),
    List.filterMap_cons_none (PropElement.objectSize?_of_ne (by decide)),
    List.filterMap_cons_none (PropElement.objectSize?_of_ne (by decide)),
    List.filterMap_cons_none (PropElement.objectSize?_of_ne (by decide)), List.filterMap_nil]

/-- The list of an object is read back. -/
theorem Server.parsePropList_makeObjectPropList (h : s.Announced wire)
    (hplain : ∀ u ∈ wireUnits wire, ¬(0xD800 ≤ u ∧ u ≤ 0xDFFF)) {handle : UInt32}
    {requested : UInt16} {list : Bytes} (hall : requested = 0xFFFF ∨ requested = 0)
    (hlist : s.makeObjectPropList handle requested = some list) (size : UInt64) (name : Bytes) :
    parsePropList list size = some name ↔
      name = s.pendingName ∧ size = .ofNat s.currentObjectSize := by
  have hlen : s.propElements.length = 6 := rfl
  rw [makeObjectPropList_all h.valid hall hlist, parsePropList_encode (by omega),
    fileNames_propElements h hplain, objectSizes_propElements]
  simp [eq_comm]

/-- What becomes of a dataset that is received. -/
theorem Server.handleSendObjectPropList_eq {s' : Server}
    {trans storage parent format hi lo : UInt32} {rest : List UInt32} {data : Bytes}
    (hbusy : s.installerBusy = false)
    (hstorage : storage = 0 ∨ storage = STORAGE_ID) (hparent : parent = 0 ∨ parent = 0xFFFFFFFF)
    (hread : s.readDataset .sendObjectPropList trans 4 (256 * 1024) = (some data, s')) :
    s.handleSendObjectPropList trans (storage :: parent :: format :: hi :: lo :: rest) =
      (parsePropList data (hi.toUInt64 <<< 32 ||| lo.toUInt64)).elim
        (s'.sendResponse RES_INVALID_OBJECT_INFO trans) fun name =>
          s'.preparePendingObject name (hi.toUInt64 <<< 32 ||| lo.toUInt64).toNat true
            format.toUInt16 trans := by
  have hfine : ¬((storage ≠ 0 ∧ storage ≠ STORAGE_ID) ∨ (parent ≠ 0 ∧ parent ≠ 0xFFFFFFFF)) := by
    tauto
  unfold handleSendObjectPropList
  rw [if_neg (by rw [hbusy]; exact Bool.false_ne_true)]
  dsimp only
  rw [if_neg hfine, hread]
  dsimp only
  cases parsePropList data (hi.toUInt64 <<< 32 ||| lo.toUInt64) with
  | none => rfl
  | some name => rfl

end object

/-- The parser of property lists reads within its buffer, for every buffer.  It accepts exactly a
count up to 256 with as many elements and nothing behind them, of which one names the file and the
last that tells a 64-bit size tells that of the command; only then is an object prepared.  The list
of all properties of an object, whose name came from the host without surrogates, is read back to
that name and its size. -/
theorem Server.propList_format :
    (∀ (data : Bytes) (size : UInt64),
      parsePropListAt data size = some (parsePropList data size)) ∧
    (∀ (data : Bytes) (size : UInt64) (name : Bytes), parsePropList data size = some name ↔
      ∃ es : List PropElement, es.length ≤ 256 ∧ data = encodePropList es ∧
        (es.filterMap PropElement.fileName?).getLast? = some name ∧
        ∀ told, (es.filterMap PropElement.objectSize?).getLast? = some told → told = size) ∧
    (∀ (s s' : Server) (trans storage parent format hi lo : UInt32) (rest : List UInt32)
      (data : Bytes), s.installerBusy = false → (storage = 0 ∨ storage = STORAGE_ID) →
      (parent = 0 ∨ parent = 0xFFFFFFFF) →
      s.readDataset .sendObjectPropList trans 4 (256 * 1024) = (some data, s') →
        s.handleSendObjectPropList trans (storage :: parent :: format :: hi :: lo :: rest) =
          (parsePropList data (hi.toUInt64 <<< 32 ||| lo.toUInt64)).elim
            (s'.sendResponse RES_INVALID_OBJECT_INFO trans) fun name =>
              s'.preparePendingObject name (hi.toUInt64 <<< 32 ||| lo.toUInt64).toNat true
                format.toUInt16 trans) ∧
    ∀ (s : Server) (wire : Bytes), s.Announced wire →
      (∀ u ∈ wireUnits wire, ¬(0xD800 ≤ u ∧ u ≤ 0xDFFF)) →
      ∀ (handle : UInt32) (requested : UInt16) (list : Bytes),
        (requested = 0xFFFF ∨ requested = 0) → s.makeObjectPropList handle requested = some list →
          ∀ (size : UInt64) (name : Bytes), parsePropList list size = some name ↔
            name = s.pendingName ∧ size = .ofNat s.currentObjectSize := by
  refine ⟨parsePropListAt_eq, parsePropList_iff, ?_, ?_⟩
  · intro s s' trans storage parent format hi lo rest data hbusy hstorage hparent hread
    exact handleSendObjectPropList_eq hbusy hstorage hparent hread
  · intro s wire h hplain handle requested list hall hlist size name
    exact parsePropList_makeObjectPropList h hplain hall hlist size name

/-- A responder that has accepted an object `a.nsp` of three bytes. -/
def plainServer : Server :=
  ({ usb := [], sessionId := 1 } : Server).preparePendingObject (Nsp.text "a.nsp") 3 true 0x3000 1

theorem plainServer_announced : plainServer.Announced (addString (Nsp.text "a.nsp")) := by
  constructor
  · decide
  · constructor
    · decide
    · decide

/-- A responder to which a list is sent. -/
def plainReader : Server where
  usb := [some (ContainerHeader.encode ⟨.ofNat (headerSize + announcement.length), CONTAINER_DATA,
    Operation.sendObjectPropList.code, 2⟩ ++ announcement)]

/-- The list of that object is read back, and a list that the host sends is read. -/
theorem Server.propList_format_plain :
    (∃ list, plainServer.makeObjectPropList 1 0 = some list ∧
      parsePropList list 3 = some (Nsp.text "a.nsp")) ∧
    plainReader.handleSendObjectPropList 2 [0, 0, 0x3000, 0, 3] =
      (parsePropList announcement 3).elim ((plainReader.readDataset .sendObjectPropList 2 4
        (256 * 1024)).2.sendResponse RES_INVALID_OBJECT_INFO 2) fun name =>
          (plainReader.readDataset .sendObjectPropList 2 4
            (256 * 1024)).2.preparePendingObject name 3 true 0x3000 2 := by
  have hread : plainReader.readDataset .sendObjectPropList 2 4 (256 * 1024) =
      (some announcement, (plainReader.readDataset .sendObjectPropList 2 4 (256 * 1024)).2) :=
    Prod.ext (by decide) rfl
  obtain ⟨-, -, hhandler, hobjects⟩ := propList_format
  have hlist : plainServer.makeObjectPropList 1 0
      = some (encodePropList plainServer.propElements) := rfl
  have hwire : wireUnits (addString (Nsp.text "a.nsp")) = [97, 46, 110, 115, 112] := by decide
  have hplain : ∀ u ∈ wireUnits (addString (Nsp.text "a.nsp")), ¬(0xD800 ≤ u ∧ u ≤ 0xDFFF) := by
    rw [hwire]
    simp
  have hback := hobjects plainServer _ plainServer_announced hplain 1 0 _ (.inr rfl) hlist 3
    (Nsp.text "a.nsp")
  refine ⟨⟨_, hlist, hback.mpr ⟨by decide, by decide⟩⟩, ?_⟩
  exact hhandler plainReader _ 2 0 0 0x3000 0 3 [] announcement rfl (.inl rfl) (.inl rfl) hread

end MtpNativeServer
