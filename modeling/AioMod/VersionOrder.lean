/-
# Comparing versions

`isNewerVersion` of `utils.cpp` adds up the components of a version in an `int`.  As long as none of
them is too large for one, versions are compared by the sequences of their components, continued with
zeros, in lexicographic order.
-/
import AioMod.FatFs
import AioMod.TextLines
import Mathlib.Order.PiLex
import Mathlib.Tactic

namespace Version

open TextLines

/-! ## The code -/

def DOT : UInt8 := 46

/-- `std::isspace` in the C locale. -/
def isspace (c : UInt8) : Prop := c = 32 ∨ 9 ≤ c ∧ c ≤ 13

instance (c : UInt8) : Decidable (isspace c) := inferInstanceAs (Decidable (_ ∨ _))

/-- `std::isdigit` -/
def isdigit (c : UInt8) : Prop := 48 ≤ c ∧ c ≤ 57

instance (c : UInt8) : Decidable (isdigit c) := inferInstanceAs (Decidable (_ ∧ _))

/-- `cleanVersion` -/
def cleanVersion (version : Bytes) : Bytes :=
  let version := version.dropWhile (isspace ·)
  let version := (version.reverse.dropWhile (isspace ·)).reverse
  if version.head? = some 118 ∨ version.head? = some 86 then version.tail else version

/-- The largest `int`. -/
def INT_MAX : ℕ := 2147483647

/-- The loop of `parse`; an `int` that overflows is undefined. -/
def parseLoop : Bytes → List ℕ → ℕ → Bool → Option (List ℕ)
  | [], parts, value, reading => some (if reading then parts ++ [value] else parts)
  | ch :: version, parts, value, reading =>
    if isdigit ch then
      let value := value * 10 + (ch.toNat - 48)
      if value ≤ INT_MAX then parseLoop version parts value true else none
    else if ch = DOT ∧ reading then parseLoop version (parts ++ [value]) 0 false
    else some (if reading then parts ++ [value] else parts)

/-- `parse` of `isNewerVersion` -/
def parse (raw : Bytes) : Option (List ℕ) := parseLoop (cleanVersion raw) [] 0 false

/-- `std::vector::resize` with zeros -/
def resize (parts : List ℕ) (count : ℕ) : List ℕ :=
  parts.take count ++ List.replicate (count - parts.length) 0

/-- The comparing loop of `isNewerVersion`. -/
def newer : List ℕ → List ℕ → Bool
  | l :: latest, c :: current => if l > c then true else if l < c then false else newer latest current
  | _, _ => false

/-- `isNewerVersion` -/
def isNewerVersion (latestVersion currentVersion : Bytes) : Option Bool := do
  let latest ← parse latestVersion
  let current ← parse currentVersion
  if latest = [] ∨ current = [] then some false
  else
    let count := max latest.length current.length
    some (newer (resize latest count) (resize current count))

/-! ## Components -/

/-- The number that digits stand for. -/
def value (digits : Bytes) : ℕ := digits.foldl (fun n c => n * 10 + (c.toNat - 48)) 0

/-- The characters of the numeric part of a version. -/
def Numeral (c : UInt8) : Prop := isdigit c ∨ c = DOT

instance (c : UInt8) : Decidable (Numeral c) := inferInstanceAs (Decidable (_ ∨ _))

/-- The numeric components of a version: those of its numeric part, up to the first empty one. -/
def components (version : Bytes) : List ℕ :=
  ((getlines DOT ((cleanVersion version).takeWhile (Numeral ·))).takeWhile (· ≠ [])).map value

/-- A version, continued with zeros. -/
def padded (parts : List ℕ) : ℕ → ℕ := fun i => parts.getD i 0

/-- Versions with components are compared in lexicographic order. -/
def Newer (a b : Bytes) : Prop :=
  components a ≠ [] ∧ components b ≠ [] ∧
    toLex (padded (components b)) < toLex (padded (components a))

/-- Every component fits in an `int`. -/
def InRange (version : Bytes) : Prop := ∀ n ∈ components version, n ≤ INT_MAX

/-! ## The parser -/

/-- What the parser still finds, without a limit, after it has read `v` of a component. -/
def numerals : Bytes → ℕ → Bool → List ℕ
  | [], v, reading => if reading then [v] else []
  | ch :: version, v, reading =>
    if isdigit ch then numerals version (v * 10 + (ch.toNat - 48)) true
    else if ch = DOT ∧ reading then v :: numerals version 0 false
    else if reading then [v] else []

/-- What has been read of a component stays in it. -/
theorem exists_le_numerals (version : Bytes) (v : ℕ) : ∃ n ∈ numerals version v true, v ≤ n := by
  induction version generalizing v with
  | nil => exact ⟨v, List.mem_singleton_self v, le_rfl⟩
  | cons ch version ih =>
    unfold numerals
    split
    · obtain ⟨n, hn, hle⟩ := ih (v * 10 + (ch.toNat - 48))
      exact ⟨n, hn, by omega⟩
    · split
      · exact ⟨v, List.mem_cons_self .., le_rfl⟩
      · exact ⟨v, List.mem_singleton_self v, le_rfl⟩

theorem parseLoop_eq (version : Bytes) (parts : List ℕ) (v : ℕ) (reading : Bool)
    (hv : v ≤ INT_MAX) : parseLoop version parts v reading =
      if ∀ n ∈ numerals version v reading, n ≤ INT_MAX
      then some (parts ++ numerals version v reading) else none := by
  have hend : (some (if reading then parts ++ [v] else parts) : Option (List ℕ)) =
      if ∀ n ∈ (if reading then [v] else [] : List ℕ), n ≤ INT_MAX
      then some (parts ++ if reading then [v] else []) else none := by
    cases reading with
    | true => simp [hv]
    | false => simp
  induction version generalizing parts v reading with
  | nil => exact hend
  | cons ch version ih =>
    unfold parseLoop numerals
    by_cases hdigit : isdigit ch
    · rw [if_pos hdigit, if_pos hdigit]
      dsimp only
      by_cases hle : v * 10 + (ch.toNat - 48) ≤ INT_MAX
      · rw [if_pos hle]
        apply ih _ _ _ hle
        simp [hle]
      · rw [if_neg hle, if_neg]
        intro hall
        obtain ⟨n, hn, hvn⟩ := exists_le_numerals version (v * 10 + (ch.toNat - 48))
        exact hle (hvn.trans (hall n hn))
    · rw [if_neg hdigit, if_neg hdigit]
      by_cases hdot : ch = DOT ∧ reading
      · rw [if_pos hdot, if_pos hdot, ih (parts ++ [v]) 0 false (Nat.zero_le _) (by simp)]
        simp [hv]
      · rw [if_neg hdot, if_neg hdot]
        exact hend

theorem not_isdigit_dot : ¬isdigit DOT := by decide

theorem dot_not_mem {digits : Bytes} (h : ∀ c ∈ digits, isdigit c) : DOT ∉ digits :=
  fun hmem => not_isdigit_dot (h DOT hmem)

theorem value_concat (digits : Bytes) (c : UInt8) :
    value (digits ++ [c]) = value digits * 10 + (c.toNat - 48) := by
  unfold value
  rw [List.foldl_append]
  rfl

theorem takeWhile_pos {α : Type} {P : α → Prop} [DecidablePred P] {a : α} (l : List α) (h : P a) :
    (a :: l).takeWhile (P ·) = a :: l.takeWhile (P ·) :=
  List.takeWhile_cons_of_pos (decide_eq_true h)

theorem takeWhile_neg {α : Type} {P : α → Prop} [DecidablePred P] {a : α} (l : List α) (h : ¬P a) :
    (a :: l).takeWhile (P ·) = [] :=
  List.takeWhile_cons_of_neg (by simpa using h)

theorem takeWhile_ne_nil {l : Bytes} (ls : List Bytes) (h : l ≠ []) :
    (l :: ls).takeWhile (· ≠ []) = l :: ls.takeWhile (· ≠ []) :=
  takeWhile_pos ls h

/-- The parser reads the pieces between the dots. -/
theorem numerals_eq (version digits : Bytes) (hdigits : ∀ c ∈ digits, isdigit c) :
    numerals version (value digits) (decide (digits ≠ [])) =
      ((getlines DOT (digits ++ version.takeWhile (Numeral ·))).takeWhile (· ≠ [])).map value := by
  have hdot := dot_not_mem hdigits
  have hend : (if decide (digits ≠ []) then [value digits] else [] : List ℕ) =
      ((getlines DOT (digits ++ [])).takeWhile (· ≠ [])).map value := by
    rw [List.append_nil]
    by_cases hnil : digits = []
    · subst hnil
      rfl
    · rw [getlines_single hdot hnil, if_pos (decide_eq_true hnil), takeWhile_ne_nil [] hnil]
      rfl
  induction version generalizing digits with
  | nil => exact hend
  | cons ch version ih =>
    unfold numerals
    by_cases hdigit : isdigit ch
    · have hnumeral : Numeral ch := Or.inl hdigit
      rw [if_pos hdigit, takeWhile_pos version hnumeral]
      have hmore : ∀ c ∈ digits ++ [ch], isdigit c := by
        intro c hc
        rcases List.mem_append.mp hc with hc | hc
        · exact hdigits c hc
        · rwa [List.mem_singleton.mp hc]
      have hnil : digits ++ [ch] ≠ [] := by simp
      have hrest := ih (digits ++ [ch]) hmore (dot_not_mem hmore) ?_
      · rw [value_concat, decide_eq_true hnil, List.append_assoc] at hrest
        exact hrest
      · rw [List.append_nil, getlines_single (dot_not_mem hmore) hnil,
          if_pos (decide_eq_true hnil), takeWhile_ne_nil [] hnil]
        rfl
    · rw [if_neg hdigit]
      by_cases hch : ch = DOT
      · subst hch
        have hnumeral : Numeral DOT := Or.inr rfl
        rw [takeWhile_pos version hnumeral, getlines_append hdot]
        by_cases hnil : digits = []
        · subst hnil
          rw [if_neg (by simp), if_neg (by simp), List.takeWhile_cons_of_neg (by simp)]
          rfl
        · rw [if_pos ⟨rfl, decide_eq_true hnil⟩, takeWhile_ne_nil _ hnil, List.map_cons]
          congr 1
          exact ih [] (by simp) (by simp) rfl
      · rw [if_neg fun h => hch h.1, takeWhile_neg version (not_or.mpr ⟨hdigit, hch⟩)]
        exact hend

theorem components_eq_numerals (raw : Bytes) :
    components raw = numerals (cleanVersion raw) 0 false :=
  (numerals_eq (cleanVersion raw) [] (by simp)).symm

theorem parse_eq (raw : Bytes) [Decidable (InRange raw)] :
    parse raw = if InRange raw then some (components raw) else none := by
  unfold parse
  rw [parseLoop_eq _ _ _ _ (Nat.zero_le _), ← components_eq_numerals, List.nil_append]
  exact if_congr Iff.rfl rfl rfl

/-! ## The comparison -/

theorem padded_resize (parts : List ℕ) {count : ℕ} (h : parts.length ≤ count) :
    padded (resize parts count) = padded parts := by
  funext i
  unfold padded resize
  rw [List.take_of_length_le h, List.getD_eq_getElem?_getD, List.getD_eq_getElem?_getD]
  by_cases hi : i < parts.length
  · rw [List.getElem?_append_left hi]
  · rw [List.getElem?_append_right (by omega), List.getElem?_replicate,
      List.getElem?_eq_none (by omega : parts.length ≤ i)]
    split <;> rfl

theorem length_resize (parts : List ℕ) {count : ℕ} (h : parts.length ≤ count) :
    (resize parts count).length = count := by
  unfold resize
  rw [List.length_append, List.length_take, List.length_replicate]
  omega

theorem padded_cons_zero (n : ℕ) (parts : List ℕ) : padded (n :: parts) 0 = n := rfl

/-- The first place at which two versions differ decides. -/
theorem newer_iff {latest current : List ℕ} (h : latest.length = current.length) :
    newer latest current = true ↔ toLex (padded current) < toLex (padded latest) := by
  show _ ↔ ∃ i, (∀ j < i, padded current j = padded latest j) ∧ padded current i < padded latest i
  induction latest generalizing current with
  | nil =>
    obtain rfl : current = [] := List.eq_nil_of_length_eq_zero h.symm
    constructor
    · rintro ⟨⟩
    · rintro ⟨i, -, hlt⟩
      exact absurd hlt (lt_irrefl _)
  | cons l latest ih =>
    cases current with
    | nil => cases h
    | cons c current =>
      have hrest := ih (Nat.succ.inj h)
      unfold newer
      by_cases hgt : l > c
      · rw [if_pos hgt]
        refine ⟨fun _ => ⟨0, ?_, hgt⟩, fun _ => rfl⟩
        intro j hj
        omega
      · rw [if_neg hgt]
        by_cases hlt : l < c
        · rw [if_pos hlt]
          constructor
          · rintro ⟨⟩
          · rintro ⟨i, heq, hi⟩
            exfalso
            cases i with
            | zero =>
              rw [padded_cons_zero, padded_cons_zero] at hi
              omega
            | succ i =>
              have h0 := heq 0 (Nat.succ_pos i)
              rw [padded_cons_zero, padded_cons_zero] at h0
              omega
        · rw [if_neg hlt, hrest]
          have hlc : c = l := by omega
          constructor
          · rintro ⟨i, heq, hi⟩
            refine ⟨i + 1, ?_, hi⟩
            intro j hj
            cases j with
            | zero => exact hlc
            | succ j => exact heq j (by omega)
          · rintro ⟨i, heq, hi⟩
            cases i with
            | zero =>
              rw [padded_cons_zero, padded_cons_zero] at hi
              omega
            | succ i =>
              refine ⟨i, ?_, hi⟩
              intro j hj
              exact heq (j + 1) (by omega)

/-- The answer is that of the lexicographic order, where there is one. -/
theorem isNewerVersion_eq {a b : Bytes} (ha : InRange a) (hb : InRange b) :
    ∃ r, isNewerVersion a b = some r ∧ (r = true ↔ Newer a b) := by
  classical
  unfold isNewerVersion
  rw [parse_eq, parse_eq, if_pos ha, if_pos hb]
  show ∃ r, (if components a = [] ∨ components b = [] then some false else _) = some r ∧ _
  by_cases hempty : components a = [] ∨ components b = []
  · rw [if_pos hempty]
    refine ⟨false, rfl, ?_⟩
    constructor
    · rintro ⟨⟩
    · rintro ⟨hna, hnb, -⟩
      exact absurd hempty (not_or.mpr ⟨hna, hnb⟩)
  · rw [if_neg hempty]
    refine ⟨_, rfl, ?_⟩
    have hla : (components a).length ≤ max (components a).length (components b).length :=
      le_max_left _ _
    have hlb : (components b).length ≤ max (components a).length (components b).length :=
      le_max_right _ _
    rw [newer_iff (by rw [length_resize _ hla, length_resize _ hlb]), padded_resize _ hla,
      padded_resize _ hlb]
    unfold Newer
    obtain ⟨hna, hnb⟩ := not_or.mp hempty
    exact ⟨fun hlt => ⟨hna, hnb, hlt⟩, fun h => h.2.2⟩

theorem inRange_of_isNewerVersion {a b : Bytes} {r : Bool} (h : isNewerVersion a b = some r) :
    InRange a ∧ InRange b := by
  classical
  unfold isNewerVersion at h
  rw [parse_eq, parse_eq] at h
  by_cases ha : InRange a
  · by_cases hb : InRange b
    · exact ⟨ha, hb⟩
    · rw [if_pos ha, if_neg hb] at h
      cases h
  · rw [if_neg ha] at h
    cases h

/-! ## Versions that mean the same -/

/-- The text of a purely numeric version, from the digits of its components. -/
def render (parts : List Bytes) : Bytes := join [DOT] false parts

/-- Components are not empty and consist of digits. -/
def IsParts (parts : List Bytes) : Prop := parts ≠ [] ∧ ∀ l ∈ parts, l ≠ [] ∧ ∀ c ∈ l, isdigit c

theorem not_isspace_of_isdigit {c : UInt8} (h : isdigit c) : ¬isspace c := by
  unfold isdigit at h
  unfold isspace
  rw [UInt8.le_iff_toNat_le, UInt8.le_iff_toNat_le] at h
  rw [UInt8.le_iff_toNat_le, UInt8.le_iff_toNat_le, ← UInt8.toNat_inj]
  simp only [UInt8.toNat_ofNat] at *
  omega

theorem not_v_of_isdigit {c : UInt8} (h : isdigit c) : ¬(some c = some 118 ∨ some c = some 86) := by
  unfold isdigit at h
  rw [UInt8.le_iff_toNat_le, UInt8.le_iff_toNat_le] at h
  rw [Option.some_inj, Option.some_inj, ← UInt8.toNat_inj, ← UInt8.toNat_inj]
  simp only [UInt8.toNat_ofNat] at *
  omega

theorem dropWhile_isspace {c : UInt8} (h : ¬isspace c) (cs : Bytes) :
    (c :: cs).dropWhile (isspace ·) = c :: cs :=
  List.dropWhile_cons_of_neg (by simpa using h)

/-- What is in front of a digit, cleaned. -/
def cleanFront (pre : Bytes) : Bytes :=
  let pre := pre.dropWhile (isspace ·)
  if pre.head? = some 118 ∨ pre.head? = some 86 then pre.tail else pre

/-- Cleaning stops at a digit, from either side. -/
theorem cleanVersion_append {c d : UInt8} (hc : isdigit c) (hd : isdigit d) (pre mid post : Bytes)
    (hmid : ∃ cs ds, mid = c :: cs ∧ mid = ds ++ [d]) :
    cleanVersion (pre ++ mid ++ post)
      = cleanFront pre ++ mid ++ (post.reverse.dropWhile (isspace ·)).reverse := by
  obtain ⟨cs, ds, hcs, hds⟩ := hmid
  have hfront : (pre ++ mid ++ post).dropWhile (isspace ·)
      = pre.dropWhile (isspace ·) ++ mid ++ post := by
    rw [List.append_assoc, List.dropWhile_append]
    split
    · rename_i hempty
      rw [List.isEmpty_iff.mp hempty, hcs, List.cons_append,
        dropWhile_isspace (not_isspace_of_isdigit hc)]
      rfl
    · rw [List.append_assoc]
  have hback : ((pre.dropWhile (isspace ·) ++ mid ++ post).reverse.dropWhile (isspace ·)).reverse
      = pre.dropWhile (isspace ·) ++ mid ++ (post.reverse.dropWhile (isspace ·)).reverse := by
    rw [List.reverse_append, List.dropWhile_append]
    split
    · rename_i hempty
      rw [List.isEmpty_iff.mp hempty, hds, ← List.append_assoc, List.reverse_append,
        List.reverse_singleton, List.singleton_append,
        dropWhile_isspace (not_isspace_of_isdigit hd)]
      simp
    · rw [List.reverse_append, List.reverse_reverse]
  unfold cleanVersion cleanFront
  rw [hfront]
  dsimp only
  rw [hback]
  cases hpre : pre.dropWhile (isspace ·) with
  | nil =>
    rw [hcs]
    show (if some c = some 118 ∨ some c = some 86 then _ else _) = _
    rw [if_neg (not_v_of_isdigit hc), if_neg (by simp)]
  | cons p ps =>
    show (if some p = some 118 ∨ some p = some 86 then _ else _)
      = (if some p = some 118 ∨ some p = some 86 then ps else p :: ps) ++ _ ++ _
    split
    · simp
    · rfl

theorem forall_mem_render {P : UInt8 → Prop} (hdot : P DOT) {parts : List Bytes}
    (h : ∀ l ∈ parts, ∀ c ∈ l, P c) : ∀ c ∈ render parts, P c := by
  unfold render
  induction parts with
  | nil =>
    intro c hc
    cases hc
  | cons l ls ih =>
    have hrest := ih fun l' hl' => h l' (List.mem_cons_of_mem _ hl')
    have hl := h l (List.mem_cons_self ..)
    intro c hc
    by_cases hls : ls = []
    · subst hls
      rw [show join [DOT] false [l] = l ++ [] from rfl, List.append_nil] at hc
      exact hl c hc
    · rw [join_cons hls] at hc
      rcases List.mem_append.mp hc with hc | hc
      · rcases List.mem_append.mp hc with hc | hc
        · exact hl c hc
        · rwa [List.mem_singleton.mp hc]
      · exact hrest c hc

/-- A numeric version begins and ends with a digit. -/
theorem render_ends {parts : List Bytes} (h : IsParts parts) :
    ∃ c d cs ds, isdigit c ∧ isdigit d ∧ render parts = c :: cs ∧ render parts = ds ++ [d] := by
  obtain ⟨hne, hparts⟩ := h
  unfold render
  induction parts with
  | nil => exact absurd rfl hne
  | cons l ls ih =>
    obtain ⟨hl, hdigits⟩ := hparts l (List.mem_cons_self ..)
    obtain ⟨c, cs, hcons⟩ := List.exists_cons_of_ne_nil hl
    obtain ⟨ds, d, hconcat⟩ := List.eq_nil_or_concat l |>.resolve_left hl
    have hc : isdigit c := hdigits c (by rw [hcons]; exact List.mem_cons_self ..)
    by_cases hls : ls = []
    · subst hls
      have hd : isdigit d := hdigits d (by rw [hconcat]; simp)
      refine ⟨c, d, cs, ds, hc, hd, ?_, ?_⟩
      · show l ++ [] = _
        rw [List.append_nil, hcons]
      · show l ++ [] = _
        rw [List.append_nil, hconcat, List.concat_eq_append]
    · obtain ⟨-, d', -, ds', -, hd', -, heq⟩ :=
        ih hls fun l' hl' => hparts l' (List.mem_cons_of_mem _ hl')
      rw [join_cons hls, heq]
      refine ⟨c, d', cs ++ [DOT] ++ (ds' ++ [d']), l ++ [DOT] ++ ds', hc, hd', ?_, ?_⟩
      · rw [hcons]
        rfl
      · exact (List.append_assoc ..).symm

theorem components_render {parts : List Bytes} (h : IsParts parts) :
    components (render parts) = parts.map value := by
  obtain ⟨c, d, cs, ds, hc, hd, hcons, hconcat⟩ := render_ends h
  have hclean : cleanVersion (render parts) = render parts := by
    have happend := cleanVersion_append hc hd [] (render parts) [] ⟨cs, ds, hcons, hconcat⟩
    rw [List.nil_append, List.append_nil] at happend
    rw [happend]
    show [] ++ render parts ++ [] = _
    rw [List.nil_append, List.append_nil]
  have hnumeral : (render parts).takeWhile (Numeral ·) = render parts := by
    apply List.takeWhile_eq_self_iff.mpr
    intro x hx
    apply decide_eq_true
    exact forall_mem_render (P := Numeral) (Or.inr rfl)
      (fun l hl c hc => Or.inl ((h.2 l hl).2 c hc)) x hx
  have hlines : getlines DOT (render parts) = parts := by
    apply getlines_join
    · intro l hl
      exact dot_not_mem (h.2 l hl).2
    · intro _ hlast
      exact (h.2 [] (List.mem_of_getLast? hlast)).1 rfl
  have hwhole : parts.takeWhile (· ≠ []) = parts := by
    apply List.takeWhile_eq_self_iff.mpr
    intro l hl
    exact decide_eq_true (h.2 l hl).1
  unfold components
  rw [hclean, hnumeral, hlines, hwhole]

/-- A last component of zero does not count. -/
theorem padded_concat_zero (parts : List ℕ) : padded (parts ++ [0]) = padded parts := by
  funext i
  unfold padded
  rw [List.getD_eq_getElem?_getD, List.getD_eq_getElem?_getD]
  by_cases hi : i < parts.length
  · rw [List.getElem?_append_left hi]
  · rw [List.getElem?_append_right (by omega), List.getElem?_eq_none (by omega : parts.length ≤ i)]
    cases i - parts.length with
    | zero => rfl
    | succ k => rfl

/-- `.0` behind a numeric version. -/
theorem components_dotZero {parts : List Bytes} (h : IsParts parts) :
    components (render parts ++ ascii ".0") = components (render parts) ++ [0] := by
  have hmore : IsParts (parts ++ [[48]]) := by
    refine ⟨by simp, ?_⟩
    intro l hl
    rcases List.mem_append.mp hl with hl | hl
    · exact h.2 l hl
    · rw [List.mem_singleton.mp hl]
      refine ⟨by simp, ?_⟩
      intro c hc
      rw [List.mem_singleton.mp hc]
      decide
  have htext : render parts ++ ascii ".0" = render (parts ++ [[48]]) := by
    obtain ⟨hne, -⟩ := h
    unfold render
    induction parts with
    | nil => exact absurd rfl hne
    | cons l ls ih =>
      by_cases hls : ls = []
      · subst hls
        have hdot : ascii ".0" = [DOT] ++ [48] := by decide
        rw [hdot]
        simp [join]
      · rw [List.cons_append, join_cons hls, join_cons (by simp), List.append_assoc, ih _ hls]
        refine ⟨by simp, ?_⟩
        intro l' hl'
        exact hmore.2 l' (List.mem_cons_of_mem _ hl')
  rw [htext, components_render hmore, components_render h, List.map_append]
  rfl

theorem numerals_digit {d : UInt8} (hd : isdigit d) (rest : Bytes) (v : ℕ) (reading : Bool) :
    numerals (d :: rest) v reading = numerals rest (v * 10 + (d.toNat - 48)) true := by
  rw [numerals, if_pos hd]

/-- Zeros at the beginning of a component leave its value. -/
theorem numerals_zeros {d : UInt8} (hd : isdigit d) (n : ℕ) (rest : Bytes) (reading : Bool) :
    numerals (List.replicate n 48 ++ d :: rest) 0 reading
      = numerals rest (d.toNat - 48) true := by
  induction n generalizing reading with
  | zero =>
    show numerals (d :: rest) 0 reading = _
    rw [numerals_digit hd, Nat.zero_mul, Nat.zero_add]
  | succ n ih =>
    show numerals (48 :: (List.replicate n 48 ++ d :: rest)) 0 reading = _
    rw [numerals_digit (by decide)]
    exact ih true

theorem numerals_insert {d : UInt8} (hd : isdigit d) (n : ℕ) (rest pre : Bytes) (v : ℕ)
    (reading : Bool) (hpre : ∀ c ∈ pre.getLast?, ¬isdigit c)
    (hnil : pre = [] → v = 0) :
    numerals (pre ++ (List.replicate n 48 ++ d :: rest)) v reading
      = numerals (pre ++ d :: rest) v reading := by
  induction pre generalizing v reading with
  | nil =>
    rw [hnil rfl, List.nil_append, List.nil_append, numerals_zeros hd]
    exact (numerals_zeros hd 0 rest reading).symm
  | cons c pre ih =>
    have hrest : ∀ x ∈ pre.getLast?, ¬isdigit x := by
      intro x hx
      apply hpre x
      cases pre with
      | nil => cases hx
      | cons y ys => exact hx
    rw [List.cons_append, List.cons_append]
    unfold numerals
    by_cases hc : isdigit c
    · rw [if_pos hc, if_pos hc]
      apply ih _ _ hrest
      rintro rfl
      exact absurd hc (hpre c rfl)
    · rw [if_neg hc, if_neg hc]
      by_cases hdot : c = DOT ∧ reading
      · rw [if_pos hdot, if_pos hdot, ih 0 false hrest fun _ => rfl]
      · rw [if_neg hdot, if_neg hdot]

theorem cleanFront_suffix (pre : Bytes) : cleanFront pre <:+ pre := by
  unfold cleanFront
  dsimp only
  split
  · exact (List.tail_suffix _).trans (List.dropWhile_suffix _)
  · exact List.dropWhile_suffix _

/-- Zeros where a component begins. -/
theorem components_zeros {d : UInt8} (hd : isdigit d) (n : ℕ) {pre : Bytes}
    (hpre : ∀ c ∈ pre.getLast?, ¬isdigit c) (rest : Bytes) :
    components (pre ++ (List.replicate n 48 ++ d :: rest)) = components (pre ++ d :: rest) := by
  have hclean : ∀ m, cleanVersion (pre ++ (List.replicate m 48 ++ d :: rest))
      = cleanFront pre ++ (List.replicate m 48
        ++ d :: (rest.reverse.dropWhile (isspace ·)).reverse) := by
    intro m
    have happend := fun c cs hc (heq : List.replicate m 48 ++ [d] = c :: cs) =>
      cleanVersion_append (c := c) hc hd pre (List.replicate m 48 ++ [d]) rest
        ⟨cs, List.replicate m 48, heq, rfl⟩
    simp only [List.append_assoc, List.singleton_append] at happend
    cases m with
    | zero => exact happend d [] hd rfl
    | succ m => exact happend 48 (List.replicate m 48 ++ [d]) (by decide) rfl
  have hlast : ∀ c ∈ (cleanFront pre).getLast?, ¬isdigit c := by
    intro c hc
    apply hpre c
    obtain ⟨front, hfront⟩ := cleanFront_suffix pre
    rw [← hfront, List.getLast?_append, hc]
    rfl
  rw [components_eq_numerals, components_eq_numerals, hclean n]
  have hzero := hclean 0
  rw [List.replicate_zero, List.nil_append, List.nil_append] at hzero
  rw [hzero, numerals_insert hd n _ _ 0 false hlast fun _ => rfl]

/-! ## The order -/

/-- `a` is newer than `b` exactly if the code says so. -/
def Decides (a b : Bytes) : Prop := ∃ r, isNewerVersion a b = some r ∧ (r = true ↔ Newer a b)

/-- A version is compared as the order of the sequences of components says, and so are the versions
that mean the same. -/
structure ComparesVersions (versions : Set Bytes) : Prop where
  irrefl : ∀ a ∈ versions, isNewerVersion a a = some false
  asymm : ∀ a ∈ versions, ∀ b ∈ versions,
    ¬(isNewerVersion a b = some true ∧ isNewerVersion b a = some true)
  trans : ∀ a ∈ versions, ∀ b ∈ versions, ∀ c ∈ versions,
    isNewerVersion a b = some true → isNewerVersion b c = some true →
      isNewerVersion a c = some true
  noComponent : ∀ a ∈ versions, ∀ b ∈ versions, components a = [] ∨ components b = [] →
    isNewerVersion a b = some false
  lexicographic : ∀ a ∈ versions, ∀ b ∈ versions, Decides a b
  dotZero : ∀ parts, IsParts parts → render parts ∈ versions → ∀ b ∈ versions,
    isNewerVersion (render parts ++ ascii ".0") b = isNewerVersion (render parts) b ∧
    isNewerVersion b (render parts ++ ascii ".0") = isNewerVersion b (render parts)
  zeros : ∀ pre n d rest, isdigit d → (∀ c ∈ pre.getLast?, ¬isdigit c) →
    pre ++ d :: rest ∈ versions → ∀ b ∈ versions,
    isNewerVersion (pre ++ (List.replicate n 48 ++ d :: rest)) b
      = isNewerVersion (pre ++ d :: rest) b ∧
    isNewerVersion b (pre ++ (List.replicate n 48 ++ d :: rest))
      = isNewerVersion b (pre ++ d :: rest)

/-- Two versions that compare alike. -/
theorem isNewerVersion_congr {a a' b : Bytes} (ha : InRange a) (ha' : InRange a') (hb : InRange b)
    (hempty : components a = [] ↔ components a' = [])
    (hpadded : padded (components a) = padded (components a')) :
    isNewerVersion a b = isNewerVersion a' b ∧ isNewerVersion b a = isNewerVersion b a' := by
  have hne : components a ≠ [] ↔ components a' ≠ [] := not_congr hempty
  have hnewer : Newer a b ↔ Newer a' b := by
    unfold Newer
    rw [hpadded, hne]
  have hnewer' : Newer b a ↔ Newer b a' := by
    unfold Newer
    rw [hpadded, hne]
  obtain ⟨r, hr, hiff⟩ := isNewerVersion_eq ha hb
  obtain ⟨r', hr', hiff'⟩ := isNewerVersion_eq ha' hb
  obtain ⟨q, hq, hqiff⟩ := isNewerVersion_eq hb ha
  obtain ⟨q', hq', hqiff'⟩ := isNewerVersion_eq hb ha'
  rw [hr, hr', hq, hq']
  refine ⟨congrArg some (Bool.eq_iff_iff.mpr ?_), congrArg some (Bool.eq_iff_iff.mpr ?_)⟩
  · rw [hiff, hnewer, hiff']
  · rw [hqiff, hnewer', hqiff']

/-- Versions are compared as they should be exactly if each of their components fits in an `int`. -/
theorem comparesVersions_iff (versions : Set Bytes) :
    ComparesVersions versions ↔ ∀ a ∈ versions, InRange a := by
  constructor
  · intro h a ha
    exact (inRange_of_isNewerVersion (h.irrefl a ha)).1
  · intro h
    have hdecides : ∀ a ∈ versions, ∀ b ∈ versions, Decides a b :=
      fun a ha b hb => isNewerVersion_eq (h a ha) (h b hb)
    have htrue : ∀ a ∈ versions, ∀ b ∈ versions,
        (isNewerVersion a b = some true ↔ Newer a b) := by
      intro a ha b hb
      obtain ⟨r, hr, hiff⟩ := hdecides a ha b hb
      rw [hr, ← hiff, Option.some_inj]
    have hfalse : ∀ a ∈ versions, ∀ b ∈ versions, ¬Newer a b → isNewerVersion a b = some false := by
      intro a ha b hb hnot
      obtain ⟨r, hr, hiff⟩ := hdecides a ha b hb
      rw [hr, Bool.eq_false_iff.mpr (mt hiff.mp hnot)]
    constructor
    · intro a ha
      apply hfalse a ha a ha
      rintro ⟨-, -, hlt⟩
      exact lt_irrefl _ hlt
    · rintro a ha b hb ⟨hab, hba⟩
      obtain ⟨-, -, hlt⟩ := (htrue a ha b hb).mp hab
      obtain ⟨-, -, hgt⟩ := (htrue b hb a ha).mp hba
      exact lt_asymm hlt hgt
    · intro a ha b hb c hc hab hbc
      obtain ⟨hnil, -, hlt⟩ := (htrue a ha b hb).mp hab
      obtain ⟨-, hnil', hlt'⟩ := (htrue b hb c hc).mp hbc
      exact (htrue a ha c hc).mpr ⟨hnil, hnil', lt_trans hlt' hlt⟩
    -- a text without a number is neither newer nor older
    · intro a ha b hb hempty
      apply hfalse a ha b hb
      rintro ⟨hna, hnb, -⟩
      exact absurd hempty (not_or.mpr ⟨hna, hnb⟩)
    · exact hdecides
    -- a zero at the end makes no difference
    · intro parts hparts hmem b hb
      have heq := components_dotZero hparts
      have hrange := h _ hmem
      apply isNewerVersion_congr _ hrange (h b hb)
      · rw [heq, components_render hparts]
        constructor
        · intro hnil
          exact absurd hnil (by simp)
        · intro hnil
          exact absurd (List.map_eq_nil_iff.mp hnil) hparts.1
      · rw [heq, padded_concat_zero]
      · intro n hn
        rw [heq] at hn
        rcases List.mem_append.mp hn with hn | hn
        · exact hrange n hn
        · rw [List.mem_singleton.mp hn]
          exact Nat.zero_le _
    -- neither do zeros in front of a number
    · intro pre n d rest hd hpre hmem b hb
      have heq := components_zeros hd n hpre rest
      have hrange := h _ hmem
      apply isNewerVersion_congr _ hrange (h b hb)
      · rw [heq]
      · rw [heq]
      · unfold InRange
        rw [heq]
        exact hrange

/-- A component that does not fit in an `int` cannot be compared. -/
theorem large_component_undefined :
    isNewerVersion (ascii "2147483648") (ascii "1") = none ∧
      ¬ComparesVersions {ascii "2147483648", ascii "1"} := by
  have hnone : isNewerVersion (ascii "2147483648") (ascii "1") = none := by decide
  refine ⟨hnone, ?_⟩
  intro h
  obtain ⟨r, hr, -⟩ := h.lexicographic (ascii "2147483648") (Or.inl rfl) (ascii "1") (Or.inr rfl)
  rw [hnone] at hr
  cases hr

end Version
