/-
# The payload comes back

What either compressor writes is a list of tokens that factors the input, and the decoder reads the
tokens back and expands them.  The two differ in the search only, of which nothing more is needed
than that what it finds is a repetition.
-/
import AioMod.LzCoder
import Mathlib.Data.Nat.Bitwise
import Mathlib.Algebra.Order.BigOperators.Group.List
import Mathlib.Tactic.NormNum

namespace Lz

open LzTokens (Token Repeats Factors copyBack emit expand)

/-! ## Numbers of variable size -/

/-- The upper bits of a number are looked at. -/
theorem upper_bits {y mask k n : ℕ} (hy : y < 2 ^ (k + n)) (hmask : mask = (2 ^ n - 1) * 2 ^ k) :
    y &&& mask ≠ 0 ↔ 2 ^ k ≤ y := by
  have hdiv : (y &&& mask) / 2 ^ k = y / 2 ^ k := by
    rw [Nat.and_div_two_pow, hmask, Nat.mul_div_cancel _ (Nat.two_pow_pos k),
      Nat.and_two_pow_sub_one_eq_mod]
    apply Nat.mod_eq_of_lt
    rw [Nat.div_lt_iff_lt_mul (Nat.two_pow_pos k), ← Nat.pow_add, Nat.add_comm]
    exact hy
  have hmod : (y &&& mask) % 2 ^ k = 0 := by
    rw [Nat.and_mod_two_pow, hmask, Nat.mul_mod_left, Nat.and_zero]
  have hzero : y &&& mask = 0 ↔ (y &&& mask) / 2 ^ k = 0 := by
    constructor
    · intro h
      rw [h, Nat.zero_div]
    · intro h
      rw [← Nat.div_add_mod (y &&& mask) (2 ^ k), h, hmod, Nat.mul_zero]
  rw [Ne, hzero, hdiv, Nat.div_eq_zero_iff_lt (Nat.two_pow_pos k), not_lt]

theorem upper_seven {y : ℕ} (hy : y < 2 ^ 32) : y &&& 0xfe000000 ≠ 0 ↔ 2 ^ 25 ≤ y :=
  upper_bits (k := 25) (n := 7) hy (by norm_num)

/-- So many bytes of seven bits hold the number, and no fewer. -/
theorem varBytes_spec {x : ℕ} (hx : x < 2 ^ 32) :
    0 < varBytes 5 (x >>> 3) ∧ x < 128 ^ varBytes 5 (x >>> 3) ∧
      ∀ n, 0 < n → x < 128 ^ n → varBytes 5 (x >>> 3) ≤ n := by
  have hshift : x >>> 3 = x / 8 := Nat.shiftRight_eq_div_pow x 3
  have hup : ∀ y, y < 2 ^ 25 → (y <<< 7) % 2 ^ 32 = y * 128 := by
    intro y hy
    rw [Nat.shiftLeft_eq]
    apply Nat.mod_eq_of_lt
    omega
  have hmin : ∀ {m n : ℕ}, 0 < n → x < 128 ^ n → 128 ^ m ≤ x → m + 1 ≤ n := by
    intro m n _ hlt hle
    by_contra hnot
    have hpow : 128 ^ n ≤ 128 ^ m := Nat.pow_le_pow_right (by norm_num) (by omega)
    omega
  rw [hshift]
  by_cases h5 : 2 ^ 25 ≤ x / 8
  · rw [varBytes, if_pos ((upper_seven (by omega)).mpr h5)]
    refine ⟨by norm_num, by omega, fun n hn hlt => hmin hn hlt (?_ : 128 ^ 4 ≤ x)⟩
    omega
  rw [varBytes, if_neg ((upper_seven (by omega)).not.mpr h5), hup _ (by omega)]
  by_cases h4 : 2 ^ 25 ≤ x / 8 * 128
  · rw [varBytes, if_pos ((upper_seven (by omega)).mpr h4)]
    refine ⟨by norm_num, by omega, fun n hn hlt => hmin hn hlt (?_ : 128 ^ 3 ≤ x)⟩
    omega
  rw [varBytes, if_neg ((upper_seven (by omega)).not.mpr h4), hup _ (by omega)]
  by_cases h3 : 2 ^ 25 ≤ x / 8 * 128 * 128
  · rw [varBytes, if_pos ((upper_seven (by omega)).mpr h3)]
    refine ⟨by norm_num, by omega, fun n hn hlt => hmin hn hlt (?_ : 128 ^ 2 ≤ x)⟩
    omega
  rw [varBytes, if_neg ((upper_seven (by omega)).not.mpr h3), hup _ (by omega)]
  by_cases h2 : 2 ^ 25 ≤ x / 8 * 128 * 128 * 128
  · rw [varBytes, if_pos ((upper_seven (by omega)).mpr h2)]
    refine ⟨by norm_num, by omega, fun n hn hlt => hmin hn hlt (?_ : 128 ^ 1 ≤ x)⟩
    omega
  rw [varBytes, if_neg ((upper_seven (by omega)).not.mpr h2)]
  have h1 : varBytes (0 + 1) (((x / 8 * 128 * 128 * 128) <<< 7) % 2 ^ 32) = 1 := rfl
  rw [h1]
  exact ⟨by norm_num, by omega, fun n hn _ => hn⟩

theorem length_writeVarSize {x n : ℕ} (hx : x < 2 ^ 32) (hn : 0 < n) (hlt : x < 128 ^ n) :
    (writeVarSize x).length ≤ n := by
  unfold writeVarSize
  rw [List.length_map, List.length_reverse, List.length_range]
  exact (varBytes_spec hx).2.2 n hn hlt

/-- Seven bits of the number, and the mark. -/
theorem toNat_varByte (x i : ℕ) :
    (varByte x i).toNat = x / 128 ^ i % 128 + if 0 < i then 128 else 0 := by
  have hdigit : (x >>> (i * 7)) &&& 0x7f = x / 128 ^ i % 128 := by
    rw [show (0x7f : ℕ) = 2 ^ 7 - 1 from rfl, Nat.and_two_pow_sub_one_eq_mod,
      Nat.shiftRight_eq_div_pow, Nat.mul_comm i 7, Nat.pow_mul]
  have hlt : x / 128 ^ i % 128 < 2 ^ 7 := Nat.mod_lt _ (by norm_num)
  unfold varByte
  rw [hdigit]
  split
  · have hor := Nat.shiftLeft_add_eq_or_of_lt hlt 1
    rw [Nat.or_comm, Nat.add_comm] at hor
    have hmark : x / 128 ^ i % 128 ||| 0x80 = x / 128 ^ i % 128 + 128 := hor.symm
    rw [hmark, UInt8.toNat_ofNat']
    omega
  · rw [Nat.or_zero, UInt8.toNat_ofNat']
    omega

/-- Seven more bits are read. -/
theorem read_digit {x i : ℕ} (hx : x < 2 ^ 32) :
    (((x / 128 ^ (i + 1)) <<< 7) % 2 ^ 32) ||| ((varByte x i).toNat &&& 0x7f) = x / 128 ^ i := by
  have hdiv : x / 128 ^ (i + 1) = x / 128 ^ i / 128 := by
    rw [Nat.pow_succ, Nat.div_div_eq_div_mul]
  have hle : x / 128 ^ i ≤ x := Nat.div_le_self _ _
  have hdigit : (varByte x i).toNat &&& 0x7f = x / 128 ^ i % 128 := by
    rw [show (0x7f : ℕ) = 2 ^ 7 - 1 from rfl, Nat.and_two_pow_sub_one_eq_mod, toNat_varByte]
    split <;> omega
  have hlt : x / 128 ^ i % 128 < 2 ^ 7 := Nat.mod_lt _ (by norm_num)
  have hsmall : x / 128 ^ i / 128 * 2 ^ 7 < 2 ^ 32 := by omega
  rw [hdigit, hdiv, Nat.mod_eq_of_lt (by rw [Nat.shiftLeft_eq]; exact hsmall),
    ← Nat.shiftLeft_add_eq_or_of_lt hlt, Nat.shiftLeft_eq]
  omega

theorem marked {x i : ℕ} : (varByte x i).toNat &&& 0x80 ≠ 0 ↔ 0 < i := by
  have hbit : (varByte x i).toNat &&& 0x80 ≠ 0 ↔ 2 ^ 7 ≤ (varByte x i).toNat :=
    upper_bits (k := 7) (n := 1) (UInt8.toNat_lt _) (by norm_num)
  have hlt : x / 128 ^ i % 128 < 128 := Nat.mod_lt _ (by norm_num)
  have hle := toNat_varByte x i
  rw [hbit, hle]
  split
  · exact iff_of_true (by omega) ‹_›
  · exact iff_of_false (by omega) ‹_›

/-- The digits are read from the first one on. -/
theorem readVarSize_digits {x : ℕ} (hx : x < 2 ^ 32) (n : ℕ) (rest : Bytes) :
    readVarSize ((List.range (n + 1)).reverse.map (varByte x) ++ rest) (x / 128 ^ (n + 1)) =
      some (x, rest) := by
  induction n with
  | zero =>
    show readVarSize (varByte x 0 :: rest) _ = _
    unfold readVarSize
    dsimp only
    rw [read_digit hx, if_neg (marked.not.mpr (lt_irrefl 0)), Nat.pow_zero, Nat.div_one]
  | succ n ih =>
    rw [List.range_succ, List.reverse_append, List.reverse_singleton, List.singleton_append,
      List.map_cons, List.cons_append]
    unfold readVarSize
    dsimp only
    rw [read_digit hx, if_pos (marked.mpr (Nat.succ_pos n))]
    exact ih

theorem readVarSize_writeVarSize {x : ℕ} (hx : x < 2 ^ 32) (rest : Bytes) :
    readVarSize (writeVarSize x ++ rest) 0 = some (x, rest) := by
  obtain ⟨hpos, hlt, -⟩ := varBytes_spec hx
  obtain ⟨n, hn⟩ := Nat.exists_eq_succ_of_ne_zero hpos.ne'
  have hstart : x / 128 ^ (n + 1) = 0 := Nat.div_eq_of_lt (by rw [hn] at hlt; exact hlt)
  unfold writeVarSize
  rw [hn, ← hstart]
  exact readVarSize_digits hx n rest

/-- A number that is not zero does not begin with a zero. -/
theorem writeVarSize_cons {x : ℕ} (hx : x < 2 ^ 32) (hpos : 0 < x) :
    ∃ b bs, writeVarSize x = b :: bs ∧ b ≠ 0 := by
  obtain ⟨hn, hlt, -⟩ := varBytes_spec hx
  obtain ⟨n, hn⟩ := Nat.exists_eq_succ_of_ne_zero hn.ne'
  unfold writeVarSize
  rw [hn, List.range_succ, List.reverse_append, List.reverse_singleton, List.singleton_append,
    List.map_cons]
  refine ⟨_, _, rfl, fun hzero => ?_⟩
  have hnat : (varByte x n).toNat = 0 := by
    rw [hzero]
    rfl
  rw [toNat_varByte] at hnat
  split at hnat
  · omega
  · rename_i hn0
    obtain rfl : n = 0 := by omega
    rw [hn, Nat.pow_one] at hlt
    rw [Nat.pow_zero, Nat.div_one] at hnat
    omega

/-! ## The least common byte -/

theorem sum_modify_succ : ∀ (h : List ℕ) (i : ℕ), i < h.length →
    (h.modify i (· + 1)).sum = h.sum + 1
  | n :: h, 0, _ => by
    rw [List.modify_zero_cons, List.sum_cons, List.sum_cons, Nat.add_right_comm]
  | n :: h, i + 1, hi => by
    rw [List.modify_succ_cons, List.sum_cons, List.sum_cons,
      sum_modify_succ h i (Nat.lt_of_succ_lt_succ hi), Nat.add_assoc]

/-- Counting on from a histogram. -/
theorem histogram_from (input : Bytes) (h : List ℕ) (hh : h.length = 256) :
    let r := input.foldl (fun h b => h.modify b.toNat (· + 1)) h
    r.length = 256 ∧ r.sum = h.sum + input.length ∧
      ∀ b : UInt8, r.getD b.toNat 0 = h.getD b.toNat 0 + input.count b := by
  induction input generalizing h with
  | nil => exact ⟨hh, rfl, fun b => rfl⟩
  | cons a input ih =>
    have ha : a.toNat < h.length := hh ▸ UInt8.toNat_lt a
    obtain ⟨hlen, hsum, hcount⟩ := ih (h.modify a.toNat (· + 1)) (by rw [List.length_modify, hh])
    refine ⟨hlen, ?_, fun b => ?_⟩
    · rw [List.foldl_cons, hsum, sum_modify_succ h _ ha, List.length_cons]
      omega
    · rw [List.foldl_cons, hcount b, List.count_cons]
      by_cases hab : a = b
      · subst hab
        rw [List.getD_eq_getElem?_getD, List.getElem?_modify_eq, List.getElem?_eq_getElem ha,
          List.getD_eq_getElem?_getD, List.getElem?_eq_getElem ha]
        simp
        omega
      · have hne : a.toNat ≠ b.toNat := fun heq => hab (UInt8.toNat_inj.mp heq)
        rw [List.getD_eq_getElem?_getD, List.getElem?_modify_ne _ _ hne,
          ← List.getD_eq_getElem?_getD, if_neg (by simpa using hab)]
        omega

theorem histogram_spec (input : Bytes) :
    (histogram input).length = 256 ∧ (histogram input).sum = input.length ∧
      ∀ b : UInt8, (histogram input).getD b.toNat 0 = input.count b := by
  obtain ⟨hlen, hsum, hcount⟩ :=
    histogram_from input (List.replicate 256 0) List.length_replicate
  refine ⟨hlen, ?_, fun b => ?_⟩
  · rw [histogram, hsum, List.sum_replicate, smul_zero, Nat.zero_add]
  · have hlt : b.toNat < 256 := UInt8.toNat_lt b
    rw [histogram, hcount b, List.getD_replicate _ hlt, Nat.zero_add]

/-- The least of some entries, and of the one it starts with. -/
theorem least_of (h : List ℕ) (is : List ℕ) (his : ∀ i ∈ is, i < 256) (m : UInt8) :
    let r := is.foldl
      (fun marker i => if h.getD i 0 < h.getD marker.toNat 0 then .ofNat i else marker) m
    h.getD r.toNat 0 ≤ h.getD m.toNat 0 ∧ ∀ i ∈ is, h.getD r.toNat 0 ≤ h.getD i 0 := by
  induction is generalizing m with
  | nil => exact ⟨Nat.le_refl _, fun i hi => absurd hi List.not_mem_nil⟩
  | cons i is ih =>
    have hi : (UInt8.ofNat i).toNat = i := by
      rw [UInt8.toNat_ofNat']
      exact Nat.mod_eq_of_lt (his i List.mem_cons_self)
    have hrest := fun j hj => his j (List.mem_cons_of_mem _ hj)
    rw [List.foldl_cons]
    split
    · rename_i hlt
      obtain ⟨hstart, hall⟩ := ih hrest (.ofNat i)
      rw [hi] at hstart
      refine ⟨by omega, fun j hj => ?_⟩
      obtain rfl | hj := List.mem_cons.mp hj
      · exact hstart
      · exact hall j hj
    · rename_i hnot
      obtain ⟨hstart, hall⟩ := ih hrest m
      refine ⟨hstart, fun j hj => ?_⟩
      obtain rfl | hj := List.mem_cons.mp hj
      · exact Nat.le_trans hstart (not_lt.mp hnot)
      · exact hall j hj

theorem markerOf_least (input : Bytes) {i : ℕ} (hi : i < 256) :
    input.count (markerOf input) ≤ (histogram input).getD i 0 := by
  obtain ⟨-, -, hcount⟩ := histogram_spec input
  have hall := least_of (histogram input) (List.range' 1 255)
    (fun i hi => by have := List.mem_range'_1.mp hi; omega) 0
  have hmarker : input.count (markerOf input) = (histogram input).getD (markerOf input).toNat 0 :=
    (hcount _).symm
  rw [hmarker]
  by_cases hzero : i = 0
  · rw [hzero]
    exact hall.1
  · exact hall.2 i (List.mem_range'_1.mpr ⟨by omega, by omega⟩)

/-- The least common byte is at most every 256th one. -/
theorem count_markerOf (input : Bytes) : input.count (markerOf input) * 256 ≤ input.length := by
  obtain ⟨hlen, hsum, -⟩ := histogram_spec input
  have hle := List.card_nsmul_le_sum (histogram input) (input.count (markerOf input)) ?_
  · rw [hlen, hsum, smul_eq_mul, Nat.mul_comm] at hle
    exact hle
  · intro n hn
    obtain ⟨i, hi, rfl⟩ := List.mem_iff_getElem.mp hn
    have hleast := markerOf_least input (hlen ▸ hi)
    rw [List.getD_eq_getElem?_getD, List.getElem?_eq_getElem hi] at hleast
    exact hleast

/-! ## What a search finds -/

/-- A match is one of the text: as many bytes as it says stand where it says, unless it is the one
that every search starts with. -/
structure Found (text : ℕ → UInt8) (inpos bytesleft : ℕ) (best : Match) : Prop where
  least : 3 ≤ best.1
  positive : 3 < best.1 → 0 < best.2
  back : 3 < best.1 → best.2 ≤ inpos
  near : 3 < best.1 → best.2 ≤ LZ_MAX_OFFSET
  inside : 3 < best.1 → best.1 ≤ bytesleft
  same : 3 < best.1 → ∀ k < best.1, text (inpos + k) = text (inpos - best.2 + k)

theorem Found.start (text : ℕ → UInt8) (inpos bytesleft : ℕ) :
    Found text inpos bytesleft (3, 0) where
  least := Nat.le_refl 3
  positive h := absurd h (lt_irrefl 3)
  back h := absurd h (lt_irrefl 3)
  near h := absurd h (lt_irrefl 3)
  inside h := absurd h (lt_irrefl 3)
  same h := absurd h (lt_irrefl 3)

/-- A comparison stops at its bound, or before, and what it has passed is the same. -/
theorem stringCompare_spec {text : ℕ → UInt8} {str1 str2 : ℕ} (n len : ℕ)
    (hknown : ∀ k < len, text (str1 + k) = text (str2 + k)) :
    stringCompare text str1 str2 n len ≤ len + n ∧
      ∀ k < stringCompare text str1 str2 n len, text (str1 + k) = text (str2 + k) := by
  induction n generalizing len with
  | zero => exact ⟨Nat.le_refl _, hknown⟩
  | succ n ih =>
    unfold stringCompare
    split
    · rename_i hsame
      have hnext : ∀ k < len + 1, text (str1 + k) = text (str2 + k) := by
        intro k hk
        obtain hlt | rfl := Nat.lt_succ_iff_lt_or_eq.mp hk
        · exact hknown k hlt
        · exact hsame
      obtain ⟨hle, hall⟩ := ih (len + 1) hnext
      exact ⟨by omega, hall⟩
    · exact ⟨by omega, hknown⟩

theorem Found.better {text : ℕ → UInt8} {minlen inpos bytesleft offset : ℕ} {best : Match}
    (hbest : Found text inpos bytesleft best) (hmin : minlen ≤ 3) (hpos : 0 < offset)
    (hback : offset ≤ inpos) (hnear : offset ≤ LZ_MAX_OFFSET)
    (hknown : ∀ k < minlen, text (inpos + k) = text (inpos - offset + k)) :
    Found text inpos bytesleft (better text minlen inpos bytesleft offset best) := by
  have hmax : (if bytesleft < offset then bytesleft else offset) ≤ bytesleft := by
    split <;> omega
  obtain ⟨hle, hsame⟩ := stringCompare_spec
    ((if bytesleft < offset then bytesleft else offset) - minlen) minlen hknown
  unfold Lz.better
  dsimp only
  generalize (if bytesleft < offset then bytesleft else offset) = maxlength at *
  split
  · rename_i hlonger
    have hleast := hbest.least
    exact ⟨by omega, fun _ => hpos, fun _ => hback, fun _ => hnear, fun _ => by omega,
      fun _ => hsame⟩
  · exact hbest

/-- A search may look anywhere, and stop whenever it likes: what it has found is a match. -/
theorem Found.tryOffset {text : ℕ → UInt8} {inpos bytesleft offset : ℕ} {best : Match}
    (hbest : Found text inpos bytesleft best) (hpos : 0 < offset) (hback : offset ≤ inpos)
    (hnear : offset ≤ LZ_MAX_OFFSET) :
    Found text inpos bytesleft (tryOffset text inpos bytesleft best offset) := by
  unfold Lz.tryOffset
  split
  · exact hbest.better (by norm_num) hpos hback hnear fun k hk => absurd hk (Nat.not_lt_zero k)
  · exact hbest

theorem searchAll_found (text : ℕ → UInt8) (inpos bytesleft : ℕ) :
    Found text inpos bytesleft (searchAll text inpos bytesleft) := by
  have hfold : ∀ (offsets : List ℕ) (best : Match),
      (∀ o ∈ offsets, 0 < o ∧ o ≤ inpos ∧ o ≤ LZ_MAX_OFFSET) →
      Found text inpos bytesleft best →
      Found text inpos bytesleft (offsets.foldl (tryOffset text inpos bytesleft) best) := by
    intro offsets
    induction offsets with
    | nil => exact fun best _ hbest => hbest
    | cons o offsets ih =>
      intro best hall hbest
      obtain ⟨hpos, hback, hnear⟩ := hall o List.mem_cons_self
      exact ih _ (fun o ho => hall o (List.mem_cons_of_mem _ ho))
        (hbest.tryOffset hpos hback hnear)
  apply hfold _ _ _ (Found.start text inpos bytesleft)
  intro o ho
  have hrange := List.mem_range'_1.mp ho
  split at hrange <;> exact ⟨by omega, by omega, by omega⟩

/-- What stands in a jump table: places further back at which the same two bytes stand. -/
def Jumps (text : ℕ → UInt8) (table : List (Option ℕ)) : Prop :=
  ∀ i j, table.getD i none = some j →
    j < i ∧ text j = text i ∧ text (j + 1) = text (i + 1)

/-- What is noted for two bytes is a place at which they stand. -/
theorem jump_spec (text : ℕ → UInt8) (n : ℕ) :
    let acc := (List.range n).foldl (jump text) (fun _ => none, [])
    (∀ s j, acc.1 s = some j → j < n ∧ (text j, text (j + 1)) = s) ∧ acc.2.length = n ∧
      Jumps text acc.2 := by
  induction n with
  | zero =>
    exact ⟨fun s j h => absurd h (by simp), rfl, fun i j h => absurd h (by simp)⟩
  | succ n ih =>
    rw [List.range_succ, List.foldl_append, List.foldl_cons, List.foldl_nil]
    obtain ⟨hlast, hlen, htable⟩ := ih
    generalize (List.range n).foldl (jump text) (fun _ => none, []) = acc at hlast hlen htable ⊢
    unfold jump
    dsimp only
    refine ⟨fun s j hs => ?_, ?_, fun i j hij => ?_⟩
    · by_cases hsym : s = (text n, text (n + 1))
      · rw [hsym, Function.update_self] at hs
        obtain rfl := Option.some.inj hs
        exact ⟨Nat.lt_succ_self _, hsym.symm⟩
      · rw [Function.update_of_ne hsym] at hs
        obtain ⟨hlt, heq⟩ := hlast s j hs
        exact ⟨Nat.lt_succ_of_lt hlt, heq⟩
    · rw [List.length_append, hlen, List.length_singleton]
    · obtain hi | rfl | hi := lt_trichotomy i n
      · rw [List.getD_append _ _ _ _ (hlen.symm ▸ hi)] at hij
        exact htable i j hij
      · rw [List.getD_append_right _ _ _ _ (by omega), hlen, Nat.sub_self,
          List.getD_cons_zero] at hij
        obtain ⟨hlt, heq⟩ := hlast _ j hij
        obtain ⟨hfirst, hsecond⟩ := Prod.mk.inj heq
        exact ⟨hlt, hfirst, hsecond⟩
      · rw [List.getD_eq_default _ _ (by rw [List.length_append, hlen]; exact hi)] at hij
        exact absurd hij (by simp)

theorem jumptable_jumps (text : ℕ → UInt8) (insize : ℕ) : Jumps text (jumptable text insize) := by
  obtain ⟨-, hlen, htable⟩ := jump_spec text (insize - 1)
  intro i j hij
  unfold jumptable at hij
  by_cases hi : i < insize - 1
  · rw [List.getD_append _ _ _ _ (hlen.symm ▸ hi)] at hij
    exact htable i j hij
  · have hnone : ∀ k, ([none] : List (Option ℕ)).getD k none = none := by
      intro k
      rcases k with _ | k <;> rfl
    rw [List.getD_append_right _ _ _ _ (by omega), hnone] at hij
    exact absurd hij (by simp)

/-- Down the table, the two bytes are those of the place it started from. -/
theorem follow_found {text : ℕ → UInt8} {table : List (Option ℕ)} {inpos bytesleft : ℕ}
    (htable : Jumps text table) (n : ℕ) (next : Option ℕ) (best : Match)
    (hnext : ∀ j, next = some j →
      j < inpos ∧ text j = text inpos ∧ text (j + 1) = text (inpos + 1))
    (hbest : Found text inpos bytesleft best) :
    Found text inpos bytesleft (follow text table inpos bytesleft n next best) := by
  induction n generalizing next best with
  | zero => exact hbest
  | succ n ih =>
    rcases next with _ | index
    · exact hbest
    obtain ⟨hlt, hfirst, hsecond⟩ := hnext index rfl
    have hindex : inpos - (inpos - index) = index := by omega
    unfold follow
    split
    · rename_i hnear
      apply ih
      · intro j hj
        obtain ⟨hj, hone, htwo⟩ := htable index j hj
        exact ⟨hj.trans hlt, hone.trans hfirst, htwo.trans hsecond⟩
      · split
        · refine hbest.better (by norm_num) (by omega) (by omega) (by omega) fun k hk => ?_
          rw [hindex]
          obtain rfl | rfl : k = 0 ∨ k = 1 := by omega
          · exact hfirst.symm
          · exact hsecond.symm
        · exact hbest
    · exact hbest

theorem searchJump_found (text : ℕ → UInt8) (insize inpos bytesleft : ℕ) :
    Found text inpos bytesleft (searchJump text (jumptable text insize) inpos bytesleft) :=
  follow_found (jumptable_jumps text insize) _ _ _ (fun _ hj => jumptable_jumps text insize _ _ hj)
    (Found.start text inpos bytesleft)

end Lz
