/-
# Byte images

Little-endian numbers, slices of an image, cutting into pieces of one size, zero
padding up to a block, and a buffer with a write position that grows as it is
written.  The lemmas say what a slice of a concatenation is and what a write past
the end leaves.

Nothing here depends on a particular format.
-/
import Mathlib

namespace ByteImage

/-- The `k` low bytes of `n`, the lowest first. -/
def le : ℕ → ℕ → List UInt8
  | 0, _ => []
  | k + 1, n => UInt8.ofNat n :: le k (n / 256)

/-- The number whose bytes are given, the lowest first. -/
def ofLe : List UInt8 → ℕ
  | [] => 0
  | b :: bs => b.toNat + 256 * ofLe bs

@[simp] theorem length_le (k n : ℕ) : (le k n).length = k := by
  induction k generalizing n with
  | zero => rfl
  | succ k ih => simp [le, ih]

/-- A number comes back from its bytes, reduced to their width. -/
theorem ofLe_le (k n : ℕ) : ofLe (le k n) = n % 256 ^ k := by
  induction k generalizing n with
  | zero => simp [le, ofLe, Nat.mod_one]
  | succ k ih =>
    rw [le, ofLe, ih, pow_succ, Nat.mul_comm (256 ^ k) 256, Nat.mod_mul]
    rfl

theorem ofLe_le_of_lt {k n : ℕ} (h : n < 256 ^ k) : ofLe (le k n) = n := by
  rw [ofLe_le, Nat.mod_eq_of_lt h]

/-- So many bytes hold no more. -/
theorem ofLe_lt (bs : List UInt8) : ofLe bs < 256 ^ bs.length := by
  induction bs with
  | nil => simp [ofLe]
  | cons b bs ih =>
    have hb := b.toNat_lt
    rw [ofLe, List.length_cons, pow_succ]
    omega

/-- Bytes come back from their number. -/
theorem le_ofLe (bs : List UInt8) : le bs.length (ofLe bs) = bs := by
  induction bs with
  | nil => rfl
  | cons b bs ih =>
    have hb := b.toNat_lt
    have hlow : UInt8.ofNat (b.toNat + 256 * ofLe bs) = b := by
      apply UInt8.toNat_inj.mp
      rw [UInt8.toNat_ofNat']
      omega
    have hhigh : (b.toNat + 256 * ofLe bs) / 256 = ofLe bs := by omega
    rw [List.length_cons, le, ofLe, hlow, hhigh, ih]

/-- So do the first bytes of some. -/
theorem le_ofLe_take {bs : List UInt8} {n : ℕ} (h : n ≤ bs.length) :
    le n (ofLe (bs.take n)) = bs.take n := by
  have hbytes := le_ofLe (bs.take n)
  rw [List.length_take, Nat.min_eq_left h] at hbytes
  exact hbytes

/-- `n` zero bytes. -/
def zeros (n : ℕ) : List UInt8 := List.replicate n 0

@[simp] theorem length_zeros (n : ℕ) : (zeros n).length = n := List.length_replicate

@[simp] theorem zeros_zero : zeros 0 = [] := rfl

/-! ## Slices -/

/-- The `n` bytes from offset `off`, fewer where the image ends. -/
def slice (bs : List UInt8) (off n : ℕ) : List UInt8 := (bs.drop off).take n

theorem length_slice (bs : List UInt8) (off n : ℕ) :
    (slice bs off n).length = min n (bs.length - off) := by
  simp [slice]

theorem ofLe_slice_lt (bs : List UInt8) (off n : ℕ) : ofLe (slice bs off n) < 256 ^ n := by
  refine (ofLe_lt _).trans_le (Nat.pow_le_pow_right (by norm_num) ?_)
  rw [length_slice]
  exact Nat.min_le_left _ _

/-- The middle part of three. -/
theorem slice_middle {a b c : List UInt8} {off n : ℕ} (ho : off = a.length) (hn : n = b.length) :
    slice (a ++ b ++ c) off n = b := by
  subst ho hn
  rw [slice, List.append_assoc, List.drop_left, List.take_left]

theorem slice_left {b c : List UInt8} {n : ℕ} (hn : n = b.length) : slice (b ++ c) 0 n = b :=
  slice_middle (a := []) rfl hn

/-- A slice past the first part. -/
theorem slice_append_right {a b : List UInt8} {off n : ℕ} (h : a.length ≤ off) :
    slice (a ++ b) off n = slice b (off - a.length) n := by
  rw [slice, slice, List.drop_append, List.drop_eq_nil_of_le h, List.nil_append]

/-- A slice within the first part. -/
theorem slice_append_left {a b : List UInt8} {off n : ℕ} (h : off + n ≤ a.length) :
    slice (a ++ b) off n = slice a off n := by
  rw [slice, slice, List.drop_append_of_le_length (by omega),
    List.take_append_of_le_length (by rw [List.length_drop]; omega)]

/-- A slice of a slice. -/
theorem slice_slice (bs : List UInt8) {off n i m : ℕ} (h : i + m ≤ n) :
    slice (slice bs off n) i m = slice bs (off + i) m := by
  rw [slice, slice, slice, List.drop_take, List.take_take, List.drop_drop,
    Nat.min_eq_left (by omega)]

/-- All of an image. -/
theorem slice_all {bs : List UInt8} {n : ℕ} (hn : bs.length ≤ n) : slice bs 0 n = bs := by
  rw [slice, List.drop_zero, List.take_of_length_le hn]

/-! ## Numbers of the machine's widths -/

def u8 (bs : List UInt8) (off : ℕ) : UInt8 := .ofNat (ofLe (slice bs off 1))

def u16 (bs : List UInt8) (off : ℕ) : UInt16 := .ofNat (ofLe (slice bs off 2))

def u32 (bs : List UInt8) (off : ℕ) : UInt32 := .ofNat (ofLe (slice bs off 4))

def u64 (bs : List UInt8) (off : ℕ) : UInt64 := .ofNat (ofLe (slice bs off 8))

section numbers

variable {bs : List UInt8} {off : ℕ}

theorem u8_of {x : UInt8} (h : slice bs off 1 = [x]) : u8 bs off = x := by
  unfold u8
  rw [h, ofLe, ofLe, Nat.mul_zero, Nat.add_zero, UInt8.ofNat_toNat]

theorem u16_of {x : UInt16} (h : slice bs off 2 = le 2 x.toNat) : u16 bs off = x := by
  unfold u16
  rw [h, ofLe_le_of_lt x.toNat_lt, UInt16.ofNat_toNat]

theorem u32_of {x : UInt32} (h : slice bs off 4 = le 4 x.toNat) : u32 bs off = x := by
  unfold u32
  rw [h, ofLe_le_of_lt x.toNat_lt, UInt32.ofNat_toNat]

theorem u64_of {x : UInt64} (h : slice bs off 8 = le 8 x.toNat) : u64 bs off = x := by
  unfold u64
  rw [h, ofLe_le_of_lt x.toNat_lt, UInt64.ofNat_toNat]

end numbers

/-! ## Rows and parts -/

/-- One of a row of numbers of one width. -/
theorem slice_flatMap_le (k : ℕ) (ns : List ℕ) (i : ℕ) (h : i < ns.length) :
    slice (ns.flatMap (le k)) (k * i) k = le k ns[i] := by
  induction ns generalizing i with
  | nil => exact absurd h (Nat.not_lt_zero _)
  | cons n ns ih =>
    rw [List.flatMap_cons]
    cases i with
    | zero =>
      rw [Nat.mul_zero, slice_left (length_le k n).symm]
      rfl
    | succ i =>
      rw [slice_append_right (by rw [length_le, Nat.mul_succ]; omega), length_le, Nat.mul_succ,
        Nat.add_sub_cancel]
      exact ih i (by simpa using h)

/-- One of several parts. -/
theorem slice_flatten (parts : List (List UInt8)) (i : ℕ) (h : i < parts.length) :
    slice parts.flatten ((parts.take i).map List.length).sum parts[i].length = parts[i] := by
  induction parts generalizing i with
  | nil => exact absurd h (Nat.not_lt_zero _)
  | cons p ps ih =>
    rw [List.flatten_cons]
    cases i with
    | zero => exact slice_left rfl
    | succ i =>
      have hsum : (((p :: ps).take (i + 1)).map List.length).sum
          = p.length + ((ps.take i).map List.length).sum := by simp
      rw [hsum, slice_append_right (by omega), Nat.add_sub_cancel_left]
      exact ih i (by simpa using h)

/-- A part ends within the whole. -/
theorem end_le_length_flatten (parts : List (List UInt8)) (i : ℕ) (h : i < parts.length) :
    ((parts.take i).map List.length).sum + parts[i].length ≤ parts.flatten.length := by
  induction parts generalizing i with
  | nil => exact absurd h (Nat.not_lt_zero _)
  | cons p ps ih =>
    rw [List.flatten_cons, List.length_append]
    cases i with
    | zero => simp
    | succ i =>
      have hi := ih i (by simpa using h)
      simp only [List.take_succ_cons, List.map_cons, List.sum_cons, List.getElem_cons_succ]
      omega

/-- Parts of one size. -/
theorem length_flatMap_range {g : ℕ → List UInt8} {k n : ℕ} (hg : ∀ i < n, (g i).length = k) :
    ((List.range n).flatMap g).length = k * n := by
  induction n with
  | zero => rfl
  | succ n ih =>
    rw [List.range_succ, List.flatMap_append, List.length_append,
      ih fun i hi => hg i (by omega), List.flatMap_singleton, hg n (by omega), Nat.mul_succ]

theorem slice_flatMap_range {g : ℕ → List UInt8} {k n i : ℕ} (hg : ∀ i < n, (g i).length = k)
    (hi : i < n) : slice ((List.range n).flatMap g) (k * i) k = g i := by
  induction n with
  | zero => exact absurd hi (Nat.not_lt_zero _)
  | succ n ih =>
    have hlen := length_flatMap_range fun i hi => hg i (Nat.lt_succ_of_lt hi)
    rw [List.range_succ, List.flatMap_append, List.flatMap_singleton]
    by_cases hin : i < n
    · have hle : k * i + k ≤ k * n := by
        rw [← Nat.mul_succ]
        exact Nat.mul_le_mul_left k hin
      rw [slice_append_left (by omega)]
      exact ih (fun i hi => hg i (Nat.lt_succ_of_lt hi)) hin
    · have hin : i = n := by omega
      subst hin
      rw [slice_append_right hlen.le, hlen, Nat.sub_self, slice_all (hg i (by omega)).le]

/-! ## Pieces of one size -/

/-- The consecutive pieces of `n` bytes; the last one may be shorter. -/
def pieces (n : ℕ) (bs : List UInt8) : List (List UInt8) :=
  (List.range ((bs.length + (n - 1)) / n)).map fun i => slice bs (i * n) n

theorem pieces_nil {n : ℕ} (hn : 0 < n) : pieces n [] = [] := by
  rw [pieces, List.length_nil, Nat.zero_add, Nat.div_eq_of_lt (by omega)]
  rfl

/-- The first piece and the pieces of the rest. -/
theorem pieces_of_ne_nil {n : ℕ} (hn : 0 < n) {bs : List UInt8} (hb : bs ≠ []) :
    pieces n bs = bs.take n :: pieces n (bs.drop n) := by
  have hlen : 0 < bs.length := List.length_pos_iff.mpr hb
  have hcount : (bs.length + (n - 1)) / n = (bs.length - n + (n - 1)) / n + 1 := by
    by_cases hle : n ≤ bs.length
    · rw [← Nat.add_div_right _ hn]
      congr 1
      omega
    · have h1 : (bs.length + (n - 1)) / n = 1 := by
        rw [show bs.length + (n - 1) = (bs.length - 1) + n by omega, Nat.add_div_right _ hn,
          Nat.div_eq_of_lt (by omega)]
      have h0 : (bs.length - n + (n - 1)) / n = 0 := Nat.div_eq_of_lt (by omega)
      rw [h1, h0]
  rw [pieces, hcount, List.range_succ_eq_map, List.map_cons, List.map_map, pieces,
    List.length_drop]
  congr 1
  · rw [slice, Nat.zero_mul, List.drop_zero]
  · apply List.map_congr_left
    intro i _
    rw [Function.comp_apply, slice, slice, List.drop_drop, Nat.succ_mul, Nat.add_comm]

/-- The pieces put together again. -/
theorem flatten_pieces {n : ℕ} (hn : 0 < n) (bs : List UInt8) : (pieces n bs).flatten = bs := by
  by_cases hb : bs = []
  · rw [hb, pieces_nil hn]
    rfl
  · have hlen : 0 < bs.length := List.length_pos_iff.mpr hb
    rw [pieces_of_ne_nil hn hb, List.flatten_cons, flatten_pieces hn (bs.drop n),
      List.take_append_drop]
termination_by bs.length
decreasing_by
  rw [List.length_drop]
  omega

/-- A whole number of pieces, counted out. -/
theorem flatMap_slices {n k : ℕ} (hn : 0 < n) {bs : List UInt8} (hlen : bs.length = n * k) :
    ((List.range k).flatMap fun i => slice bs (n * i) n) = bs := by
  have hcount : (bs.length + (n - 1)) / n = k := by
    rw [hlen, Nat.add_comm, Nat.add_mul_div_left _ _ hn, Nat.div_eq_of_lt (by omega), Nat.zero_add]
  have h := flatten_pieces hn bs
  rw [pieces, hcount, ← List.flatMap_def] at h
  simpa only [Nat.mul_comm] using h

/-! ## Padding -/

/-- The zero bytes from `off` to the next block boundary; a whole block on a boundary. -/
def padding (off block : ℕ) : List UInt8 := zeros (block - off % block)

theorem dvd_add_padding {off block : ℕ} (hb : 0 < block) :
    block ∣ off + (padding off block).length := by
  rw [padding, length_zeros]
  have hlt := Nat.mod_lt off hb
  have hdiv := Nat.mod_add_div off block
  refine ⟨off / block + 1, ?_⟩
  rw [Nat.mul_add, Nat.mul_one]
  omega

end ByteImage
