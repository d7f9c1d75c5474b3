/-
# A split package reads like one file

The reader keeps where each part starts, and the part that is open.  From any position up to the
end of the package it finds the part whose byte is next, parts without a byte being passed over, so
that it answers every sequence of calls as a buffer that holds all of the parts would.
-/
import AioMod.PackageReader
import AioMod.Traces

namespace PackageReader

open ByteImage

/-! ## The names of the parts -/

/-- The number that a row of digits stands for. -/
def value (digits : List UInt8) : ℕ :=
  Nat.ofDigits 10 (digits.reverse.map fun c => c.toNat - 48)

theorem value_decimal (k n : ℕ) : value (List.replicate k 48 ++ decimal n) = n := by
  have hdigit : ∀ d ∈ Nat.digits 10 n, (UInt8.ofNat (48 + d)).toNat - 48 = d := by
    intro d hd
    have hlt := Nat.digits_lt_base (by decide) hd
    rw [UInt8.toNat_ofNat_of_lt' (by unfold UInt8.size; omega)]
    omega
  have hdigits : (Nat.digits 10 n).map ((fun c : UInt8 => c.toNat - 48) ∘
      fun d => UInt8.ofNat (48 + d)) = Nat.digits 10 n :=
    (List.map_congr_left hdigit).trans (List.map_id _)
  unfold value decimal
  rw [List.reverse_append, List.map_append, ← List.map_reverse, List.reverse_reverse, List.map_map,
    hdigits, List.reverse_replicate, List.map_replicate]
  exact (Nat.ofDigits_append_replicate_zero _).trans (Nat.ofDigits_digits 10 n)

/-- No two parts have the same name. -/
theorem partPath_injective (base : List UInt8) : Function.Injective (partPath base) := by
  intro i j h
  have hlen := congrArg List.length h
  unfold partPath at h hlen
  split_ifs at h hlen with hi hj hj
  · rw [hi, hj]
  · simp only [List.length_append, List.length_singleton] at hlen
    omega
  · simp only [List.length_append, List.length_singleton] at hlen
    omega
  · have hvalue := congrArg value (List.append_cancel_left h)
    rwa [value_decimal, value_decimal] at hvalue

/-! ## Where the parts start -/

/-- Where parts start that lie one behind another from `d` on. -/
def starts (d : ℕ) : List (List UInt8) → List ℕ
  | [] => []
  | part :: parts => d :: starts (d + part.length) parts

theorem starts_append_single (d : ℕ) (parts : List (List UInt8)) (part : List UInt8) :
    starts d (parts ++ [part]) = starts d parts ++ [d + parts.flatten.length] := by
  induction parts generalizing d with
  | nil => rfl
  | cons head parts ih =>
    rw [List.cons_append, starts, ih, starts, List.flatten_cons, List.length_append, Nat.add_assoc]
    rfl

theorem starts_getD (d : ℕ) (parts : List (List UInt8)) {i : ℕ} (hi : i < parts.length) :
    (starts d parts).getD i 0 = d + ((parts.take i).map List.length).sum := by
  induction parts generalizing d i with
  | nil => exact absurd hi (Nat.not_lt_zero _)
  | cons head parts ih =>
    cases i with
    | zero => rfl
    | succ i =>
      rw [starts, List.getD_cons_succ, ih _ (Nat.lt_of_succ_lt_succ hi), List.take_succ_cons,
        List.map_cons, List.sum_cons, Nat.add_assoc]

theorem le_of_mem_starts {d : ℕ} {parts : List (List UInt8)} {start : ℕ}
    (h : start ∈ starts d parts) : d ≤ start := by
  induction parts generalizing d with
  | nil => cases h
  | cons head parts ih =>
    rcases List.mem_cons.mp h with rfl | h
    · exact le_rfl
    · exact (Nat.le_add_right _ _).trans (ih h)

/-- The row of starts is sorted, as `std::upper_bound` needs it. -/
theorem starts_sorted (d : ℕ) (parts : List (List UInt8)) :
    (starts d parts).Pairwise (· ≤ ·) := by
  induction parts generalizing d with
  | nil => exact List.Pairwise.nil
  | cons head parts ih =>
    apply List.Pairwise.cons _ (ih _)
    intro start h
    exact (Nat.le_add_right _ _).trans (le_of_mem_starts h)

/-- The part that holds the byte at an offset is the last of those that start at it or before. -/
theorem upper_bound_starts {d off : ℕ} (parts : List (List UInt8)) (hd : d ≤ off)
    (hoff : off < d + parts.flatten.length) :
    ∃ i part, parts[i]? = some part ∧ Reader.upper_bound (starts d parts) off = i + 1 ∧
      d + ((parts.take i).map List.length).sum ≤ off ∧
      off < d + ((parts.take i).map List.length).sum + part.length := by
  induction parts generalizing d with
  | nil =>
    rw [List.flatten_nil, List.length_nil] at hoff
    omega
  | cons head parts ih =>
    rw [List.flatten_cons, List.length_append] at hoff
    unfold Reader.upper_bound
    rw [starts, List.takeWhile_cons_of_pos (by simpa using hd), List.length_cons]
    by_cases hhead : off < d + head.length
    · refine ⟨0, head, rfl, ?_, hd, hhead⟩
      cases parts with
      | nil => rfl
      | cons next parts =>
        rw [starts, List.takeWhile_cons_of_neg (by simpa using hhead)]
        rfl
    · obtain ⟨i, part, hpart, hupper, hle, hlt⟩ := ih (not_lt.mp hhead) (by omega)
      refine ⟨i + 1, part, hpart, congrArg (· + 1) hupper, ?_⟩
      rw [List.take_succ_cons, List.map_cons, List.sum_cons]
      omega

/-! ## The reader of a package -/

/-- What the reader knows of the parts, and that the open part is the current one. -/
structure Opened (files : Files) (parts : List (List UInt8)) (r : Reader) : Prop where
  paths : r.partPaths.map files = parts.map some
  sizes : r.partSizes = parts.map List.length
  partStarts : r.partStarts = starts 0 parts
  total : r.totalSize = parts.flatten.length
  position : r.position ≤ parts.flatten.length
  cached : ∀ i : ℕ, r.currentPart = some i → r.stream.is_open = true → r.stream.file = parts[i]?

/-- The limits of the types, on parts of which there is one. -/
structure Fits (parts : List (List UInt8)) : Prop where
  nonempty : parts ≠ []
  part_lt : ∀ part ∈ parts, part.length < 2 ^ 63
  size_lt : parts.flatten.length < 2 ^ 64

section reader

variable {files : Files} {parts : List (List UInt8)} {r : Reader}

/-- `std::upper_bound` finds a sorted row. -/
theorem Opened.sorted (h : Opened files parts r) : r.partStarts.Pairwise (· ≤ ·) := by
  rw [h.partStarts]
  exact starts_sorted 0 parts

theorem Opened.count (h : Opened files parts r) : r.partPaths.length = parts.length := by
  simpa using congrArg List.length h.paths

/-- Every offset up to the end is found in a part, and before the end its byte is there. -/
theorem Opened.locatePart (h : Opened files parts r) (hparts : parts ≠ []) {offset : ℕ}
    (hoff : offset ≤ parts.flatten.length) :
    ∃ i off part, r.locatePart offset = some (i, off) ∧ parts[i]? = some part ∧
      ((parts.take i).map List.length).sum + off = offset ∧ off ≤ part.length ∧
      (offset < parts.flatten.length → off < part.length) := by
  have hpaths : r.partPaths ≠ [] := by
    rw [← List.length_pos_iff, h.count]
    exact List.length_pos_iff.mpr hparts
  unfold Reader.locatePart
  rw [if_neg (by rw [h.total]; exact not_or.mpr ⟨not_lt.mpr hoff, hpaths⟩), h.total]
  by_cases hend : offset = parts.flatten.length
  · obtain ⟨front, part, rfl⟩ := List.eq_nil_or_concat' parts |>.resolve_left hparts
    rw [if_pos hend, h.sizes, h.count, List.map_append, List.map_singleton,
      List.getLast?_append_of_ne_nil _ (List.cons_ne_nil _ _)]
    refine ⟨front.length, part.length, part, ?_, by simp, ?_, le_rfl, ?_⟩
    · simp
    · rw [List.take_left, hend]
      simp
    · intro hlt
      exact absurd hend hlt.ne
  · obtain ⟨i, part, hpart, hupper, hle, hlt⟩ :=
      upper_bound_starts parts (Nat.zero_le offset) (by omega)
    have hi : i < parts.length := (List.getElem?_eq_some_iff.mp hpart).1
    rw [if_neg hend, h.partStarts]
    dsimp only
    rw [hupper, if_neg (Nat.succ_ne_zero i), Nat.add_sub_cancel, h.count, if_neg (by omega),
      starts_getD 0 parts hi]
    exact ⟨i, _, part, rfl, hpart, by omega, by omega, by omega⟩

theorem seekLocal_eq {part : List UInt8} (hfile : r.stream.file = some part) {off : ℕ}
    (hoff : off < 2 ^ 63) :
    r.seekLocal off = (true, { r with stream := { file := some part, position := off } }) := by
  have hok : ¬(r.stream.clear.fail = true ∨ r.stream.clear.file = none ∨ 2 ^ 63 ≤ off) := by
    rintro (hfail | hnone | hlarge)
    · cases hfail
    · cases hfile.symm.trans hnone
    · exact not_le.mpr hoff hlarge
  unfold Reader.seekLocal Stream.seekg
  rw [if_neg hok]
  dsimp only [Stream.clear]
  rw [hfile]
  rfl

/-- The part is opened, if it is not open yet, and read from there on. -/
theorem Opened.openPart (h : Opened files parts r) (hfits : Fits parts) {i off : ℕ}
    {part : List UInt8} (hpart : parts[i]? = some part) (hoff : off ≤ part.length) :
    ∃ r', r.openPart files i off = (true, r') ∧ Opened files parts r' ∧
      r'.position = r.position ∧ r'.stream = { file := some part, position := off } := by
  have hi : i < r.partPaths.length := by
    rw [h.count]
    exact (List.getElem?_eq_some_iff.mp hpart).1
  have hlt : off < 2 ^ 63 := hoff.trans_lt (hfits.part_lt part (List.mem_of_getElem? hpart))
  have hfile : files (r.partPaths.getD i []) = some part := by
    have hget := congrArg (·[i]?) h.paths
    simp only [List.getElem?_map, hpart] at hget
    rw [List.getD_eq_getElem?_getD]
    rw [List.getElem?_eq_getElem hi] at hget ⊢
    exact Option.some.inj hget
  unfold Reader.openPart
  rw [if_neg (not_le.mpr hi)]
  split_ifs with hcached
  · have hopen : r.stream.close.clear.openFile files (r.partPaths.getD i []) =
        { file := some part } := by
      unfold Stream.openFile
      rw [hfile]
    dsimp only
    rw [hopen, if_neg Bool.false_ne_true, seekLocal_eq rfl hlt]
    refine ⟨_, rfl, ⟨h.paths, h.sizes, h.partStarts, h.total, h.position, ?_⟩, rfl, rfl⟩
    intro j hj _
    cases hj
    exact hpart.symm
  · obtain ⟨hcurrent, hopen⟩ := not_or.mp hcached
    have hstream : r.stream.file = some part :=
      (h.cached i (not_not.mp hcurrent) (Bool.eq_true_of_not_eq_false hopen)).trans hpart
    rw [seekLocal_eq hstream hlt]
    refine ⟨_, rfl, ⟨h.paths, h.sizes, h.partStarts, h.total, h.position, ?_⟩, rfl, rfl⟩
    intro j hj _
    rw [h.cached j hj (Bool.eq_true_of_not_eq_false hopen)] at hstream
    exact hstream.symm

/-! ## Opening -/

/-- The sizes of the parts are added up. -/
theorem addParts_eq {paths : List (List UInt8)} (done : List (List UInt8))
    (hpaths : paths.map files = parts.map some) (hstarts : r.partStarts = starts 0 done)
    (hsizes : r.partSizes = done.map List.length) (htotal : r.totalSize = done.flatten.length)
    (hlt : (done ++ parts).flatten.length < 2 ^ 64) :
    r.addParts files paths = (true, { r with
      partStarts := starts 0 (done ++ parts)
      partSizes := (done ++ parts).map List.length
      totalSize := (done ++ parts).flatten.length }) := by
  induction parts generalizing paths done r with
  | nil =>
    rw [List.map_nil, List.map_eq_nil_iff] at hpaths
    subst hpaths
    rw [List.append_nil, ← hstarts, ← hsizes, ← htotal]
    rfl
  | cons part parts ih =>
    obtain ⟨path, paths, rfl, hpath, hpaths⟩ := List.map_eq_cons_iff.mp hpaths
    rw [Reader.addParts, hpath]
    have hsplit : done ++ part :: parts = (done ++ [part]) ++ parts := by simp
    have hlength : (done ++ [part]).flatten.length = done.flatten.length + part.length := by simp
    have hsum : (r.totalSize + part.length) % 2 ^ 64 = (done ++ [part]).flatten.length := by
      rw [hsplit, List.flatten_append, List.length_append] at hlt
      rw [htotal, hlength]
      exact Nat.mod_eq_of_lt (by omega)
    rw [hsplit] at hlt ⊢
    refine (ih (done ++ [part]) hpaths ?_ ?_ hsum hlt).trans rfl
    · dsimp only
      rw [hstarts, htotal, starts_append_single, Nat.zero_add]
    · dsimp only
      rw [hsizes, List.map_append]
      rfl

/-- The files are looked for in their order, until one is missing. -/
theorem takeWhile_holds {path : ℕ → List UInt8}
    (hpath : ∀ i ≤ parts.length, files (path i) = parts[i]?) {s : ℕ} (hstart : s ≤ parts.length)
    (n : ℕ) :
    (((List.range' s n).map path).takeWhile fun p => (files p).isSome).map files
      = ((parts.drop s).take n).map some := by
  induction n generalizing s with
  | zero => simp
  | succ n ih =>
    rw [List.range'_succ, List.map_cons]
    by_cases hs : s < parts.length
    · have hfile : files (path s) = some parts[s] := by
        rw [hpath s hstart, List.getElem?_eq_getElem hs]
      rw [List.takeWhile_cons_of_pos (by rw [hfile]; rfl), List.map_cons, hfile,
        ih (Nat.succ_le_of_lt hs), List.drop_eq_getElem_cons hs, List.take_succ_cons, List.map_cons]
    · have hfile : files (path s) = none := by
        rw [hpath s hstart, List.getElem?_eq_none (not_lt.mp hs)]
      rw [List.takeWhile_cons_of_neg (by rw [hfile]; exact Bool.false_ne_true),
        List.drop_eq_nil_of_le (not_lt.mp hs)]
      rfl

/-- How many parts a reader looks for. -/
def MAX_PARTS : ℕ := 10000

theorem discoverParts_map (p : Package files) :
    (discoverParts files p.base).map files = (p.parts.take MAX_PARTS).map some := by
  obtain ⟨part, rest, hparts⟩ := List.exists_cons_of_ne_nil p.nonempty
  have hbase : files p.base = some part := by
    have h := p.holds 0 (Nat.zero_le _)
    rwa [hparts] at h
  unfold discoverParts
  have hstart : 1 ≤ p.parts.length := List.length_pos_of_ne_nil p.nonempty
  rw [hbase, if_neg (by exact Bool.false_ne_true), List.map_cons, hbase,
    takeWhile_holds p.holds hstart, hparts]
  rfl

theorem Package.fits (p : Package files) : Fits (p.parts.take MAX_PARTS) := by
  constructor
  · rw [ne_eq, List.take_eq_nil_iff, not_or]
    exact ⟨by decide, p.nonempty⟩
  · intro part h
    exact p.part_lt part (List.mem_of_mem_take h)
  · have hsplit := congrArg List.flatten (List.take_append_drop MAX_PARTS p.parts)
    rw [List.flatten_append] at hsplit
    have hlength := congrArg List.length hsplit
    rw [List.length_append] at hlength
    have hlt := p.size_lt
    omega

/-- A reader of a package is at the beginning of its parts. -/
theorem openPackage_opened (p : Package files) (r : Reader) :
    ∃ r', r.openPackage files p.base = (true, r') ∧
      Opened files (p.parts.take MAX_PARTS) r' ∧ r'.position = 0 := by
  have hfits := p.fits
  have hpaths := discoverParts_map p
  generalize p.parts.take MAX_PARTS = parts at hfits hpaths
  have hne : discoverParts files p.base ≠ [] := by
    intro hnil
    rw [hnil] at hpaths
    exact hfits.nonempty (List.map_eq_nil_iff.mp hpaths.symm)
  unfold Reader.openPackage
  dsimp only
  rw [if_neg hne, addParts_eq [] hpaths rfl rfl rfl hfits.size_lt]
  dsimp only
  obtain ⟨part, hpart⟩ : ∃ part, parts[0]? = some part :=
    ⟨_, List.getElem?_eq_getElem (List.length_pos_iff.mpr hfits.nonempty)⟩
  obtain ⟨r', hrun, hopened, hposition, -⟩ := Opened.openPart
    (r := {
      partPaths := discoverParts files p.base
      partSizes := parts.map List.length
      partStarts := starts 0 parts
      totalSize := parts.flatten.length
      stream := r.stream.close })
    ⟨hpaths, rfl, rfl, rfl, Nat.zero_le _, fun _ h => absurd h (Option.some_ne_none _).symm⟩
    hfits hpart (Nat.zero_le _)
  exact ⟨r', hrun, hopened, hposition⟩

/-! ## Seeking and reading -/

/-- The bytes of a part are found behind those of the parts before it. -/
theorem slice_part {i off n : ℕ} {part : List UInt8} (hpart : parts[i]? = some part)
    (h : off + n ≤ part.length) :
    slice parts.flatten (((parts.take i).map List.length).sum + off) n = slice part off n := by
  obtain ⟨hi, rfl⟩ := List.getElem?_eq_some_iff.mp hpart
  have hwhole := slice_flatten parts i hi
  calc slice parts.flatten (((parts.take i).map List.length).sum + off) n
      = slice (slice parts.flatten ((parts.take i).map List.length).sum parts[i].length) off n :=
        (slice_slice _ h).symm
    _ = slice parts[i] off n := by rw [hwhole]

theorem slice_add (bs : List UInt8) (off m n : ℕ) :
    slice bs off (m + n) = slice bs off m ++ slice bs (off + m) n := by
  unfold slice
  rw [List.take_add, List.drop_drop]

theorem Opened.seek (h : Opened files parts r) (hfits : Fits parts) (offset : ℕ) :
    (offset ≤ parts.flatten.length →
      ∃ r', r.seek files offset = (true, r') ∧ Opened files parts r' ∧ r'.position = offset) ∧
    (parts.flatten.length < offset → r.seek files offset = (false, r)) := by
  constructor
  · intro hoff
    obtain ⟨i, off, part, hlocate, hpart, -, hle, -⟩ := h.locatePart hfits.nonempty hoff
    obtain ⟨r', hrun, hopened, -, -⟩ := h.openPart hfits hpart hle
    unfold Reader.seek
    rw [hlocate]
    dsimp only
    rw [hrun]
    exact ⟨_, rfl, ⟨hopened.paths, hopened.sizes, hopened.partStarts, hopened.total, hoff,
      hopened.cached⟩, rfl⟩
  · intro hoff
    unfold Reader.seek Reader.locatePart
    rw [h.total, if_pos (Or.inl hoff)]

theorem stream_read {part : List UInt8} {off n : ℕ} (h : off + n ≤ part.length) :
    ({ file := some part, position := off } : Stream).read n =
      (slice part off n, { file := some part, position := off + n }) := by
  have hlength : (slice part off n).length = n := by
    rw [length_slice]
    omega
  unfold Stream.read
  rw [if_neg Bool.false_ne_true]
  dsimp only [Option.getD_some]
  rw [hlength, decide_eq_false (lt_irrefl n)]

/-- What is left of a part, in the arithmetic of the source. -/
theorem Opened.available (h : Opened files parts r) (hfits : Fits parts) {i off : ℕ}
    {part : List UInt8} (hpart : parts[i]? = some part) (hoff : off ≤ part.length) :
    (r.partSizes.getD i 0 + 2 ^ 64 - off) % 2 ^ 64 = part.length - off := by
  have hlt := hfits.part_lt part (List.mem_of_getElem? hpart)
  have hsize : r.partSizes.getD i 0 = part.length := by
    rw [h.sizes, List.getD_eq_getElem?_getD, List.getElem?_map, hpart]
    rfl
  rw [hsize]
  omega

/-- The loop reads on until all that is asked for is there. -/
theorem Opened.readLoop (h : Opened files parts r) (hfits : Fits parts) {remaining : ℕ}
    (hend : r.position + remaining ≤ parts.flatten.length) (dst : List UInt8) :
    ∃ r', Reader.readLoop files remaining r dst =
        (some (dst ++ slice parts.flatten r.position remaining), r') ∧
      Opened files parts r' ∧ r'.position = r.position + remaining := by
  induction remaining using Nat.strong_induction_on generalizing r dst with
  | _ remaining ih =>
    rw [Reader.readLoop]
    by_cases hzero : remaining = 0
    · rw [if_pos hzero, hzero]
      exact ⟨r, by simp [slice], h, rfl⟩
    · obtain ⟨i, off, part, hlocate, hpart, hsum, hle, hbefore⟩ :=
        h.locatePart hfits.nonempty h.position
      have hoff : off < part.length := hbefore (by omega)
      obtain ⟨r', hrun, hopened, hposition, hstream⟩ := h.openPart hfits hpart hle
      rw [if_neg hzero, hlocate]
      dsimp only
      rw [hrun]
      dsimp only
      rw [hopened.available hfits hpart hle, hstream]
      generalize htake : min remaining (part.length - off) = take
      -- the piece is that of the one part it lies in
      have hslice : slice parts.flatten r.position take = slice part off take := by
        rw [← hsum]
        exact slice_part hpart (by omega)
      have hposition' : (r'.position + take) % 2 ^ 64 = r.position + take := by
        have hlt := hfits.size_lt
        rw [hposition]
        exact Nat.mod_eq_of_lt (by omega)
      have hlength : (slice part off take).length = take := by
        rw [length_slice]
        omega
      rw [if_neg (by omega), stream_read (by omega)]
      dsimp only
      rw [if_neg (not_not.mpr hlength), hposition', ← hslice]
      have hnext : Opened files parts { r' with
          stream := { file := some part, position := off + take }
          position := r.position + take } := by
        refine ⟨hopened.paths, hopened.sizes, hopened.partStarts, hopened.total, ?_, ?_⟩
        · show r.position + take ≤ _
          omega
        · intro j hj _
          have hcached := hopened.cached j hj
          rw [hstream] at hcached
          exact hcached rfl
      obtain ⟨r'', hrest, hlast, hat⟩ := ih (remaining - take) (by omega) hnext
        (by show r.position + take + (remaining - take) ≤ _; omega)
        (dst ++ slice parts.flatten r.position take)
      refine ⟨r'', ?_, hlast, ?_⟩
      · rw [hrest, List.append_assoc, ← slice_add, Nat.add_sub_of_le (by omega)]
      · rw [hat]
        show r.position + take + (remaining - take) = _
        omega

theorem Opened.read (h : Opened files parts r) (hfits : Fits parts) (n : ℕ) :
    (r.position + n ≤ parts.flatten.length →
      ∃ r', r.read files n = (some (slice parts.flatten r.position n), r') ∧
        Opened files parts r' ∧ r'.position = r.position + n) ∧
    (parts.flatten.length < r.position + n → r.read files n = (none, r)) := by
  have hposition := h.position
  constructor
  · intro hend
    unfold Reader.read
    by_cases hzero : n = 0
    · rw [if_pos hzero, hzero]
      exact ⟨r, by simp [slice], h, rfl⟩
    · rw [if_neg hzero, h.total, if_neg (by omega)]
      exact h.readLoop hfits hend []
  · intro hend
    unfold Reader.read
    rw [if_neg (by omega), h.total, if_pos (by omega)]

/-! ## The reader and the buffer -/

/-- The reader is where the buffer is. -/
structure Alike (files : Files) (parts : List (List UInt8)) (r : Reader) (b : Buffer) : Prop where
  opened : Opened files parts r
  data : b.data = parts.flatten
  position : b.position = r.position

theorem Alike.call (hfits : Fits parts) (c : Call) (r : Reader) (b : Buffer)
    (h : Alike files parts r b) : (Reader.call files c r).1 = (Buffer.call c b).1 ∧
      Alike files parts (Reader.call files c r).2 (Buffer.call c b).2 := by
  obtain ⟨hopened, hdata, hposition⟩ := h
  cases c with
  | seek offset =>
    obtain ⟨hinside, houtside⟩ := hopened.seek hfits offset
    unfold Reader.call Buffer.call
    dsimp only
    rw [hdata]
    split_ifs with hoff
    · obtain ⟨r', hrun, hopened', hat⟩ := hinside hoff
      rw [hrun]
      exact ⟨rfl, hopened', rfl, hat.symm⟩
    · rw [houtside (not_le.mp hoff)]
      exact ⟨rfl, hopened, hdata, hposition⟩
  | read n =>
    obtain ⟨hinside, houtside⟩ := hopened.read hfits n
    unfold Reader.call Buffer.call
    dsimp only
    rw [hdata, hposition]
    split_ifs with hend
    · obtain ⟨r', hrun, hopened', hat⟩ := hinside hend
      rw [hrun]
      exact ⟨rfl, hopened', rfl, hat.symm⟩
    · rw [houtside (not_le.mp hend)]
      exact ⟨rfl, hopened, hdata, hposition⟩
  | tell => exact ⟨congrArg Answer.number hposition.symm, hopened, hdata, hposition⟩
  | size =>
    refine ⟨?_, hopened, hdata, hposition⟩
    show Answer.number r.totalSize = .number b.data.length
    rw [hopened.total, hdata]

end reader

theorem openPackage_alike (files : Files) (p : Package files) (r : Reader) :
    ∃ r', r.openPackage files p.base = (true, r') ∧
      Alike files (p.parts.take MAX_PARTS) r' { data := (p.parts.take MAX_PARTS).flatten } := by
  obtain ⟨r', hrun, hopened, hat⟩ := openPackage_opened p r
  exact ⟨r', hrun, hopened, rfl, hat.symm⟩

/-- A package is opened, and answers every sequence of calls like one buffer that holds its parts,
of which the reader looks for the first ten thousand. -/
theorem reads_like_one_buffer (files : Files) (p : Package files) (r : Reader) :
    ∃ r', r.openPackage files p.base = (true, r') ∧
      ∀ calls : List Call, Traces.answers (Reader.call files) calls r' =
        Traces.answers Buffer.call calls { data := (p.parts.take MAX_PARTS).flatten } := by
  obtain ⟨r', hrun, halike⟩ := openPackage_alike files p r
  exact ⟨r', hrun, fun calls => Traces.answers_eq (Alike.call p.fits) calls halike⟩

/-! ## More parts than are looked for -/

/-- A directory with a package in 10001 parts, of one byte each. -/
def manyFiles : Files := fun path =>
  if (List.range 10001).any fun i => decide (path = partPath [112] i) then some [0] else none

def manyParts : Package manyFiles where
  base := [112]
  parts := List.replicate 10001 [0]
  holds i _ := by
    have hmem : ((List.range 10001).any fun j => decide (partPath [112] i = partPath [112] j)) = true
        ↔ i < 10001 := by
      rw [List.any_eq_true]
      constructor
      · rintro ⟨j, hj, hij⟩
        rw [partPath_injective _ (of_decide_eq_true hij)]
        exact List.mem_range.mp hj
      · exact fun hi => ⟨i, List.mem_range.mpr hi, decide_eq_true rfl⟩
    rw [List.getElem?_replicate]
    exact if_congr hmem rfl rfl
  nonempty := List.cons_ne_nil _ _
  part_lt part h := by
    rw [List.eq_of_mem_replicate h]
    decide
  size_lt := by
    rw [List.flatten_replicate_singleton, List.length_replicate]
    decide

/-- The end of all the parts is behind the end of those that are looked for. -/
theorem last_part_is_not_read : ¬∀ (files : Files) (p : Package files) (r : Reader),
    ∃ r', r.openPackage files p.base = (true, r') ∧
      ∀ calls : List Call, Traces.answers (Reader.call files) calls r' =
        Traces.answers Buffer.call calls { data := p.parts.flatten } := by
  intro h
  obtain ⟨r', hrun, hanswers⟩ := h manyFiles manyParts {}
  obtain ⟨r₁, hrun₁, halike⟩ := openPackage_alike manyFiles manyParts {}
  cases hrun.symm.trans hrun₁
  have hlength : (manyParts.parts.take MAX_PARTS).flatten.length = 10000 := by
    show ((List.replicate 10001 [0]).take MAX_PARTS).flatten.length = 10000
    rw [List.take_replicate, List.flatten_replicate_singleton, List.length_replicate]
    rfl
  have hall : manyParts.parts.flatten.length = 10001 := by
    show (List.replicate 10001 [0]).flatten.length = 10001
    rw [List.flatten_replicate_singleton, List.length_replicate]
  have hseek := (halike.opened.seek manyParts.fits 10001).2 (by omega)
  have hreader : (Reader.call manyFiles (.seek 10001) r').1 = .sought false := by
    show Answer.sought (Reader.seek manyFiles r' 10001).1 = _
    rw [hseek]
  have hbuffer : (Buffer.call (.seek 10001) { data := manyParts.parts.flatten }).1
      = .sought true := by
    unfold Buffer.call
    dsimp only
    rw [if_pos hall.ge]
  have hanswer := (List.cons.inj (hanswers [.seek 10001])).1
  rw [hreader, hbuffer] at hanswer
  cases hanswer

end PackageReader
