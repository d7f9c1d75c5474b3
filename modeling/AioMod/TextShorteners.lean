/-
# Texts that are cut to fit

Titles are cut by a score of their bytes, paths by their length, and what is searched for by its
characters.  Only the last cut keeps to characters by itself.
-/
import AioMod.Utf8Text

namespace TextShorteners

open Utf8Text

/-! ## The three cuts -/

/-- `"\u2026"` -/
def ellipsis : List UInt8 := [0xE2, 0x80, 0xA6]

/-- `"..."` -/
def dots : List UInt8 := [46, 46, 46]

/-- `std::string::npos` -/
def npos : ℕ := 2 ^ 64 - 1

/-- `i - 1` of a `size_t`. -/
def pred (i : ℕ) : ℕ := if i = 0 then npos else i - 1

/-- `std::isupper` in the C locale -/
def isupper (c : UInt8) : Bool := 65 ≤ c && c ≤ 90

/-- What a byte adds to the score. -/
def byteScore (c : UInt8) : ℕ := if isupper c then 4 else 3

/-- The loop of `formatListItemTitle` over what is left of the title. -/
def titleLoop (str : List UInt8) (maxScore : ℕ) : List UInt8 → ℕ → ℕ → List UInt8
  | [], _, _ => str
  | c :: rest, i, score =>
    let score := score + byteScore c
    if maxScore < score then str.take (pred i) ++ ellipsis
    else titleLoop str maxScore rest (i + 1) score

def formatListItemTitle (str : List UInt8) (maxScore : ℕ) : List UInt8 :=
  titleLoop str maxScore str 0 0

def shortenPath (path : List UInt8) (maxLength : ℕ) : List UInt8 :=
  if path.length ≤ maxLength then path
  else if maxLength ≤ 3 then path.drop (path.length - maxLength)
  else dots ++ path.drop (path.length - (maxLength - 3))

/-- The loop of `searchPreview` from a place on, with so many characters left. -/
def previewEnd (value : List UInt8) : ℕ → ℕ → ℕ
  | 0, e => e
  | characters + 1, e =>
    match value[e]? with
    | none => e
    | some first => previewEnd value characters (min value.length (e + leadLength first))

/-- `searchPreview` for so many characters. -/
def preview (characters : ℕ) (value : List UInt8) : List UInt8 :=
  let e := previewEnd value characters 0
  value.take e ++ if e < value.length then dots else []

/-- `searchPreview` of the tab of ports -/
def portsSearchPreview (value : List UInt8) : List UInt8 := preview 17 value

/-- `searchPreview` of the tab of applications -/
def appsSearchPreview (value : List UInt8) : List UInt8 := preview 8 value

/-! ## Previews -/

theorem valid_dots : Valid dots := ⟨['.', '.', '.'], by decide⟩

theorem valid_ellipsis : Valid ellipsis := ⟨['…'], by decide⟩

/-- The loop goes from character to character. -/
theorem previewEnd_encode (n : ℕ) (pre cs : List Char) :
    previewEnd (encode (pre ++ cs)) n (encode pre).length
      = (encode (pre ++ cs.take n)).length := by
  induction n generalizing pre cs with
  | zero => rw [List.take_zero, List.append_nil]; rfl
  | succ n ih =>
    cases cs with
    | nil =>
      rw [List.append_nil, List.take_nil, List.append_nil, previewEnd, List.getElem?_eq_none le_rfl]
    | cons c cs =>
      obtain ⟨first, rest, hchar, hlead⟩ := leadLength_head c
      have hall : encode (pre ++ c :: cs) = encode pre ++ (first :: (rest ++ encode cs)) := by
        rw [encode_append, encode_cons, hchar]
        rfl
      have hget : (encode (pre ++ c :: cs))[(encode pre).length]? = some first := by
        rw [hall, List.getElem?_append_right le_rfl, Nat.sub_self]
        rfl
      have hnext : min (encode (pre ++ c :: cs)).length ((encode pre).length + leadLength first)
          = (encode (pre ++ [c])).length := by
        rw [hlead, encode_append, encode_append, encode_cons, encode_cons]
        simp only [List.length_append]
        have hnil : (encode []).length = 0 := rfl
        omega
      have hsplit : pre ++ c :: cs = (pre ++ [c]) ++ cs := by simp
      have htake : pre ++ (c :: cs).take (n + 1) = (pre ++ [c]) ++ cs.take n := by simp
      rw [previewEnd, hget]
      dsimp only
      rw [hnext, hsplit, ih, htake]

/-- A preview is the text, or the dots behind its first characters. -/
theorem preview_encode (n : ℕ) (cs : List Char) :
    preview n (encode cs) = encode (cs.take n) ++ if n < cs.length then dots else [] := by
  have hend : previewEnd (encode cs) n 0 = (encode (cs.take n)).length := previewEnd_encode n [] cs
  have hsplit : encode cs = encode (cs.take n) ++ encode (cs.drop n) := by
    rw [← encode_append, List.take_append_drop]
  have hmore : (encode (cs.take n)).length < (encode cs).length ↔ n < cs.length := by
    have hlength := congrArg List.length hsplit
    rw [List.length_append] at hlength
    have hrest : 0 < (encode (cs.drop n)).length ↔ n < cs.length := by
      rw [length_encode_pos, ne_eq, List.drop_eq_nil_iff, not_le]
    omega
  have htake : (encode cs).take (encode (cs.take n)).length = encode (cs.take n) := by
    conv_lhs => rw [hsplit]
    exact List.take_left
  unfold preview
  dsimp only
  rw [hend, htake]
  simp only [hmore]

/-! ## Titles -/

/-- The score of a title. -/
def score (str : List UInt8) : ℕ := (str.map byteScore).sum

theorem score_append (a b : List UInt8) : score (a ++ b) = score a + score b := by
  simp [score]

/-- The loop returns the title, or it cuts it one byte before the place where the score is first
too high. -/
theorem titleLoop_eq {maxScore : ℕ} (pre rest : List UInt8) (hpre : score pre ≤ maxScore) :
    (score (pre ++ rest) ≤ maxScore ∧
      titleLoop (pre ++ rest) maxScore rest pre.length (score pre) = pre ++ rest) ∨
    ∃ i < (pre ++ rest).length, score ((pre ++ rest).take i) ≤ maxScore ∧
      maxScore < score ((pre ++ rest).take (i + 1)) ∧
      titleLoop (pre ++ rest) maxScore rest pre.length (score pre)
        = (pre ++ rest).take (pred i) ++ ellipsis := by
  induction rest generalizing pre with
  | nil =>
    rw [List.append_nil]
    exact .inl ⟨hpre, rfl⟩
  | cons c rest ih =>
    have hsplit : pre ++ c :: rest = (pre ++ [c]) ++ rest := by simp
    have hscore : score (pre ++ [c]) = score pre + byteScore c := by
      rw [score_append]
      simp [score]
    rw [titleLoop]
    by_cases hhigh : maxScore < score pre + byteScore c
    · rw [if_pos hhigh]
      refine .inr ⟨pre.length, by simp, ?_, ?_, rfl⟩
      · rw [List.take_left]
        exact hpre
      · rw [hsplit, List.take_left' (by simp), hscore]
        exact hhigh
    · have hnext := ih (pre ++ [c]) (by rw [hscore]; exact not_lt.mp hhigh)
      rw [List.length_append, List.length_singleton, hscore, ← hsplit] at hnext
      rw [if_neg hhigh]
      exact hnext

theorem score_take_le (str : List UInt8) (k : ℕ) : score (str.take k) ≤ score str := by
  have hsplit := score_append (str.take k) (str.drop k)
  rw [List.take_append_drop] at hsplit
  omega

/-- Both outcomes for a title. -/
theorem formatListItemTitle_eq (str : List UInt8) (maxScore : ℕ) :
    (score str ≤ maxScore → formatListItemTitle str maxScore = str) ∧
    (maxScore < score str → ∃ i < str.length, score (str.take i) ≤ maxScore ∧
      maxScore < score (str.take (i + 1)) ∧
      formatListItemTitle str maxScore = str.take (pred i) ++ ellipsis) := by
  have hloop := titleLoop_eq [] str (Nat.zero_le maxScore)
  rw [List.nil_append] at hloop
  rcases hloop with ⟨hle, hrun⟩ | ⟨i, hi, hle, hlt, hrun⟩
  · exact ⟨fun _ => hrun, fun h => absurd hle (not_le.mpr h)⟩
  · have hscore := score_take_le str (i + 1)
    exact ⟨fun h => absurd h (not_le.mpr (hlt.trans_le hscore)), fun _ => ⟨i, hi, hle, hlt, hrun⟩⟩

/-! ## What is promised -/

/-- Where a title is cut: a prefix, whose score is within the limit, and the ellipsis.  The limit
admits the first byte; below that the cut is before the beginning. -/
theorem formatListItemTitle_cut {str : List UInt8} {maxScore : ℕ} (hlong : maxScore < score str)
    (hfirst : score (str.take 1) ≤ maxScore) :
    ∃ k < str.length, formatListItemTitle str maxScore = str.take k ++ ellipsis ∧
      score (str.take k) ≤ maxScore ∧
      (Valid (formatListItemTitle str maxScore) ↔ Boundary str k) := by
  obtain ⟨i, hi, hle, hlt, hrun⟩ := (formatListItemTitle_eq str maxScore).2 hlong
  have hpos : i ≠ 0 := by
    rintro rfl
    exact absurd hfirst (not_le.mpr hlt)
  unfold pred at hrun
  rw [if_neg hpos] at hrun
  have htake : (str.take i).take (i - 1) = str.take (i - 1) := by
    rw [List.take_take, Nat.min_eq_left (Nat.sub_le _ _)]
  have hscore := score_take_le (str.take i) (i - 1)
  rw [htake] at hscore
  refine ⟨i - 1, by omega, hrun, hscore.trans hle, ?_⟩
  rw [hrun]
  constructor
  · intro h
    exact valid_of_append h valid_ellipsis.head
  · intro h
    exact h.append valid_ellipsis

/-- Where a path is cut: the dots and a suffix, as long as the limit together. -/
theorem shortenPath_cut {path : List UInt8} {maxLength : ℕ} (hpath : Valid path)
    (hlong : maxLength < path.length) (hroom : 3 < maxLength) :
    shortenPath path maxLength = dots ++ path.drop (path.length - (maxLength - 3)) ∧
      (shortenPath path maxLength).length = maxLength ∧
      (Valid (shortenPath path maxLength) ↔
        Boundary path (path.length - (maxLength - 3))) := by
  have hrun : shortenPath path maxLength = dots ++ path.drop (path.length - (maxLength - 3)) := by
    unfold shortenPath
    rw [if_neg (not_le.mpr hlong), if_neg (not_le.mpr hroom)]
  rw [hrun, boundary_iff hpath]
  refine ⟨rfl, ?_, ?_⟩
  · rw [List.length_append, List.length_drop]
    have hdots : dots.length = 3 := rfl
    omega
  · constructor
    · intro h
      exact valid_of_append_left h valid_dots
    · intro h
      exact valid_dots.append h

/-- With a limit of three there is no room for the dots, and the suffix stands alone. -/
theorem shortenPath_narrow {path : List UInt8} {maxLength : ℕ} (hpath : Valid path)
    (hlong : maxLength < path.length) (hnarrow : maxLength ≤ 3) :
    shortenPath path maxLength = path.drop (path.length - maxLength) ∧
      (shortenPath path maxLength).length = maxLength ∧
      (Valid (shortenPath path maxLength) ↔ Boundary path (path.length - maxLength)) := by
  have hrun : shortenPath path maxLength = path.drop (path.length - maxLength) := by
    unfold shortenPath
    rw [if_neg (not_le.mpr hlong), if_pos hnarrow]
  rw [hrun, boundary_iff hpath]
  refine ⟨rfl, ?_, Iff.rfl⟩
  rw [List.length_drop]
  omega

theorem preview_valid (n : ℕ) (cs : List Char) :
    (cs.length ≤ n → preview n (encode cs) = encode cs) ∧
    (n < cs.length → preview n (encode cs) = encode (cs.take n) ++ dots) ∧
    Valid (preview n (encode cs)) := by
  rw [preview_encode]
  refine ⟨?_, ?_, ?_⟩
  · intro hshort
    rw [if_neg (not_lt.mpr hshort), List.append_nil, List.take_of_length_le hshort]
  · intro hlong
    rw [if_pos hlong]
  · split_ifs
    · exact (valid_encode _).append valid_dots
    · exact (valid_encode _).append valid_nil

/-- What the three promise of a text.  A preview is the text, or the dots behind as many of its
characters as there may be, and is text itself.  A title and a path are returned as they are if they
are within the limit.  Otherwise a title is cut to a prefix with a score within the limit, if that
admits a byte, with the ellipsis behind it, and a path to a suffix behind the dots, as long as the
limit together, or, where there is no room for the dots, to a suffix as long as the limit; they stay
text where the cut lies between characters. -/
theorem texts_shortened (cs : List Char) (limit : ℕ) :
    ((cs.length ≤ 17 → portsSearchPreview (encode cs) = encode cs) ∧
      (17 < cs.length → portsSearchPreview (encode cs) = encode (cs.take 17) ++ dots) ∧
      Valid (portsSearchPreview (encode cs))) ∧
    ((cs.length ≤ 8 → appsSearchPreview (encode cs) = encode cs) ∧
      (8 < cs.length → appsSearchPreview (encode cs) = encode (cs.take 8) ++ dots) ∧
      Valid (appsSearchPreview (encode cs))) ∧
    (score (encode cs) ≤ limit → formatListItemTitle (encode cs) limit = encode cs) ∧
    (limit < score (encode cs) → score ((encode cs).take 1) ≤ limit →
      ∃ k < (encode cs).length,
        formatListItemTitle (encode cs) limit = (encode cs).take k ++ ellipsis ∧
        score ((encode cs).take k) ≤ limit ∧
        (Boundary (encode cs) k → Valid (formatListItemTitle (encode cs) limit))) ∧
    ((encode cs).length ≤ limit → shortenPath (encode cs) limit = encode cs) ∧
    (limit < (encode cs).length → 3 < limit →
      shortenPath (encode cs) limit
          = dots ++ (encode cs).drop ((encode cs).length - (limit - 3)) ∧
        (shortenPath (encode cs) limit).length = limit ∧
        (Boundary (encode cs) ((encode cs).length - (limit - 3)) →
          Valid (shortenPath (encode cs) limit))) ∧
    (limit < (encode cs).length → limit ≤ 3 →
      shortenPath (encode cs) limit = (encode cs).drop ((encode cs).length - limit) ∧
        (shortenPath (encode cs) limit).length = limit ∧
        (Boundary (encode cs) ((encode cs).length - limit) →
          Valid (shortenPath (encode cs) limit))) := by
  refine ⟨preview_valid 17 cs, preview_valid 8 cs, (formatListItemTitle_eq _ limit).1,
    ?_, ?_, ?_, ?_⟩
  · intro hlong hfirst
    obtain ⟨k, hk, hrun, hscore, hvalid⟩ := formatListItemTitle_cut hlong hfirst
    exact ⟨k, hk, hrun, hscore, hvalid.mpr⟩
  · intro hshort
    exact if_pos hshort
  · intro hlong hroom
    obtain ⟨hrun, hlength, hvalid⟩ := shortenPath_cut (valid_encode cs) hlong hroom
    exact ⟨hrun, hlength, hvalid.mpr⟩
  · intro hlong hnarrow
    obtain ⟨hrun, hlength, hvalid⟩ := shortenPath_narrow (valid_encode cs) hlong hnarrow
    exact ⟨hrun, hlength, hvalid.mpr⟩

/-- A title and a path of two bytes each character, cut between characters. -/
theorem texts_shortened_accents :
    (∃ k < 4, formatListItemTitle (encode ['é', 'é']) 9 = (encode ['é', 'é']).take k ++ ellipsis) ∧
      shortenPath (encode ['é', 'é', 'é']) 5 = dots ++ encode ['é'] := by
  obtain ⟨-, -, -, htitle, -⟩ := texts_shortened ['é', 'é'] 9
  obtain ⟨-, -, -, -, -, hpath, -⟩ := texts_shortened ['é', 'é', 'é'] 5
  obtain ⟨k, hk, hrun, -⟩ := htitle (by decide) (by decide)
  exact ⟨⟨k, hk, hrun⟩, (hpath (by decide) (by decide)).1⟩

/-- A path that is cut to three bytes has no dots. -/
theorem narrow_path_without_dots : ¬∀ (cs : List Char) (limit : ℕ),
    Valid (formatListItemTitle (encode cs) limit) ∧ Valid (shortenPath (encode cs) limit) ∧
      (limit < (encode cs).length → ∃ back, back <:+ encode cs ∧
        shortenPath (encode cs) limit = dots ++ back) := by
  intro h
  obtain ⟨back, -, hrun⟩ := (h ['a', 'b', 'c', 'd'] 3).2.2 (by decide)
  have hpath : shortenPath (encode ['a', 'b', 'c', 'd']) 3 = [98, 99, 100] := by decide
  rw [hpath] at hrun
  cases (List.cons.inj hrun).1

end TextShorteners
