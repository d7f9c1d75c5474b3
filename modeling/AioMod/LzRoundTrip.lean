/-
# What is compressed comes back

What either compressor writes is a marker and tokens that factor the input, each of them written as
briefly as the compressor asks for.  The decoder reads the tokens back and expands them, whatever
the search had found; and no token takes more room than its text, but for the marker itself.
-/
import AioMod.LzCoderSpec

namespace Lz

open LzTokens (Token Repeats Factors copyBack emit expand)

/-! ## What is written -/

/-- How a token is written. -/
def write (marker : UInt8) : Token UInt8 → Bytes
  | .literal symbol => literal marker symbol
  | .copy length offset => marker :: (writeVarSize length ++ writeVarSize offset)

/-- A repetition is one that fits its numbers and is worth its bytes. -/
def Brief : Token UInt8 → Prop
  | .literal _ => True
  | .copy length offset => length < 2 ^ 32 ∧ offset < 2 ^ 32 ∧ goodEnough (length, offset)

/-- No match is worth its bytes unless it is longer than what the search starts with. -/
theorem goodEnough.long {best : Match} (h : goodEnough best) : 3 < best.1 := by
  obtain h | ⟨h, -⟩ | ⟨h, -⟩ | ⟨h, -⟩ | ⟨h, -⟩ := h <;> omega

theorem write_ne_nil (marker : UInt8) (t : Token UInt8) : write marker t ≠ [] := by
  rcases t with symbol | ⟨length, offset⟩
  · show literal marker symbol ≠ []
    unfold literal
    split <;> exact List.cons_ne_nil _ _
  · exact List.cons_ne_nil _ _

theorem getElem?_text {input : Bytes} (beyond : UInt8) {i : ℕ} (hi : i < input.length) :
    input[i]? = some (input.getD i beyond) := by
  rw [List.getD_eq_getElem?_getD, List.getElem?_eq_getElem hi]
  rfl

section compressor

variable {input : Bytes} {beyond : UInt8} {search : ℕ → ℕ → Match}

/-- A match that is worth its bytes is a repetition of the input. -/
theorem Found.repeats {inpos bytesleft : ℕ} {best : Match}
    (h : Found (fun i => input.getD i beyond) inpos bytesleft best) (hgood : goodEnough best)
    (hleft : inpos + bytesleft = input.length) : Repeats input inpos best.2 best.1 := by
  have hlong := hgood.long
  have hinside := h.inside hlong
  have hback := h.back hlong
  have hpositive := h.positive hlong
  refine ⟨hpositive, hback, by omega, fun k hk => ?_⟩
  have hsame : input.getD (inpos + k) beyond = input.getD (inpos - best.2 + k) beyond :=
    h.same hlong k hk
  have hplace : inpos + k - best.2 = inpos - best.2 + k := Nat.sub_add_comm hback
  rw [hplace, getElem?_text beyond (by omega), getElem?_text beyond (by omega), hsame]

/-- One round writes a token of the input. -/
theorem round_token (marker : UInt8) (hsize : input.length < 2 ^ 32) {inpos bytesleft : ℕ}
    (hfound : Found (fun i => input.getD i beyond) inpos bytesleft (search inpos bytesleft))
    (out : Bytes) (hleft : inpos + bytesleft = input.length) (hpos : 0 < bytesleft) :
    let next := round (fun i => input.getD i beyond) search marker inpos bytesleft out
    next.1 + next.2.1 = input.length ∧ ∃ t, next.2.2 = out ++ write marker t ∧ Brief t ∧
      ∀ rest, Factors input next.1 rest → Factors input inpos (t :: rest) := by
  unfold round
  dsimp only
  split
  · rename_i hgood
    have hrep := hfound.repeats hgood hleft
    have hinside := hrep.inside
    have hback := hrep.back
    refine ⟨by dsimp only; omega, .copy (search inpos bytesleft).1 (search inpos bytesleft).2, ?_,
      ⟨by omega, by omega, hgood⟩, fun rest hrest => .copy hrep hrest⟩
    dsimp only [write]
    rw [List.append_assoc, List.append_assoc, List.singleton_append]
  · exact ⟨by dsimp only; omega, .literal (input.getD inpos beyond), rfl, trivial,
      fun rest hrest => .literal (getElem?_text beyond (by omega)) hrest⟩

/-- **The main loop writes tokens.**  Whatever tokens the bytes behind it are, those of the loop
and these are the input from where the loop began. -/
theorem compressLoop_tokens (marker : UInt8) (hsize : input.length < 2 ^ 32)
    (hfound : ∀ inpos bytesleft,
      Found (fun i => input.getD i beyond) inpos bytesleft (search inpos bytesleft))
    (n inpos bytesleft : ℕ) (out : Bytes) (hleft : inpos + bytesleft = input.length)
    (hpos : 0 < bytesleft) :
    let r := compressLoop (fun i => input.getD i beyond) search marker n inpos bytesleft out
    r.1 ≤ input.length ∧ ∃ ts, r.2 = out ++ ts.flatMap (write marker) ∧ (∀ t ∈ ts, Brief t) ∧
      ∀ rest, Factors input r.1 rest → Factors input inpos (ts ++ rest) := by
  induction n generalizing inpos bytesleft out with
  | zero =>
    refine ⟨?_, [], (List.append_nil out).symm, fun t ht => absurd ht List.not_mem_nil,
      fun rest h => h⟩
    show inpos ≤ _
    omega
  | succ n ih =>
    obtain ⟨hnext, t, hout, hbrief, hfactors⟩ :=
      round_token marker hsize (hfound inpos bytesleft) out hleft hpos
    unfold compressLoop
    generalize round (fun i => input.getD i beyond) search marker inpos bytesleft out = next at *
    dsimp only
    split
    · -- the loop goes on, and its tokens stand behind the one of this round
      obtain ⟨hle, ts, hwritten, hall, hrest⟩ := ih next.1 next.2.1 next.2.2 hnext (by omega)
      refine ⟨hle, t :: ts, ?_, ?_, fun rest h => hfactors _ (hrest rest h)⟩
      · rw [hwritten, hout, List.flatMap_cons, List.append_assoc]
      · intro u hu
        obtain rfl | hu := List.mem_cons.mp hu
        · exact hbrief
        · exact hall u hu
    · refine ⟨by dsimp only; omega, [t], ?_, ?_, hfactors⟩
      · rw [List.flatMap_cons, List.flatMap_nil, List.append_nil]
        exact hout
      · intro u hu
        rw [List.mem_singleton.mp hu]
        exact hbrief

/-- The bytes that remain stand for themselves. -/
theorem literals_factor (rest : Bytes) (pos : ℕ) (hle : pos ≤ input.length)
    (hrest : input.drop pos = rest) : Factors input pos (rest.map .literal) := by
  induction rest generalizing pos with
  | nil =>
    obtain rfl : pos = input.length := Nat.le_antisymm hle (List.drop_eq_nil_iff.mp hrest)
    exact .done
  | cons a rest ih =>
    have hget : input[pos]? = some a := by
      rw [← List.head?_drop, hrest]
      rfl
    refine .literal hget (ih (pos + 1) (LzTokens.lt_of_getElem?_some hget) ?_)
    rw [← List.tail_drop, hrest]
    rfl

/-- **A compressor writes a marker and tokens of the input.** -/
theorem compressWith_tokens (beyond : UInt8) {search : (ℕ → UInt8) → ℕ → ℕ → Match}
    (hfound : ∀ text inpos bytesleft, Found text inpos bytesleft (search text inpos bytesleft))
    (hsize : input.length < 2 ^ 32) (hne : 0 < input.length) :
    ∃ ts, compressWith search beyond input =
        markerOf input :: ts.flatMap (write (markerOf input)) ∧
      (∀ t ∈ ts, Brief t) ∧ Factors input 0 ts := by
  obtain ⟨hle, ts, hwritten, hbrief, hfactors⟩ := compressLoop_tokens (markerOf input) hsize
    (hfound fun i => input.getD i beyond) input.length 0 input.length [markerOf input]
    (Nat.zero_add _) hne
  unfold compressWith
  rw [if_neg (by omega)]
  dsimp only
  generalize compressLoop (fun i => input.getD i beyond) _ _ _ _ _ _ = r at *
  refine ⟨ts ++ (input.drop r.1).map .literal, ?_, ?_, hfactors _ (literals_factor _ _ hle rfl)⟩
  · rw [hwritten, List.flatMap_append, List.flatMap_map, List.append_assoc, List.singleton_append]
    rfl
  · intro t ht
    obtain ht | ht := List.mem_append.mp ht
    · exact hbrief t ht
    · obtain ⟨a, -, rfl⟩ := List.mem_map.mp ht
      trivial

end compressor

/-! ## What is read back -/

/-- One round of the decoder reads a token, and expands it. -/
theorem uncompress_token (marker : UInt8) {t : Token UInt8} (hbrief : Brief t) (rest : Bytes)
    {out out' : Bytes} (hemit : emit out t = some out') :
    ∃ symbol rest', write marker t ++ rest = symbol :: rest' ∧
      unpack marker symbol rest' out = some (rest, out') := by
  rcases t with symbol | ⟨length, offset⟩
  · obtain rfl := Option.some.inj hemit
    by_cases hmarker : symbol = marker
    · refine ⟨symbol, 0 :: rest, ?_, ?_⟩
      · rw [write, literal, if_pos hmarker]
        rfl
      · rw [unpack, if_pos hmarker, afterMarker, if_pos rfl, hmarker]
    · refine ⟨symbol, rest, ?_, ?_⟩
      · rw [write, literal, if_neg hmarker]
        rfl
      · rw [unpack, if_neg hmarker]
  · obtain ⟨hlength, hoffset, hgood⟩ := hbrief
    have hlong : 3 < length := hgood.long
    obtain ⟨b, bs, hcons, hb⟩ := writeVarSize_cons hlength (by omega)
    have hread : readVarSize (b :: (bs ++ (writeVarSize offset ++ rest))) 0 =
        some (length, writeVarSize offset ++ rest) := by
      rw [← readVarSize_writeVarSize hlength (writeVarSize offset ++ rest), hcons,
        List.cons_append]
    have hcopy : copyBack offset length out = some out' := hemit
    refine ⟨marker, b :: (bs ++ (writeVarSize offset ++ rest)), ?_, ?_⟩
    · simp only [write, hcons, List.cons_append, List.append_assoc]
    · rw [unpack, if_pos rfl, afterMarker, if_neg hb, hread]
      dsimp only [Option.bind_eq_bind, Option.bind_some]
      rw [readVarSize_writeVarSize hoffset]
      dsimp only [Option.bind_some]
      rw [hcopy]
      rfl

/-- **The decoder expands the tokens that were written.** -/
theorem uncompressLoop_tokens (marker : UInt8) {ts : List (Token UInt8)} {n : ℕ} {out text : Bytes}
    (hn : (ts.flatMap (write marker)).length < n) (hne : ts ≠ []) (hbrief : ∀ t ∈ ts, Brief t)
    (hexpand : expand out ts = some text) :
    uncompressLoop marker n (ts.flatMap (write marker)) out = some text := by
  induction ts generalizing n out with
  | nil => exact absurd rfl hne
  | cons t ts ih =>
    obtain ⟨n, rfl⟩ := Nat.exists_eq_succ_of_ne_zero (Nat.ne_of_gt (Nat.zero_lt_of_lt hn))
    obtain ⟨out', hemit, hrest⟩ := Option.bind_eq_some_iff.mp hexpand
    obtain ⟨symbol, rest', hcons, hround⟩ := uncompress_token marker
      (hbrief t List.mem_cons_self) (ts.flatMap (write marker)) hemit
    have hlen : 0 < (write marker t).length := List.length_pos_of_ne_nil (write_ne_nil marker t)
    rw [List.flatMap_cons, List.length_append] at hn
    rw [List.flatMap_cons, hcons, uncompressLoop, hround]
    dsimp only [Option.bind_eq_bind, Option.bind_some]
    rcases ts with _ | ⟨u, us⟩
    · rw [List.flatMap_nil, if_pos rfl]
      exact hrest
    · have hmore : (u :: us).flatMap (write marker) ≠ [] := by
        rw [List.flatMap_cons]
        exact List.append_ne_nil_of_left_ne_nil (write_ne_nil marker u) _
      rw [if_neg hmore]
      exact ih (by omega) (List.cons_ne_nil _ _)
        (fun t ht => hbrief t (List.mem_cons_of_mem _ ht)) hrest

/-- Whatever a search finds, the decoder gives the input back. -/
theorem uncompress_compressWith {search : (ℕ → UInt8) → ℕ → ℕ → Match}
    (hfound : ∀ text inpos bytesleft, Found text inpos bytesleft (search text inpos bytesleft))
    (beyond : UInt8) {input : Bytes} (hsize : input.length < 2 ^ 32) :
    uncompress (compressWith search beyond input) = some input := by
  by_cases hempty : input.length < 1
  · obtain rfl := List.eq_nil_of_length_eq_zero (Nat.lt_one_iff.mp hempty)
    rfl
  · obtain ⟨ts, hwritten, hbrief, hfactors⟩ :=
      compressWith_tokens beyond hfound hsize (Nat.pos_of_ne_zero (by omega))
    have hne : ts ≠ [] := by
      rintro rfl
      exact hempty (hfactors.end_eq ▸ Nat.zero_lt_one)
    rw [hwritten, uncompress]
    exact uncompressLoop_tokens _ (Nat.lt_succ_self _) hne hbrief
      (LzTokens.expand_of_factors hfactors)

/-! ## How much is written -/

/-- A repetition takes no more room than its text. -/
theorem length_write_copy (marker : UInt8) {length offset : ℕ}
    (hbrief : Brief (.copy length offset)) :
    (write marker (.copy length offset)).length ≤ length := by
  obtain ⟨hlength, hoffset, hgood⟩ := hbrief
  have hlen : (writeVarSize length).length ≤ 5 :=
    length_writeVarSize hlength (by norm_num) (by norm_num; omega)
  have hoff : (writeVarSize offset).length ≤ 5 :=
    length_writeVarSize hoffset (by norm_num) (by norm_num; omega)
  have hshort : length < 128 → (writeVarSize length).length ≤ 1 := fun h =>
    length_writeVarSize hlength (by norm_num) (by norm_num; omega)
  have hnear : ∀ n, 0 < n → offset < 128 ^ n → (writeVarSize offset).length ≤ n := fun n hn h =>
    length_writeVarSize hoffset hn h
  rw [write, List.length_cons, List.length_append]
  obtain h | ⟨h, ho⟩ | ⟨h, ho⟩ | ⟨h, ho⟩ | ⟨h, ho⟩ := hgood
  · dsimp only at h
    by_cases h128 : length < 128
    · have := hshort h128
      omega
    · omega
  · have := hnear 1 (by norm_num) (by norm_num; dsimp only at ho; omega)
    have := hshort (by dsimp only at h; omega)
    dsimp only at h
    omega
  · have := hnear 2 (by norm_num) (by norm_num; dsimp only at ho; omega)
    have := hshort (by dsimp only at h; omega)
    dsimp only at h
    omega
  · have := hnear 3 (by norm_num) (by norm_num; dsimp only at ho; omega)
    have := hshort (by dsimp only at h; omega)
    dsimp only at h
    omega
  · have := hnear 4 (by norm_num) (by norm_num; dsimp only at ho; omega)
    have := hshort (by dsimp only at h; omega)
    dsimp only at h
    omega

/-- The tokens of a text take its length, and one byte more for each marker in it. -/
theorem length_tokens (marker : UInt8) {input : Bytes} {pos : ℕ} {ts : List (Token UInt8)}
    (hfactors : Factors input pos ts) (hbrief : ∀ t ∈ ts, Brief t) :
    (ts.flatMap (write marker)).length ≤ input.length - pos + (input.drop pos).count marker := by
  induction hfactors with
  | done => exact Nat.zero_le _
  | @literal pos a ts hget _ ih =>
    have hlt := LzTokens.lt_of_getElem?_some hget
    have hdrop : input.drop pos = a :: input.drop (pos + 1) := by
      rw [List.drop_eq_getElem_cons hlt]
      rw [List.getElem?_eq_getElem hlt] at hget
      rw [Option.some.inj hget]
    have hrest := ih fun t ht => hbrief t (List.mem_cons_of_mem _ ht)
    have hlen : (literal marker a).length = 1 + if a = marker then 1 else 0 := by
      unfold literal
      split <;> rfl
    rw [List.flatMap_cons, List.length_append, write, hlen, hdrop, List.count_cons]
    simp only [beq_iff_eq]
    omega
  | @copy pos length offset ts hrep _ ih =>
    have hrest := ih fun t ht => hbrief t (List.mem_cons_of_mem _ ht)
    have hcopy := length_write_copy marker (hbrief _ List.mem_cons_self)
    have hinside := hrep.inside
    have hcount : (input.drop (pos + length)).count marker ≤ (input.drop pos).count marker :=
      (List.drop_sublist_drop_left _ (Nat.le_add_right _ _)).count_le _
    rw [List.flatMap_cons, List.length_append]
    omega

/-- The size of the output that the compressors ask for. -/
theorem length_compressWith {search : (ℕ → UInt8) → ℕ → ℕ → Match}
    (hfound : ∀ text inpos bytesleft, Found text inpos bytesleft (search text inpos bytesleft))
    (beyond : UInt8) {input : Bytes} (hsize : input.length < 2 ^ 32) :
    (compressWith search beyond input).length ≤ input.length + input.length / 256 + 1 := by
  by_cases hempty : input.length < 1
  · unfold compressWith
    rw [if_pos hempty]
    exact Nat.zero_le _
  · obtain ⟨ts, hwritten, hbrief, hfactors⟩ :=
      compressWith_tokens beyond hfound hsize (Nat.pos_of_ne_zero (by omega))
    have hlen := length_tokens (markerOf input) hfactors hbrief
    have hmarker := count_markerOf input
    rw [List.drop_zero, Nat.sub_zero] at hlen
    rw [hwritten, List.length_cons]
    omega

/-! ## The compressors -/

/-- **What either compressor writes is uncompressed to what it was given**, whatever stands behind
the input: the jump table changes what is found, and not what comes back.  There is room for the
output, whose size has 32 bits as well. -/
theorem compressors_invert (beyond : UInt8) {input : Bytes}
    (hsize : input.length + input.length / 256 + 1 < 2 ^ 32) :
    uncompress (compress beyond input) = some input ∧
      uncompress (compressFast beyond input) = some input := by
  have hinput : input.length < 2 ^ 32 := by omega
  exact ⟨uncompress_compressWith searchAll_found beyond hinput,
    uncompress_compressWith (fun text => searchJump_found text input.length) beyond hinput⟩

theorem compressors_invert_abcd :
    uncompress (compress 0 [97, 98, 99, 100, 97, 98, 99, 100, 97]) =
        some [97, 98, 99, 100, 97, 98, 99, 100, 97] ∧
      uncompress (compressFast 0 [97, 98, 99, 100, 97, 98, 99, 100, 97]) =
        some [97, 98, 99, 100, 97, 98, 99, 100, 97] :=
  compressors_invert 0 (by decide)

/-- **Neither compressor writes more than it asks for**: a byte more for every 256, as the marker is
the least common byte, and one for the marker in front. -/
theorem compressors_fit (beyond : UInt8) {input : Bytes} (hsize : input.length < 2 ^ 32) :
    (compress beyond input).length ≤ input.length + input.length / 256 + 1 ∧
      (compressFast beyond input).length ≤ input.length + input.length / 256 + 1 :=
  ⟨length_compressWith searchAll_found beyond hsize,
    length_compressWith (fun text => searchJump_found text input.length) beyond hsize⟩

theorem compressors_fit_abcd :
    (compress 0 [97, 98, 99, 100, 97, 98, 99, 100, 97]).length ≤ 9 + 9 / 256 + 1 ∧
      (compressFast 0 [97, 98, 99, 100, 97, 98, 99, 100, 97]).length ≤ 9 + 9 / 256 + 1 :=
  compressors_fit 0 (by decide)

end Lz
