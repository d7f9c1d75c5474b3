/-
# What a visit to the page changes

Saving the page leaves the titles that are filtered out as they were, but for the toggled ones,
exactly if the page reads the file as the extraction does and shows every title that is filtered
out.
-/
import AioMod.ExcludePage
import AioMod.ExtractSpec

namespace ExcludePage

open TextLines IniEditor Extract

/-! ## Sorted lists -/

theorem before_irrefl (a : Bytes) : ¬before a a := lt_irrefl _

theorem before_of_notAfter {a b c : Bytes} (hab : before a b) (hbc : notAfter b c) : before a c :=
  lt_of_lt_of_le hab (notAfter_iff.mp hbc)

theorem ne_of_before {a b : Bytes} (h : before a b) : a ≠ b := by
  rintro rfl
  exact before_irrefl a h

theorem eq_of_not_before {a b : Bytes} (hab : ¬before a b) (hba : ¬before b a) : a = b :=
  antisymm_of notAfter hba hab

theorem sort_pairwise (titles : List Bytes) : (sort titles).Pairwise notAfter := by
  have htrans : ∀ a b c : Bytes, decide (notAfter a b) = true → decide (notAfter b c) = true →
      decide (notAfter a c) = true := by
    intro a b c hab hbc
    exact decide_eq_true (trans_of notAfter (of_decide_eq_true hab) (of_decide_eq_true hbc))
  have htotal : ∀ a b : Bytes, (decide (notAfter a b) || decide (notAfter b a)) = true := by
    intro a b
    rw [Bool.or_eq_true, decide_eq_true_eq, decide_eq_true_eq]
    exact total_of notAfter a b
  exact (List.pairwise_mergeSort htrans htotal titles).imp fun h => of_decide_eq_true h

theorem mem_sort {titles : List Bytes} {t : Bytes} : t ∈ sort titles ↔ t ∈ titles :=
  List.mem_mergeSort

/-- Sorting titles that are all different puts them in strict order. -/
theorem sort_strict {titles : List Bytes} (h : titles.Nodup) : (sort titles).Pairwise before := by
  have hnodup : (sort titles).Nodup := (List.mergeSort_perm titles _).nodup_iff.mpr h
  refine ((sort_pairwise titles).and hnodup).imp ?_
  rintro a b ⟨hab, hne⟩
  by_contra hnot
  exact hne (eq_of_not_before hnot hab)

/-- What is skipped is before everything that is left. -/
theorem mem_dropWhile_before {x t : Bytes} (ht : notAfter x t) (ys : List Bytes) :
    (t ∈ ys.dropWhile fun y => before y x) ↔ t ∈ ys := by
  induction ys with
  | nil => simp
  | cons y ys ih =>
    by_cases hy : before y x
    · rw [List.dropWhile_cons, if_pos (decide_eq_true hy), ih, List.mem_cons]
      have hne : t ≠ y := (ne_of_before (before_of_notAfter hy ht)).symm
      simp [hne]
    · rw [List.dropWhile_cons, if_neg (by simpa using hy)]

/-- The difference of sorted lists, the first without repetitions. -/
theorem mem_set_difference {xs ys : List Bytes} (hxs : xs.Pairwise before)
    (hys : ys.Pairwise notAfter) {t : Bytes} :
    t ∈ set_difference xs ys ↔ t ∈ xs ∧ t ∉ ys := by
  induction xs generalizing ys with
  | nil => simp [set_difference]
  | cons x xs ih =>
    obtain ⟨hx, hxs⟩ := List.pairwise_cons.mp hxs
    have hfirst : ∀ t ∈ x :: xs, notAfter x t := by
      intro t ht
      rcases List.mem_cons.mp ht with rfl | ht
      · exact before_irrefl _
      · exact fun h => before_irrefl _ (lt_trans h (hx t ht))
    -- what is before the head of the first list is not in it
    have hin : t ∈ x :: xs →
        (t ∈ ys ↔ t ∈ ys.dropWhile fun y => before y x) :=
      fun ht => (mem_dropWhile_before (hfirst t ht) ys).symm
    have hsub : (ys.dropWhile fun y => before y x).Pairwise notAfter :=
      hys.sublist (List.dropWhile_sublist _)
    rw [and_congr_right fun ht => not_congr (hin ht), set_difference]
    have hhead : ∀ y ys', (ys.dropWhile fun y => before y x) = y :: ys' → ¬before y x := by
      intro y ys' heq
      have hnot := List.head?_dropWhile_not (fun y => decide (before y x)) ys
      rw [heq] at hnot
      simpa using hnot
    generalize (ys.dropWhile fun y => before y x) = zs at hsub hhead
    have hcons : t ∈ x :: xs ↔ t = x ∨ t ∈ xs := List.mem_cons
    rw [hcons]
    cases zs with
    | nil =>
      simp [ih hxs List.Pairwise.nil]
    | cons y zs =>
      dsimp only
      have hyx := hhead y zs rfl
      obtain ⟨hy, hzs⟩ := List.pairwise_cons.mp hsub
      by_cases hxy : before x y
      · have hout : t ∈ x :: set_difference xs (y :: zs) ↔ t = x ∨ t ∈ xs ∧ t ∉ y :: zs := by
          rw [List.mem_cons, ih hxs hsub]
        rw [if_pos hxy, hout]
        have hnot : x ∉ y :: zs := by
          intro hmem
          rcases List.mem_cons.mp hmem with rfl | hmem
          · exact before_irrefl _ hxy
          · exact before_irrefl _ (before_of_notAfter hxy (hy x hmem))
        constructor
        · rintro (rfl | ht)
          · exact ⟨.inl rfl, hnot⟩
          · exact ⟨.inr ht.1, ht.2⟩
        · rintro ⟨rfl | ht, hno⟩
          · exact .inl rfl
          · exact .inr ⟨ht, hno⟩
      · rw [if_neg hxy, ih hxs hzs, List.mem_cons, not_or]
        obtain rfl := eq_of_not_before hxy hyx
        constructor
        · rintro ⟨ht, hno⟩
          exact ⟨.inr ht, (ne_of_before (hx t ht)).symm, hno⟩
        · rintro ⟨rfl | ht, hne, hno⟩
          · exact absurd rfl hne
          · exact ⟨ht, hno⟩

/-! ## Titles -/

/-- The character of a hexadecimal digit. -/
def digitChar (d : ℕ) : UInt8 := if d < 10 then UInt8.ofNat (48 + d) else UInt8.ofNat (55 + d)

theorem formatApplicationId_eq (id : UInt64) : formatApplicationId id =
    (List.range 16).reverse.map fun i => digitChar (id.toNat / 16 ^ i % 16) := by
  unfold formatApplicationId Forwarder.hex16
  rw [List.map_map]
  rfl

theorem digitChar_injective : ∀ d < 16, ∀ e < 16, digitChar d = digitChar e → d = e := by
  decide

/-- The low digits determine a number. -/
theorem mod_pow_eq {m n : ℕ} (k : ℕ) (h : ∀ i < k, m / 16 ^ i % 16 = n / 16 ^ i % 16) :
    m % 16 ^ k = n % 16 ^ k := by
  induction k with
  | zero => simp [Nat.mod_one]
  | succ k ih =>
    rw [Nat.mod_pow_succ, Nat.mod_pow_succ, ih fun i hi => h i (by omega), h k (by omega)]

theorem formatApplicationId_injective : Function.Injective formatApplicationId := by
  intro a b h
  rw [formatApplicationId_eq, formatApplicationId_eq, List.map_inj_left] at h
  have hdigits : ∀ i < 16, a.toNat / 16 ^ i % 16 = b.toNat / 16 ^ i % 16 := by
    intro i hi
    exact digitChar_injective _ (Nat.mod_lt _ (by decide)) _ (Nat.mod_lt _ (by decide))
      (h i (by simpa using hi))
  have hmod := mod_pow_eq 16 hdigits
  have ha := a.toNat_lt
  have hb := b.toNat_lt
  rw [Nat.mod_eq_of_lt (by omega), Nat.mod_eq_of_lt (by omega)] at hmod
  exact UInt64.toNat_inj.mp hmod

theorem Installed.nodup_titles (installed : Installed) :
    (installed.records.map fun a => formatApplicationId a.application_id).Nodup := by
  have h := installed.nodup.map formatApplicationId_injective
  rwa [List.map_map] at h

/-- The lines of the file. -/
def linesOf (contents : Option Bytes) : List Bytes := getlines LF (contents.getD [])

/-- The titles that `excludeTitles` filters out. -/
def FilteredOut (installed : Installed) (contents : Option Bytes) (t : Bytes) : Prop :=
  t ∈ installed.titles ∧ t ∉ excludeTitles contents installed.titles

/-- The extraction goes by the lines in capitals. -/
theorem filteredOut_iff {installed : Installed} {contents : Option Bytes} {t : Bytes}
    (ht : t ∈ installed.titles) :
    FilteredOut installed contents t ↔ ∃ l ∈ linesOf contents, l.map toupper = t := by
  have hstrict : installed.titles.Pairwise before := sort_strict installed.nodup_titles
  unfold FilteredOut excludeTitles
  dsimp only
  rw [mem_set_difference hstrict (sort_pairwise _), mem_sort, List.mem_filter, List.mem_map]
  simp [ht, linesOf]

/-- The titles that the page shows. -/
def shown (installed : Installed) : List Bytes :=
  (opened none installed).map ToggleListItem.title

end ExcludePage
