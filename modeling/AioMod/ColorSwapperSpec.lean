/-
# What a backup of the colours keeps

The old backups are erased by the positions they had before the first of them was erased.  With two
of them the second one stays where it is, and the profile behind it may go instead.
-/
import AioMod.ColorSwapper
import Mathlib.Tactic

namespace ColorSwapper

/-! ## Hexadecimal digits -/

theorem isxdigit_hexDigit : ∀ d < 16, isxdigit (hexDigit d) := by decide

theorem digitValue_hexDigit : ∀ d < 16, digitValue (hexDigit d) = d := by decide

theorem length_hexText (n : ℕ) : (hexText n).length = 6 ↔ n < 16 ^ 6 := by
  unfold hexText
  rw [List.length_map, List.length_reverse, List.length_range]
  constructor
  · intro h
    by_contra hn
    rw [if_neg hn] at h
    split at h <;> omega
  · intro h
    rw [if_pos h]

theorem isHexaAnd3Bytes_hexText (n : ℕ) : isHexaAnd3Bytes (hexText n) ↔ n < 16 ^ 6 := by
  constructor
  · intro h
    exact (length_hexText n).mp h.1
  · intro h
    refine ⟨(length_hexText n).mpr h, ?_⟩
    intro c hc
    unfold hexText at hc
    obtain ⟨i, -, rfl⟩ := List.mem_map.mp hc
    exact isxdigit_hexDigit _ (Nat.mod_lt _ (by decide))

theorem hexText_six {n : ℕ} (h : n < 16 ^ 6) : hexText n =
    [hexDigit (n / 16 ^ 5 % 16), hexDigit (n / 16 ^ 4 % 16), hexDigit (n / 16 ^ 3 % 16),
      hexDigit (n / 16 ^ 2 % 16), hexDigit (n / 16 ^ 1 % 16), hexDigit (n / 16 ^ 0 % 16)] := by
  unfold hexText
  rw [if_pos h]
  rfl

theorem digits_byte {x : ℕ} (hx : x < 256) : x / 16 % 16 * 16 + x % 16 = x := by omega

/-- The two digits of the last byte. -/
theorem last_digits {m x : ℕ} (hx : x < 256) :
    (m * 256 + x) % 16 = x % 16 ∧ (m * 256 + x) / 16 % 16 = x / 16 % 16 ∧
      (m * 256 + x) / 16 / 16 = m := by omega

/-- What is read back has the bytes the other way round. -/
theorem hexToBGR_hexText {n x y z : ℕ} (hx : x < 256) (hy : y < 256) (hz : z < 256)
    (hn : n = (x * 256 + y) * 256 + z) : hexToBGR (hexText n) = (z * 256 + y) * 256 + x := by
  have hdigit : ∀ m : ℕ, digitValue (hexDigit (m % 16)) = m % 16 := by
    intro m
    exact digitValue_hexDigit _ (Nat.mod_lt _ (by decide))
  have hsucc : ∀ k, n / 16 ^ (k + 1) = n / 16 ^ k / 16 := by
    intro k
    rw [Nat.div_div_eq_div_mul, Nat.pow_succ]
  have h1 : n / 16 ^ 1 = n / 16 := rfl
  have h3 : n / 16 ^ 3 = n / 16 ^ 2 / 16 := hsucc 2
  have h5 : n / 16 ^ 5 = n / 16 ^ 4 / 16 := hsucc 4
  obtain ⟨hz₀, hz₁, hn₂⟩ := last_digits (m := x * 256 + y) hz
  obtain ⟨hy₀, hy₁, hn₄⟩ := last_digits (m := x) hy
  rw [← hn] at hz₀ hz₁ hn₂
  have h2 : n / 16 ^ 2 = x * 256 + y := by rw [hsucc 1, h1, hn₂]
  have h4 : n / 16 ^ 4 = x := by rw [hsucc 3, h3, h2, hn₄]
  rw [hexText_six (by omega)]
  unfold hexToBGR
  simp only [List.drop_succ_cons, List.drop_zero, List.take_succ_cons, List.take_zero,
    List.cons_append, List.nil_append, List.foldl_cons, List.foldl_nil, hdigit]
  rw [h5, h4, h3, h2, h1, Nat.pow_zero, Nat.div_one, hz₀, hz₁, hy₀, hy₁]
  have hdx := digits_byte hx
  have hdy := digits_byte hy
  have hdz := digits_byte hz
  clear hsucc h1 h3 h5 h2 h4 hz₀ hz₁ hn₂ hy₀ hy₁ hn₄ hn
  omega

/-! ## Colours -/

theorem toNat_and_low (v : BitVec 32) : (v &&& 0xFF).toNat = v.toNat % 256 := by
  rw [BitVec.toNat_and]
  exact Nat.and_two_pow_sub_one_eq_mod v.toNat 8

theorem toNat_and_middle (v : BitVec 32) :
    (v &&& 0xFF00).toNat = v.toNat / 256 % 256 * 256 := by
  rw [BitVec.toNat_and]
  show v.toNat &&& 65280 = _
  have hhigh : (v.toNat &&& 65280) / 2 ^ 8 = v.toNat / 2 ^ 8 % 2 ^ 8 := by
    rw [Nat.and_div_two_pow]
    exact Nat.and_two_pow_sub_one_eq_mod _ 8
  have hlow : (v.toNat &&& 65280) % 2 ^ 8 = 0 := by
    rw [Nat.and_mod_two_pow]
    exact Nat.and_zero _
  omega

/-- The shift is that of a signed number. -/
theorem toNat_sshiftRight (v : BitVec 32) : (v.sshiftRight 16).toNat =
    if v.toNat < 2 ^ 31 then v.toNat / 65536 else v.toNat / 65536 + 0xFFFF0000 := by
  have hv := v.isLt
  have hshift : v.toInt >>> (16 : ℕ) = v.toInt / 65536 := Int.shiftRight_eq_div_pow _ 16
  unfold BitVec.sshiftRight
  rw [BitVec.toNat_ofInt, hshift, BitVec.toInt_eq_toNat_cond]
  split
  · split <;> omega
  · split <;> omega

/-- The number that is written for a colour of the bytes `r`, `g`, `b` and `a`. -/
theorem toNat_BGRToHex {v : BitVec 32} {r g b a : ℕ} (hr : r < 256) (hg : g < 256) (hb : b < 256)
    (ha : a < 256) (hv : v.toNat = ((a * 256 + b) * 256 + g) * 256 + r) :
    (((v &&& 0xFF) <<< 16) + (v &&& 0xFF00) + v.sshiftRight 16 + 256).toNat =
      (r * 65536 + g * 256 + (if a < 128 then a * 256 + b else a * 256 + b + 0xFFFF0000) + 256)
        % 2 ^ 32 := by
  have hlow : ((v &&& 0xFF) <<< 16).toNat = r * 65536 := by
    rw [BitVec.toNat_shiftLeft, toNat_and_low, Nat.shiftLeft_eq]
    omega
  have hmiddle : (v &&& 0xFF00).toNat = g * 256 := by
    rw [toNat_and_middle]
    omega
  have hhigh : (v.sshiftRight 16).toNat =
      if a < 128 then a * 256 + b else a * 256 + b + 0xFFFF0000 := by
    rw [toNat_sshiftRight]
    split <;> split <;> omega
  rw [BitVec.toNat_add, BitVec.toNat_add, BitVec.toNat_add, hlow, hmiddle, hhigh]
  show ((_ % 2 ^ 32 + _) % 2 ^ 32 + 256) % 2 ^ 32 = _
  omega

/-- A text holds a colour if the page reads it as that colour, of which it takes three bytes. -/
def HoldsColor (text : Bytes) (color : BitVec 32) : Prop :=
  isHexaAnd3Bytes text ∧ hexToBGR text = color.toNat % 2 ^ 24

/-- The fourth byte of the colour is that of a colour one cannot see through. -/
def Opaque (color : BitVec 32) : Prop := color.toNat / 2 ^ 24 = 255

/-- What is added to the shifted colour makes up for the fourth byte, if it is 255. -/
theorem holdsColor_BGRToHex (color : BitVec 32) :
    HoldsColor (BGRToHex color) color ↔ Opaque color := by
  have hcolor := color.isLt
  obtain ⟨r, g, b, a, hr, hg, hb, ha, hv⟩ : ∃ r g b a, r < 256 ∧ g < 256 ∧ b < 256 ∧ a < 256 ∧
      color.toNat = ((a * 256 + b) * 256 + g) * 256 + r :=
    ⟨color.toNat % 256, color.toNat / 256 % 256, color.toNat / 256 / 256 % 256,
      color.toNat / 256 / 256 / 256, by omega, by omega, by omega, by omega, by omega⟩
  unfold HoldsColor BGRToHex Opaque
  rw [isHexaAnd3Bytes_hexText, toNat_BGRToHex hr hg hb ha hv]
  have htop : color.toNat / 2 ^ 24 = a := by omega
  have hthree : color.toNat % 2 ^ 24 = (b * 256 + g) * 256 + r := by omega
  rw [htop, hthree]
  constructor
  · rintro ⟨hlt, heq⟩
    generalize hn : (r * 65536 + g * 256 + (if a < 128 then a * 256 + b
      else a * 256 + b + 0xFFFF0000) + 256) % 2 ^ 32 = n at hlt heq
    obtain ⟨x, y, z, hx, hy, hz, hxyz⟩ : ∃ x y z, x < 256 ∧ y < 256 ∧ z < 256 ∧
        n = (x * 256 + y) * 256 + z :=
      ⟨n / 256 / 256, n / 256 % 256, n % 256, by omega, by omega, by omega, by omega⟩
    rw [hexToBGR_hexText hx hy hz hxyz] at heq
    have hxr : x = r := by omega
    have hyg : y = g := by omega
    have hzb : z = b := by omega
    subst hxr hyg hzb
    split at hn <;> omega
  · intro hopaque
    rw [if_neg (by omega)]
    have hwritten : (r * 65536 + g * 256 + (a * 256 + b + 0xFFFF0000) + 256) % 2 ^ 32
        = (r * 256 + g) * 256 + b := by omega
    rw [hwritten]
    exact ⟨by omega, hexToBGR_hexText hr hg hb rfl⟩

/-! ## Entries -/

/-- The member of an object. -/
def Entry.member (key : Bytes) : Entry → Option Value
  | .object members => (members.find? (·.1 = key)).map Prod.snd
  | _ => none

@[simp] theorem member_object (key : Bytes) (members : List (Bytes × Value)) :
    (Entry.object members).member key = (members.find? (·.1 = key)).map Prod.snd := rfl

/-- The entry is a backup. -/
def IsBackup (x : Entry) : Prop := x.member (ascii "name") = some (.string BACKUP)

instance (x : Entry) : Decidable (IsBackup x) := inferInstanceAs (Decidable (_ = _))

/-- The entry is a profile with a name, or a backup. -/
def Named (x : Entry) : Prop := (x.member (ascii "name")).isSome

instance (x : Entry) : Decidable (Named x) := inferInstanceAs (Decidable (_ = true))

theorem IsBackup.named {x : Entry} (h : IsBackup x) : Named x := by
  unfold Named
  rw [show x.member (ascii "name") = _ from h]
  rfl

/-- A member that is there is found, and the entry stays as it is. -/
theorem subscript_named {x : Entry} (h : Named x) :
    ∃ v, x.member (ascii "name") = some v ∧ x.subscript (ascii "name") = .ok (v, x) := by
  cases x with
  | object members =>
    unfold Named at h
    rw [member_object] at h
    unfold Entry.subscript
    rw [member_object]
    dsimp only
    cases hfind : members.find? (·.1 = ascii "name") with
    | none =>
      rw [hfind] at h
      cases h
    | some member => exact ⟨member.2, rfl, rfl⟩
  | null => cases h
  | other type_name text => cases h

/-- What is searched has a name afterwards. -/
theorem named_of_subscript {x x' : Entry} {v : Value}
    (h : x.subscript (ascii "name") = .ok (v, x')) : Named x' := by
  cases x with
  | object members =>
    unfold Entry.subscript at h
    dsimp only at h
    unfold Named
    cases hfind : members.find? (·.1 = ascii "name") with
    | some member =>
      rw [hfind] at h
      cases h
      rw [member_object, hfind]
      rfl
    | none =>
      rw [hfind] at h
      cases h
      rw [member_object, List.find?_append, hfind]
      rfl
  | null =>
    cases h
    rfl
  | other type_name text => cases h

/-! ## The two loops -/

/-- Where the backups are, counted from `i`. -/
def positions : List Entry → ℕ → List ℕ
  | [], _ => []
  | x :: profiles, i =>
    if IsBackup x then i :: positions profiles (i + 1) else positions profiles (i + 1)

theorem findBackups_named {profiles : List Entry} (h : ∀ x ∈ profiles, Named x) (i : ℕ) :
    findBackups profiles i = .ok (positions profiles i, profiles) := by
  induction profiles generalizing i with
  | nil => rfl
  | cons x profiles ih =>
    obtain ⟨v, hv, hx⟩ := subscript_named (h x (List.mem_cons_self ..))
    have hrest := ih (fun y hy => h y (List.mem_cons_of_mem _ hy)) (i + 1)
    have hbackup : IsBackup x ↔ v = .string BACKUP := by
      unfold IsBackup
      rw [hv]
      exact Option.some_inj
    unfold findBackups positions
    rw [hx]
    show (findBackups profiles (i + 1)).bind _ = _
    rw [hrest]
    show Except.ok (if v = .string BACKUP then _ else _, _) = _
    by_cases hv' : v = .string BACKUP
    · rw [if_pos hv', if_pos (hbackup.mpr hv')]
    · rw [if_neg hv', if_neg (mt hbackup.mp hv')]

/-- Every entry that is left by the search has a name. -/
theorem named_of_findBackups {profiles profiles' : List Entry} {i : ℕ} {ks : List ℕ}
    (h : findBackups profiles i = .ok (ks, profiles')) : ∀ x ∈ profiles', Named x := by
  induction profiles generalizing i ks profiles' with
  | nil =>
    cases h
    intro x hx
    cases hx
  | cons x profiles ih =>
    unfold findBackups at h
    cases hx : x.subscript (ascii "name") with
    | error fault =>
      rw [hx] at h
      cases h
    | ok r =>
      obtain ⟨v, x'⟩ := r
      rw [hx] at h
      change (findBackups profiles (i + 1)).bind _ = _ at h
      cases hrest : findBackups profiles (i + 1) with
      | error fault =>
        rw [hrest] at h
        cases h
      | ok r =>
        obtain ⟨ks', rest⟩ := r
        rw [hrest] at h
        cases h
        intro y hy
        rcases List.mem_cons.mp hy with rfl | hy
        · exact named_of_subscript hx
        · exact ih hrest y hy

theorem le_of_mem_positions {profiles : List Entry} {i k : ℕ} (h : k ∈ positions profiles i) :
    i ≤ k := by
  induction profiles generalizing i with
  | nil => cases h
  | cons x profiles ih =>
    unfold positions at h
    split at h
    · rcases List.mem_cons.mp h with rfl | h
      · exact le_rfl
      · have := ih h
        omega
    · have := ih h
      omega

theorem length_positions (profiles : List Entry) (i : ℕ) :
    (positions profiles i).length = (profiles.filter (IsBackup ·)).length := by
  induction profiles generalizing i with
  | nil => rfl
  | cons x profiles ih =>
    unfold positions
    by_cases hx : IsBackup x
    · rw [if_pos hx, List.filter_cons_of_pos (by simpa using hx), List.length_cons, ih]
      rfl
    · rw [if_neg hx, List.filter_cons_of_neg (by simpa using hx), ih]

/-- The first backup, and where the others are. -/
theorem positions_eq_cons {profiles : List Entry} {i k : ℕ} {ks : List ℕ}
    (h : positions profiles i = k :: ks) :
    ∃ pre b post, profiles = pre ++ b :: post ∧ i + pre.length = k ∧ IsBackup b ∧
      (∀ x ∈ pre, ¬IsBackup x) ∧ positions post (k + 1) = ks := by
  induction profiles generalizing i with
  | nil => cases h
  | cons x profiles ih =>
    unfold positions at h
    by_cases hx : IsBackup x
    · rw [if_pos hx] at h
      obtain ⟨rfl, hks⟩ := List.cons.inj h
      refine ⟨[], x, profiles, rfl, rfl, hx, ?_, hks⟩
      intro y hy
      cases hy
    · rw [if_neg hx] at h
      obtain ⟨pre, b, post, rfl, hk, hb, hpre, hks⟩ := ih h
      refine ⟨x :: pre, b, post, rfl, ?_, hb, ?_, hks⟩
      · rw [List.length_cons]
        omega
      · intro y hy
        rcases List.mem_cons.mp hy with rfl | hy
        · exact hx
        · exact hpre y hy

/-- What is before all that is erased stays where it is. -/
theorem getElem_eraseAll {α : Type} {ks : List ℕ} {xs ys : List α} (j : ℕ)
    (h : eraseAll ks xs = .ok ys) (hks : ∀ k ∈ ks, j < k) : ys[j]? = xs[j]? := by
  induction ks generalizing xs with
  | nil =>
    cases h
    rfl
  | cons k ks ih =>
    unfold eraseAll at h
    split at h
    · rw [ih h fun k' hk' => hks k' (List.mem_cons_of_mem _ hk')]
      exact List.getElem?_eraseIdx_of_lt (hks k (List.mem_cons_self ..))
    · cases h

theorem sublist_eraseAll {α : Type} {ks : List ℕ} {xs ys : List α}
    (h : eraseAll ks xs = .ok ys) : ys.Sublist xs := by
  induction ks generalizing xs with
  | nil =>
    cases h
    exact List.Sublist.refl _
  | cons k ks ih =>
    unfold eraseAll at h
    split at h
    · exact (ih h).trans (List.eraseIdx_sublist xs k)
    · cases h

/-! ## What is left -/

/-- Every entry has a name, and one at most is a backup. -/
def Tidy (profiles : List Entry) : Prop :=
  (∀ x ∈ profiles, Named x) ∧ (profiles.filter (IsBackup ·)).length ≤ 1

instance (profiles : List Entry) : Decidable (Tidy profiles) :=
  inferInstanceAs (Decidable (_ ∧ _))

/-- The profiles that are no backups. -/
def others (profiles : List Entry) : List Entry := profiles.filter (¬IsBackup ·)

theorem others_eq_self {profiles : List Entry} (h : ∀ x ∈ profiles, ¬IsBackup x) :
    others profiles = profiles := by
  apply List.filter_eq_self.mpr
  intro x hx
  exact decide_eq_true (h x hx)

theorem removeBackups_named {profiles : List Entry} (h : ∀ x ∈ profiles, Named x) :
    removeBackups profiles = eraseAll (positions profiles 0) profiles := by
  unfold removeBackups
  rw [findBackups_named h]
  rfl

/-- One backup is erased as it should be. -/
theorem removeBackups_tidy {profiles : List Entry} (h : Tidy profiles) :
    removeBackups profiles = .ok (others profiles) := by
  have hlen := length_positions profiles 0
  rw [removeBackups_named h.1]
  cases hks : positions profiles 0 with
  | nil =>
    rw [hks] at hlen
    have hnone : profiles.filter (IsBackup ·) = [] := List.eq_nil_of_length_eq_zero hlen.symm
    have hno : ∀ x ∈ profiles, ¬IsBackup x := by
      intro x hx
      simpa using List.filter_eq_nil_iff.mp hnone x hx
    rw [others_eq_self hno]
    rfl
  | cons k ks =>
    obtain ⟨pre, b, post, rfl, hk, hb, hpre, hpost⟩ := positions_eq_cons hks
    have hks' : ks = [] := by
      apply List.eq_nil_of_length_eq_zero
      have hone := h.2
      rw [hks, List.length_cons] at hlen
      omega
    have hno : ∀ x ∈ post, ¬IsBackup x := by
      have hempty := length_positions post (k + 1)
      rw [hpost, hks'] at hempty
      have hnone : post.filter (IsBackup ·) = [] := List.eq_nil_of_length_eq_zero hempty.symm
      intro x hx
      simpa using List.filter_eq_nil_iff.mp hnone x hx
    have hothers : others (pre ++ b :: post) = pre ++ post := by
      unfold others
      rw [List.filter_append, List.filter_cons_of_neg (by simpa using hb)]
      rw [show pre.filter _ = pre from others_eq_self hpre,
        show post.filter _ = post from others_eq_self hno]
    obtain rfl : k = pre.length := by omega
    subst hks'
    rw [hothers]
    unfold eraseAll
    rw [if_pos (by rw [List.length_append, List.length_cons]; omega),
      List.eraseIdx_append_of_length_le le_rfl]
    simp [eraseAll]

/-- Of several backups the second one stays. -/
theorem backup_stays {profiles left : List Entry} (hnamed : ∀ x ∈ profiles, Named x)
    (hmany : 1 < (profiles.filter (IsBackup ·)).length)
    (h : removeBackups profiles = .ok left) : ∃ x ∈ left, IsBackup x := by
  rw [removeBackups_named hnamed] at h
  rw [← length_positions profiles 0] at hmany
  cases hks : positions profiles 0 with
  | nil =>
    rw [hks] at hmany
    cases hmany
  | cons k ks =>
    obtain ⟨pre, b, post, rfl, hk, hb, hpre, hpost⟩ := positions_eq_cons hks
    cases hks' : ks with
    | nil =>
      rw [hks, hks'] at hmany
      exact absurd hmany (lt_irrefl 1)
    | cons k' ks' =>
      rw [hks'] at hpost
      obtain ⟨mid, b', post', rfl, hk', hb', hmid, hpost'⟩ := positions_eq_cons hpost
      rw [hks, hks'] at h
      unfold eraseAll at h
      rw [if_pos (by rw [List.length_append, List.length_cons]; omega)] at h
      obtain rfl : k = pre.length := by omega
      -- once the first one is gone the second one is one place before its position
      have herase : (pre ++ b :: (mid ++ b' :: post')).eraseIdx pre.length
          = (pre ++ mid) ++ b' :: post' := by
        rw [List.eraseIdx_append_of_length_le le_rfl]
        simp
      rw [herase] at h
      have hstays := getElem_eraseAll (pre ++ mid).length h ?_
      · rw [List.getElem?_append_right le_rfl, Nat.sub_self] at hstays
        exact ⟨b', List.mem_of_getElem? hstays, hb'⟩
      · intro k₀ hk₀
        rw [List.length_append]
        rcases List.mem_cons.mp hk₀ with rfl | hk₀
        · omega
        · rw [← hpost'] at hk₀
          have hle := le_of_mem_positions hk₀
          omega

/-! ## Backups -/

/-- A backup leaves the other profiles as they are and one backup, which holds the colours; and the
same backup again changes nothing. -/
def KeepsProfiles (backup : Option (List Entry) → Option (Except Fault (List Entry)))
    (holds : Entry → Prop) (stored : Option (List Entry)) : Prop :=
  ∃ profiles, backup stored = some (.ok profiles) ∧
    others profiles = others (stored.getD []) ∧
    (∃ b, profiles.filter (IsBackup ·) = [b] ∧ holds b) ∧
    backup (some profiles) = some (.ok profiles)

/-- Reads of the colours that fail, and one that does not. -/
def reads {α : Type} (fails : ℕ) (color : α) : List (Option α) :=
  List.replicate fails none ++ [some color]

theorem findSome_reads {α β : Type} (f : α → β) (fails : ℕ) (color : α) :
    ((reads fails color).map (Option.map f)).findSome? id = some (f color) := by
  unfold reads
  rw [List.map_append, List.map_replicate]
  induction fails with
  | zero => rfl
  | succ fails ih => exact ih

/-- Which backups keep the profiles, for either controller. -/
theorem keepsProfiles_iff {backup : Option (List Entry) → Option (Except Fault (List Entry))}
    (newBackup : Entry) {holds : Entry → Prop} (hnew : IsBackup newBackup)
    (hbackup : ∀ stored, backup stored = some ((removeBackups (stored.getD [])).map
      fun profiles => profiles ++ [newBackup]))
    (stored : Option (List Entry)) :
    KeepsProfiles backup holds stored ↔ Tidy (stored.getD []) ∧ holds newBackup := by
  have htidy : ∀ profiles, Tidy profiles →
      (removeBackups profiles).map (fun left => left ++ [newBackup])
        = .ok (others profiles ++ [newBackup]) := by
    intro profiles h
    rw [removeBackups_tidy h]
    rfl
  have hothers : ∀ profiles, others (others profiles ++ [newBackup]) = others profiles := by
    intro profiles
    unfold others
    rw [List.filter_append, List.filter_filter, List.filter_cons_of_neg (by simpa using hnew)]
    simp
  have hfilter : ∀ profiles, (others profiles ++ [newBackup]).filter (IsBackup ·) = [newBackup] := by
    intro profiles
    unfold others
    rw [List.filter_append, List.filter_filter, List.filter_cons_of_pos (by simpa using hnew)]
    simp
  constructor
  · rintro ⟨profiles, hrun, hsame, ⟨b, hone, hholds⟩, -⟩
    rw [hbackup] at hrun
    cases hleft : removeBackups (stored.getD []) with
    | error fault =>
      rw [hleft] at hrun
      cases hrun
    | ok left =>
      rw [hleft] at hrun
      cases hrun
      rw [List.filter_append, List.filter_cons_of_pos (by simpa using hnew)] at hone
      have hnone : left.filter (IsBackup ·) = [] := by
        have hlen := congrArg List.length hone
        rw [List.length_append] at hlen
        exact List.eq_nil_of_length_eq_zero (by simpa using hlen)
      rw [hnone] at hone
      cases hone
      -- a profile without a name would have ended the search for backups
      have hnamed : ∀ x ∈ stored.getD [], Named x := by
        intro x hx
        by_cases hb : IsBackup x
        · exact hb.named
        · have hmem : x ∈ others (left ++ [newBackup]) := by
            rw [hsame]
            exact List.mem_filter.mpr ⟨hx, decide_eq_true hb⟩
          rcases List.mem_append.mp (List.mem_filter.mp hmem).1 with hmem | hmem
          · unfold removeBackups at hleft
            cases hfind : findBackups (stored.getD []) 0 with
            | error fault =>
              rw [hfind] at hleft
              cases hleft
            | ok r =>
              rw [hfind] at hleft
              exact named_of_findBackups hfind x ((sublist_eraseAll hleft).subset hmem)
          · rw [List.mem_singleton.mp hmem]
            exact hnew.named
      refine ⟨⟨hnamed, ?_⟩, hholds⟩
      by_contra hmany
      obtain ⟨x, hx, hb⟩ := backup_stays hnamed (by omega) hleft
      exact absurd (decide_eq_true hb) (List.filter_eq_nil_iff.mp hnone x hx)
  · rintro ⟨hstored, hholds⟩
    -- the second run finds one backup and replaces it
    have hkept : Tidy (others (stored.getD []) ++ [newBackup]) := by
      constructor
      · intro x hx
        rcases List.mem_append.mp hx with hx | hx
        · exact hstored.1 x (List.mem_filter.mp hx).1
        · rw [List.mem_singleton.mp hx]
          exact hnew.named
      · rw [hfilter]
        exact le_rfl
    refine ⟨others (stored.getD []) ++ [newBackup], ?_, hothers _, ⟨newBackup, hfilter _, hholds⟩,
      ?_⟩
    · rw [hbackup, htidy _ hstored]
    · rw [hbackup]
      show some ((removeBackups (others (stored.getD []) ++ [newBackup])).map _) = _
      rw [htidy _ hkept, hothers]

/-- A member of an entry holds a colour. -/
def Entry.Holds (x : Entry) (key : Bytes) (color : BitVec 32) : Prop :=
  ∃ text, x.member key = some (.string text) ∧ HoldsColor text color

theorem holds_iff {x : Entry} {key : Bytes} {color : BitVec 32}
    (h : x.member key = some (.string (BGRToHex color))) : x.Holds key color ↔ Opaque color := by
  rw [← holdsColor_BGRToHex]
  unfold Entry.Holds
  rw [h]
  constructor
  · rintro ⟨text, htext, hholds⟩
    cases htext
    exact hholds
  · intro hholds
    exact ⟨_, rfl, hholds⟩

/-- The colours of a pair are in a profile. -/
def JC.Holds (color : HidNpadControllerColor × HidNpadControllerColor) (x : Entry) : Prop :=
  x.Holds (ascii "L_JC") color.1.main ∧ x.Holds (ascii "L_BTN") color.1.sub ∧
    x.Holds (ascii "R_JC") color.2.main ∧ x.Holds (ascii "R_BTN") color.2.sub

/-- The colours of a Pro Controller are in a profile. -/
def PC.Holds (color : HidNpadControllerColor) (x : Entry) : Prop :=
  x.Holds (ascii "BODY") color.main ∧ x.Holds (ascii "BTN") color.sub

/-- The stored profiles are kept exactly if each entry has a name, one at most is a backup, and the
colours that are read have 255 as their fourth byte. -/
theorem backups_keep_profiles_iff (stored : Option (List Entry)) (fails : ℕ) :
    (∀ color,
      (KeepsProfiles (fun stored => JC.backupJCColor stored (reads fails color)) (JC.Holds color)
          stored ↔
        Tidy (stored.getD []) ∧ Opaque color.1.main ∧ Opaque color.1.sub ∧ Opaque color.2.main ∧
          Opaque color.2.sub) ∧
      (KeepsProfiles (fun stored =>
          some ((JC.backupToJSON (stored.getD []) (some color)).map Prod.snd)) (JC.Holds color)
          stored ↔
        Tidy (stored.getD []) ∧ Opaque color.1.main ∧ Opaque color.1.sub ∧ Opaque color.2.main ∧
          Opaque color.2.sub)) ∧
    ∀ color,
      (KeepsProfiles (fun stored => PC.backupPCColor stored (reads fails color)) (PC.Holds color)
          stored ↔
        Tidy (stored.getD []) ∧ Opaque color.main ∧ Opaque color.sub) ∧
      (KeepsProfiles (fun stored =>
          some ((PC.backupToJSON (stored.getD []) (some color)).map Prod.snd)) (PC.Holds color)
          stored ↔
        Tidy (stored.getD []) ∧ Opaque color.main ∧ Opaque color.sub) := by
  have hcolor : ∀ (stored : Option (List Entry)) {α : Type} (f : α → Entry) (color : α),
      backupColor stored ((reads fails color).map (Option.map f))
        = some ((removeBackups (stored.getD [])).map fun profiles => profiles ++ [f color]) := by
    intro stored α f color
    unfold backupColor
    cases removeBackups (stored.getD []) with
    | error fault => rfl
    | ok profiles =>
      dsimp only
      rw [findSome_reads]
      rfl
  have hjson : ∀ (stored : Option (List Entry)) (newBackup : Entry),
      some ((backupToJSON (stored.getD []) (some newBackup)).map Prod.snd)
        = some ((removeBackups (stored.getD [])).map fun profiles => profiles ++ [newBackup]) := by
    intro stored newBackup
    unfold backupToJSON
    cases removeBackups (stored.getD []) with
    | error fault => rfl
    | ok profiles => rfl
  constructor
  · intro color
    have hholds : JC.Holds color (JC.newBackup color) ↔ Opaque color.1.main ∧ Opaque color.1.sub ∧
        Opaque color.2.main ∧ Opaque color.2.sub := by
      unfold JC.Holds
      rw [holds_iff rfl, holds_iff rfl, holds_iff rfl, holds_iff rfl]
    rw [← hholds]
    exact ⟨keepsProfiles_iff (JC.newBackup color) rfl (fun stored => hcolor stored _ color) stored,
      keepsProfiles_iff (JC.newBackup color) rfl (fun stored => hjson stored _) stored⟩
  · intro color
    have hholds : PC.Holds color (PC.newBackup color) ↔ Opaque color.main ∧ Opaque color.sub := by
      unfold PC.Holds
      rw [holds_iff rfl, holds_iff rfl]
    rw [← hholds]
    exact ⟨keepsProfiles_iff (PC.newBackup color) rfl (fun stored => hcolor stored _ color) stored,
      keepsProfiles_iff (PC.newBackup color) rfl (fun stored => hjson stored _) stored⟩

/-- Two backups and a profile. -/
def twoBackups : List Entry :=
  let color : HidNpadControllerColor := ⟨0xFF82FF96, 0xFF0A1E0A⟩
  [JC.newBackup (color, color), JC.newBackup (color, color),
    .object [(ascii "name", .string (ascii "mine"))]]

/-- The profile is lost, and one of the old backups stays. -/
theorem profile_is_lost :
    ¬KeepsProfiles (fun stored => JC.backupJCColor stored
        (reads 0 (⟨0xFF000000, 0xFF000000⟩, ⟨0xFF000000, 0xFF000000⟩)))
      (JC.Holds (⟨0xFF000000, 0xFF000000⟩, ⟨0xFF000000, 0xFF000000⟩)) (some twoBackups) := by
  rintro ⟨profiles, hrun, hothers, -, -⟩
  cases hrun
  exact absurd hothers (by decide)

end ColorSwapper
