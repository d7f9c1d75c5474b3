/-
# Addresses of the network page

`ipToString` and `stringToIp` of `net_page.cpp`.  The text of an address is taken from its first
three bytes and from the byte behind the fourth one; the text and the four bytes are inverse exactly
if that byte is there and is the same as the fourth.
-/
import AioMod.VersionOrder

namespace NetPage

open TextLines Version

/-! ## The code -/

/-- What is not an end of `stringToIp`. -/
inductive Fault where
  | invalid_argument (what : String)
  | out_of_range (what : String)
  | undefined
  deriving DecidableEq

/-- `std::to_string` of a byte. -/
def to_string (b : UInt8) : Bytes :=
  let n := b.toNat
  if n < 10 then [UInt8.ofNat (48 + n)]
  else if n < 100 then [UInt8.ofNat (48 + n / 10), UInt8.ofNat (48 + n % 10)]
  else [UInt8.ofNat (48 + n / 100), UInt8.ofNat (48 + n / 10 % 10), UInt8.ofNat (48 + n % 10)]

/-- The loop of `ipToString`. -/
def ipToStringLoop (ip : Bytes) : List ℕ → Bytes → Option Bytes
  | [], res => some res
  | i :: is, res => do
    let b ← ip[i]?
    ipToStringLoop ip is (res ++ to_string b ++ [DOT])

/-- `NetPage::ipToString`; a read behind the buffer is undefined. -/
def ipToString (ip : Bytes) : Option Bytes := do
  let res ← ipToStringLoop ip (List.range 3) []
  let b ← ip[4]?
  some (res ++ to_string b)

/-- `std::stoi` -/
def stoi (str : Bytes) : Except Fault ℤ :=
  let str := str.dropWhile (isspace ·)
  let negative := decide (str.head? = some 45)
  let str := if negative ∨ str.head? = some 43 then str.tail else str
  let digits := str.takeWhile (isdigit ·)
  if digits = [] then .error (.invalid_argument "stoi")
  else
    let n : ℤ := if negative then -value digits else value digits
    if n < -2147483648 ∨ n > 2147483647 then .error (.out_of_range "stoi") else .ok n

/-- The pieces that `find_first_not_of` and `find` delimit: what stands between dots. -/
def pieces (ip : Bytes) : List Bytes := (getlines DOT ip).filter (· ≠ [])

/-- The loop of `stringToIp`. -/
def stringToIpLoop : List Bytes → ℕ → Bytes → Except Fault Bytes
  | [], _, out => .ok out
  | piece :: pieces, i, out => do
    let n ← stoi piece
    if i < out.length then stringToIpLoop pieces (i + 1) (out.set i (UInt8.ofNat (n % 256).toNat))
    else .error .undefined

/-- `NetPage::stringToIp`: what is in the buffer afterwards. -/
def stringToIp (ip out : Bytes) : Except Fault Bytes := stringToIpLoop (pieces ip) 0 out

/-! ## Dotted quads -/

/-- A number of one to three digits below 256, as it stands in an address. -/
structure Octet where
  digits : Bytes
  ne_nil : digits ≠ []
  isdigit : ∀ c ∈ digits, isdigit c
  length_le : digits.length ≤ 3
  value_lt : value digits < 256

/-- The byte it stands for. -/
def Octet.byte (o : Octet) : UInt8 := UInt8.ofNat (value o.digits)

/-- The text of an address. -/
def dotted (octets : List Octet) : Bytes := render (octets.map Octet.digits)

theorem digit_ofNat : ∀ n < 10, isdigit (UInt8.ofNat (48 + n)) ∧
    (UInt8.ofNat (48 + n)).toNat - 48 = n := by decide

/-- The text of a byte has its value. -/
theorem value_to_string (b : UInt8) : value (to_string b) = b.toNat := by
  have hb := b.toNat_lt
  have hdigit : ∀ n < 10, (UInt8.ofNat (48 + n)).toNat - 48 = n := fun n hn => (digit_ofNat n hn).2
  unfold to_string value
  dsimp only
  split
  · simp only [List.foldl_cons, List.foldl_nil, Nat.zero_mul, Nat.zero_add]
    rw [hdigit _ (by omega)]
  · split
    · simp only [List.foldl_cons, List.foldl_nil, Nat.zero_mul, Nat.zero_add]
      rw [hdigit _ (by omega), hdigit _ (by omega)]
      omega
    · simp only [List.foldl_cons, List.foldl_nil, Nat.zero_mul, Nat.zero_add]
      rw [hdigit _ (by omega), hdigit _ (by omega), hdigit _ (by omega)]
      omega

/-- The canonical form of an octet. -/
def canonical (b : UInt8) : Octet where
  digits := to_string b
  ne_nil := by
    unfold to_string
    dsimp only
    split
    · simp
    · split <;> simp
  isdigit := by
    have hb := b.toNat_lt
    have hdigit : ∀ n < 10, Version.isdigit (UInt8.ofNat (48 + n)) := fun n hn =>
      (digit_ofNat n hn).1
    intro c hc
    unfold to_string at hc
    dsimp only at hc
    split at hc
    · rw [List.mem_singleton.mp hc]
      exact hdigit _ (by omega)
    · split at hc
      · rcases List.mem_pair.mp hc with rfl | rfl <;> exact hdigit _ (by omega)
      · rcases List.mem_cons.mp hc with rfl | hc
        · exact hdigit _ (by omega)
        · rcases List.mem_pair.mp hc with rfl | rfl <;> exact hdigit _ (by omega)
  length_le := by
    unfold to_string
    dsimp only
    split
    · simp
    · split <;> simp
  value_lt := by
    rw [value_to_string]
    exact b.toNat_lt

theorem byte_canonical (b : UInt8) : (canonical b).byte = b := by
  show UInt8.ofNat (value (to_string b)) = b
  rw [value_to_string, UInt8.ofNat_toNat]

theorem isParts_octets {octets : List Octet} (h : octets ≠ []) :
    IsParts (octets.map Octet.digits) := by
  refine ⟨fun hnil => h (List.map_eq_nil_iff.mp hnil), ?_⟩
  intro l hl
  obtain ⟨o, -, rfl⟩ := List.mem_map.mp hl
  exact ⟨o.ne_nil, o.isdigit⟩

/-! ## From text to bytes -/

/-- `stoi` reads an octet. -/
theorem stoi_octet (o : Octet) : stoi o.digits = .ok (value o.digits : ℤ) := by
  have hlt := o.value_lt
  obtain ⟨c, cs, hcons⟩ := List.exists_cons_of_ne_nil o.ne_nil
  have hc : isdigit c := o.isdigit c (by rw [hcons]; exact List.mem_cons_self ..)
  have hspace : o.digits.dropWhile (isspace ·) = o.digits := by
    rw [hcons]
    exact dropWhile_isspace (not_isspace_of_isdigit hc) cs
  have hhead : ∀ sign : UInt8, ¬isdigit sign → o.digits.head? ≠ some sign := by
    intro sign hsign heq
    rw [hcons, List.head?_cons, Option.some_inj] at heq
    rw [heq] at hc
    exact hsign hc
  have hall : o.digits.takeWhile (isdigit ·) = o.digits := by
    apply List.takeWhile_eq_self_iff.mpr
    intro x hx
    exact decide_eq_true (o.isdigit x hx)
  have hminus : decide (o.digits.head? = some 45) = false :=
    decide_eq_false (hhead 45 (by decide))
  have hsign : (if false = true ∨ o.digits.head? = some 43 then o.digits.tail else o.digits)
      = o.digits := by
    apply if_neg
    rintro (h | h)
    · cases h
    · exact hhead 43 (by decide) h
  unfold stoi
  simp only [hspace, hminus, hsign, hall]
  rw [if_neg o.ne_nil, if_neg Bool.false_ne_true, if_neg (by omega)]

theorem pieces_dotted {octets : List Octet} (h : octets ≠ []) :
    pieces (dotted octets) = octets.map Octet.digits := by
  have hparts := isParts_octets h
  unfold pieces dotted render
  rw [getlines_join (fun l hl => dot_not_mem (hparts.2 l hl).2)
    fun _ hlast => (hparts.2 [] (List.mem_of_getLast? hlast)).1 rfl]
  apply List.filter_eq_self.mpr
  intro l hl
  exact decide_eq_true (hparts.2 l hl).1

/-- Each octet goes to its place. -/
theorem stringToIpLoop_octets (octets : List Octet) (i : ℕ) (out : Bytes)
    (h : i + octets.length ≤ out.length) :
    stringToIpLoop (octets.map Octet.digits) i out
      = .ok (out.take i ++ octets.map Octet.byte ++ out.drop (i + octets.length)) := by
  induction octets generalizing i out with
  | nil =>
    show Except.ok out = Except.ok (out.take i ++ [] ++ out.drop (i + 0))
    rw [List.append_nil, Nat.add_zero, List.take_append_drop]
  | cons o octets ih =>
    rw [List.length_cons] at h
    have hi : i < out.length := by omega
    have hbyte : UInt8.ofNat ((value o.digits : ℤ) % 256).toNat = o.byte := by
      have hlt := o.value_lt
      unfold Octet.byte
      congr 1
      omega
    rw [List.map_cons]
    unfold stringToIpLoop
    rw [stoi_octet]
    show (if i < out.length then stringToIpLoop (octets.map Octet.digits) (i + 1)
      (out.set i (UInt8.ofNat ((value o.digits : ℤ) % 256).toNat)) else _) = _
    rw [if_pos hi, hbyte, ih (i + 1) _ (by rw [List.length_set]; omega)]
    have htake : (out.set i o.byte).take (i + 1) = out.take i ++ [o.byte] := by
      rw [List.take_succ_eq_append_getElem (by rw [List.length_set]; exact hi), List.take_set,
        List.set_eq_of_length_le (by rw [List.length_take]; omega), List.getElem_set_self]
    rw [htake, List.drop_set, if_pos (by omega), List.length_cons, List.map_cons,
      List.append_assoc (out.take i), List.singleton_append]
    congr 3
    omega

/-- An address is stored in the first four bytes. -/
theorem stringToIp_dotted {octets : List Octet} (hlen : octets.length = 4) {out : Bytes}
    (hout : 4 ≤ out.length) :
    stringToIp (dotted octets) out = .ok (octets.map Octet.byte ++ out.drop 4) := by
  have hne : octets ≠ [] := by
    rintro rfl
    cases hlen
  unfold stringToIp
  rw [pieces_dotted hne, stringToIpLoop_octets _ _ _ (by omega), List.take_zero, hlen]
  rfl

/-! ## From bytes to text -/

/-- The last number is that of the byte behind the address. -/
theorem ipToString_cons (b₀ b₁ b₂ b₃ : UInt8) (rest : Bytes) :
    ipToString (b₀ :: b₁ :: b₂ :: b₃ :: rest)
      = rest.head?.map fun x => dotted ([b₀, b₁, b₂, x].map canonical) := by
  cases rest with
  | nil => rfl
  | cons x rest =>
    show some ([] ++ to_string b₀ ++ [DOT] ++ to_string b₁ ++ [DOT] ++ to_string b₂ ++ [DOT]
      ++ to_string x) = some (to_string b₀ ++ [DOT] ++ (to_string b₁ ++ [DOT] ++ (to_string b₂
      ++ [DOT] ++ (to_string x ++ []))))
    simp

theorem bytes_canonical (bytes : Bytes) : (bytes.map canonical).map Octet.byte = bytes := by
  rw [List.map_map]
  conv_rhs => rw [← List.map_id bytes]
  apply List.map_congr_left
  intro b _
  exact byte_canonical b

/-- A text determines the bytes. -/
theorem dotted_injective {a b : Bytes} (ha : a.length = 4) (hb : b.length = 4)
    (h : dotted (a.map canonical) = dotted (b.map canonical)) : a = b := by
  have hout : 4 ≤ (List.replicate 4 (0 : UInt8)).length := le_rfl
  have hlen : (a.map canonical).length = 4 := by
    rw [List.length_map]
    exact ha
  have hstored := stringToIp_dotted hlen hout
  rw [h, stringToIp_dotted (by rw [List.length_map, hb]) hout, bytes_canonical,
    bytes_canonical] at hstored
  have heq := Except.ok.inj hstored
  exact (List.append_cancel_right heq).symm

/-- `inet_pton` for the family `AF_INET` takes addresses of four numbers below 256, of one to three
digits each. -/
def TakesDottedQuads (inet_pton : Bytes → Option Bytes) : Prop :=
  ∀ s bytes, inet_pton s = some bytes →
    ∃ octets : List Octet, octets.length = 4 ∧ s = dotted octets ∧ bytes = octets.map Octet.byte

/-- The text of the four bytes at the beginning of a buffer is read back as these bytes, into any
buffer. -/
def TextGivesBack (buffer : Bytes) : Prop :=
  ∃ text, ipToString buffer = some text ∧
    ∀ out, 4 ≤ out.length → stringToIp text out = .ok (buffer.take 4 ++ out.drop 4)

/-- An address is stored as just its four bytes. -/
def StoresFour (s bytes out : Bytes) : Prop := stringToIp s out = .ok (bytes ++ out.drop 4)

/-- Text and bytes are inverse exactly where the byte behind the four is there and equals the last of
them; it is always read.  The other way an address is always stored in four bytes. -/
theorem ip_inverse_iff (inet_pton : Bytes → Option Bytes) (hpton : TakesDottedQuads inet_pton) :
    (∀ buffer, 4 ≤ buffer.length → (TextGivesBack buffer ↔ buffer[4]?.isSome ∧
      buffer[4]? = buffer[3]?)) ∧
    (∀ s bytes, inet_pton s = some bytes → ∀ out, 4 ≤ out.length → StoresFour s bytes out ∧
      (ipToString (bytes ++ out.drop 4) = some (dotted (bytes.map canonical)) ↔
        out[4]?.isSome ∧ out[4]? = bytes[3]?)) ∧
    ∀ b₀ b₁ b₂ b₃ x y rest, x ≠ y → ipToString [b₀, b₁, b₂, b₃] = none ∧
      ipToString (b₀ :: b₁ :: b₂ :: b₃ :: x :: rest) ≠ ipToString (b₀ :: b₁ :: b₂ :: b₃ :: y :: rest)
    := by
  -- the fifth byte is printed in place of the fourth
  have hcanonical : ∀ b₀ b₁ b₂ b₃ rest,
      ipToString (b₀ :: b₁ :: b₂ :: b₃ :: rest) = some (dotted ([b₀, b₁, b₂, b₃].map canonical)) ↔
        rest.head?.isSome ∧ rest.head? = some b₃ := by
    intro b₀ b₁ b₂ b₃ rest
    rw [ipToString_cons]
    cases rest with
    | nil => simp
    | cons x rest =>
      rw [List.head?_cons, Option.map_some, Option.some_inj, Option.some_inj]
      constructor
      · intro h
        have heq := dotted_injective rfl rfl h
        refine ⟨rfl, ?_⟩
        simpa using heq
      · rintro ⟨-, rfl⟩
        rfl
  refine ⟨?_, ?_, ?_⟩
  · intro buffer hbuffer
    obtain ⟨b₀, b₁, b₂, b₃, rest, rfl⟩ : ∃ b₀ b₁ b₂ b₃ rest,
        buffer = b₀ :: b₁ :: b₂ :: b₃ :: rest := by
      match buffer, hbuffer with
      | b₀ :: b₁ :: b₂ :: b₃ :: rest, _ => exact ⟨b₀, b₁, b₂, b₃, rest, rfl⟩
    have hfour : (b₀ :: b₁ :: b₂ :: b₃ :: rest)[4]? = rest.head? := by
      cases rest <;> rfl
    rw [hfour]
    show _ ↔ rest.head?.isSome ∧ rest.head? = some b₃
    rw [← hcanonical b₀ b₁ b₂ b₃]
    constructor
    · rintro ⟨text, htext, hback⟩
      rw [ipToString_cons] at htext ⊢
      obtain ⟨x, hx, rfl⟩ := Option.map_eq_some_iff.mp htext
      rw [hx]
      have hstored := hback [0, 0, 0, 0] le_rfl
      rw [stringToIp_dotted rfl le_rfl, bytes_canonical] at hstored
      have heq := List.append_cancel_right (Except.ok.inj hstored)
      show some (dotted ([b₀, b₁, b₂, x].map canonical)) = _
      rw [show [b₀, b₁, b₂, x] = [b₀, b₁, b₂, b₃] from heq]
    · intro htext
      refine ⟨_, htext, ?_⟩
      intro out hout
      rw [stringToIp_dotted rfl hout, bytes_canonical]
      rfl
  · intro s bytes hs out hout
    obtain ⟨octets, hlen, rfl, rfl⟩ := hpton s bytes hs
    refine ⟨stringToIp_dotted hlen hout, ?_⟩
    have hfour : out[4]? = (out.drop 4).head? := by
      rw [List.head?_drop]
    rw [hfour]
    obtain ⟨o₀, o₁, o₂, o₃, rfl⟩ : ∃ o₀ o₁ o₂ o₃, octets = [o₀, o₁, o₂, o₃] := by
      match octets, hlen with
      | [o₀, o₁, o₂, o₃], _ => exact ⟨o₀, o₁, o₂, o₃, rfl⟩
    exact hcanonical o₀.byte o₁.byte o₂.byte o₃.byte (out.drop 4)
  · intro b₀ b₁ b₂ b₃ x y rest hxy
    refine ⟨rfl, ?_⟩
    rw [ipToString_cons, ipToString_cons]
    intro h
    have heq := dotted_injective rfl rfl (Option.some.inj h)
    apply hxy
    simpa using heq

/-- A reader of dotted quads. -/
def quads (s : Bytes) : Option Bytes :=
  let ps := getlines DOT s
  if ps.length = 4 ∧ render ps = s ∧
      ∀ p ∈ ps, p ≠ [] ∧ (∀ c ∈ p, isdigit c) ∧ p.length ≤ 3 ∧ value p < 256 then
    some (ps.map fun p => UInt8.ofNat (value p))
  else none

theorem takesDottedQuads_quads : TakesDottedQuads quads := by
  intro s bytes hs
  unfold quads at hs
  dsimp only at hs
  split at hs
  · rename_i h
    obtain ⟨hlen, hrender, hall⟩ := h
    cases hs
    refine ⟨(getlines DOT s).attach.map fun p => ⟨p.1, (hall p.1 p.2).1, (hall p.1 p.2).2.1,
      (hall p.1 p.2).2.2.1, (hall p.1 p.2).2.2.2⟩, ?_, ?_, ?_⟩
    · rw [List.length_map, List.length_attach, hlen]
    · unfold dotted
      rw [List.map_map]
      show s = render ((getlines DOT s).attach.map Subtype.val)
      rw [List.attach_map_subtype_val, hrender]
    · rw [List.map_map]
      show _ = (getlines DOT s).attach.map ((fun p => UInt8.ofNat (value p)) ∘ Subtype.val)
      rw [← List.map_map, List.attach_map_subtype_val]
  · cases hs

set_option maxRecDepth 4000 in
theorem ip_inverse_localhost :
    (TextGivesBack [127, 0, 0, 1, 1] ↔ ([127, 0, 0, 1, 1] : Bytes)[4]?.isSome ∧
      ([127, 0, 0, 1, 1] : Bytes)[4]? = ([127, 0, 0, 1, 1] : Bytes)[3]?) ∧
    StoresFour (ascii "127.0.0.1") [127, 0, 0, 1] [9, 9, 9, 9, 9] := by
  have hinverse := ip_inverse_iff quads takesDottedQuads_quads
  exact ⟨hinverse.1 _ (by decide),
    (hinverse.2.1 (ascii "127.0.0.1") [127, 0, 0, 1] (by decide) [9, 9, 9, 9, 9] (by decide)).1⟩

set_option maxRecDepth 4000 in
/-- The address 127.0.0.1 with a zero behind it reads 127.0.0.0. -/
theorem localhost_misread :
    ipToString [127, 0, 0, 1, 0] = some (ascii "127.0.0.0") ∧ ¬TextGivesBack [127, 0, 0, 1, 0] := by
  have htext : ipToString [127, 0, 0, 1, 0] = some (ascii "127.0.0.0") := by decide
  have hstored : stringToIp (ascii "127.0.0.0") [9, 9, 9, 9] = .ok [127, 0, 0, 0] := by decide
  refine ⟨htext, ?_⟩
  rintro ⟨text, hread, hback⟩
  obtain rfl := Option.some.inj (htext.symm.trans hread)
  have hout := hback [9, 9, 9, 9] (by decide)
  rw [hstored] at hout
  exact absurd (Except.ok.inj hout) (by decide)

end NetPage
