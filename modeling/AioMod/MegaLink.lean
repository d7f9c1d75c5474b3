/-
# Links to files on MEGA

`mega_id` and `mega_node_key` of `download.cpp`.  The positions are found by the last occurrences of
characters which the parts behind them do not have; the key is standard base64 once two characters
are replaced.
-/
import AioMod.Base64
import AioMod.FatFs

namespace MegaLink

/-! ## The code -/

/-- The exceptions. -/
inductive Fault where
  | invalid_argument (what : String)
  | out_of_range
  deriving DecidableEq

def SLASH : UInt8 := 47

def HASH : UInt8 := 35

def BANG : UInt8 := 33

/-- `find_last_of` of a character; `none` is `npos`. -/
def find_last_of (s : Bytes) (c : UInt8) : Option ℕ :=
  if c ∈ s then some (s.length - 1 - s.reverse.idxOf c) else none

/-- A position and 1; `npos` wraps to 0. -/
def next : Option ℕ → ℕ
  | some p => p + 1
  | none => 0

/-- `substr(pos, stop - pos)`; a difference that wraps is larger than any text. -/
def substr (s : Bytes) (pos : ℕ) (stop : Option ℕ) : Except Fault Bytes :=
  if pos > s.length then .error .out_of_range
  else
    match stop with
    | some e => .ok (if pos ≤ e then (s.drop pos).take (e - pos) else s.drop pos)
    | none => .ok (s.drop pos)

/-- `url.find("#!") < len` -/
def old_link (url : Bytes) : Bool := decide ([HASH, BANG] <:+: url)

/-- `mega_id` -/
def mega_id (url : Bytes) : Except Fault Bytes :=
  if url.length < 52 then .error (.invalid_argument "Invalid URL.")
  else do
    let init_pos := next (find_last_of url SLASH) + if old_link url then 2 else 0
    let end_pos := find_last_of url (if old_link url then BANG else HASH)
    let id ← substr url init_pos end_pos
    if id.length ≠ 8 then .error (.invalid_argument "Invalid URL ID.") else .ok id

/-- The two calls of `std::replace`. -/
def replace (c : UInt8) : UInt8 := if c = 95 then 47 else if c = 45 then 43 else c

/-- `mega_node_key`; `mbedtls_base64_decode` gives the bytes that it writes for a text into a buffer,
none where it fails. -/
def mega_node_key (mbedtls_base64_decode : Bytes → ℕ → Bytes) (url : Bytes) : Except Fault Bytes :=
  if url.length < 52 then .error (.invalid_argument "Invalid URL.")
  else do
    let end_pos := next (find_last_of url (if old_link url then BANG else HASH))
    let key ← substr url end_pos (some url.length)
    let key := key.map replace
    let pad := 4 - key.length % 4
    let key := key ++ List.replicate pad Base64.PAD
    if key.length ≠ 44 then .error (.invalid_argument "Invalid URL key.")
    else
      let decoded := mbedtls_base64_decode key (key.length * 3 / 4)
      if decoded.length ≠ 32 then .error (.invalid_argument "Invalid node key.") else .ok decoded

/-! ## Links -/

/-- The two formats. -/
inductive Format where
  | old | new
  deriving DecidableEq

/-- What stands between the host and the id. -/
def Format.lead : Format → Bytes
  | .old => [SLASH, HASH, BANG]
  | .new => ascii "/file/"

/-- What stands between the id and the key. -/
def Format.mark : Format → UInt8
  | .old => BANG
  | .new => HASH

/-- A link. -/
def link (format : Format) (host id key : Bytes) : Bytes :=
  ascii "https://" ++ host ++ format.lead ++ id ++ format.mark :: key

/-- A character of base64url. -/
def UrlChar (c : UInt8) : Prop := (Base64.value (replace c)).isSome ∧ c ≠ 43 ∧ c ≠ 47

instance (c : UInt8) : Decidable (UrlChar c) := inferInstanceAs (Decidable (_ ∧ _))

/-- A character of base64 as base64url has it. -/
def toUrl (c : UInt8) : UInt8 := if c = 47 then 95 else if c = 43 then 45 else c

/-- Some bytes in unpadded base64url. -/
def urlEncode (bytes : Bytes) : Bytes := (Base64.encode bytes).map toUrl

/-- What a text in unpadded base64url decodes to. -/
def urlDecode (key : Bytes) : Option Bytes :=
  Base64.decode (key.map replace ++ Base64.padding (key.map replace))

/-- `mbedtls_base64_decode` is standard base64.  What it gives for texts that are no whole number of
blocks of four characters is left open. -/
structure IsBase64 (mbedtls_base64_decode : Bytes → ℕ → Bytes) : Prop where
  decodes : ∀ text bytes dlen, Base64.decode text = some bytes → bytes.length ≤ dlen →
    mbedtls_base64_decode text dlen = bytes
  rejects : ∀ text dlen, text.length % 4 = 0 →
    (∀ c ∈ text, (Base64.value c).isSome ∨ c = Base64.PAD) →
    Base64.decode text = none → mbedtls_base64_decode text dlen = []

/-! ## Positions -/

theorem find_last_of_append {c : UInt8} {b : Bytes} (a : Bytes) (h : c ∉ b) :
    find_last_of (a ++ c :: b) c = some a.length := by
  have hmem : c ∈ a ++ c :: b := List.mem_append_right _ (List.mem_cons_self ..)
  have hrev : c ∉ b.reverse := fun hc => h (List.mem_reverse.mp hc)
  unfold find_last_of
  rw [if_pos hmem, List.reverse_append, List.reverse_cons, List.append_assoc,
    List.idxOf_append_of_notMem hrev, List.singleton_append, List.idxOf_cons_self]
  simp only [List.length_append, List.length_cons, List.length_reverse]
  congr 1
  omega

theorem UrlChar.ne {c : UInt8} (h : UrlChar c) : c ≠ SLASH ∧ c ≠ HASH ∧ c ≠ BANG := by
  refine ⟨h.2.2, ?_, ?_⟩
  · rintro rfl
    exact absurd h (by decide)
  · rintro rfl
    exact absurd h (by decide)

/-- A text that has none of the characters that delimit the parts of a link. -/
structure Plain (s : Bytes) : Prop where
  slash : SLASH ∉ s
  hash : HASH ∉ s
  bang : BANG ∉ s

theorem plain_of_urlChar {s : Bytes} (h : ∀ c ∈ s, UrlChar c) : Plain s :=
  ⟨fun hc => (h _ hc).ne.1 rfl, fun hc => (h _ hc).ne.2.1 rfl, fun hc => (h _ hc).ne.2.2 rfl⟩

/-- What stands before the id. -/
def before (format : Format) (host : Bytes) : Bytes := ascii "https://" ++ host ++ format.lead

theorem link_eq (format : Format) (host id key : Bytes) :
    link format host id key = before format host ++ id ++ format.mark :: key := rfl

theorem hash_not_mem_before {host : Bytes} (h : HASH ∉ host) : HASH ∉ before .new host := by
  unfold before
  simp only [List.mem_append, not_or]
  exact ⟨⟨by decide, h⟩, by decide⟩

theorem old_link_link {host id key : Bytes} (hhost : HASH ∉ host) (hid : Plain id)
    (hkey : Plain key) (format : Format) :
    old_link (link format host id key) = true ↔ format = .old := by
  unfold old_link
  rw [decide_eq_true_iff]
  cases format with
  | old =>
    constructor
    · exact fun _ => rfl
    · intro _
      refine ⟨ascii "https://" ++ host ++ [SLASH], id ++ BANG :: key, ?_⟩
      unfold link
      simp [Format.lead, Format.mark]
  | new =>
    constructor
    · rintro ⟨s, t, hst⟩
      have hbefore : HASH ∉ before .new host ++ id := by
        rw [List.mem_append, not_or]
        exact ⟨hash_not_mem_before hhost, hid.hash⟩
      have hsplit : before .new host ++ id ++ HASH :: key = s ++ HASH :: BANG :: t := by
        rw [List.append_assoc] at hst
        exact hst.symm
      rw [List.append_cons_inj_of_notMem hbefore hkey.hash] at hsplit
      obtain ⟨-, -, rfl⟩ := hsplit
      exact absurd (List.mem_cons_self ..) hkey.bang
    · rintro ⟨⟩

/-- The id is taken to begin where it begins. -/
theorem init_pos_link {host id key : Bytes} (hid : Plain id) (hkey : Plain key) (format : Format) :
    next (find_last_of (link format host id key) SLASH) + (if format = .old then 2 else 0)
      = (before format host).length := by
  cases format with
  | old =>
    have hrest : SLASH ∉ HASH :: BANG :: (id ++ BANG :: key) := by
      simp only [List.mem_cons, List.mem_append, not_or]
      exact ⟨by decide, by decide, hid.slash, by decide, hkey.slash⟩
    have hlink : link .old host id key
        = (ascii "https://" ++ host) ++ SLASH :: HASH :: BANG :: (id ++ BANG :: key) := by
      unfold link
      simp [Format.lead, Format.mark]
    rw [hlink, find_last_of_append _ hrest]
    unfold before
    simp [next, Format.lead]
    omega
  | new =>
    have hrest : SLASH ∉ id ++ HASH :: key := by
      simp only [List.mem_cons, List.mem_append, not_or]
      exact ⟨hid.slash, by decide, hkey.slash⟩
    have hlink : link .new host id key
        = (ascii "https://" ++ host ++ ascii "/file") ++ SLASH :: (id ++ HASH :: key) := by
      unfold link
      rw [show Format.lead .new = ascii "/file" ++ [SLASH] by decide]
      simp [Format.mark]
    rw [hlink, find_last_of_append _ hrest]
    unfold before
    rw [show Format.lead .new = ascii "/file" ++ [SLASH] by decide]
    simp [next]
    omega

/-- The end of the id is found. -/
theorem end_pos_link {host id key : Bytes} (hkey : Plain key) (format : Format) :
    find_last_of (link format host id key) (if format = .old then BANG else HASH)
      = some (before format host ++ id).length := by
  cases format with
  | old => exact find_last_of_append _ hkey.bang
  | new => exact find_last_of_append _ hkey.hash

theorem substr_id (a id b : Bytes) :
    substr (a ++ id ++ b) a.length (some (a ++ id).length) = .ok id := by
  unfold substr
  rw [if_neg (by simp)]
  dsimp only
  rw [if_pos (by simp), List.append_assoc, List.drop_left, List.length_append,
    Nat.add_sub_cancel_left, List.take_left]

theorem substr_key (a : Bytes) (c : UInt8) (key : Bytes) :
    substr (a ++ c :: key) (a.length + 1) (some (a ++ c :: key).length) = .ok key := by
  have hsplit : a ++ c :: key = (a ++ [c]) ++ key := by
    rw [List.append_assoc, List.singleton_append]
  have hdrop : (a ++ c :: key).drop (a.length + 1) = key := by
    rw [hsplit]
    exact List.drop_left' (by rw [List.length_append, List.length_singleton])
  unfold substr
  rw [if_neg (by simp), hdrop]
  dsimp only
  rw [if_pos (by simp), List.take_of_length_le]
  simp
  omega

/-! ## Links of a format -/

theorem mega_id_link {host id key : Bytes} (hhost : HASH ∉ host) (hid : Plain id)
    (hkey : Plain key) (format : Format) (hlength : ¬(link format host id key).length < 52) :
    mega_id (link format host id key)
      = if id.length ≠ 8 then .error (.invalid_argument "Invalid URL ID.") else .ok id := by
  have hold := old_link_link hhost hid hkey format
  unfold mega_id
  rw [if_neg hlength]
  simp only [hold, init_pos_link hid hkey, end_pos_link hkey]
  rw [link_eq, substr_id]
  rfl

theorem mega_node_key_link (f : Bytes → ℕ → Bytes) {host id key : Bytes} (hhost : HASH ∉ host)
    (hid : Plain id) (hkey : Plain key) (format : Format)
    (hlength : ¬(link format host id key).length < 52) :
    mega_node_key f (link format host id key)
      = let text := key.map replace ++ List.replicate (4 - key.length % 4) Base64.PAD
        if text.length ≠ 44 then .error (.invalid_argument "Invalid URL key.")
        else if (f text 33).length ≠ 32 then .error (.invalid_argument "Invalid node key.")
        else .ok (f text 33) := by
  have hold := old_link_link hhost hid hkey format
  unfold mega_node_key
  rw [if_neg hlength]
  simp only [hold, end_pos_link hkey]
  rw [link_eq, show next (some (before format host ++ id).length)
    = (before format host ++ id).length + 1 from rfl, substr_key]
  show (if (key.map replace ++ List.replicate (4 - (key.map replace).length % 4)
    Base64.PAD).length ≠ 44 then _ else _) = _
  rw [List.length_map]
  by_cases h44 : (key.map replace ++ List.replicate (4 - key.length % 4) Base64.PAD).length = 44
  · rw [if_neg (not_not_intro h44), if_neg (not_not_intro h44), h44]
  · rw [if_pos h44, if_pos h44]

/-! ## Keys -/

theorem replace_toUrl_char : ∀ n < 64, replace (toUrl (Base64.char n)) = Base64.char n := by
  decide

theorem urlChar_toUrl_char : ∀ n < 64, UrlChar (toUrl (Base64.char n)) := by
  decide

theorem replace_urlEncode (bytes : Bytes) :
    (urlEncode bytes).map replace = Base64.encode bytes := by
  unfold urlEncode
  rw [List.map_map]
  conv_rhs => rw [← List.map_id (Base64.encode bytes)]
  apply List.map_congr_left
  intro c hc
  obtain ⟨n, hn, rfl⟩ := Base64.value_encode bytes c hc
  exact replace_toUrl_char n hn

theorem urlChar_urlEncode (bytes : Bytes) : ∀ c ∈ urlEncode bytes, UrlChar c := by
  intro c hc
  obtain ⟨b, hb, rfl⟩ := List.mem_map.mp hc
  obtain ⟨n, hn, rfl⟩ := Base64.value_encode bytes b hb
  exact urlChar_toUrl_char n hn

/-- A key that gives 32 bytes has 43 characters and is what it decodes to. -/
theorem decoded_key {f : Bytes → ℕ → Bytes} (hf : IsBase64 f) {key : Bytes}
    (hkey : ∀ c ∈ key, UrlChar c) (h44 : key.length + (4 - key.length % 4) = 44)
    (h32 : (f (key.map replace ++ List.replicate (4 - key.length % 4) Base64.PAD) 33).length = 32) :
    urlDecode key
      = some (f (key.map replace ++ List.replicate (4 - key.length % 4) Base64.PAD) 33) := by
  have hvalue : ∀ c ∈ key.map replace, (Base64.value c).isSome := by
    intro c hc
    obtain ⟨b, hb, rfl⟩ := List.mem_map.mp hc
    exact (hkey b hb).1
  have hdecode := Base64.decode_replicate (4 - key.length % 4) (key.map replace) hvalue
  rw [List.length_map] at hdecode
  split at hdecode
  · rename_i hfill
    obtain ⟨bytes, hbytes, hcount⟩ := hdecode
    have hread := hf.decodes _ bytes 33 hbytes (by omega)
    rw [hread] at h32 ⊢
    have h43 : key.length = 43 := by omega
    unfold urlDecode Base64.padding
    rw [List.length_map, h43]
    rw [h43] at hbytes
    exact hbytes
  · have htext : ∀ c ∈ key.map replace ++ List.replicate (4 - key.length % 4) Base64.PAD,
        (Base64.value c).isSome ∨ c = Base64.PAD := by
      intro c hc
      rcases List.mem_append.mp hc with hc | hc
      · exact .inl (hvalue c hc)
      · exact .inr (List.eq_of_mem_replicate hc)
    have hblocks : (key.map replace ++
        List.replicate (4 - key.length % 4) Base64.PAD).length % 4 = 0 := by
      rw [List.length_append, List.length_map, List.length_replicate, h44]
    rw [hf.rejects _ 33 hblocks htext hdecode] at h32
    cases h32

/-- A link of either format gives back its id of eight characters and its key of 32 bytes; where the
id has another length, or the key does not decode to 32 bytes, one of the two throws. -/
theorem mega_links_decode (f : Bytes → ℕ → Bytes) (hf : IsBase64 f) (format : Format) (host id : Bytes)
    (hhost : HASH ∉ host) (hid : ∀ c ∈ id, UrlChar c) :
    (∀ k : Bytes, id.length = 8 → k.length = 32 →
      mega_id (link format host id (urlEncode k)) = .ok id ∧
        mega_node_key f (link format host id (urlEncode k)) = .ok k) ∧
    ∀ key : Bytes, (∀ c ∈ key, UrlChar c) →
      (id.length ≠ 8 ∨ ∀ k, urlDecode key = some k → k.length ≠ 32) →
        (∃ e, mega_id (link format host id key) = .error e) ∨
          ∃ e, mega_node_key f (link format host id key) = .error e := by
  have hplain := plain_of_urlChar hid
  constructor
  · intro k hlength hk
    have hkey := plain_of_urlChar (urlChar_urlEncode k)
    have h43 : (urlEncode k).length = 43 := by
      unfold urlEncode
      rw [List.length_map, Base64.length_encode, hk]
    have hlong : ¬(link format host id (urlEncode k)).length < 52 := by
      unfold link
      simp only [List.length_append, List.length_cons]
      omega
    have hpadding : Base64.padding (Base64.encode k) = List.replicate 1 Base64.PAD := by
      unfold Base64.padding
      rw [Base64.length_encode, hk]
    have hread : f (Base64.encode k ++ List.replicate 1 Base64.PAD) 33 = k := by
      have hdecode := Base64.decode_encode k
      rw [hpadding] at hdecode
      exact hf.decodes _ k 33 hdecode (by omega)
    constructor
    · rw [mega_id_link hhost hplain hkey format hlong, if_neg (not_not_intro hlength)]
    · rw [mega_node_key_link f hhost hplain hkey format hlong]
      dsimp only
      rw [replace_urlEncode, h43, hread, if_neg, if_neg (not_not_intro hk)]
      rw [not_not, List.length_append, List.length_replicate, Base64.length_encode, hk]
  -- what is of the wrong length is refused by one of the two
  · intro key hkey hbad
    have hplain' := plain_of_urlChar hkey
    by_cases hlong : (link format host id key).length < 52
    · left
      refine ⟨_, if_pos hlong⟩
    · by_cases hlength : id.length = 8
      · right
        rw [mega_node_key_link f hhost hplain hplain' format hlong]
        dsimp only
        split
        · exact ⟨_, rfl⟩
        · rename_i h44
          split
          · exact ⟨_, rfl⟩
          · rename_i h32
            rw [not_not] at h44 h32
            rw [List.length_append, List.length_map, List.length_replicate] at h44
            have hdecoded := decoded_key hf hkey h44 h32
            exact absurd h32 (hbad.resolve_left (not_not_intro hlength) _ hdecoded)
      · left
        rw [mega_id_link hhost hplain hplain' format hlong, if_pos hlength]
        exact ⟨_, rfl⟩

/-- A decoder that checks the size of its buffer. -/
def decoder (text : Bytes) (dlen : ℕ) : Bytes :=
  match Base64.decode text with
  | some bytes => if bytes.length ≤ dlen then bytes else []
  | none => []

theorem isBase64_decoder : IsBase64 decoder where
  decodes := by
    intro text bytes dlen hdecode hfits
    unfold decoder
    rw [hdecode]
    exact if_pos hfits
  rejects := by
    intro text dlen _ _ hdecode
    unfold decoder
    rw [hdecode]

set_option maxRecDepth 4000 in
theorem mega_links_decode_decoder :
    mega_id (link .old (ascii "mega.nz") (ascii "Ab3_-xyZ") (urlEncode (List.replicate 32 200)))
        = .ok (ascii "Ab3_-xyZ") ∧
      mega_node_key decoder
          (link .old (ascii "mega.nz") (ascii "Ab3_-xyZ") (urlEncode (List.replicate 32 200)))
        = .ok (List.replicate 32 200) :=
  (mega_links_decode decoder isBase64_decoder .old (ascii "mega.nz") (ascii "Ab3_-xyZ") (by decide)
    (by decide)).1 (List.replicate 32 200) (by decide) List.length_replicate

end MegaLink
