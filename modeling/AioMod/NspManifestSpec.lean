/-
# The three readers agree

What a file table must be like is said once, of the bytes; each reader accepts exactly that,
and what it adds to it.  Both readers of the entries then tally the same list.
-/
import AioMod.NspManifest

namespace Nsp

open ByteImage

/-! ## What a reader's steps do -/

theorem bind_ok {α β : Type} {x : Reader α} {f : α → Reader β} {w w' : Bool} {b : β} :
    (x >>= f) w = .ok (b, w') ↔ ∃ a w₁, x w = .ok (a, w₁) ∧ f a w₁ = .ok (b, w') := by
  show (x w >>= fun p => f p.1 p.2) = .ok (b, w') ↔ _
  constructor
  · intro h
    cases hx : x w with
    | error d =>
      rw [hx] at h
      cases h
    | ok p =>
      rw [hx] at h
      exact ⟨p.1, p.2, rfl, h⟩
  · rintro ⟨a, w₁, hx, h⟩
    rw [hx]
    exact h

theorem pure_ok {α : Type} {a b : α} {w w' : Bool} :
    (pure a : Reader α) w = .ok (b, w') ↔ b = a ∧ w' = w := by
  show Except.ok (a, w) = .ok (b, w') ↔ _
  simp [eq_comm]

theorem refuse_ok {c : Prop} [Decidable c] {code : ErrorCode} {t : Bytes} {u : Unit} {w w' : Bool} :
    refuse c code t w = .ok (u, w') ↔ ¬c ∧ w' = w := by
  unfold refuse
  by_cases h : c
  · rw [if_pos h]
    simp [stop, h]
  · rw [if_neg h, pure_ok]
    simp [h]

theorem require_ok {α : Type} {r : Option α} {code : ErrorCode} {t : Bytes} {a : α} {w w' : Bool} :
    require r code t w = .ok (a, w') ↔ r = some a ∧ w' = w := by
  cases r with
  | none => simp [require, stop]
  | some b =>
    show (pure b : Reader α) w = _ ↔ _
    rw [pure_ok, Option.some.injEq, eq_comm (a := a)]

/-- A check, and what comes after it. -/
theorem refuse_bind_ok {β : Type} {c : Prop} [Decidable c] {code : ErrorCode} {t : Bytes}
    {f : Unit → Reader β} {w w' : Bool} {b : β} :
    (refuse c code t >>= f) w = .ok (b, w') ↔ ¬c ∧ f () w = .ok (b, w') := by
  rw [bind_ok]
  simp only [refuse_ok]
  constructor
  · rintro ⟨_, _, ⟨hc, rfl⟩, h⟩
    exact ⟨hc, h⟩
  · rintro ⟨hc, h⟩
    exact ⟨(), w, ⟨hc, rfl⟩, h⟩

/-- A value that is needed, and what is done with it. -/
theorem require_bind_ok {α β : Type} {r : Option α} {code : ErrorCode} {t : Bytes}
    {f : α → Reader β} {w w' : Bool} {b : β} :
    (require r code t >>= f) w = .ok (b, w') ↔ ∃ a, r = some a ∧ f a w = .ok (b, w') := by
  rw [bind_ok]
  simp only [require_ok]
  constructor
  · rintro ⟨a, _, ⟨hr, rfl⟩, h⟩
    exact ⟨a, hr, h⟩
  · rintro ⟨a, hr, h⟩
    exact ⟨a, w, ⟨hr, rfl⟩, h⟩

theorem arith_ok {bits exact n : ℕ} {w w' : Bool} :
    arith bits exact w = .ok (n, w') ↔ n = exact % 2 ^ bits ∧ w' = (w || decide (2 ^ bits ≤ exact)) := by
  simp [arith, eq_comm]

/-- A sum or product that fits its type. -/
theorem arith_exact {bits exact n : ℕ} {w w' : Bool} (h : exact < 2 ^ bits) :
    arith bits exact w = .ok (n, w') ↔ n = exact ∧ w' = w := by
  rw [arith_ok, Nat.mod_eq_of_lt h, decide_eq_false (by omega), Bool.or_false]

theorem checkedAdd_ok {a b : ℕ} {r : Option ℕ} {w w' : Bool} (hb : b < 2 ^ 64) :
    checkedAdd a b w = .ok (r, w') ↔ r = (if a + b < 2 ^ 64 then some (a + b) else none) ∧ w' = w := by
  unfold checkedAdd
  by_cases h : 2 ^ 64 - 1 - b < a
  · rw [if_pos h, if_neg (by omega), pure_ok]
  · rw [if_neg h, if_pos (by omega)]
    show (arith 64 (a + b) >>= fun n => pure (some n)) w = _ ↔ _
    simp only [bind_ok, arith_exact (show a + b < 2 ^ 64 by omega), pure_ok]
    simp

/-! ## The tally of a list of entries -/

/-- The bytes of the NCA entries of a list, without a bound. -/
def ncaBytes (infos : List NspEntryInfo) : ℕ :=
  ((infos.filter (·.isNca)).map (·.size)).sum

/-- The manifest of a list of entries. -/
def tally (packageSize : ℕ) (infos : List NspEntryInfo) : NspManifest where
  packageSize := packageSize
  totalNcaBytes := ncaBytes infos % 2 ^ 64
  ncaCount := infos.countP (·.isNca)
  cnmtNcaCount := infos.countP (·.isCnmtNca)
  ticketCount := infos.countP (·.isTicket)
  certCount := infos.countP (·.isCert)
  entries := infos

theorem ncaBytes_append_single (infos : List NspEntryInfo) (info : NspEntryInfo) :
    ncaBytes (infos ++ [info]) = ncaBytes infos + if info.isNca then info.size else 0 := by
  unfold ncaBytes
  rw [List.filter_append, List.map_append, List.sum_append]
  cases h : info.isNca <;> simp [h]

theorem addIf_ok {b : Bool} {counter n : ℕ} {w w' : Bool} (h : counter + 1 < 2 ^ 32) :
    addIf 32 b counter 1 w = .ok (n, w') ↔ n = counter + (if b then 1 else 0) ∧ w' = w := by
  cases b with
  | false =>
    show (pure counter : Reader ℕ) w = _ ↔ _
    rw [pure_ok]
    simp
  | true =>
    show arith 32 (counter + 1) w = _ ↔ _
    rw [arith_exact h]
    simp

/-- The sum of the sizes, which may leave its type, and once it has it stays so. -/
theorem addIf_ncaBytes (infos : List NspEntryInfo) (info : NspEntryInfo) (w : Bool) :
    addIf 64 info.isNca (ncaBytes infos % 2 ^ 64) info.size
        (w || decide (2 ^ 64 ≤ ncaBytes infos)) =
      .ok (ncaBytes (infos ++ [info]) % 2 ^ 64,
        w || decide (2 ^ 64 ≤ ncaBytes (infos ++ [info]))) := by
  rw [ncaBytes_append_single]
  cases info.isNca with
  | false =>
    show (pure _ : Reader ℕ) _ = _
    rw [pure_ok]
    simp
  | true =>
    show arith 64 _ _ = _
    rw [arith_ok, if_pos rfl, Nat.mod_add_mod, Bool.or_assoc]
    refine ⟨rfl, congrArg _ ?_⟩
    by_cases h : 2 ^ 64 ≤ ncaBytes infos
    · rw [decide_eq_true (by omega), decide_eq_true h, Bool.true_or]
    · rw [decide_eq_false h, Nat.mod_eq_of_lt (by omega), Bool.false_or]

/-- One more entry is tallied. -/
theorem push_tally {P : ℕ} {infos : List NspEntryInfo} (hlen : infos.length + 1 < 2 ^ 32)
    (info : NspEntryInfo) (w : Bool) :
    (tally P infos).push info (w || decide (2 ^ 64 ≤ ncaBytes infos)) =
      .ok (tally P (infos ++ [info]), w || decide (2 ^ 64 ≤ ncaBytes (infos ++ [info]))) := by
  have hcount : ∀ f : NspEntryInfo → Bool, infos.countP f + 1 < 2 ^ 32 := fun f => by
    have := List.countP_le_length (p := f) (l := infos)
    omega
  have hsingle : ∀ f : NspEntryInfo → Bool,
      infos.countP f + (if f info then 1 else 0) = (infos ++ [info]).countP f := fun f => by
    rw [List.countP_append, List.countP_singleton]
  simp only [NspManifest.push, tally, bind_ok, addIf_ok (hcount _), pure_ok]
  refine ⟨_, _, ⟨rfl, rfl⟩, _, _, addIf_ncaBytes infos info w, _, _, ⟨rfl, rfl⟩, _, _, ⟨rfl, rfl⟩,
    _, _, ⟨rfl, rfl⟩, ?_, rfl⟩
  rw [hsingle, hsingle, hsingle, hsingle]

/-- The loop tallies all of the entries. -/
theorem foldlM_push {P : ℕ} {infos : List NspEntryInfo} (hlen : infos.length < 2 ^ 32) (w : Bool) :
    infos.foldlM NspManifest.push { packageSize := P } w =
      .ok (tally P infos, w || decide (2 ^ 64 ≤ ncaBytes infos)) := by
  induction infos using List.reverseRecOn with
  | nil => simp [tally, ncaBytes, pure_ok]
  | append_singleton infos info ih =>
    have hlen' : infos.length + 1 < 2 ^ 32 := by simpa using hlen
    rw [List.foldlM_append, bind_ok]
    refine ⟨_, _, ih (by omega), ?_⟩
    rw [List.foldlM_cons, bind_ok]
    exact ⟨_, _, push_tally hlen' info w, rfl⟩

/-! ## What the bytes must be like -/

/-- The header of a package. -/
def headerOf (B : Bytes) : Pfs0Header := .decode (slice B 0 headerSize)

/-- Where the string table begins. -/
def stringStart (B : Bytes) : ℕ := headerSize + (headerOf B).fileCount * entrySize

/-- Where the data area begins. -/
def dataStart (B : Bytes) : ℕ := stringStart B + (headerOf B).stringTableSize

/-- The entries of the file table. -/
def rawEntries (B : Bytes) : List Pfs0Entry :=
  decodeEntries (headerOf B).fileCount (slice B headerSize ((headerOf B).fileCount * entrySize))

/-- The string table. -/
def stringTable (B : Bytes) : Bytes := slice B (stringStart B) (headerOf B).stringTableSize

/-- An entry has a name in the string table and its data in the data area. -/
structure EntryFits (B : Bytes) (e : Pfs0Entry) : Prop where
  name : e.stringOffset < (headerOf B).stringTableSize
  terminated : 0 ∈ (stringTable B).drop e.stringOffset
  inside : dataStart B + e.offset + e.size ≤ B.length

/-- A well-formed file table. -/
structure WellFormed (B : Bytes) : Prop where
  magic : (headerOf B).magic = text "PFS0"
  files : 0 < (headerOf B).fileCount ∧ (headerOf B).fileCount ≤ MAX_PFS0_FILES
  strings : (headerOf B).stringTableSize ≤ MAX_STRING_TABLE
  tables : dataStart B ≤ B.length
  entries : ∀ e ∈ rawEntries B, EntryFits B e

/-- What both readers note of an entry. -/
def infoOf (B : Bytes) (e : Pfs0Entry) : NspEntryInfo :=
  entryInfo endsWithCaseInsensitive parseContentIdFromName (cString (stringTable B) e.stringOffset)
    (dataStart B + e.offset) e.size

/-- The entries that the table lists. -/
def listed (B : Bytes) : List NspEntryInfo := (rawEntries B).map (infoOf B)

/-- What both readers ask of the entries. -/
structure Complete (infos : List NspEntryInfo) : Prop where
  nca : 0 < infos.countP (·.isNca)
  rights : infos.countP (·.isTicket) = infos.countP (·.isCert)
  ids : ∀ e ∈ infos, e.isNca = true → e.contentId ≠ none

theorem rawEntries_lt {B : Bytes} {e : Pfs0Entry} (he : e ∈ rawEntries B) :
    e.offset < 2 ^ 64 ∧ e.size < 2 ^ 64 := by
  obtain ⟨i, -, rfl⟩ := List.mem_map.mp he
  exact ⟨ofLe_slice_lt _ _ 8, ofLe_slice_lt _ _ 8⟩

theorem length_rawEntries (B : Bytes) : (rawEntries B).length = (headerOf B).fileCount := by
  simp [rawEntries, decodeEntries]

theorem length_listed (B : Bytes) : (listed B).length = (headerOf B).fileCount := by
  rw [listed, List.length_map, length_rawEntries]

/-! ## The entries -/

/-- The table with the NUL that both readers put behind it. -/
def padded (B : Bytes) : Bytes := stringTable B ++ [0]

section Entries

variable {B : Bytes} (hB : B.length < 2 ^ 64) (ht : dataStart B ≤ B.length)

include ht in
theorem length_stringTable : (stringTable B).length = (headerOf B).stringTableSize := by
  unfold dataStart at ht
  rw [stringTable, length_slice]
  omega

include ht in
/-- The bytes of a name that are searched for its end. -/
theorem remaining_padded {off : ℕ} (h : off < (headerOf B).stringTableSize) :
    ((padded B).drop off).take ((headerOf B).stringTableSize - off) = (stringTable B).drop off := by
  have hlen := length_stringTable ht
  rw [padded, List.drop_append_of_le_length (by omega), List.take_append_of_le_length (by simp [hlen])]
  exact List.take_of_length_le (by simp [hlen])

include ht in
/-- A name that ends in the table does not reach the NUL behind it. -/
theorem cString_padded {off : ℕ} (h : off < (headerOf B).stringTableSize)
    (h0 : 0 ∈ (stringTable B).drop off) : cString (padded B) off = cString (stringTable B) off := by
  have hlen := length_stringTable ht
  unfold cString padded
  rw [List.drop_append_of_le_length (by omega), List.takeWhile_append, if_neg]
  intro heq
  have hall := List.takeWhile_eq_self_iff.mp
    (List.IsPrefix.eq_of_length (List.takeWhile_prefix _) heq) 0 h0
  simp at hall

include ht in
/-- The name tests of the three loops. -/
theorem name_tests {e : Pfs0Entry} :
    (¬(headerOf B).stringTableSize ≤ e.stringOffset ∧
      ¬(0 ∉ ((padded B).drop e.stringOffset).take
        ((headerOf B).stringTableSize - e.stringOffset))) ↔
      e.stringOffset < (headerOf B).stringTableSize ∧
        0 ∈ (stringTable B).drop e.stringOffset := by
  rw [not_le, not_not]
  refine and_congr_right fun h => ?_
  rw [remaining_padded ht h]

include hB ht in
/-- The reader of the stream accepts an entry that fits, and keeps what `infoOf` says. -/
theorem streamEntry_ok {e : Pfs0Entry} (he : e ∈ rawEntries B) {acc : NspManifest × ℕ}
    {out' : NspManifest} {m' : ℕ} {w w' : Bool} :
    streamEntry B.length (headerOf B).stringTableSize (dataStart B) (padded B) acc e w =
        .ok ((out', m'), w') ↔
      EntryFits B e ∧ acc.1.push (infoOf B e) w = .ok (out', w') ∧
        m' = max acc.2 (dataStart B + e.offset + e.size) := by
  obtain ⟨ho, hs⟩ := rawEntries_lt he
  obtain ⟨out, m⟩ := acc
  constructor
  · intro h
    simp only [streamEntry, bind_ok, refuse_ok, require_ok, pure_ok, streamCheckedAdd,
      checkedAdd_ok ho, checkedAdd_ok hs] at h
    obtain ⟨_, _, ⟨hname, rfl⟩, _, _, ⟨h0, rfl⟩, _, _, ⟨rfl, rfl⟩, off, _, ⟨hoff, rfl⟩, _, _,
      ⟨rfl, rfl⟩, fin, _, ⟨hfin, rfl⟩, _, _, ⟨hend, rfl⟩, out₁, _, hpush, hres, rfl⟩ := h
    obtain ⟨hname', h0'⟩ := (name_tests ht).mp ⟨hname, h0⟩
    rw [cString_padded ht hname' h0'] at hpush
    split_ifs at hoff hfin
    obtain rfl := Option.some.inj hoff
    obtain rfl := Option.some.inj hfin
    cases hres
    have hpos : B.length ≠ 0 := by
      have : headerSize ≤ dataStart B := by
        unfold dataStart stringStart
        omega
      unfold headerSize at this
      omega
    exact ⟨⟨hname', h0', by omega⟩, hpush, rfl⟩
  · rintro ⟨⟨hname, h0, hin⟩, hpush, rfl⟩
    have htest := (name_tests ht).mpr ⟨hname, h0⟩
    simp only [streamEntry, bind_ok, refuse_ok, require_ok, pure_ok, streamCheckedAdd,
      checkedAdd_ok ho, checkedAdd_ok hs]
    refine ⟨(), _, ⟨htest.1, rfl⟩, (), _, ⟨htest.2, rfl⟩, _, _, ⟨rfl, rfl⟩, dataStart B + e.offset, _,
      ⟨if_pos (by omega), rfl⟩, _, _, ⟨rfl, rfl⟩, dataStart B + e.offset + e.size, _,
      ⟨if_pos (by omega), rfl⟩, (), _, ⟨by omega, rfl⟩, out', _, ?_, rfl, rfl⟩
    rw [cString_padded ht hname h0]
    exact hpush

include hB ht in
/-- So does the reader of the file. -/
theorem inspectEntry_ok {e : Pfs0Entry} (he : e ∈ rawEntries B) {out out' : NspManifest}
    (hout : out.packageSize = B.length) {w w' : Bool} :
    inspectEntry (headerOf B).stringTableSize (dataStart B) (padded B) out e w =
        .ok (out', w') ↔
      EntryFits B e ∧ out.push (infoOf B e) w = .ok (out', w') := by
  obtain ⟨ho, hs⟩ := rawEntries_lt he
  constructor
  · intro h
    simp only [inspectEntry, bind_ok, refuse_ok, require_ok, checkedAdd_ok hs, hout] at h
    obtain ⟨_, _, ⟨hname, rfl⟩, _, _, ⟨h0, rfl⟩, _, _, ⟨rfl, rfl⟩, fin, _, ⟨hfin, rfl⟩, _, _,
      ⟨hend, rfl⟩, off, _, hoff, hpush⟩ := h
    obtain ⟨hname', h0'⟩ := (name_tests ht).mp ⟨hname, h0⟩
    rw [cString_padded ht hname' h0'] at hpush
    split_ifs at hfin
    obtain rfl := Option.some.inj hfin
    obtain ⟨rfl, rfl⟩ := (arith_exact (by omega)).mp hoff
    exact ⟨⟨hname', h0', by omega⟩, hpush⟩
  · rintro ⟨⟨hname, h0, hin⟩, hpush⟩
    have htest := (name_tests ht).mpr ⟨hname, h0⟩
    simp only [inspectEntry, bind_ok, refuse_ok, require_ok, checkedAdd_ok hs, hout]
    refine ⟨(), _, ⟨htest.1, rfl⟩, (), _, ⟨htest.2, rfl⟩, _, _, ⟨rfl, rfl⟩, e.offset + e.size, _,
      ⟨if_pos (by omega), rfl⟩, (), _, ⟨by omega, rfl⟩, dataStart B + e.offset, _,
      (arith_exact (by omega)).mpr ⟨rfl, rfl⟩, ?_⟩
    rw [cString_padded ht hname h0]
    exact hpush

include hB ht in
/-- The check accepts an entry that fits, and keeps the end of the payload. -/
theorem preflightEntry_ok {e : Pfs0Entry} (he : e ∈ rawEntries B) {i payloadEnd : ℕ}
    (hi : i + 1 < 2 ^ 32) {r : ℕ × ℕ} {w w' : Bool} :
    preflightEntry B.length (headerOf B).stringTableSize (dataStart B) (padded B) (i, payloadEnd) e w =
        .ok (r, w') ↔
      EntryFits B e ∧ r = (i + 1, max payloadEnd (e.offset + e.size)) ∧ w' = w := by
  obtain ⟨ho, hs⟩ := rawEntries_lt he
  constructor
  · intro h
    simp only [preflightEntry, bind_ok, refuse_ok, require_ok, pure_ok, checkedAdd_ok hs,
      arith_exact hi] at h
    obtain ⟨_, _, ⟨hname, rfl⟩, _, _, ⟨h0, rfl⟩, _, _, ⟨rfl, rfl⟩, fin, _, ⟨hfin, rfl⟩, _, _,
      ⟨hend, rfl⟩, _, _, ⟨rfl, rfl⟩, hr, rfl⟩ := h
    obtain ⟨hname', h0'⟩ := (name_tests ht).mp ⟨hname, h0⟩
    split_ifs at hfin
    obtain rfl := Option.some.inj hfin
    exact ⟨⟨hname', h0', by omega⟩, hr, rfl⟩
  · rintro ⟨⟨hname, h0, hin⟩, rfl, rfl⟩
    have htest := (name_tests ht).mpr ⟨hname, h0⟩
    simp only [preflightEntry, bind_ok, refuse_ok, require_ok, pure_ok, checkedAdd_ok hs,
      arith_exact hi]
    exact ⟨(), _, ⟨htest.1, rfl⟩, (), _, ⟨htest.2, rfl⟩, _, _, ⟨rfl, rfl⟩, e.offset + e.size, _,
      ⟨if_pos (by omega), rfl⟩, (), _, ⟨by omega, rfl⟩, _, _, ⟨rfl, rfl⟩, rfl, rfl⟩

include hB ht in
theorem streamLoop_ok {es : List Pfs0Entry} (hes : ∀ e ∈ es, e ∈ rawEntries B)
    (acc : NspManifest × ℕ) {out' : NspManifest} {m' : ℕ} {w w' : Bool} :
    es.foldlM (streamEntry B.length (headerOf B).stringTableSize (dataStart B) (padded B)) acc w =
        .ok ((out', m'), w') ↔
      (∀ e ∈ es, EntryFits B e) ∧ (es.map (infoOf B)).foldlM NspManifest.push acc.1 w = .ok (out', w') ∧
        m' = es.foldl (fun m e => max m (dataStart B + e.offset + e.size)) acc.2 := by
  induction es generalizing acc w with
  | nil =>
    obtain ⟨out, m⟩ := acc
    simp only [List.foldlM_nil, pure_ok, List.map_nil, List.foldl_nil, Prod.mk.injEq,
      List.not_mem_nil, false_implies, implies_true, true_and]
    tauto
  | cons e es ih =>
    have he := hes e List.mem_cons_self
    have ih' := @ih fun x hx => hes x (List.mem_cons_of_mem _ hx)
    rw [List.foldlM_cons, bind_ok, List.map_cons, List.foldlM_cons, bind_ok, List.foldl_cons,
      List.forall_mem_cons]
    constructor
    · rintro ⟨⟨out₁, m₁⟩, w₁, h₁, h₂⟩
      obtain ⟨hfit, hpush, rfl⟩ := (streamEntry_ok hB ht he).mp h₁
      obtain ⟨hfits, hrest, rfl⟩ := (ih' _).mp h₂
      exact ⟨⟨hfit, hfits⟩, ⟨out₁, w₁, hpush, hrest⟩, rfl⟩
    · rintro ⟨⟨hfit, hfits⟩, ⟨out₁, w₁, hpush, hrest⟩, rfl⟩
      exact ⟨(out₁, _), w₁, (streamEntry_ok hB ht he).mpr ⟨hfit, hpush, rfl⟩,
        (ih' _).mpr ⟨hfits, hrest, rfl⟩⟩

theorem push_packageSize {out out' : NspManifest} {info : NspEntryInfo} {w w' : Bool}
    (h : out.push info w = .ok (out', w')) : out'.packageSize = out.packageSize := by
  simp only [NspManifest.push, bind_ok, pure_ok] at h
  obtain ⟨_, _, -, _, _, -, _, _, -, _, _, -, _, _, -, rfl, -⟩ := h
  rfl

theorem push_entries {out out' : NspManifest} {info : NspEntryInfo} {w w' : Bool}
    (h : out.push info w = .ok (out', w')) : out'.entries = out.entries ++ [info] := by
  simp only [NspManifest.push, bind_ok, pure_ok] at h
  obtain ⟨_, _, -, _, _, -, _, _, -, _, _, -, _, _, -, rfl, -⟩ := h
  rfl

include hB ht in
theorem inspectLoop_ok {es : List Pfs0Entry} (hes : ∀ e ∈ es, e ∈ rawEntries B)
    {out out' : NspManifest} (hout : out.packageSize = B.length) {w w' : Bool} :
    es.foldlM (inspectEntry (headerOf B).stringTableSize (dataStart B) (padded B)) out w =
        .ok (out', w') ↔
      (∀ e ∈ es, EntryFits B e) ∧
        (es.map (infoOf B)).foldlM NspManifest.push out w = .ok (out', w') := by
  induction es generalizing out w with
  | nil => simp [pure_ok]
  | cons e es ih =>
    have he := hes e List.mem_cons_self
    rw [List.foldlM_cons, bind_ok, List.map_cons, List.foldlM_cons, bind_ok, List.forall_mem_cons]
    constructor
    · rintro ⟨out₁, w₁, h₁, h₂⟩
      obtain ⟨hfit, hpush⟩ := (inspectEntry_ok hB ht he hout).mp h₁
      obtain ⟨hfits, hrest⟩ := (ih (fun x hx => hes x (List.mem_cons_of_mem _ hx))
        ((push_packageSize hpush).trans hout)).mp h₂
      exact ⟨⟨hfit, hfits⟩, out₁, w₁, hpush, hrest⟩
    · rintro ⟨⟨hfit, hfits⟩, out₁, w₁, hpush, hrest⟩
      exact ⟨out₁, w₁, (inspectEntry_ok hB ht he hout).mpr ⟨hfit, hpush⟩,
        (ih (fun x hx => hes x (List.mem_cons_of_mem _ hx))
          ((push_packageSize hpush).trans hout)).mpr ⟨hfits, hrest⟩⟩

include hB ht in
theorem preflightLoop_ok {es : List Pfs0Entry} (hes : ∀ e ∈ es, e ∈ rawEntries B)
    {i : ℕ} (payloadEnd : ℕ) (hi : i + es.length < 2 ^ 32) {r : ℕ × ℕ} {w w' : Bool} :
    es.foldlM (preflightEntry B.length (headerOf B).stringTableSize (dataStart B) (padded B))
        (i, payloadEnd) w = .ok (r, w') ↔
      (∀ e ∈ es, EntryFits B e) ∧
        r = (i + es.length, es.foldl (fun m e => max m (e.offset + e.size)) payloadEnd) ∧ w' = w := by
  induction es generalizing i payloadEnd with
  | nil => simp [pure_ok]
  | cons e es ih =>
    have he := hes e List.mem_cons_self
    rw [List.length_cons] at hi
    have ih' := @ih (fun x hx => hes x (List.mem_cons_of_mem _ hx)) (i + 1)
      (max payloadEnd (e.offset + e.size)) (by omega)
    rw [List.foldlM_cons, bind_ok, List.forall_mem_cons, List.foldl_cons, List.length_cons]
    constructor
    · rintro ⟨r₁, w₁, h₁, h₂⟩
      obtain ⟨hfit, rfl, rfl⟩ := (preflightEntry_ok hB ht he (by omega)).mp h₁
      obtain ⟨hfits, rfl, rfl⟩ := ih'.mp h₂
      exact ⟨⟨hfit, hfits⟩, by rw [Nat.add_right_comm, Nat.add_assoc], rfl⟩
    · rintro ⟨⟨hfit, hfits⟩, rfl, rfl⟩
      refine ⟨_, _, (preflightEntry_ok hB ht he (by omega)).mpr ⟨hfit, rfl, rfl⟩,
        ih'.mpr ⟨hfits, ?_, rfl⟩⟩
      rw [Nat.add_right_comm, Nat.add_assoc]

end Entries

/-! ## The readers -/

theorem unnamedNca_isSome (P : ℕ) (infos : List NspEntryInfo) :
    (unnamedNca (tally P infos)).isSome = true ↔
      ¬∀ e ∈ infos, e.isNca = true → e.contentId ≠ none := by
  unfold unnamedNca tally
  rw [List.find?_isSome]
  simp only [Bool.and_eq_true, Option.isNone_iff_eq_none, not_forall, not_not, exists_prop]

/-- A read of the stream, and of the file, of bytes that are there. -/
theorem readExact_eq_some {B bs : Bytes} {pos n : ℕ} :
    readExact B pos n = some bs ↔ pos + n ≤ B.length ∧ slice B pos n = bs := by
  unfold readExact
  split <;> simp_all

theorem read_eq_some {B bs : Bytes} {pos n : ℕ} (h : pos + n ≤ B.length) :
    PackageReader.read B pos n = some bs ↔ slice B pos n = bs := by
  unfold PackageReader.read
  by_cases hn : n = 0
  · subst hn
    simp [slice]
  · rw [if_neg hn, if_neg (by omega), Option.some.injEq]

theorem headerOf_lt (B : Bytes) : (headerOf B).stringTableSize < 2 ^ 32 :=
  ofLe_slice_lt _ _ 4

/-- The sizes of the tables fit their types. -/
theorem tables_lt {B : Bytes} (hf : (headerOf B).fileCount ≤ MAX_PFS0_FILES) :
    (headerOf B).fileCount * entrySize < 2 ^ 32 ∧ (headerOf B).fileCount < 2 ^ 32 := by
  unfold MAX_PFS0_FILES at hf
  unfold entrySize
  omega

theorem tally_checks {P : ℕ} {infos : List NspEntryInfo} :
    (¬(tally P infos).ncaCount = 0 ∧ ¬(tally P infos).ticketCount ≠ (tally P infos).certCount ∧
      ¬(unnamedNca (tally P infos)).isSome = true) ↔ Complete infos := by
  rw [unnamedNca_isSome, not_not, not_not]
  constructor
  · rintro ⟨hn, hr, hid⟩
    exact ⟨Nat.pos_of_ne_zero hn, hr, hid⟩
  · rintro ⟨hn, hr, hid⟩
    exact ⟨hn.ne', hr, hid⟩

/-- The limits on the header, as the readers of the file test them. -/
theorem limits {B : Bytes} :
    ¬((headerOf B).fileCount = 0 ∨ MAX_PFS0_FILES < (headerOf B).fileCount ∨
        MAX_STRING_TABLE < (headerOf B).stringTableSize) ↔
      (0 < (headerOf B).fileCount ∧ (headerOf B).fileCount ≤ MAX_PFS0_FILES) ∧
        (headerOf B).stringTableSize ≤ MAX_STRING_TABLE := by
  simp only [not_or, not_lt, ← Nat.pos_iff_ne_zero, and_assoc]

/-- Where the readers of the file look for the tables. -/
theorem tables_ok {B : Bytes} (hf : (headerOf B).fileCount ≤ MAX_PFS0_FILES) {n ds st : ℕ}
    {sum sum' : Option ℕ} {w w₁ w₂ w₃ : Bool}
    (hn : arith 64 ((headerOf B).fileCount * entrySize) w = .ok (n, w₁))
    (hsum : checkedAdd headerSize n w₁ = .ok (sum, w₂)) (hst : sum = some st)
    (hsum' : checkedAdd st (headerOf B).stringTableSize w₂ = .ok (sum', w₃))
    (hds : sum' = some ds) :
    n = (headerOf B).fileCount * entrySize ∧ ds = dataStart B ∧ w₃ = w := by
  obtain ⟨ht, hf'⟩ := tables_lt hf
  have hs := headerOf_lt B
  obtain ⟨rfl, rfl⟩ := (arith_exact (by omega)).mp hn
  obtain ⟨rfl, rfl⟩ := (checkedAdd_ok (by omega)).mp hsum
  have hst' : st = stringStart B := by
    unfold headerSize at hst
    rw [if_pos (by omega)] at hst
    exact (Option.some.inj hst).symm
  subst hst'
  obtain ⟨rfl, rfl⟩ := (checkedAdd_ok (by omega)).mp hsum'
  have hlt : stringStart B + (headerOf B).stringTableSize < 2 ^ 64 := by
    unfold stringStart headerSize
    omega
  rw [if_pos hlt] at hds
  exact ⟨rfl, (Option.some.inj hds).symm, rfl⟩

/-- The sums of the tables in a package with these limits. -/
theorem tables_run {B : Bytes} (hf : (headerOf B).fileCount ≤ MAX_PFS0_FILES) (w : Bool) :
    arith 64 ((headerOf B).fileCount * entrySize) w =
        .ok ((headerOf B).fileCount * entrySize, w) ∧
      checkedAdd headerSize ((headerOf B).fileCount * entrySize) w = .ok (some (stringStart B), w) ∧
      checkedAdd (stringStart B) (headerOf B).stringTableSize w = .ok (some (dataStart B), w) := by
  obtain ⟨ht, hf'⟩ := tables_lt hf
  have hs := headerOf_lt B
  have h₁ : stringStart B < 2 ^ 33 := by
    unfold stringStart headerSize
    omega
  refine ⟨(arith_exact (by omega)).mpr ⟨rfl, rfl⟩, (checkedAdd_ok (by omega)).mpr ⟨?_, rfl⟩,
    (checkedAdd_ok (by omega)).mpr ⟨?_, rfl⟩⟩
  · rw [if_pos (by unfold headerSize; omega)]
    rfl
  · rw [if_pos (by omega)]
    rfl

theorem padded_lt {B : Bytes} (h : (headerOf B).stringTableSize ≤ MAX_STRING_TABLE) :
    (headerOf B).stringTableSize + 1 < 2 ^ 32 := by
  unfold MAX_STRING_TABLE at h
  omega

theorem WellFormed.stringStart_le {B : Bytes} (h : WellFormed B) : stringStart B ≤ B.length :=
  (Nat.le_add_right _ _).trans h.tables

theorem WellFormed.headerSize_le {B : Bytes} (h : WellFormed B) : headerSize ≤ B.length :=
  (Nat.le_add_right _ _).trans h.stringStart_le

/-- The list of a well-formed table is tallied without a counter leaving its type. -/
theorem WellFormed.foldlM_push {B : Bytes} (h : WellFormed B) (P : ℕ) (w : Bool) :
    (listed B).foldlM NspManifest.push { packageSize := P } w =
      .ok (tally P (listed B), w || decide (2 ^ 64 ≤ ncaBytes (listed B))) :=
  Nsp.foldlM_push (by rw [length_listed]; exact (tables_lt h.files.2).2) w

/-- What the reader of the file accepts, and what it reports. -/
theorem inspectNspManifest_ok {B : Bytes} (hB : B.length < 2 ^ 64) {m : NspManifest} {w w' : Bool} :
    inspectNspManifest B w = .ok (m, w') ↔
      WellFormed B ∧ Complete (listed B) ∧ 0 < (listed B).countP (·.isCnmtNca) ∧
        m = tally B.length (listed B) ∧ w' = (w || decide (2 ^ 64 ≤ ncaBytes (listed B))) := by
  constructor
  · intro h
    simp only [inspectNspManifest, contentChecks] at h
    simp only [↓refuse_bind_ok, ↓require_bind_ok, bind_ok, pure_ok] at h
    obtain ⟨hsize, bs, hread, hmagic, hlim, n, _, hn, sum, _, hsum, st, hst, sum', _, hsum', ds,
      hds, hout, es, hes, k, _, hk, tab, htab, out, _, hloop, hnca, hcnmt, htik, hid, rfl, rfl⟩ := h
    obtain rfl := (read_eq_some (by omega)).mp hread
    obtain ⟨hfiles, hstrings⟩ := limits.mp hlim
    obtain ⟨rfl, rfl, rfl⟩ := tables_ok hfiles.2 hn hsum hst hsum' hds
    have ht : dataStart B ≤ B.length := not_lt.mp hout
    have hst₀ : stringStart B ≤ dataStart B := Nat.le_add_right _ _
    obtain rfl := (read_eq_some (by unfold stringStart at hst₀; exact hst₀.trans ht)).mp hes
    obtain ⟨-, rfl⟩ := (arith_exact (padded_lt hstrings)).mp hk
    obtain rfl := (read_eq_some ht).mp htab
    obtain ⟨hfits, hpush⟩ := (inspectLoop_ok hB ht (fun _ h => h) rfl).mp hloop
    have hwf : WellFormed B := ⟨not_not.mp hmagic, hfiles, hstrings, ht, hfits⟩
    cases hpush.symm.trans (hwf.foldlM_push _ _)
    exact ⟨hwf, tally_checks.mp ⟨hnca, htik, hid⟩, Nat.pos_of_ne_zero hcnmt, rfl, rfl⟩
  · rintro ⟨hwf, hc, hcnmt, rfl, rfl⟩
    obtain ⟨hn, hsum, hsum'⟩ := tables_run hwf.files.2 w
    obtain ⟨hnca, htik, hid⟩ := (tally_checks (P := B.length)).mpr hc
    have hloop := (inspectLoop_ok hB hwf.tables (fun _ h => h) rfl).mpr
      ⟨hwf.entries, hwf.foldlM_push B.length w⟩
    simp only [inspectNspManifest, contentChecks]
    simp only [↓refuse_bind_ok, ↓require_bind_ok, bind_ok, pure_ok]
    exact ⟨not_lt.mpr hwf.headerSize_le, _,
      (read_eq_some (by simpa using hwf.headerSize_le)).mpr rfl, not_not.mpr hwf.magic,
      limits.mpr ⟨hwf.files, hwf.strings⟩, _, _, hn, _, _, hsum, _, rfl, _, _, hsum', _, rfl,
      not_lt.mpr hwf.tables, _, (read_eq_some hwf.stringStart_le).mpr rfl, _, _,
      (arith_exact (padded_lt hwf.strings)).mpr ⟨rfl, rfl⟩, _,
      (read_eq_some hwf.tables).mpr rfl, _, _, hloop, hnca, hcnmt.ne', htik, hid, rfl, rfl⟩

/-- The reader of the stream adds the sizes of the tables as it consumes them. -/
theorem consumed_ok {B : Bytes} (hf : (headerOf B).fileCount ≤ MAX_PFS0_FILES) {c₀ n c₁ c₂ : ℕ}
    {w w₁ w₂ w₃ w₄ : Bool} (h₀ : arith 64 (0 + headerSize) w = .ok (c₀, w₁))
    (hn : arith 64 ((headerOf B).fileCount * entrySize) w₁ = .ok (n, w₂))
    (h₁ : arith 64 (c₀ + n) w₂ = .ok (c₁, w₃))
    (h₂ : arith 64 (c₁ + (headerOf B).stringTableSize) w₃ = .ok (c₂, w₄)) :
    c₀ = headerSize ∧ n = (headerOf B).fileCount * entrySize ∧ c₁ = stringStart B ∧
      c₂ = dataStart B ∧ w₄ = w := by
  obtain ⟨ht, hf'⟩ := tables_lt hf
  have hs := headerOf_lt B
  have h16 : headerSize = 16 := rfl
  obtain ⟨rfl, rfl⟩ := (arith_exact (by omega)).mp h₀
  obtain ⟨rfl, rfl⟩ := (arith_exact (by omega)).mp hn
  obtain ⟨rfl, rfl⟩ := (arith_exact (by omega)).mp h₁
  obtain ⟨rfl, rfl⟩ := (arith_exact (by omega)).mp h₂
  unfold dataStart stringStart
  exact ⟨by omega, rfl, by omega, by omega, rfl⟩

/-- What the reader of the stream accepts, and what it reports. -/
theorem parseStreamManifest_ok {B : Bytes} (hB : B.length < 2 ^ 64) {m : NspManifest} {c : ℕ}
    {w w' : Bool} :
    parseStreamManifest B.length B w = .ok ((m, c), w') ↔
      WellFormed B ∧ Complete (listed B) ∧ (listed B).countP (·.isCnmtNca) = 1 ∧
        m = tally B.length (listed B) ∧ c = dataStart B ∧
        w' = (w || decide (2 ^ 64 ≤ ncaBytes (listed B))) := by
  constructor
  · intro h
    simp only [parseStreamManifest] at h
    simp only [↓refuse_bind_ok, ↓require_bind_ok, bind_ok, pure_ok] at h
    obtain ⟨bs, hread, c₀, w₁, h₀, hmagic, hlim, n, w₂, hn, hmax, es, hes, c₁, w₃, h₁, k, w₄, hk,
      tab, htab, c₂, w₅, h₂, ⟨out, minimum⟩, w₆, hloop, hnca, hcnmt, htik, hid, hres, rfl⟩ := h
    obtain ⟨h16, rfl⟩ := readExact_eq_some.mp hread
    have hpos : B.length ≠ 0 := by
      unfold headerSize at h16
      omega
    obtain ⟨hfiles, hstrings⟩ := limits.mp hlim
    obtain ⟨-, rfl⟩ := (arith_exact ((padded_lt hstrings).trans (by norm_num))).mp hk
    obtain ⟨rfl, rfl, rfl, rfl, rfl⟩ := consumed_ok hfiles.2 h₀ hn h₁ h₂
    obtain ⟨-, rfl⟩ := readExact_eq_some.mp hes
    obtain ⟨ht, rfl⟩ := readExact_eq_some.mp htab
    obtain ⟨hfits, hpush, -⟩ := (streamLoop_ok hB ht (fun _ h => h) _).mp hloop
    have hwf : WellFormed B := ⟨not_not.mp hmagic, hfiles, hstrings, ht, hfits⟩
    cases hpush.symm.trans (hwf.foldlM_push _ _)
    rw [if_neg hpos] at hnca hcnmt htik hid hres
    cases hres
    exact ⟨hwf, tally_checks.mp ⟨hnca, htik, hid⟩, not_not.mp hcnmt, rfl, rfl, rfl⟩
  · rintro ⟨hwf, hc, hcnmt, rfl, rfl, rfl⟩
    obtain ⟨ht, hf⟩ := tables_lt hwf.files.2
    have hs := headerOf_lt B
    have h16 : headerSize = 16 := rfl
    have h₁ : (headerOf B).fileCount * entrySize < 2 ^ 64 := by omega
    have h₂ : headerSize + (headerOf B).fileCount * entrySize < 2 ^ 64 := by omega
    have h₃ : stringStart B + (headerOf B).stringTableSize < 2 ^ 64 := by
      unfold stringStart
      omega
    have hpos : B.length ≠ 0 := by
      have := hwf.headerSize_le
      omega
    obtain ⟨hnca, htik, hid⟩ := (tally_checks (P := B.length)).mpr hc
    have hloop := (streamLoop_ok hB hwf.tables (fun _ h => h) ({ packageSize := B.length },
      dataStart B)).mpr ⟨hwf.entries, hwf.foldlM_push B.length w, rfl⟩
    simp only [parseStreamManifest]
    simp only [↓refuse_bind_ok, ↓require_bind_ok, bind_ok, pure_ok]
    refine ⟨_, readExact_eq_some.mpr ⟨by simpa using hwf.headerSize_le, rfl⟩, headerSize, _,
      (arith_exact (by omega)).mpr ⟨(Nat.zero_add _).symm, rfl⟩, not_not.mpr hwf.magic,
      limits.mpr ⟨hwf.files, hwf.strings⟩, (headerOf B).fileCount * entrySize, _,
      (arith_exact h₁).mpr ⟨rfl, rfl⟩, by omega, _,
      readExact_eq_some.mpr ⟨hwf.stringStart_le, rfl⟩, stringStart B, _,
      (arith_exact h₂).mpr ⟨rfl, rfl⟩, _, _,
      (arith_exact ((padded_lt hwf.strings).trans (by norm_num))).mpr ⟨rfl, rfl⟩, _,
      readExact_eq_some.mpr ⟨hwf.tables, rfl⟩, dataStart B, _,
      (arith_exact h₃).mpr ⟨rfl, rfl⟩, _, _, hloop, ?_⟩
    simp only [if_neg hpos]
    exact ⟨hnca, not_not.mpr hcnmt, htik, hid, trivial, trivial⟩

/-- The end of the payload that the table declares. -/
def payloadEnd (B : Bytes) : ℕ := (rawEntries B).foldl (fun m e => max m (e.offset + e.size)) 0

/-- What the check accepts, and what it reports. -/
theorem preflightPackage_ok {path B : Bytes} (hB : B.length < 2 ^ 64) {checkSdSpace : Bool}
    {sdFreeBytes : ℤ} {p : PackagePreflight} {w w' : Bool} :
    preflightPackage path B checkSdSpace sdFreeBytes w = .ok (p, w') ↔
      WellFormed B ∧ lowerExt path = text ".nsp" ∧
        ¬(checkSdSpace ∧ 0 ≤ sdFreeBytes ∧ sdFreeBytes < payloadEnd B) ∧
        p = { packageSize := B.length, declaredPayloadSize := payloadEnd B,
              fileCount := (headerOf B).fileCount,
              packageType := if lowerExt path = [] then text "unknown" else (lowerExt path).drop 1 } ∧
        w' = w := by
  constructor
  · intro h
    simp only [preflightPackage] at h
    simp only [↓refuse_bind_ok, ↓require_bind_ok, bind_ok, pure_ok] at h
    obtain ⟨hext, hsize, bs, hread, hmagic, hlim, n, _, hn, sum, _, hsum, st, hst, sum', _, hsum',
      ds, hds, hout, es, hes, k, _, hk, tab, htab, ⟨i, fin⟩, _, hloop, hspace, rfl, rfl⟩ := h
    obtain rfl := (read_eq_some (by omega)).mp hread
    obtain ⟨hfiles, hstrings⟩ := limits.mp hlim
    obtain ⟨rfl, rfl, rfl⟩ := tables_ok hfiles.2 hn hsum hst hsum' hds
    have ht : dataStart B ≤ B.length := not_lt.mp hout
    have hst₀ : stringStart B ≤ dataStart B := Nat.le_add_right _ _
    obtain rfl := (read_eq_some (by unfold stringStart at hst₀; exact hst₀.trans ht)).mp hes
    obtain ⟨-, rfl⟩ := (arith_exact (padded_lt hstrings)).mp hk
    obtain rfl := (read_eq_some ht).mp htab
    have hlen : 0 + (rawEntries B).length < 2 ^ 32 := by
      rw [length_rawEntries, Nat.zero_add]
      exact (tables_lt hfiles.2).2
    obtain ⟨hfits, hr, rfl⟩ := (preflightLoop_ok hB ht (fun _ h => h) _ hlen).mp hloop
    cases hr
    exact ⟨⟨not_not.mp hmagic, hfiles, hstrings, ht, hfits⟩, not_not.mp hext, hspace, rfl, rfl⟩
  · rintro ⟨hwf, hext, hspace, rfl, rfl⟩
    obtain ⟨hn, hsum, hsum'⟩ := tables_run hwf.files.2 w'
    have hlen : 0 + (rawEntries B).length < 2 ^ 32 := by
      rw [length_rawEntries, Nat.zero_add]
      exact (tables_lt hwf.files.2).2
    have hloop := (preflightLoop_ok hB hwf.tables (fun _ h => h) 0 hlen (w := w')).mpr
      ⟨hwf.entries, rfl, rfl⟩
    simp only [preflightPackage]
    simp only [↓refuse_bind_ok, ↓require_bind_ok, bind_ok, pure_ok]
    exact ⟨not_not.mpr hext, not_lt.mpr hwf.headerSize_le, _,
      (read_eq_some (by simpa using hwf.headerSize_le)).mpr rfl, not_not.mpr hwf.magic,
      limits.mpr ⟨hwf.files, hwf.strings⟩, _, _, hn, _, _, hsum, _, rfl, _, _, hsum', _, rfl,
      not_lt.mpr hwf.tables, _, (read_eq_some hwf.stringStart_le).mpr rfl, _, _,
      (arith_exact (padded_lt hwf.strings)).mpr ⟨rfl, rfl⟩, _,
      (read_eq_some hwf.tables).mpr rfl, _, _, hloop, hspace, rfl, rfl⟩

/-! ## The readers agree -/

/-- An entry of a manifest has its data in the data area and its name, with the NUL, in the
string table. -/
structure InfoFits (B : Bytes) (e : NspEntryInfo) : Prop where
  above : dataStart B ≤ e.offset
  inside : e.offset + e.size ≤ B.length
  name : ∃ off < (headerOf B).stringTableSize, e.name ++ [0] <+: (stringTable B).drop off

theorem WellFormed.infoFits {B : Bytes} (h : WellFormed B) : ∀ e ∈ listed B, InfoFits B e := by
  intro e he
  obtain ⟨raw, hraw, rfl⟩ := List.mem_map.mp he
  obtain ⟨hname, h0, hin⟩ := h.entries raw hraw
  refine ⟨Nat.le_add_right _ _, hin, raw.stringOffset, hname, ?_⟩
  -- the name ends at the first NUL
  have hsplit := List.takeWhile_append_dropWhile (p := (· ≠ (0 : UInt8)))
    (l := (stringTable B).drop raw.stringOffset)
  cases hd : ((stringTable B).drop raw.stringOffset).dropWhile (· ≠ (0 : UInt8)) with
  | nil =>
    have hall := List.dropWhile_eq_nil_iff.mp hd 0 h0
    simp at hall
  | cons c rest =>
    have hc : c = 0 := by
      have h := List.head?_dropWhile_not (· ≠ (0 : UInt8)) ((stringTable B).drop raw.stringOffset)
      rw [hd] at h
      simpa using h
    rw [hd, hc] at hsplit
    exact ⟨rest, by rw [List.append_assoc]; exact hsplit⟩

/-- The three readers agree on a package, stay in its bounds, and no sum or product of theirs
leaves its type when they accept it. -/
structure ReadersAgree (B : Bytes) : Prop where
  accept : (∃ m c w, parseStreamManifest B.length B false = .ok ((m, c), w)) ↔
    ∃ m w, inspectNspManifest B false = .ok (m, w) ∧ m.cnmtNcaCount = 1
  report : ∀ m c w m' w', parseStreamManifest B.length B false = .ok ((m, c), w) →
    inspectNspManifest B false = .ok (m', w') → m = m'
  preflight : ((∃ m c w, parseStreamManifest B.length B false = .ok ((m, c), w)) ∨
      ∃ m w, inspectNspManifest B false = .ok (m, w)) →
    ∀ path checkSdSpace sdFreeBytes,
      (∃ p w, preflightPackage path B checkSdSpace sdFreeBytes false = .ok (p, w)) ↔
        lowerExt path = text ".nsp" ∧
          ¬(checkSdSpace ∧ 0 ≤ sdFreeBytes ∧ sdFreeBytes < payloadEnd B)
  streamFits : ∀ m c w, parseStreamManifest B.length B false = .ok ((m, c), w) →
    ∀ e ∈ m.entries, InfoFits B e
  inspectFits : ∀ m w, inspectNspManifest B false = .ok (m, w) → ∀ e ∈ m.entries, InfoFits B e
  preflightFits : ∀ path checkSdSpace sdFreeBytes p w,
    preflightPackage path B checkSdSpace sdFreeBytes false = .ok (p, w) →
    ∀ e ∈ rawEntries B, EntryFits B e
  streamExact : ∀ m c w, parseStreamManifest B.length B false = .ok ((m, c), w) → w = false
  inspectExact : ∀ m w, inspectNspManifest B false = .ok (m, w) → w = false
  preflightExact : ∀ path checkSdSpace sdFreeBytes p w,
    preflightPackage path B checkSdSpace sdFreeBytes false = .ok (p, w) → w = false

/-- A package whose table is in order, with everything an installation needs. -/
def Installable (B : Bytes) : Prop :=
  WellFormed B ∧ Complete (listed B) ∧ 0 < (listed B).countP (·.isCnmtNca)

/-- No package of at most 256 TiB lists so many bytes. -/
theorem WellFormed.ncaBytes_lt {B : Bytes} (h : WellFormed B) (hB : B.length ≤ 2 ^ 48) :
    ncaBytes (listed B) < 2 ^ 64 := by
  have hlen : ((listed B).filter (·.isNca)).length ≤ 2 ^ 16 := by
    have hfilter := List.length_filter_le (·.isNca) (listed B)
    have hfiles := h.files.2
    rw [length_listed] at hfilter
    unfold MAX_PFS0_FILES at hfiles
    omega
  have hsize : ∀ x ∈ ((listed B).filter (·.isNca)).map (·.size), x ≤ 2 ^ 48 - 1 := by
    intro x hx
    obtain ⟨e, he, rfl⟩ := List.mem_map.mp hx
    obtain ⟨habove, hin, -⟩ := h.infoFits e (List.mem_of_mem_filter he)
    have hpos : headerSize ≤ dataStart B := (Nat.le_add_right _ _).trans (Nat.le_add_right _ _)
    unfold headerSize at hpos
    omega
  have hsum := List.sum_le_card_nsmul _ _ hsize
  rw [List.length_map, smul_eq_mul] at hsum
  calc ncaBytes (listed B) ≤ _ := hsum
    _ ≤ 2 ^ 16 * (2 ^ 48 - 1) := Nat.mul_le_mul_right _ hlen
    _ < 2 ^ 64 := by norm_num

/-- **The three readers agree**, in bounds and without a sum that leaves its type, on every
package but those whose NCA entries, together, list 2⁶⁴ bytes or more. -/
theorem readers_agree_iff (B : Bytes) (hB : B.length < 2 ^ 64) :
    ReadersAgree B ↔ ¬(Installable B ∧ 2 ^ 64 ≤ ncaBytes (listed B)) := by
  constructor
  · rintro h ⟨⟨hwf, hc, hn⟩, hsum⟩
    have hok := (inspectNspManifest_ok hB (w := false)).mpr ⟨hwf, hc, hn, rfl, rfl⟩
    have hw := h.inspectExact _ _ hok
    rw [decide_eq_true hsum] at hw
    cases hw
  · intro hnot
    have hsum : WellFormed B → Complete (listed B) → 0 < (listed B).countP (·.isCnmtNca) →
        decide (2 ^ 64 ≤ ncaBytes (listed B)) = false := fun hwf hc hn => by
      rw [decide_eq_false_iff_not]
      exact fun h => hnot ⟨⟨hwf, hc, hn⟩, h⟩
    constructor
    · simp only [parseStreamManifest_ok hB, inspectNspManifest_ok hB]
      constructor
      · rintro ⟨m, c, w, hwf, hc, hone, -, -, -⟩
        exact ⟨_, _, ⟨hwf, hc, by omega, rfl, rfl⟩, hone⟩
      · rintro ⟨m, w, ⟨hwf, hc, -, rfl, -⟩, hone⟩
        exact ⟨_, _, _, hwf, hc, hone, rfl, rfl, rfl⟩
    · intro m c w m' w' hs hi
      obtain ⟨-, -, -, rfl, -⟩ := (parseStreamManifest_ok hB).mp hs
      obtain ⟨-, -, -, rfl, -⟩ := (inspectNspManifest_ok hB).mp hi
      rfl
    · intro hacc path checkSdSpace sdFreeBytes
      have hwf : WellFormed B := by
        rcases hacc with ⟨m, c, w, hs⟩ | ⟨m, w, hi⟩
        · exact ((parseStreamManifest_ok hB).mp hs).1
        · exact ((inspectNspManifest_ok hB).mp hi).1
      simp only [preflightPackage_ok hB]
      constructor
      · rintro ⟨p, w, -, hext, hspace, -, -⟩
        exact ⟨hext, hspace⟩
      · rintro ⟨hext, hspace⟩
        exact ⟨_, _, hwf, hext, hspace, rfl, rfl⟩
    · intro m c w hs
      obtain ⟨hwf, -, -, rfl, -⟩ := (parseStreamManifest_ok hB).mp hs
      exact hwf.infoFits
    · intro m w hi
      obtain ⟨hwf, -, -, rfl, -⟩ := (inspectNspManifest_ok hB).mp hi
      exact hwf.infoFits
    · intro path checkSdSpace sdFreeBytes p w hp
      exact ((preflightPackage_ok hB).mp hp).1.entries
    · intro m c w hs
      obtain ⟨hwf, hc, hone, -, -, rfl⟩ := (parseStreamManifest_ok hB).mp hs
      exact hsum hwf hc (by omega)
    · intro m w hi
      obtain ⟨hwf, hc, hn, -, rfl⟩ := (inspectNspManifest_ok hB).mp hi
      exact hsum hwf hc hn
    · intro path checkSdSpace sdFreeBytes p w hp
      exact ((preflightPackage_ok hB).mp hp).2.2.2.2

/-- The tables of a package with a CNMT and another NCA, both of the same `n` bytes. -/
def twinTables (n : ℕ) : Bytes :=
  [80, 70, 83, 48] ++ le 4 2 ++ le 4 79 ++ le 4 0 ++
    (le 8 0 ++ le 8 n ++ le 4 0 ++ le 4 0) ++ (le 8 0 ++ le 8 n ++ le 4 42 ++ le 4 0) ++
    (List.replicate 32 48 ++ [46, 99, 110, 109, 116, 46, 110, 99, 97, 0]) ++
    (List.replicate 32 49 ++ [46, 110, 99, 97, 0])

/-- The package with these tables. -/
def twinPackage (n : ℕ) : Bytes := twinTables n ++ zeros n

theorem length_twinTables (n : ℕ) : (twinTables n).length = 143 := by
  simp [twinTables]

theorem readers_agree_twin : ReadersAgree (twinPackage 8) :=
  (readers_agree_iff (twinPackage 8) (by
    rw [twinPackage, List.length_append, length_twinTables, length_zeros]
    norm_num)).mpr fun h => absurd h.2 (by decide)

/-- What the tables say does not depend on the data behind them. -/
theorem listed_append {T : Bytes} (zs : Bytes) (h : dataStart T ≤ T.length) :
    headerOf (T ++ zs) = headerOf T ∧ dataStart (T ++ zs) = dataStart T ∧
      rawEntries (T ++ zs) = rawEntries T ∧ stringTable (T ++ zs) = stringTable T := by
  have hs : stringStart T ≤ T.length := (Nat.le_add_right _ _).trans h
  have hh : headerSize ≤ T.length := (Nat.le_add_right _ _).trans hs
  have hdr : headerOf (T ++ zs) = headerOf T := by
    rw [headerOf, slice_append_left (by simpa using hh)]
    rfl
  have hst : stringStart (T ++ zs) = stringStart T := by rw [stringStart, hdr, stringStart]
  refine ⟨hdr, by rw [dataStart, hst, hdr, dataStart], ?_, ?_⟩
  · rw [rawEntries, hdr, slice_append_left hs, rawEntries]
  · rw [stringTable, hst, hdr, slice_append_left h, stringTable]

/-- Two entries of 2⁶³ bytes each. -/
theorem huge_twin_disagrees : ¬ReadersAgree (twinPackage (2 ^ 63)) := by
  have hds : dataStart (twinTables (2 ^ 63)) = 143 := by decide
  have hraw : rawEntries (twinTables (2 ^ 63)) = [⟨0, 2 ^ 63, 0⟩, ⟨0, 2 ^ 63, 42⟩] := by decide
  have hlen := length_twinTables (2 ^ 63)
  obtain ⟨h₁, h₂, h₃, h₄⟩ := listed_append (T := twinTables (2 ^ 63)) (zeros (2 ^ 63))
    (by rw [hds, hlen])
  have hB : (twinPackage (2 ^ 63)).length = 143 + 2 ^ 63 := by
    rw [twinPackage, List.length_append, hlen, length_zeros]
  have hlisted : listed (twinPackage (2 ^ 63)) = listed (twinTables (2 ^ 63)) := by
    unfold listed infoOf twinPackage
    rw [h₂, h₃, h₄]
  have hwf : WellFormed (twinPackage (2 ^ 63)) := by
    refine ⟨?_, ?_, ?_, ?_, ?_⟩
    · rw [twinPackage, h₁]
      decide
    · rw [twinPackage, h₁]
      decide
    · rw [twinPackage, h₁]
      decide
    · rw [hB, twinPackage, h₂, hds]
      norm_num
    · intro e he
      rw [twinPackage, h₃, hraw] at he
      have hst : (headerOf (twinTables (2 ^ 63))).stringTableSize = 79 := by decide
      rcases List.mem_cons.mp he with rfl | he
      · refine ⟨by rw [twinPackage, h₁, hst]; decide, by rw [twinPackage, h₄]; decide, ?_⟩
        rw [hB, twinPackage, h₂, hds]
        exact Nat.le_refl _
      · rw [List.mem_singleton] at he
        subst he
        refine ⟨by rw [twinPackage, h₁, hst]; decide, by rw [twinPackage, h₄]; decide, ?_⟩
        rw [hB, twinPackage, h₂, hds]
        exact Nat.le_refl _
  intro h
  have hok := (inspectNspManifest_ok (by rw [hB]; norm_num) (w := false)).mpr
    ⟨hwf, by rw [hlisted]; exact ⟨by decide, by decide, by decide⟩, by rw [hlisted]; decide, rfl, rfl⟩
  have hw := h.inspectExact _ _ hok
  rw [hlisted] at hw
  exact absurd hw (by decide)

end Nsp
