/-
# The write callback of a download

`WriteMemoryCallback` of `download.cpp` and the end of `downloadFile`: what the server sends comes in
calls of any sizes, is deciphered in the order of its coming, and goes through a buffer into a file or
to the end of a vector.  The deciphering is a parameter; it keeps what it needs in a context.  Which
writes come short, at which call the user has cancelled and how the transfer ends is given.
-/
import AioMod.FatFs
import Mathlib.Tactic

namespace DownloadBuffer

/-! ## Contexts of a cipher -/

/-- Deciphering a whole is deciphering its parts one after the other. -/
structure StreamConsistent {Ctx : Type} (crypt : Ctx → Bytes → Bytes × Ctx) : Prop where
  length : ∀ ctx input, (crypt ctx input).1.length = input.length
  append : ∀ ctx a b, crypt ctx (a ++ b)
    = ((crypt ctx a).1 ++ (crypt (crypt ctx a).2 b).1, (crypt (crypt ctx a).2 b).2)

/-! ## The callback -/

def _1MiB : ℕ := 0x100000

/-- A call of the write callback: `num_files` pieces of `size` bytes, which are in the memory. -/
structure Call where
  size : ℕ
  num_files : ℕ
  contents : Bytes
  length_eq : contents.length = size * num_files
  fits : size * num_files < 2 ^ 64
  /-- the user has cancelled -/
  interrupted : Bool

/-- What is outside: the number of bytes that the `i`-th write comes to, the sizes that a vector can
get, how curl ends, the status of the server, whether the file closes, and whether the user has
cancelled then. -/
structure Outside where
  fwrite : ℕ → ℕ → ℕ
  resize : ℕ → Bool
  complete : Bool
  status : ℕ
  closes : Bool
  interrupted : Bool

/-- `ntwrk_struct_t`, with what is in the file and the number of writes; the offset is one into the
buffer. -/
structure ntwrk_struct_t (Ctx : Type) where
  data : Bytes
  data_size : ℕ
  offset : ℕ
  offset_le : offset ≤ data_size
  out : Bytes
  writes : ℕ
  aes : Option Ctx
  memory : Option Bytes
  cancellable : Bool
  write_failed : Bool

section callback

variable {Ctx : Type} (aes128CtrCrypt : Ctx → Bytes → Bytes × Ctx) (outside : Outside)

/-- The bytes as they are stored, and the context behind them. -/
def store (aes : Option Ctx) (input : Bytes) : Bytes × Option Ctx :=
  match aes with
  | some ctx => ((aes128CtrCrypt ctx input).1, some (aes128CtrCrypt ctx input).2)
  | none => (input, none)

/-- `fwrite` of the buffer up to the offset, and whether all of it was written. -/
def ntwrk_struct_t.fwrite (chunk : ntwrk_struct_t Ctx) : Bool × ntwrk_struct_t Ctx :=
  let written := min (outside.fwrite chunk.writes chunk.offset) chunk.offset
  (written = chunk.offset,
    { chunk with
      out := chunk.out ++ (chunk.data.take chunk.offset).take written
      writes := chunk.writes + 1 })

/-- What one round of the loop puts into the buffer. -/
def ntwrk_struct_t.put (chunk : ntwrk_struct_t Ctx) (input : Bytes) (amount : ℕ)
    (h : amount ≤ chunk.data_size - chunk.offset) : ntwrk_struct_t Ctx :=
  let (bytes, aes) := store aes128CtrCrypt chunk.aes (input.take amount)
  { chunk with
    data := chunk.data.take chunk.offset ++ bytes ++ chunk.data.drop (chunk.offset + amount)
    offset := chunk.offset + amount
    offset_le := by
      have := chunk.offset_le
      omega
    aes }

/-- The loop of the callback, for a number of rounds: the chunk, and whether all went into it. -/
def writeLoop : ℕ → Bytes → ntwrk_struct_t Ctx → Option (Bool × ntwrk_struct_t Ctx)
  | _, [], chunk => some (true, chunk)
  | 0, _ :: _, _ => none
  | rounds + 1, input, chunk =>
    let amount := min input.length (chunk.data_size - chunk.offset)
    let chunk := chunk.put aes128CtrCrypt input amount (Nat.min_le_right _ _)
    if chunk.offset = chunk.data_size then
      let (all, chunk) := chunk.fwrite outside
      if all then
        writeLoop rounds (input.drop amount) { chunk with offset := 0, offset_le := Nat.zero_le _ }
      else some (false, { chunk with write_failed := true })
    else writeLoop rounds (input.drop amount) chunk

/-- The largest size of a vector of bytes. -/
def max_size : ℕ := 2 ^ 63 - 1

/-- `WriteMemoryCallback`: what it returns, and the chunk. -/
def WriteMemoryCallback (call : Call) (chunk : ntwrk_struct_t Ctx) :
    Option (ℕ × ntwrk_struct_t Ctx) :=
  if chunk.cancellable ∧ call.interrupted then some (0, chunk)
  else if call.size ≠ 0 ∧ call.num_files > (2 ^ 64 - 1) / call.size then some (0, chunk)
  else
    let count := call.size * call.num_files
    match chunk.memory with
    | some memory =>
      if count > max_size - memory.length ∨ outside.resize (memory.length + count) = false then
        some (0, chunk)
      else if count = 0 then some (count, chunk)
      else
        let (bytes, aes) := store aes128CtrCrypt chunk.aes call.contents
        some (count, { chunk with memory := some (memory ++ bytes), aes })
    | none =>
      (writeLoop aes128CtrCrypt outside call.contents.length call.contents chunk).map
        fun (ok, chunk) => (if ok then count else 0, chunk)

/-- `curl_easy_perform`, which stops at a call that does not return the number of its bytes. -/
def perform : List Call → ntwrk_struct_t Ctx → Option (Bool × ntwrk_struct_t Ctx)
  | [], chunk => some (outside.complete, chunk)
  | call :: calls, chunk =>
    (WriteMemoryCallback aes128CtrCrypt outside call chunk).bind fun (n, chunk) =>
      if n = call.size * call.num_files then perform calls chunk else some (false, chunk)

/-! ## `downloadFile` -/

/-- The chunk of a download into a file. -/
def fileChunk (aes : Option Ctx) (cancellable : Bool) : ntwrk_struct_t Ctx where
  data := List.replicate _1MiB 0
  data_size := _1MiB
  offset := 0
  offset_le := Nat.zero_le _
  out := []
  writes := 0
  aes
  memory := none
  cancellable
  write_failed := false

/-- The chunk of a download into the memory. -/
def memoryChunk (aes : Option Ctx) (cancellable : Bool) : ntwrk_struct_t Ctx where
  data := []
  data_size := 0
  offset := 0
  offset_le := Nat.zero_le _
  out := []
  writes := 0
  aes
  memory := some []
  cancellable
  write_failed := false

/-- Whether the server reports success. -/
def Outside.success (outside : Outside) : Prop := 200 ≤ outside.status ∧ outside.status < 300

instance : Decidable outside.success := inferInstanceAs (Decidable (_ ∧ _))

/-- The final flush: whether it or an earlier write came short, and the chunk. -/
def flush (result : Bool) (chunk : ntwrk_struct_t Ctx) : Bool × ntwrk_struct_t Ctx :=
  if result ∧ outside.success ∧ chunk.offset ≠ 0 then
    let (all, chunk) := chunk.fwrite outside
    (chunk.write_failed || !all, chunk)
  else (chunk.write_failed, chunk)

/-- A download into a file: whether it is reported as a success, and what is in the file. -/
def downloadToFile (aes : Option Ctx) (cancellable : Bool) (calls : List Call) :
    Option (Bool × Bytes) :=
  (perform aes128CtrCrypt outside calls (fileChunk aes cancellable)).map fun (result, chunk) =>
    let (writeFailed, chunk) := flush outside result chunk
    (!(cancellable && outside.interrupted) && !(writeFailed || !outside.closes) && result &&
      outside.success, chunk.out)

/-- A download into the memory, which is cleared unless it is a success. -/
def downloadToMemory (aes : Option Ctx) (cancellable : Bool) (calls : List Call) :
    Option (Bool × Bytes) :=
  (perform aes128CtrCrypt outside calls (memoryChunk aes cancellable)).map fun (result, chunk) =>
    let ok := !(cancellable && outside.interrupted) && !chunk.write_failed && result &&
      outside.success
    (ok, if ok then chunk.memory.getD [] else [])

end callback

/-! ## What arrives -/

section arrives

variable {Ctx : Type} {aes128CtrCrypt : Ctx → Bytes → Bytes × Ctx} {outside : Outside}

/-- The stream of the server. -/
def stream (calls : List Call) : Bytes := calls.flatMap Call.contents

/-- The stream as it is to be stored. -/
def plain (aes128CtrCrypt : Ctx → Bytes → Bytes × Ctx) (aes : Option Ctx) (input : Bytes) : Bytes :=
  (store aes128CtrCrypt aes input).1

theorem length_store (h : StreamConsistent aes128CtrCrypt) (aes : Option Ctx) (input : Bytes) :
    (store aes128CtrCrypt aes input).1.length = input.length := by
  cases aes with
  | none => rfl
  | some ctx => exact h.length ctx input

theorem store_append (h : StreamConsistent aes128CtrCrypt) (aes : Option Ctx) (a b : Bytes) :
    store aes128CtrCrypt aes (a ++ b)
      = ((store aes128CtrCrypt aes a).1
          ++ (store aes128CtrCrypt (store aes128CtrCrypt aes a).2 b).1,
        (store aes128CtrCrypt (store aes128CtrCrypt aes a).2 b).2) := by
  cases aes with
  | none => rfl
  | some ctx =>
    unfold store
    dsimp only
    rw [h.append]

/-- The context behind an input. -/
def Behind (aes128CtrCrypt : Ctx → Bytes → Bytes × Ctx) (aes : Option Ctx) (input : Bytes)
    (behind : Option Ctx) : Prop :=
  (input ≠ [] → behind = (store aes128CtrCrypt aes input).2) ∧ (input = [] → behind = aes)

/-- Further bytes are deciphered in the context behind the others. -/
theorem Behind.plain_append (hcipher : StreamConsistent aes128CtrCrypt) {aes behind : Option Ctx}
    {input : Bytes} (h : Behind aes128CtrCrypt aes input behind) (more : Bytes) :
    plain aes128CtrCrypt aes (input ++ more)
      = plain aes128CtrCrypt aes input ++ (store aes128CtrCrypt behind more).1 := by
  by_cases hinput : input = []
  · subst hinput
    have hnil : plain aes128CtrCrypt aes [] = [] := by
      apply List.eq_nil_of_length_eq_zero
      exact length_store hcipher aes []
    rw [h.2 rfl, hnil]
    rfl
  · unfold plain
    rw [store_append hcipher, h.1 hinput]

theorem Behind.append (hcipher : StreamConsistent aes128CtrCrypt) {aes behind : Option Ctx}
    {input more : Bytes} (h : Behind aes128CtrCrypt aes input behind) (hmore : more ≠ []) :
    Behind aes128CtrCrypt aes (input ++ more) (store aes128CtrCrypt behind more).2 := by
  constructor
  · intro _
    by_cases hinput : input = []
    · subst hinput
      rw [h.2 rfl]
      rfl
    · rw [store_append hcipher, h.1 hinput]
  · intro hnil
    exact absurd (List.append_eq_nil_iff.mp hnil).2 hmore

/-- The chunk holds what has arrived: what is written, and what is in the buffer before the
offset. -/
structure Arrived (aes128CtrCrypt : Ctx → Bytes → Bytes × Ctx) (aes : Option Ctx) (input : Bytes)
    (chunk : ntwrk_struct_t Ctx) : Prop where
  length_data : chunk.data.length = chunk.data_size
  bytes : chunk.out ++ chunk.data.take chunk.offset = plain aes128CtrCrypt aes input
  behind : Behind aes128CtrCrypt aes input chunk.aes
  fine : chunk.write_failed = false

/-- One round puts its bytes behind the others. -/
theorem Arrived.put (hcipher : StreamConsistent aes128CtrCrypt) {aes : Option Ctx}
    {input more : Bytes} {chunk : ntwrk_struct_t Ctx} {amount : ℕ}
    (h : Arrived aes128CtrCrypt aes input chunk) (hamount : amount ≤ chunk.data_size - chunk.offset)
    (hpos : 0 < amount) (hmore : amount ≤ more.length) :
    Arrived aes128CtrCrypt aes (input ++ more.take amount)
      (chunk.put aes128CtrCrypt more amount hamount) := by
  have hoffset := chunk.offset_le
  have hlen : (store aes128CtrCrypt chunk.aes (more.take amount)).1.length = amount := by
    rw [length_store hcipher, List.length_take]
    omega
  have hdata := h.length_data
  have hne : more.take amount ≠ [] := by
    intro hnil
    have := congrArg List.length hnil
    rw [List.length_take, List.length_nil] at this
    omega
  have htaken : (chunk.data.take chunk.offset).length = chunk.offset := by
    rw [List.length_take]
    omega
  constructor
  · show (chunk.data.take chunk.offset ++ (store aes128CtrCrypt chunk.aes (more.take amount)).1
      ++ chunk.data.drop (chunk.offset + amount)).length = chunk.data_size
    rw [List.length_append, List.length_append, htaken, hlen, List.length_drop]
    omega
  · show chunk.out ++ (chunk.data.take chunk.offset
      ++ (store aes128CtrCrypt chunk.aes (more.take amount)).1
      ++ chunk.data.drop (chunk.offset + amount)).take (chunk.offset + amount) = _
    rw [List.take_left' (by rw [List.length_append, htaken, hlen]), ← List.append_assoc, h.bytes,
      h.behind.plain_append hcipher]
  · exact h.behind.append hcipher hne
  · exact h.fine

/-- A write that comes to its end empties the buffer. -/
theorem Arrived.fwrite {aes : Option Ctx} {input : Bytes} {chunk : ntwrk_struct_t Ctx}
    (h : Arrived aes128CtrCrypt aes input chunk) (hall : (chunk.fwrite outside).1 = true) :
    (chunk.fwrite outside).2.out = plain aes128CtrCrypt aes input := by
  have hwritten : min (outside.fwrite chunk.writes chunk.offset) chunk.offset = chunk.offset :=
    of_decide_eq_true hall
  show chunk.out ++ (chunk.data.take chunk.offset).take
    (min (outside.fwrite chunk.writes chunk.offset) chunk.offset) = _
  rw [hwritten, List.take_take, Nat.min_self, h.bytes]

theorem Arrived.emptied {aes : Option Ctx} {input : Bytes} {chunk : ntwrk_struct_t Ctx}
    (h : Arrived aes128CtrCrypt aes input chunk) (hall : (chunk.fwrite outside).1 = true) :
    Arrived aes128CtrCrypt aes input
      { (chunk.fwrite outside).2 with offset := 0, offset_le := Nat.zero_le _ } where
  length_data := h.length_data
  bytes := by
    show (chunk.fwrite outside).2.out ++ (chunk.fwrite outside).2.data.take 0 = _
    rw [List.take_zero, List.append_nil, h.fwrite hall]
  behind := h.behind
  fine := h.fine

/-- The loop comes to an end, and unless a write comes short all has arrived; it leaves some room in
the buffer. -/
theorem writeLoop_spec (outside : Outside) (hcipher : StreamConsistent aes128CtrCrypt)
    {aes : Option Ctx} {rounds : ℕ} {input more : Bytes} {chunk : ntwrk_struct_t Ctx}
    (h : Arrived aes128CtrCrypt aes input chunk) (hroom : chunk.offset < chunk.data_size)
    (hrounds : more.length ≤ rounds) :
    ∃ ok chunk', writeLoop aes128CtrCrypt outside rounds more chunk = some (ok, chunk') ∧
      chunk'.memory = chunk.memory ∧ chunk'.cancellable = chunk.cancellable ∧
      (ok = true → Arrived aes128CtrCrypt aes (input ++ more) chunk' ∧
        chunk'.offset < chunk'.data_size) ∧
      ((∀ i n, n ≤ outside.fwrite i n) → ok = true) := by
  induction rounds generalizing input more chunk with
  | zero =>
    obtain rfl : more = [] := List.eq_nil_of_length_eq_zero (by omega)
    unfold writeLoop
    refine ⟨true, chunk, rfl, rfl, rfl, ?_, fun _ => rfl⟩
    intro _
    rw [List.append_nil]
    exact ⟨h, hroom⟩
  | succ rounds ih =>
    cases more with
    | nil =>
      unfold writeLoop
      refine ⟨true, chunk, rfl, rfl, rfl, ?_, fun _ => rfl⟩
      intro _
      rw [List.append_nil]
      exact ⟨h, hroom⟩
    | cons b rest =>
      have hlen : 0 < (b :: rest).length := Nat.succ_pos _
      have hput : Arrived aes128CtrCrypt aes
          (input ++ (b :: rest).take (min (b :: rest).length (chunk.data_size - chunk.offset)))
          (chunk.put aes128CtrCrypt (b :: rest)
            (min (b :: rest).length (chunk.data_size - chunk.offset)) (Nat.min_le_right _ _)) :=
        h.put hcipher (Nat.min_le_right _ _) (by omega) (Nat.min_le_left _ _)
      have hrest : ((b :: rest).drop
          (min (b :: rest).length (chunk.data_size - chunk.offset))).length ≤ rounds := by
        rw [List.length_drop]
        omega
      rw [← List.take_append_drop (min (b :: rest).length (chunk.data_size - chunk.offset))
        (b :: rest), ← List.append_assoc, List.take_append_drop]
      unfold writeLoop
      dsimp only
      split
      -- a full buffer is written out before the rest is looked at
      · rename_i hfull
        split
        · rename_i hall
          have hroom' : 0 < chunk.data_size := by omega
          obtain ⟨ok, chunk', hrun, hmemory, hcancellable, harrived, hok⟩ :=
            ih (hput.emptied hall) hroom' hrest
          exact ⟨ok, chunk', hrun, hmemory, hcancellable, harrived, hok⟩
        · rename_i hshort
          refine ⟨false, _, rfl, rfl, rfl, ?_, ?_⟩
          · rintro ⟨⟩
          · intro hwrites
            exfalso
            apply hshort
            exact decide_eq_true (Nat.min_eq_right (hwrites _ _))
      -- the buffer has room left, so all of the call is in it
      · rename_i hpartial
        have hle := (chunk.put aes128CtrCrypt (b :: rest)
          (min (b :: rest).length (chunk.data_size - chunk.offset))
          (Nat.min_le_right _ _)).offset_le
        obtain ⟨ok, chunk', hrun, hmemory, hcancellable, harrived, hok⟩ :=
          ih hput (lt_of_le_of_ne hle hpartial) hrest
        exact ⟨ok, chunk', hrun, hmemory, hcancellable, harrived, hok⟩

theorem contents_eq_nil {call : Call} (h : 0 = call.size * call.num_files) :
    call.contents = [] := by
  apply List.eq_nil_of_length_eq_zero
  rw [call.length_eq, ← h]

/-- The product in the callback does not overflow. -/
theorem not_overflow (call : Call) :
    ¬(call.size ≠ 0 ∧ call.num_files > (2 ^ 64 - 1) / call.size) := by
  rintro ⟨hsize, hnum⟩
  have hfits := call.fits
  have hmul := (Nat.div_lt_iff_lt_mul (Nat.pos_of_ne_zero hsize)).mp hnum
  rw [Nat.mul_comm] at hmul
  omega

/-- Everything works: no write comes short, a vector gets any size up to the largest one, the
transfer is complete, and the user does not cancel. -/
structure Works (outside : Outside) (cancellable : Bool) (calls : List Call) : Prop where
  fwrite : ∀ i n, n ≤ outside.fwrite i n
  resize : ∀ n, n ≤ max_size → outside.resize n = true
  complete : outside.complete = true
  success : outside.success
  closes : outside.closes = true
  uninterrupted : cancellable = true → ∀ call ∈ calls, call.interrupted = false
  notAfter : (cancellable && outside.interrupted) = false
  fits : (stream calls).length ≤ max_size

/-- A call that returns the number of its bytes has put them into the buffer. -/
theorem callback_file (outside : Outside) (hcipher : StreamConsistent aes128CtrCrypt)
    {aes : Option Ctx} {input : Bytes} {chunk : ntwrk_struct_t Ctx} (call : Call)
    (h : Arrived aes128CtrCrypt aes input chunk) (hroom : chunk.offset < chunk.data_size)
    (hfile : chunk.memory = none) :
    ∃ n chunk', WriteMemoryCallback aes128CtrCrypt outside call chunk = some (n, chunk') ∧
      chunk'.memory = none ∧ chunk'.cancellable = chunk.cancellable ∧
      (n = call.size * call.num_files → Arrived aes128CtrCrypt aes (input ++ call.contents) chunk' ∧
        chunk'.offset < chunk'.data_size) ∧
      ((∀ i n, n ≤ outside.fwrite i n) → (chunk.cancellable = true → call.interrupted = false) →
        n = call.size * call.num_files) := by
  unfold WriteMemoryCallback
  split
  · rename_i hstop
    refine ⟨0, chunk, rfl, hfile, rfl, ?_, ?_⟩
    · intro hzero
      rw [contents_eq_nil hzero, List.append_nil]
      exact ⟨h, hroom⟩
    · intro _ hrun
      rw [hrun hstop.1] at hstop
      exact absurd hstop.2 (by decide)
  · rw [if_neg (not_overflow call), hfile]
    obtain ⟨ok, chunk', hrun, hmemory, hcancellable, harrived, hok⟩ :=
      writeLoop_spec outside hcipher h hroom (le_refl call.contents.length)
    dsimp only
    rw [hrun]
    refine ⟨_, chunk', rfl, hmemory.trans hfile, hcancellable, ?_, ?_⟩
    · intro hall
      cases ok with
      | true => exact harrived rfl
      | false =>
        -- a loop over no bytes does not fail
        have hnil := contents_eq_nil hall
        rw [hnil] at hrun
        cases hrun
    · intro hwrites _
      rw [hok hwrites]
      rfl

/-- In the memory there is what has arrived. -/
structure InMemory (aes128CtrCrypt : Ctx → Bytes → Bytes × Ctx) (aes : Option Ctx) (input : Bytes)
    (chunk : ntwrk_struct_t Ctx) : Prop where
  memory : chunk.memory = some (plain aes128CtrCrypt aes input)
  behind : Behind aes128CtrCrypt aes input chunk.aes
  fine : chunk.write_failed = false

theorem callback_memory (outside : Outside) (hcipher : StreamConsistent aes128CtrCrypt)
    {aes : Option Ctx} {input : Bytes} {chunk : ntwrk_struct_t Ctx} (call : Call)
    (h : InMemory aes128CtrCrypt aes input chunk) :
    ∃ n chunk', WriteMemoryCallback aes128CtrCrypt outside call chunk = some (n, chunk') ∧
      chunk'.cancellable = chunk.cancellable ∧
      (n = call.size * call.num_files →
        InMemory aes128CtrCrypt aes (input ++ call.contents) chunk') ∧
      ((∀ n, n ≤ max_size → outside.resize n = true) →
        (chunk.cancellable = true → call.interrupted = false) →
        (input ++ call.contents).length ≤ max_size → n = call.size * call.num_files) := by
  have hlen : (plain aes128CtrCrypt aes input).length = input.length := length_store hcipher aes input
  unfold WriteMemoryCallback
  split
  · rename_i hstop
    refine ⟨0, chunk, rfl, rfl, ?_, ?_⟩
    · intro hzero
      rw [contents_eq_nil hzero, List.append_nil]
      exact h
    · intro _ hrun
      rw [hrun hstop.1] at hstop
      exact absurd hstop.2 (by decide)
  · rw [if_neg (not_overflow call), h.memory]
    dsimp only
    split
    · rename_i hfull
      refine ⟨0, chunk, rfl, rfl, ?_, ?_⟩
      · intro hzero
        rw [contents_eq_nil hzero, List.append_nil]
        exact h
      · intro hresize _ hsize
        rw [List.length_append, call.length_eq] at hsize
        rw [hlen] at hfull
        rcases hfull with hfull | hfull
        · omega
        · rw [hresize _ hsize] at hfull
          cases hfull
    · split
      · rename_i hzero
        refine ⟨_, chunk, rfl, rfl, ?_, fun _ _ _ => rfl⟩
        intro _
        rw [contents_eq_nil hzero.symm, List.append_nil]
        exact h
      · rename_i hsome
        refine ⟨_, _, rfl, rfl, ?_, fun _ _ _ => rfl⟩
        intro _
        have hne : call.contents ≠ [] := by
          intro hnil
          apply hsome
          rw [← call.length_eq, hnil]
          rfl
        refine ⟨?_, h.behind.append hcipher hne, h.fine⟩
        rw [h.behind.plain_append hcipher]

/-- A transfer into a file that is complete has delivered the stream. -/
theorem perform_file (outside : Outside) (hcipher : StreamConsistent aes128CtrCrypt)
    {aes : Option Ctx} {input : Bytes} {chunk : ntwrk_struct_t Ctx} (calls : List Call)
    (h : Arrived aes128CtrCrypt aes input chunk) (hroom : chunk.offset < chunk.data_size)
    (hfile : chunk.memory = none) :
    ∃ ok chunk', perform aes128CtrCrypt outside calls chunk = some (ok, chunk') ∧
      (ok = true → Arrived aes128CtrCrypt aes (input ++ stream calls) chunk') ∧
      ((∀ i n, n ≤ outside.fwrite i n) → outside.complete = true →
        (chunk.cancellable = true → ∀ call ∈ calls, call.interrupted = false) → ok = true) := by
  induction calls generalizing input chunk with
  | nil =>
    refine ⟨outside.complete, chunk, rfl, ?_, fun _ hcomplete _ => hcomplete⟩
    intro _
    show Arrived aes128CtrCrypt aes (input ++ []) chunk
    rw [List.append_nil]
    exact h
  | cons call calls ih =>
    obtain ⟨n, chunk₁, hcall, hfile₁, hcancellable, harrived, hn⟩ :=
      callback_file outside hcipher call h hroom hfile
    unfold perform
    rw [hcall, Option.bind_some]
    dsimp only
    split
    · rename_i hall
      obtain ⟨h₁, hroom₁⟩ := harrived hall
      obtain ⟨ok, chunk₂, hrun, h₂, hok⟩ := ih h₁ hroom₁ hfile₁
      refine ⟨ok, chunk₂, hrun, ?_, ?_⟩
      · intro hend
        show Arrived aes128CtrCrypt aes (input ++ (call.contents ++ stream calls)) chunk₂
        rw [← List.append_assoc]
        exact h₂ hend
      · intro hwrites hcomplete huninterrupted
        apply hok hwrites hcomplete
        intro hc c hmem
        rw [hcancellable] at hc
        exact huninterrupted hc c (List.mem_cons_of_mem _ hmem)
    · rename_i hshort
      refine ⟨false, chunk₁, rfl, by rintro ⟨⟩, ?_⟩
      intro hwrites _ huninterrupted
      exact absurd (hn hwrites fun hc => huninterrupted hc call (List.mem_cons_self ..)) hshort

theorem perform_memory (outside : Outside) (hcipher : StreamConsistent aes128CtrCrypt)
    {aes : Option Ctx} {input : Bytes} {chunk : ntwrk_struct_t Ctx} (calls : List Call)
    (h : InMemory aes128CtrCrypt aes input chunk) :
    ∃ ok chunk', perform aes128CtrCrypt outside calls chunk = some (ok, chunk') ∧
      (ok = true → InMemory aes128CtrCrypt aes (input ++ stream calls) chunk') ∧
      ((∀ n, n ≤ max_size → outside.resize n = true) → outside.complete = true →
        (chunk.cancellable = true → ∀ call ∈ calls, call.interrupted = false) →
        (input ++ stream calls).length ≤ max_size → ok = true) := by
  induction calls generalizing input chunk with
  | nil =>
    refine ⟨outside.complete, chunk, rfl, ?_, fun _ hcomplete _ _ => hcomplete⟩
    intro _
    show InMemory aes128CtrCrypt aes (input ++ []) chunk
    rw [List.append_nil]
    exact h
  | cons call calls ih =>
    obtain ⟨n, chunk₁, hcall, hcancellable, hinMemory, hn⟩ :=
      callback_memory outside hcipher call h
    have hstream : input ++ stream (call :: calls) = (input ++ call.contents) ++ stream calls :=
      (List.append_assoc ..).symm
    unfold perform
    rw [hcall, Option.bind_some, hstream]
    dsimp only
    split
    · rename_i hall
      obtain ⟨ok, chunk₂, hrun, h₂, hok⟩ := ih (hinMemory hall)
      refine ⟨ok, chunk₂, hrun, h₂, ?_⟩
      intro hresize hcomplete huninterrupted hsize
      apply hok hresize hcomplete _ hsize
      intro hc c hmem
      rw [hcancellable] at hc
      exact huninterrupted hc c (List.mem_cons_of_mem _ hmem)
    · rename_i hshort
      refine ⟨false, chunk₁, rfl, by rintro ⟨⟩, ?_⟩
      intro hresize _ huninterrupted hsize
      rw [List.length_append] at hsize
      exact absurd (hn hresize (fun hc => huninterrupted hc call (List.mem_cons_self ..)) (by omega))
        hshort

theorem behind_nil (aes128CtrCrypt : Ctx → Bytes → Bytes × Ctx) (aes : Option Ctx) :
    Behind aes128CtrCrypt aes [] aes :=
  ⟨fun h => absurd rfl h, fun _ => rfl⟩

theorem plain_nil (hcipher : StreamConsistent aes128CtrCrypt) (aes : Option Ctx) :
    plain aes128CtrCrypt aes [] = [] :=
  List.eq_nil_of_length_eq_zero (length_store hcipher aes [])

/-- The final flush writes what is still in the buffer. -/
theorem Arrived.flush {aes : Option Ctx} {input : Bytes} {chunk : ntwrk_struct_t Ctx}
    (h : Arrived aes128CtrCrypt aes input chunk) (hsuccess : outside.success) :
    ((flush outside true chunk).1 = false →
      (flush outside true chunk).2.out = plain aes128CtrCrypt aes input) ∧
    ((∀ i n, n ≤ outside.fwrite i n) → (flush outside true chunk).1 = false) := by
  by_cases hoffset : chunk.offset = 0
  · have heq : DownloadBuffer.flush outside true chunk = (chunk.write_failed, chunk) :=
      if_neg fun hno => hno.2.2 hoffset
    rw [heq]
    refine ⟨fun _ => ?_, fun _ => h.fine⟩
    rw [← h.bytes, hoffset, List.take_zero, List.append_nil]
  · have heq : DownloadBuffer.flush outside true chunk
        = ((chunk.fwrite outside).2.write_failed || !(chunk.fwrite outside).1,
          (chunk.fwrite outside).2) := if_pos ⟨rfl, hsuccess, hoffset⟩
    rw [heq]
    constructor
    · intro hfine
      apply h.fwrite
      simpa using (Bool.or_eq_false_iff.mp hfine).2
    · intro hwrites
      have hall : (chunk.fwrite outside).1 = true :=
        decide_eq_true (Nat.min_eq_right (hwrites _ _))
      rw [hall]
      exact Bool.or_eq_false_iff.mpr ⟨h.fine, rfl⟩

theorem downloadToFile_spec (hcipher : StreamConsistent aes128CtrCrypt) (outside : Outside)
    (aes : Option Ctx) (cancellable : Bool) (calls : List Call) :
    ∃ ok written, downloadToFile aes128CtrCrypt outside aes cancellable calls = some (ok, written) ∧
      (ok = true → written = plain aes128CtrCrypt aes (stream calls)) ∧
      (Works outside cancellable calls → ok = true) := by
  have hstart : Arrived aes128CtrCrypt aes [] (fileChunk aes cancellable) := by
    constructor
    · exact List.length_replicate
    · rw [plain_nil hcipher]
      rfl
    · exact behind_nil aes128CtrCrypt aes
    · rfl
  obtain ⟨result, chunk, hrun, harrived, hresult⟩ := perform_file outside hcipher calls
    hstart (by show 0 < _1MiB; decide) rfl
  unfold downloadToFile
  rw [hrun, Option.map_some]
  refine ⟨!(cancellable && outside.interrupted) && !((flush outside result chunk).1 ||
    !outside.closes) && result && outside.success, (flush outside result chunk).2.out, rfl, ?_, ?_⟩
  · intro hok
    rw [Bool.and_eq_true, Bool.and_eq_true, Bool.and_eq_true] at hok
    obtain ⟨⟨⟨-, hwrites⟩, hresult⟩, hsuccess⟩ := hok
    subst hresult
    rw [Bool.not_eq_true', Bool.or_eq_false_iff] at hwrites
    exact ((harrived rfl).flush (of_decide_eq_true hsuccess)).1 hwrites.1
  · intro hworks
    have hend := hresult hworks.fwrite hworks.complete hworks.uninterrupted
    subst hend
    rw [((harrived rfl).flush hworks.success).2 hworks.fwrite, hworks.closes,
      decide_eq_true hworks.success, hworks.notAfter]
    rfl

theorem downloadToMemory_spec (hcipher : StreamConsistent aes128CtrCrypt) (outside : Outside)
    (aes : Option Ctx) (cancellable : Bool) (calls : List Call) :
    ∃ ok bytes, downloadToMemory aes128CtrCrypt outside aes cancellable calls = some (ok, bytes) ∧
      (ok = true → bytes = plain aes128CtrCrypt aes (stream calls)) ∧
      (Works outside cancellable calls → ok = true) := by
  have hstart : InMemory aes128CtrCrypt aes [] (memoryChunk aes cancellable) := by
    constructor
    · rw [plain_nil hcipher]
      rfl
    · exact behind_nil aes128CtrCrypt aes
    · rfl
  obtain ⟨result, chunk, hrun, hinMemory, hresult⟩ := perform_memory outside hcipher
    calls hstart
  unfold downloadToMemory
  rw [hrun, Option.map_some]
  refine ⟨_, _, rfl, ?_, ?_⟩
  · intro hok
    rw [if_pos hok]
    rw [Bool.and_eq_true, Bool.and_eq_true] at hok
    rw [(hinMemory hok.1.2).memory]
    rfl
  · intro hworks
    have hend := hresult hworks.resize hworks.complete hworks.uninterrupted hworks.fits
    rw [hworks.notAfter, (hinMemory hend).fine, hend, decide_eq_true hworks.success]
    rfl

/-- Whatever the sizes of the calls: a download into a file that is reported as a success has the
deciphered stream in the file, one into the memory has the same bytes, and if everything works both
are.  The offset does not exceed the size of the buffer. -/
theorem downloads_agree (aes128CtrCrypt : Ctx → Bytes → Bytes × Ctx)
    (hcipher : StreamConsistent aes128CtrCrypt) (outside : Outside) (aes : Option Ctx)
    (cancellable : Bool) (calls : List Call) :
    (∃ ok written, downloadToFile aes128CtrCrypt outside aes cancellable calls = some (ok, written) ∧
      (ok = true → written = plain aes128CtrCrypt aes (stream calls)) ∧
      (Works outside cancellable calls → ok = true)) ∧
    (∃ ok bytes, downloadToMemory aes128CtrCrypt outside aes cancellable calls = some (ok, bytes) ∧
      (ok = true → bytes = plain aes128CtrCrypt aes (stream calls)) ∧
      (Works outside cancellable calls → ok = true)) ∧
    ∀ result chunk, perform aes128CtrCrypt outside calls (fileChunk aes cancellable)
      = some (result, chunk) → chunk.offset ≤ chunk.data_size :=
  ⟨downloadToFile_spec hcipher outside aes cancellable calls,
    downloadToMemory_spec hcipher outside aes cancellable calls,
    fun _ chunk _ => chunk.offset_le⟩

end arrives

/-- Counter mode: each byte with the byte of the key stream at its position. -/
def counterMode (keyStream : ℕ → UInt8) (position : ℕ) (input : Bytes) : Bytes × ℕ :=
  (input.mapIdx fun i b => b ^^^ keyStream (position + i), position + input.length)

theorem streamConsistent_counterMode (keyStream : ℕ → UInt8) :
    StreamConsistent (counterMode keyStream) where
  length := by
    intro position input
    exact List.length_mapIdx
  append := by
    intro position a b
    unfold counterMode
    rw [List.mapIdx_append, List.length_append, Nat.add_assoc]
    congr 3
    funext i c
    rw [Nat.add_assoc, Nat.add_comm i]

/-- Two bytes in one call and one in another. -/
def twoCalls : List Call :=
  [{ size := 1, num_files := 2, contents := [1, 2], length_eq := rfl, fits := by decide
     interrupted := false },
    { size := 1, num_files := 1, contents := [3], length_eq := rfl, fits := by decide
      interrupted := false }]

/-- A transfer in which everything works. -/
def transferred : Outside where
  fwrite _ n := n
  resize _ := true
  complete := true
  status := 200
  closes := true
  interrupted := false

theorem transferred_works : Works transferred true twoCalls where
  fwrite _ n := Nat.le_refl n
  resize _ _ := rfl
  complete := rfl
  success := by decide
  closes := rfl
  uninterrupted _ := by decide
  notAfter := rfl
  fits := by decide

theorem downloads_agree_counterMode :
    downloadToFile (counterMode UInt8.ofNat) transferred (some 0) true twoCalls =
        some (true, [1, 3, 1]) ∧
      downloadToMemory (counterMode UInt8.ofNat) transferred (some 0) true twoCalls =
        some (true, [1, 3, 1]) ∧
      ∀ result chunk, perform (counterMode UInt8.ofNat) transferred twoCalls
        (fileChunk (some 0) true) = some (result, chunk) → chunk.offset ≤ chunk.data_size := by
  obtain ⟨⟨ok, written, hfile, hwritten, hok⟩, ⟨ok', bytes, hmemory, hbytes, hok'⟩, hoffset⟩ :=
    downloads_agree (counterMode UInt8.ofNat) (streamConsistent_counterMode _) transferred (some 0)
      true twoCalls
  have hplain : plain (counterMode UInt8.ofNat) (some 0) (stream twoCalls) = [1, 3, 1] := by decide
  refine ⟨?_, ?_, hoffset⟩
  · rw [hfile, hwritten (hok transferred_works), hok transferred_works, hplain]
  · rw [hmemory, hbytes (hok' transferred_works), hok' transferred_works, hplain]

end DownloadBuffer
