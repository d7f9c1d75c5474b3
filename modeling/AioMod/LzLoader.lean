/-
# The payload is packed and started

`lz77.c` packs the two halves of a payload into its buffers.  The loader (`loader.c`) moves them to
the top of 192 KiB of memory and unpacks them from the bottom on, over themselves.  The decoder does
there what it does with lists, as long as what is unpacked does not reach what is still to be read.
As no token takes more room than its text, but for the marker itself, this holds for payloads of
nearly the whole memory.
-/
import AioMod.ByteMemory
import AioMod.LzRoundTrip
import Mathlib.Logic.Relation

namespace Lz

open LzTokens (Token Factors copyBack)
open ByteMemory

/-! ## Packing -/

/-- A part that is packed into a buffer of `out_size` bytes, with so many words to work in.  Where
one of them is too small the coder would write beyond it, and where the size is no `int` it is not
written as it is: there is no result then. -/
def packPart (beyond : UInt8) (out_size words : ℕ) (input : Bytes) : Option Bytes :=
  if words < input.length + 65536 then none
  else
    let out := compressFast beyond input
    if out_size < out.length ∨ 2 ^ 31 ≤ out.length then none else some out

/-- `main` of `lz77.c`: the two halves of a file, each compressed.  The sizes have 32 bits. -/
def packPayload (beyond : UInt8) (file : Bytes) : Option (Bytes × Bytes) := do
  let in_size := file.length % 2 ^ 32
  let in_buf := file.take in_size
  let out_size := (file.length + 257) % 2 ^ 32
  let words := (in_size + 65536) % 2 ^ 32
  let half := in_size / 2
  let first ← packPart ((in_buf.drop half).headD beyond) out_size words (in_buf.take half)
  let second ← packPart beyond out_size words (in_buf.drop half)
  return (first, second)

/-- A part is packed if the words and the buffer suffice, and the size is an `int`. -/
theorem packPart_fits (beyond : UInt8) {out_size words : ℕ} {input : Bytes}
    (hsize : input.length ≤ 0x7F000000) (hwords : input.length + 65536 ≤ words)
    (hout : input.length + input.length / 256 + 1 ≤ out_size) :
    packPart beyond out_size words input = some (compressFast beyond input) := by
  have hlen : (compressFast beyond input).length ≤ input.length + input.length / 256 + 1 :=
    length_compressWith (fun text => searchJump_found text input.length) beyond (by omega)
  unfold packPart
  dsimp only
  rw [if_neg (by omega), if_neg (by omega)]

/-- How long the two halves are. -/
theorem length_halves (file : Bytes) :
    (file.take (file.length / 2)).length = file.length / 2 ∧
      (file.drop (file.length / 2)).length = file.length - file.length / 2 := by
  refine ⟨?_, List.length_drop⟩
  rw [List.length_take]
  exact Nat.min_eq_left (Nat.div_le_self _ _)

/-- Both halves are packed. -/
theorem packPayload_fits (beyond : UInt8) {file : Bytes} (hsize : file.length ≤ 0xFE000000) :
    packPayload beyond file =
      some (compressFast ((file.drop (file.length / 2)).headD beyond) (file.take (file.length / 2)),
        compressFast beyond (file.drop (file.length / 2))) := by
  obtain ⟨htake, hdrop⟩ := length_halves file
  have hin : file.length % 2 ^ 32 = file.length := Nat.mod_eq_of_lt (by omega)
  have hout : (file.length + 257) % 2 ^ 32 = file.length + 257 := Nat.mod_eq_of_lt (by omega)
  have hwords : (file.length + 65536) % 2 ^ 32 = file.length + 65536 :=
    Nat.mod_eq_of_lt (by omega)
  simp only [packPayload, hin, hout, hwords, List.take_length]
  rw [packPart_fits _ (by omega) (by omega) (by omega), Option.bind_eq_bind, Option.bind_some,
    packPart_fits _ (by omega) (by omega) (by omega)]
  rfl

/-! ## The decoder in the memory -/

/-- `_LZ_ReadVarSize` at an address: the number, and how many bytes it has; `num_bytes` of them were
read.  A number has no end after `n` more bytes that are all marked. -/
def readVarSizeAt (mem : Memory UInt8) : ℕ → ℕ → ℕ → ℕ → Option (ℕ × ℕ)
  | 0, _, _, _ => none
  | n + 1, buf, y, num_bytes =>
    let b := (mem buf).toNat
    let y := ((y <<< 7) % 2 ^ 32) ||| (b &&& 0x7f)
    if b &&& 0x80 ≠ 0 then readVarSizeAt mem n (buf + 1) y (num_bytes + 1)
    else some (y, num_bytes + 1)

/-- So many bytes are copied from `offset` places back. -/
def copyAt (out offset : ℕ) : ℕ → ℕ → Memory UInt8 → Memory UInt8
  | 0, _, mem => mem
  | n + 1, outpos, mem =>
    copyAt out offset n (outpos + 1)
      (Function.update mem (out + outpos) (mem (out + outpos - offset)))

/-- One round: how far the input was read and the output written, and the memory. -/
def unpackAt (marker : UInt8) (inp out insize inpos outpos : ℕ) (mem : Memory UInt8) :
    Option (ℕ × ℕ × Memory UInt8) :=
  let symbol := mem (inp + inpos)
  if symbol = marker then
    if mem (inp + inpos + 1) = 0 then
      some (inpos + 2, outpos + 1, Function.update mem (out + outpos) marker)
    else do
      let length ← readVarSizeAt mem insize (inp + inpos + 1) 0 0
      let offset ← readVarSizeAt mem insize (inp + inpos + 1 + length.2) 0 0
      return (inpos + 1 + length.2 + offset.2, outpos + length.1,
        copyAt out offset.1 length.1 outpos mem)
  else some (inpos + 1, outpos + 1, Function.update mem (out + outpos) symbol)

/-- The main loop, for at most `n` rounds: the size of the output, and the memory. -/
def uncompressLoopAt (marker : UInt8) (inp out insize : ℕ) :
    ℕ → ℕ → ℕ → Memory UInt8 → Option (ℕ × Memory UInt8)
  | 0, _, _, _ => none
  | n + 1, inpos, outpos, mem => do
    let next ← unpackAt marker inp out insize inpos outpos mem
    if next.1 < insize then uncompressLoopAt marker inp out insize n next.1 next.2.1 next.2.2
    else some next.2

/-- `LZ_Uncompress`, from one place of the memory to another; every round reads a byte or more. -/
def uncompressAt (inp out insize : ℕ) (mem : Memory UInt8) : Option (ℕ × Memory UInt8) :=
  if insize < 1 then some (0, mem) else uncompressLoopAt (mem inp) inp out insize insize 1 0 mem

/-! ## The loader -/

def IPL_LOAD_ADDR : ℕ := 0x40008000

def IPL_RELOC_TOP : ℕ := 0x40038000

def IPL_PATCHED_RELOC_SZ : ℕ := 0x94

/-- `ALIGN` -/
def ALIGN (x a : ℕ) : ℕ := (x + a - 1) / a * a

/-- What is linked into the loader: the boot configuration, and the two arrays with their places,
which lie below the one they are moved to.  Words are read from them, so they begin with one. -/
structure Loader where
  b_cfg : Bytes
  payload_00 : Bytes
  payload_01 : Bytes
  addr_00 : ℕ
  addr_01 : ℕ
  aligned : addr_00 % 4 = 0
  ordered : addr_00 + payload_00.length ≤ addr_01
  below : addr_01 + payload_01.length ≤ IPL_RELOC_TOP

namespace Loader

/-- What lies between the two arrays. -/
def gap (l : Loader) : ℕ := l.addr_01 - l.addr_00 - l.payload_00.length

/-- The arrays are in the memory. -/
structure Loaded (l : Loader) (mem : Memory UInt8) : Prop where
  first : Holds mem l.addr_00 l.payload_00
  second : Holds mem l.addr_01 l.payload_01

/-- The size of the two arrays, with what lies between them. -/
def payload_size (l : Loader) : ℕ := l.payload_00.length + l.payload_01.length + l.gap

/-- The arrays are moved to where they end at `IPL_RELOC_TOP`, the last word first. -/
def relocate (l : Loader) (mem : Memory UInt8) : Memory UInt8 :=
  let bytes := ALIGN l.payload_size 4 / 4
  moveWords bytes (l.addr_00 + 4 * bytes - 4) (IPL_RELOC_TOP - 4) mem

/-- `loader_main`, up to the jump; its code and the boot configuration lie below `IPL_LOAD_ADDR` and
are not touched. -/
def loader_main (l : Loader) (mem : Memory UInt8) : Option (Memory UInt8) := do
  let src_addr := IPL_RELOC_TOP - ALIGN l.payload_size 4
  let first ← uncompressAt src_addr IPL_LOAD_ADDR l.payload_00.length (l.relocate mem)
  let src_addr := src_addr + (l.addr_01 - l.addr_00)
  let second ← uncompressAt src_addr (IPL_LOAD_ADDR + first.1) l.payload_01.length first.2
  return storeList second.2 (IPL_LOAD_ADDR + IPL_PATCHED_RELOC_SZ) l.b_cfg

end Loader

/-! ## The rounds of the decoder -/

section rounds

variable {marker : UInt8} {input : Bytes}

/-- What was read is what stands in front of the rest. -/
theorem readVarSize_suffix {bs rest : Bytes} {x y : ℕ} (hread : readVarSize bs y = some (x, rest)) :
    rest <:+ bs := by
  induction bs generalizing y with
  | nil => cases hread
  | cons b bs ih =>
    unfold readVarSize at hread
    dsimp only at hread
    split at hread
    · exact (ih hread).trans (List.suffix_cons b bs)
    · cases hread
      exact List.suffix_cons b rest

/-- A round reads on, and the output does not shrink. -/
theorem unpack_grows {symbol : UInt8} {rest rest' text text' : Bytes}
    (hunpack : unpack marker symbol rest text = some (rest', text')) :
    rest' <:+ rest ∧ text.length ≤ text'.length := by
  unfold unpack at hunpack
  split at hunpack
  · unfold afterMarker at hunpack
    split at hunpack
    · cases hunpack
    · rename_i b bs
      split at hunpack
      · cases hunpack
        exact ⟨List.suffix_cons b rest', (List.prefix_append text [marker]).length_le⟩
      · obtain ⟨⟨length, rest₁⟩, hlength, hunpack⟩ := Option.bind_eq_some_iff.mp hunpack
        obtain ⟨⟨offset, rest₂⟩, hoffset, hunpack⟩ := Option.bind_eq_some_iff.mp hunpack
        obtain ⟨text₁, hcopy, hunpack⟩ := Option.bind_eq_some_iff.mp hunpack
        cases hunpack
        refine ⟨(readVarSize_suffix hoffset).trans (readVarSize_suffix hlength), ?_⟩
        rw [LzTokens.length_copyBack hcopy]
        exact Nat.le_add_right _ _
  · cases hunpack
    exact ⟨List.suffix_rfl, (List.prefix_append text [symbol]).length_le⟩

theorem uncompressLoop_grows {n : ℕ} {rest text text' : Bytes}
    (hloop : uncompressLoop marker n rest text = some text') : text.length ≤ text'.length := by
  induction n generalizing rest text with
  | zero => cases hloop
  | succ n ih =>
    rcases rest with _ | ⟨symbol, rest⟩
    · cases hloop
    · obtain ⟨next, hunpack, hnext⟩ := Option.bind_eq_some_iff.mp hloop
      have hgrows := (unpack_grows hunpack).2
      split at hnext
      · cases hnext
        exact hgrows
      · exact hgrows.trans (ih hnext)

/-- A round: what is left of the input, and the output, before and after it. -/
def Unpacks (marker : UInt8) (state next : Bytes × Bytes) : Prop :=
  ∃ symbol rest, state.1 = symbol :: rest ∧ unpack marker symbol rest state.2 = some next

/-- Whatever rounds there were, what is left are the tokens of the text behind the output. -/
theorem unpacks_tokens {pos : ℕ} {ts : List (Token UInt8)} {next : Bytes × Bytes}
    (hfactors : Factors input pos ts) (hbrief : ∀ t ∈ ts, Brief t)
    (hrun : Relation.ReflTransGen (Unpacks marker)
      (ts.flatMap (write marker), input.take pos) next) :
    ∃ pos' ts', next = (ts'.flatMap (write marker), input.take pos') ∧
      Factors input pos' ts' ∧ ∀ t ∈ ts', Brief t := by
  induction hrun with
  | refl => exact ⟨pos, ts, rfl, hfactors, hbrief⟩
  | tail _ hstep ih =>
    obtain ⟨pos', ts', rfl, hrest, hbriefs⟩ := ih
    obtain ⟨symbol, rest, hleft, hunpack⟩ := hstep
    rcases ts' with _ | ⟨t, ts'⟩
    · cases hleft
    · obtain ⟨pos'', hemit, hrest'⟩ := hrest.step
      obtain ⟨symbol', rest', hcons, hround⟩ := uncompress_token marker
        (hbriefs t List.mem_cons_self) (ts'.flatMap (write marker)) hemit
      rw [List.flatMap_cons, hcons] at hleft
      obtain ⟨rfl, rfl⟩ := List.cons.inj hleft
      refine ⟨pos'', ts', Option.some.inj (hunpack.symm.trans hround), hrest', ?_⟩
      exact fun u hu => hbriefs u (List.mem_cons_of_mem t hu)

end rounds

/-! ## What is read in the memory -/

section decoder

variable {mem : Memory UInt8} {marker : UInt8} {inp out insize inpos : ℕ}

/-- A number is read in the memory as it is read from a list. -/
theorem readVarSizeAt_of_readVarSize {bs rest : Bytes} {fuel buf x y : ℕ} (num_bytes : ℕ)
    (hread : readVarSize bs y = some (x, rest)) (hold : Holds mem buf bs)
    (hfuel : bs.length ≤ fuel) :
    readVarSizeAt mem fuel buf y num_bytes = some (x, num_bytes + (bs.length - rest.length)) := by
  induction bs generalizing fuel buf y num_bytes with
  | nil => cases hread
  | cons b bs ih =>
    obtain ⟨hb, hbs⟩ := holds_cons.mp hold
    rw [List.length_cons] at hfuel
    obtain ⟨n, rfl⟩ := Nat.exists_eq_add_of_le' (Nat.le_of_add_left_le hfuel)
    unfold readVarSizeAt
    unfold readVarSize at hread
    dsimp only at hread ⊢
    rw [hb, List.length_cons]
    split at hread
    · rename_i hmarked
      have hle := (readVarSize_suffix hread).length_le
      rw [if_pos hmarked, ih (num_bytes + 1) hread hbs (Nat.le_of_succ_le_succ hfuel)]
      congr 2
      omega
    · rename_i hlast
      cases hread
      rw [if_neg hlast]
      congr 2
      omega

/-- A repetition is copied in the memory as it is copied in a list. -/
theorem copyAt_of_copyBack {offset n : ℕ} {text text' : Bytes}
    (hcopy : copyBack offset n text = some text') (hold : Holds mem out text) :
    Holds (copyAt out offset n text.length mem) out text' ∧
      Within (out + text.length) (out + text'.length) mem
        (copyAt out offset n text.length mem) := by
  induction n generalizing text mem with
  | zero =>
    cases hcopy
    exact ⟨hold, Within.refl _ _ _⟩
  | succ n ih =>
    have hlen : text'.length = text.length + (n + 1) := LzTokens.length_copyBack hcopy
    unfold copyBack at hcopy
    split at hcopy
    · rename_i hback
      split at hcopy
      · rename_i a ha
        have hget : mem (out + text.length - offset) = a := by
          rw [Nat.add_sub_assoc hback]
          exact hold _ a ha
        obtain ⟨hheld, hwithin⟩ := ih hcopy (hold.snoc a)
        rw [List.length_append, List.length_singleton] at hheld hwithin
        unfold copyAt
        rw [hget]
        exact ⟨hheld, ((within_update mem (out + text.length) a).mono (Nat.le_refl _)
          (by omega)).trans (hwithin.mono (by omega) (Nat.le_refl _))⟩
      · cases hcopy
    · cases hcopy

/-- **One round in the memory** reads and writes what a round of the decoder does. -/
theorem unpackAt_of_unpack {symbol : UInt8} {rest rest' text text' : Bytes}
    (hunpack : unpack marker symbol rest text = some (rest', text')) (hold : Holds mem out text)
    (hin : Holds mem (inp + inpos) (symbol :: rest)) (hfuel : rest.length ≤ insize) :
    ∃ mem', unpackAt marker inp out insize inpos text.length mem =
        some (inpos + 1 + (rest.length - rest'.length), text'.length, mem') ∧
      Holds mem' out text' ∧ Within (out + text.length) (out + text'.length) mem mem' := by
  obtain ⟨hsymbol, hrest⟩ := holds_cons.mp hin
  have hsnoc : ∀ b : UInt8, text.length + 1 = (text ++ [b]).length := by
    intro b
    rw [List.length_append, List.length_singleton]
  unfold unpack at hunpack
  unfold unpackAt
  rw [hsymbol]
  dsimp only
  split at hunpack
  · rename_i hmarker
    rw [if_pos hmarker]
    unfold afterMarker at hunpack
    split at hunpack
    · cases hunpack
    · rename_i b bs
      rw [(holds_cons.mp hrest).1]
      split at hunpack
      · rename_i hzero
        cases hunpack
        rw [if_pos hzero, hsnoc marker, List.length_cons, Nat.add_sub_cancel_left]
        exact ⟨_, rfl, hold.snoc marker, within_snoc mem out text marker⟩
      · rename_i hnumbers
        -- two numbers, one behind the other, and a copy of what they say
        obtain ⟨⟨length, rest₁⟩, hlength, hunpack⟩ := Option.bind_eq_some_iff.mp hunpack
        obtain ⟨⟨offset, rest₂⟩, hoffset, hunpack⟩ := Option.bind_eq_some_iff.mp hunpack
        obtain ⟨text₁, hcopy, hunpack⟩ := Option.bind_eq_some_iff.mp hunpack
        cases hunpack
        have hend := readVarSize_suffix hlength
        have hle : rest₁.length ≤ (b :: bs).length := hend.length_le
        have hle' : rest₂.length ≤ rest₁.length := (readVarSize_suffix hoffset).length_le
        obtain ⟨hheld, hwithin⟩ := copyAt_of_copyBack hcopy hold
        rw [if_neg hnumbers, readVarSizeAt_of_readVarSize 0 hlength hrest hfuel, Nat.zero_add]
        dsimp only [Option.bind_eq_bind, Option.bind_some]
        rw [readVarSizeAt_of_readVarSize 0 hoffset (hrest.suffix hend) (hle.trans hfuel),
          Nat.zero_add]
        refine ⟨_, ?_, hheld, hwithin⟩
        dsimp only [Option.bind_some]
        rw [LzTokens.length_copyBack hcopy]
        refine congrArg (fun n => some (n, _)) ?_
        omega
  · rename_i hsymbols
    cases hunpack
    rw [if_neg hsymbols, hsnoc symbol, Nat.sub_self]
    exact ⟨_, rfl, hold.snoc symbol, within_snoc mem out text symbol⟩

/-- **The main loop in the memory** gives what the decoder gives, as long as what is written does
not reach what is still to be read. -/
theorem uncompressLoopAt_of_uncompressLoop {n fuel : ℕ} {rest text text' : Bytes}
    (hloop : uncompressLoop marker fuel rest text = some text') (hn : rest.length ≤ n)
    (hold : Holds mem out text) (hin : Holds mem (inp + inpos) rest)
    (hsize : inpos + rest.length = insize)
    (hbehind : ∀ next, Relation.ReflTransGen (Unpacks marker) (rest, text) next →
      out + next.2.length + next.1.length ≤ inp + insize) :
    ∃ mem', uncompressLoopAt marker inp out insize n inpos text.length mem =
        some (text'.length, mem') ∧
      Holds mem' out text' ∧ Within (out + text.length) (out + text'.length) mem mem' := by
  induction fuel generalizing n rest text inpos mem with
  | zero => cases hloop
  | succ fuel ih =>
    rcases rest with _ | ⟨symbol, rest⟩
    · cases hloop
    · obtain ⟨⟨rest', text₁⟩, hunpack, hnext⟩ := Option.bind_eq_some_iff.mp hloop
      rw [List.length_cons] at hn hsize
      obtain ⟨n, rfl⟩ := Nat.exists_eq_add_of_le' (Nat.le_of_add_left_le hn)
      obtain ⟨hend, hgrows⟩ := unpack_grows hunpack
      have hlen := hend.length_le
      obtain ⟨mem₁, hround, hheld, hwithin⟩ :=
        unpackAt_of_unpack hunpack hold hin (by omega : rest.length ≤ insize)
      have hplace : inpos + 1 + (rest.length - rest'.length) + rest'.length = insize := by omega
      unfold uncompressLoopAt
      rw [hround]
      dsimp only [Option.bind_eq_bind, Option.bind_some]
      dsimp only at hnext
      split at hnext
      · rename_i hlast
        cases hnext
        rw [hlast, List.length_nil, Nat.add_zero] at hplace
        rw [hlast, List.length_nil, if_neg (Nat.not_lt.mpr (Nat.le_of_eq hplace.symm))]
        exact ⟨mem₁, rfl, hheld, hwithin⟩
      · rename_i hmore
        have hpos := List.length_pos_of_ne_nil hmore
        have hstep : Unpacks marker (symbol :: rest, text) (rest', text₁) :=
          ⟨symbol, rest, rfl, hunpack⟩
        have hbelow : out + text₁.length + rest'.length ≤ inp + insize :=
          hbehind _ (.single hstep)
        -- the round wrote below what is left
        have hunread : Holds mem (inp + (inpos + 1 + (rest.length - rest'.length))) rest' := by
          rw [← Nat.add_assoc, ← Nat.add_assoc]
          exact (holds_cons.mp hin).2.suffix hend
        obtain ⟨mem₂, hrun, hdone, hframe⟩ := ih hnext (by omega : rest'.length ≤ n) hheld
          (hunread.within hwithin (.inr (by omega))) hplace
          (fun next h => hbehind next (.head hstep h))
        have hgrown := uncompressLoop_grows hnext
        rw [if_pos (by omega)]
        exact ⟨mem₂, hrun, hdone, (hwithin.mono (Nat.le_refl _) (by omega)).trans
          (hframe.mono (by omega) (Nat.le_refl _))⟩

/-- **What is compressed is unpacked in the memory**, with no more room than for the text and one
byte more for every 256: no token takes more than its text, but for the marker. -/
theorem uncompressAt_compressFast {input : Bytes} (beyond : UInt8) (hsize : input.length < 2 ^ 32)
    (hin : Holds mem inp (compressFast beyond input))
    (hroom : out + input.length + input.length / 256 ≤ inp + (compressFast beyond input).length) :
    ∃ mem', uncompressAt inp out (compressFast beyond input).length mem =
        some (input.length, mem') ∧
      Holds mem' out input ∧ Within out (out + input.length) mem mem' := by
  by_cases hempty : input.length < 1
  · obtain rfl := List.eq_nil_of_length_eq_zero (Nat.lt_one_iff.mp hempty)
    exact ⟨mem, rfl, holds_nil, Within.refl _ _ _⟩
  · obtain ⟨ts, hwritten, hbrief, hfactors⟩ := compressWith_tokens beyond
      (fun text => searchJump_found text input.length) hsize (Nat.pos_of_ne_zero (by omega))
    have hmarker := count_markerOf input
    have hpacked : compressFast beyond input =
        markerOf input :: ts.flatMap (write (markerOf input)) := hwritten
    have hloop : uncompress (compressFast beyond input) = some input :=
      uncompress_compressWith (fun text => searchJump_found text input.length) beyond hsize
    rw [hpacked] at hin hroom hloop ⊢
    obtain ⟨hfirst, htokens⟩ := holds_cons.mp hin
    rw [List.length_cons] at hroom ⊢
    unfold uncompressAt
    rw [if_neg (by omega), hfirst]
    refine uncompressLoopAt_of_uncompressLoop hloop (Nat.le_succ _) holds_nil htokens
      (Nat.add_comm _ _) fun next hrun => ?_
    -- what is left of the tokens takes the rest of the text, and a byte for each marker
    obtain ⟨pos, us, rfl, hrest, hbriefs⟩ := unpacks_tokens hfactors hbrief hrun
    have hend := hrest.le
    have hleft := length_tokens (markerOf input) hrest hbriefs
    have hcount : (input.drop pos).count (markerOf input) ≤ input.count (markerOf input) :=
      (List.drop_sublist _ _).count_le _
    dsimp only
    rw [List.length_take]
    omega

end decoder

/-! ## The loader -/

namespace Loader

variable {l : Loader} {mem : Memory UInt8}

/-- Both arrays end less than a word below `IPL_RELOC_TOP`, and are moved upwards. -/
theorem place (l : Loader) : ∃ bytes, ALIGN l.payload_size 4 = 4 * bytes ∧
    l.payload_size ≤ 4 * bytes ∧ 4 * bytes < l.payload_size + 4 ∧
    l.addr_00 + 4 * bytes ≤ IPL_RELOC_TOP ∧
    l.payload_size = l.addr_01 - l.addr_00 + l.payload_01.length := by
  have hordered := l.ordered
  have hbelow := l.below
  have haligned := l.aligned
  have hsize : l.payload_size = l.addr_01 - l.addr_00 + l.payload_01.length := by
    unfold payload_size gap
    omega
  unfold IPL_RELOC_TOP at hbelow ⊢
  refine ⟨(l.payload_size + 4 - 1) / 4, ?_, ?_, ?_, ?_, hsize⟩
  · exact Nat.mul_comm _ _
  · omega
  · omega
  · omega

/-- Both arrays are where they are moved to. -/
theorem relocate_holds (hloaded : l.Loaded mem) :
    Holds (l.relocate mem) (IPL_RELOC_TOP - ALIGN l.payload_size 4) l.payload_00 ∧
      Holds (l.relocate mem)
        (IPL_RELOC_TOP - ALIGN l.payload_size 4 + (l.addr_01 - l.addr_00)) l.payload_01 := by
  obtain ⟨bytes, halign, hle, -, htop, hsize⟩ := l.place
  have hordered := l.ordered
  have hwords : ALIGN l.payload_size 4 / 4 = bytes := by omega
  have hlast : IPL_RELOC_TOP - 4 = IPL_RELOC_TOP - 4 * bytes + 4 * bytes - 4 := by omega
  unfold relocate
  dsimp only
  rw [hwords, hlast, halign]
  constructor
  · have hfirst : Holds mem (l.addr_00 + 0) l.payload_00 := hloaded.first
    exact hfirst.moveWords (by omega) (by omega)
  · refine Holds.moveWords ?_ (by omega) (by omega)
    rw [Nat.add_sub_cancel' (by omega)]
    exact hloaded.second

/-- **What the loader unpacks** is the two parts, one behind the other, below the boot
configuration. -/
theorem loader_main_unpacks {beyond beyond' : UInt8} {first second : Bytes}
    (hfirst : l.payload_00 = compressFast beyond first)
    (hsecond : l.payload_01 = compressFast beyond' second) (hloaded : l.Loaded mem)
    (hroom : first.length + second.length + (first.length / 256 + second.length / 256) + l.gap + 4 ≤
      IPL_RELOC_TOP - IPL_LOAD_ADDR) :
    ∃ mem', l.loader_main mem =
        some (storeList mem' (IPL_LOAD_ADDR + IPL_PATCHED_RELOC_SZ) l.b_cfg) ∧
      Holds mem' IPL_LOAD_ADDR (first ++ second) := by
  obtain ⟨hpart, hpart'⟩ := relocate_holds hloaded
  obtain ⟨bytes, halign, hle, hlt, htop, hsize⟩ := l.place
  have hordered := l.ordered
  unfold gap at hroom
  unfold loader_main
  dsimp only
  generalize hsrc : IPL_RELOC_TOP - ALIGN l.payload_size 4 = src_addr at *
  rw [halign] at hsrc
  unfold IPL_RELOC_TOP at hsrc htop hroom
  unfold IPL_LOAD_ADDR at *
  have hsmall : first.length < 2 ^ 32 := by omega
  have hsmall' : second.length < 2 ^ 32 := by omega
  have hfits : (compressFast beyond' second).length ≤ second.length + second.length / 256 + 1 :=
    length_compressWith (fun text => searchJump_found text second.length) beyond' hsmall'
  rw [← hsecond] at hfits
  have hbelow : 0x40008000 + first.length + first.length / 256 ≤
      src_addr + l.payload_00.length := by omega
  have hbelow' : 0x40008000 + first.length + second.length + second.length / 256 ≤
      src_addr + (l.addr_01 - l.addr_00) + l.payload_01.length := by omega
  rw [hfirst] at hpart hbelow
  obtain ⟨mem', hrun, hheld, hframe⟩ := uncompressAt_compressFast beyond hsmall hpart hbelow
  -- the second part lies behind what was written
  have hkept : Holds mem' (src_addr + (l.addr_01 - l.addr_00)) l.payload_01 :=
    hpart'.within hframe (.inr (by omega))
  rw [hsecond] at hkept hbelow'
  obtain ⟨mem'', hrun', hheld', hframe'⟩ :=
    uncompressAt_compressFast beyond' hsmall' hkept hbelow'
  rw [hfirst, hsecond, hrun]
  dsimp only [Option.bind_eq_bind, Option.bind_some]
  rw [hrun']
  exact ⟨mem'', rfl, holds_append.mpr
    ⟨hheld.within hframe' (.inl (Nat.le_refl _)), hheld'⟩⟩

end Loader

/-! ## The payload -/

/-- **The payload is started as it was built**: the tool packs both halves of a file of nearly any
size that has 32 bits, and the loader, wherever they are linked into it, puts the file back together
if its memory has room for it, a byte for every 256, what lies between the parts, and a word.  Only
the boot configuration is not that of the file. -/
theorem payload_started (beyond : UInt8) {file : Bytes} (hsize : file.length ≤ 0xFE000000) :
    ∃ parts, packPayload beyond file = some parts ∧
      ∀ (l : Loader) (mem : Memory UInt8), l.payload_00 = parts.1 → l.payload_01 = parts.2 →
        l.Loaded mem →
        file.length + file.length / 256 + l.gap + 4 ≤ IPL_RELOC_TOP - IPL_LOAD_ADDR →
        ∃ mem', l.loader_main mem = some mem' ∧
          Holds mem' (IPL_LOAD_ADDR + IPL_PATCHED_RELOC_SZ) l.b_cfg ∧
          ∀ i b, file[i]? = some b →
            i < IPL_PATCHED_RELOC_SZ ∨ IPL_PATCHED_RELOC_SZ + l.b_cfg.length ≤ i →
            mem' (IPL_LOAD_ADDR + i) = b := by
  refine ⟨_, packPayload_fits beyond hsize, fun l mem hfirst hsecond hloaded hroom => ?_⟩
  obtain ⟨htake, hdrop⟩ := length_halves file
  obtain ⟨mem', hrun, hheld⟩ := Loader.loader_main_unpacks hfirst hsecond hloaded (by omega)
  rw [List.take_append_drop] at hheld
  refine ⟨_, hrun, holds_storeList _ _ _, fun i b hb hi => ?_⟩
  rw [within_storeList mem' _ l.b_cfg (IPL_LOAD_ADDR + i) (by omega)]
  exact hheld i b hb

/-- A payload whose halves repeat themselves, linked into the loader. -/
def abcd : Loader where
  b_cfg := [1, 2, 3, 4]
  payload_00 := [0, 97, 98, 99, 100, 0, 4, 4]
  payload_01 := [0, 97, 98, 99, 100, 0, 4, 4]
  addr_00 := 0x40007400
  addr_01 := 0x40007410
  aligned := by decide
  ordered := by decide
  below := by decide

theorem payload_started_abcd :
    ∃ mem', abcd.loader_main (storeList (storeList (fun _ => 0) 0x40007400 abcd.payload_00)
        0x40007410 abcd.payload_01) = some mem' ∧
      Holds mem' 0x40008000 [97, 98, 99, 100, 97, 98, 99, 100, 97, 98, 99, 100, 97, 98, 99, 100] ∧
      Holds mem' 0x40008094 [1, 2, 3, 4] := by
  obtain ⟨parts, hparts, hrun⟩ := payload_started 0
    (show [97, 98, 99, 100, 97, 98, 99, 100, 97, 98, 99, 100, 97, 98, 99, 100].length ≤ _ by decide)
  have hpacked : packPayload 0
      [97, 98, 99, 100, 97, 98, 99, 100, 97, 98, 99, 100, 97, 98, 99, 100] =
        some (abcd.payload_00, abcd.payload_01) := by
    have hfirst : compressFast 97 [97, 98, 99, 100, 97, 98, 99, 100] = abcd.payload_00 := by
      decide +kernel
    have hsecond : compressFast 0 [97, 98, 99, 100, 97, 98, 99, 100] = abcd.payload_01 := by
      decide +kernel
    rw [packPayload_fits 0 (by decide)]
    exact congrArg some (congrArg₂ Prod.mk hfirst hsecond)
  obtain rfl := Option.some.inj (hparts.symm.trans hpacked)
  have hloaded : abcd.Loaded (storeList (storeList (fun _ => 0) 0x40007400 abcd.payload_00)
      0x40007410 abcd.payload_01) := by
    refine ⟨?_, holds_storeList _ _ _⟩
    exact (holds_storeList _ _ _).within (within_storeList _ _ _) (.inl (by decide))
  obtain ⟨mem', hmain, hcfg, hheld⟩ := hrun abcd _ rfl rfl hloaded (by decide)
  refine ⟨mem', hmain, fun i b hb => hheld i b hb ?_, hcfg⟩
  have hi := LzTokens.lt_of_getElem?_some hb
  exact .inl (Nat.lt_trans hi (by decide))

end Lz
