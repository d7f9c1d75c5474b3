/-
# The LZ77 coder of the payload

`lz.c`, with which the payload is packed when it is built (`lz77.c`) and unpacked when it is started
(`loader.c`).  Repeated strings become a marker, their length and how far back they stand; the
marker is the least common byte, and is followed by a zero where it stands for itself.  What stands
behind the input is not known: the search may look at one byte of it.

Positions are unbounded here.  Those of the source have 32 bits, which is the same as long as both
the input and the output are shorter than that.
-/
import AioMod.FatFs
import AioMod.LzTokens

namespace Lz

/-- `LZ_MAX_OFFSET` -/
def LZ_MAX_OFFSET : ℕ := 100000

/-! ## Internal functions -/

/-- `_LZ_StringCompare` of the strings at two places: from `len`, for at most `n` bytes. -/
def stringCompare (text : ℕ → UInt8) (str1 str2 : ℕ) : ℕ → ℕ → ℕ
  | 0, len => len
  | n + 1, len =>
    if text (str1 + len) = text (str2 + len) then stringCompare text str1 str2 n (len + 1) else len

/-- The loop that counts bytes: `y` is shifted until one of its upper seven bits is set. -/
def varBytes : ℕ → ℕ → ℕ
  | n + 2, y => if y &&& 0xfe000000 ≠ 0 then n + 2 else varBytes (n + 1) ((y <<< 7) % 2 ^ 32)
  | n, _ => n

/-- One byte of a number: seven bits, and a mark on all but the last. -/
def varByte (x i : ℕ) : UInt8 :=
  .ofNat (((x >>> (i * 7)) &&& 0x7f) ||| (if 0 < i then 0x80 else 0))

/-- `_LZ_WriteVarSize` -/
def writeVarSize (x : ℕ) : Bytes :=
  (List.range (varBytes 5 (x >>> 3))).reverse.map (varByte x)

/-- `_LZ_ReadVarSize`: the number, and what stands behind it; nothing can be read past the end. -/
def readVarSize : Bytes → ℕ → Option (ℕ × Bytes)
  | [], _ => none
  | b :: rest, y =>
    let y := ((y <<< 7) % 2 ^ 32) ||| (b.toNat &&& 0x7f)
    if b.toNat &&& 0x80 ≠ 0 then readVarSize rest y else some (y, rest)

/-! ## The coder -/

/-- The histogram of the input. -/
def histogram (input : Bytes) : List ℕ :=
  input.foldl (fun h b => h.modify b.toNat (· + 1)) (List.replicate 256 0)

/-- The least common byte. -/
def markerOf (input : Bytes) : UInt8 :=
  let h := histogram input
  (List.range' 1 255).foldl
    (fun marker i => if h.getD i 0 < h.getD marker.toNat 0 then .ofNat i else marker) 0

/-- The best match so far: its length and its offset. -/
abbrev Match := ℕ × ℕ

/-- A candidate is compared, and taken if it is longer than what was found; `minlen` of its bytes
are known to match. -/
def better (text : ℕ → UInt8) (minlen inpos bytesleft offset : ℕ) (best : Match) : Match :=
  let maxlength := if bytesleft < offset then bytesleft else offset
  let length := stringCompare text inpos (inpos - offset) (maxlength - minlen) minlen
  if best.1 < length then (length, offset) else best

/-- The body of the search of `LZ_Compress`. -/
def tryOffset (text : ℕ → UInt8) (inpos bytesleft : ℕ) (best : Match) (offset : ℕ) : Match :=
  if text inpos = text (inpos - offset) ∧
      text (inpos + best.1) = text (inpos - offset + best.1) then
    better text 0 inpos bytesleft offset best
  else best

/-- The search of `LZ_Compress`: every offset from 3 on. -/
def searchAll (text : ℕ → UInt8) (inpos bytesleft : ℕ) : Match :=
  let maxoffset := if LZ_MAX_OFFSET < inpos then LZ_MAX_OFFSET else inpos
  (List.range' 3 (maxoffset + 1 - 3)).foldl (tryOffset text inpos bytesleft) (3, 0)

/-- One place of the jump table: where the two bytes of this place stood last, `lastindex` by
`symbols`, and the table so far. -/
def jump (text : ℕ → UInt8) (acc : (UInt8 × UInt8 → Option ℕ) × List (Option ℕ)) (i : ℕ) :
    (UInt8 × UInt8 → Option ℕ) × List (Option ℕ) :=
  let symbols := (text i, text (i + 1))
  (Function.update acc.1 symbols (some i), acc.2 ++ [acc.1 symbols])

/-- The jump table: the nearest place before each place at which the same two bytes stand. -/
def jumptable (text : ℕ → UInt8) (insize : ℕ) : List (Option ℕ) :=
  ((List.range (insize - 1)).foldl (jump text) (fun _ => none, [])).2 ++ [none]

/-- The search of `LZ_CompressFast`: down the jump table, for at most `n` steps. -/
def follow (text : ℕ → UInt8) (table : List (Option ℕ)) (inpos bytesleft : ℕ) :
    ℕ → Option ℕ → Match → Match
  | 0, _, best => best
  | _ + 1, none, best => best
  | n + 1, some index, best =>
    if inpos - index < LZ_MAX_OFFSET then
      let best :=
        if text (index + best.1) = text (inpos + best.1) then
          better text 2 inpos bytesleft (inpos - index) best
        else best
      follow text table inpos bytesleft n (table.getD index none) best
    else best

def searchJump (text : ℕ → UInt8) (table : List (Option ℕ)) (inpos bytesleft : ℕ) : Match :=
  follow text table inpos bytesleft (inpos + 1) (table.getD inpos none) (3, 0)

/-- Whether a match is long enough for how it has to be written. -/
def goodEnough (best : Match) : Prop :=
  8 ≤ best.1 ∨ (best.1 = 4 ∧ best.2 ≤ 0x0000007f) ∨ (best.1 = 5 ∧ best.2 ≤ 0x00003fff) ∨
    (best.1 = 6 ∧ best.2 ≤ 0x001fffff) ∨ (best.1 = 7 ∧ best.2 ≤ 0x0fffffff)

instance (best : Match) : Decidable (goodEnough best) := inferInstanceAs (Decidable (_ ∨ _))

/-- A byte that stands for itself. -/
def literal (marker symbol : UInt8) : Bytes := if symbol = marker then [symbol, 0] else [symbol]

/-- One round: a match that is good enough, or a single byte.  Where the input goes on, how much of
it is left, and what was written. -/
def round (text : ℕ → UInt8) (search : ℕ → ℕ → Match) (marker : UInt8) (inpos bytesleft : ℕ)
    (out : Bytes) : ℕ × ℕ × Bytes :=
  let best := search inpos bytesleft
  if goodEnough best then
    (inpos + best.1, bytesleft - best.1,
      out ++ [marker] ++ writeVarSize best.1 ++ writeVarSize best.2)
  else (inpos + 1, bytesleft - 1, out ++ literal marker (text inpos))

/-- The main loop, for at most `n` rounds: where it ends, and what was written. -/
def compressLoop (text : ℕ → UInt8) (search : ℕ → ℕ → Match) (marker : UInt8) :
    ℕ → ℕ → ℕ → Bytes → ℕ × Bytes
  | 0, inpos, _, out => (inpos, out)
  | n + 1, inpos, bytesleft, out =>
    let next := round text search marker inpos bytesleft out
    if 3 < next.2.1 then compressLoop text search marker n next.1 next.2.1 next.2.2
    else (next.1, next.2.2)

/-- A compressor with a search: the main loop, and the bytes that remain. -/
def compressWith (search : (ℕ → UInt8) → ℕ → ℕ → Match) (beyond : UInt8) (input : Bytes) : Bytes :=
  if input.length < 1 then []
  else
    let text := fun i => input.getD i beyond
    let marker := markerOf input
    let r := compressLoop text (search text) marker input.length 0 input.length [marker]
    r.2 ++ (input.drop r.1).flatMap (literal marker)

/-- `LZ_Compress` -/
def compress (beyond : UInt8) (input : Bytes) : Bytes := compressWith searchAll beyond input

/-- `LZ_CompressFast` -/
def compressFast (beyond : UInt8) (input : Bytes) : Bytes :=
  compressWith (fun text => searchJump text (jumptable text input.length)) beyond input

/-! ## The decoder -/

/-- What follows a marker: a zero, or a length and an offset. -/
def afterMarker (marker : UInt8) (rest out : Bytes) : Option (Bytes × Bytes) :=
  match rest with
  | [] => none
  | b :: rest' =>
    if b = 0 then some (rest', out ++ [marker])
    else do
      let length ← readVarSize rest 0
      let offset ← readVarSize length.2 0
      let out ← LzTokens.copyBack offset.1 length.1 out
      return (offset.2, out)

/-- One round: a byte, or what a marker stands for.  What is left of the input, and the output. -/
def unpack (marker symbol : UInt8) (rest out : Bytes) : Option (Bytes × Bytes) :=
  if symbol = marker then afterMarker marker rest out else some (rest, out ++ [symbol])

/-- The main loop, for at most `n` rounds; it has no result where the input ends too early, or a
repetition begins before the output. -/
def uncompressLoop (marker : UInt8) : ℕ → Bytes → Bytes → Option Bytes
  | 0, _, _ => none
  | _ + 1, [], _ => none
  | n + 1, symbol :: rest, out => do
    let next ← unpack marker symbol rest out
    if next.1 = [] then some next.2 else uncompressLoop marker n next.1 next.2

/-- `LZ_Uncompress` -/
def uncompress : Bytes → Option Bytes
  | [] => some []
  | marker :: rest => uncompressLoop marker (rest.length + 1) rest []

end Lz
