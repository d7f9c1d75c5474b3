/-
# The reader of split packages

`PackageReader` shows a package that lies in several files, `game.nsp`, `game.nsp.01`,
`game.nsp.02` and so on, as one stream.  The file that holds the current position stays open until
another one is needed.
-/
import AioMod.ByteImage

namespace PackageReader

open ByteImage

/-- The regular files, by their paths. -/
abbrev Files := List UInt8 → Option (List UInt8)

/-! ## The parts -/

/-- A number as it is written out. -/
def decimal (n : ℕ) : List UInt8 := (Nat.digits 10 n).reverse.map fun d => UInt8.ofNat (48 + d)

def partPath (base : List UInt8) (index : ℕ) : List UInt8 :=
  if index = 0 then base
  else base ++ [46] ++ (List.replicate (2 - (decimal index).length) 48 ++ decimal index)

/-- The parts up to the first that is missing. -/
def discoverParts (files : Files) (basePath : List UInt8) : List (List UInt8) :=
  if (files basePath).isNone then []
  else
    basePath ::
      ((List.range' 1 9999).map (partPath basePath)).takeWhile fun path => (files path).isSome

/-! ## `std::ifstream` -/

/-- The bytes of the file that is open, the position in them, and whether `failbit` is set. -/
structure Stream where
  file : Option (List UInt8) := none
  position : ℕ := 0
  fail : Bool := false
  deriving DecidableEq

namespace Stream

def is_open (s : Stream) : Bool := s.file.isSome

/-- `stream.close`, which fails where nothing is open. -/
def close (s : Stream) : Stream := { s with file := none, fail := s.fail || !s.is_open }

def clear (s : Stream) : Stream := { s with fail := false }

/-- `stream.open` of a closed stream. -/
def openFile (files : Files) (path : List UInt8) (s : Stream) : Stream :=
  match files path with
  | some bytes => { file := some bytes }
  | none => { s with fail := true }

/-- `stream.seekg` from the beginning; the offset is a signed number. -/
def seekg (s : Stream) (off : ℕ) : Stream :=
  if s.fail = true ∨ s.file = none ∨ 2 ^ 63 ≤ off then { s with fail := true }
  else { s with position := off }

/-- `stream.read`, with the bytes that `gcount` counts. -/
def read (s : Stream) (n : ℕ) : List UInt8 × Stream :=
  if s.fail then ([], s)
  else
    let got := slice (s.file.getD []) s.position n
    (got, { s with position := s.position + got.length, fail := decide (got.length < n) })

end Stream

/-! ## The reader -/

/-- `PackageReader`; there is no current part where `currentPart` is `-1`. -/
structure Reader where
  partPaths : List (List UInt8) := []
  partSizes : List ℕ := []
  partStarts : List ℕ := []
  totalSize : ℕ := 0
  position : ℕ := 0
  currentPart : Option ℕ := none
  stream : Stream := {}
  deriving DecidableEq

namespace Reader

/-- How many elements of a sorted row are at most a value: where `std::upper_bound` ends. -/
def upper_bound (l : List ℕ) (v : ℕ) : ℕ := (l.takeWhile (· ≤ v)).length

/-- The part of a logical offset, and the offset in it. -/
def locatePart (r : Reader) (logicalOffset : ℕ) : Option (ℕ × ℕ) :=
  if r.totalSize < logicalOffset ∨ r.partPaths = [] then none
  else if logicalOffset = r.totalSize then
    some (r.partPaths.length - 1, r.partSizes.getLast?.getD 0)
  else
    let it := upper_bound r.partStarts logicalOffset
    let idx := if it = 0 then 0 else it - 1
    if r.partPaths.length ≤ idx then none
    else some (idx, logicalOffset - r.partStarts.getD idx 0)

/-- What `openPart` does with the stream of the part. -/
def seekLocal (r : Reader) (localOffset : ℕ) : Bool × Reader :=
  let stream := r.stream.clear.seekg localOffset
  (!stream.fail, { r with stream })

def openPart (files : Files) (r : Reader) (index localOffset : ℕ) : Bool × Reader :=
  if r.partPaths.length ≤ index then (false, r)
  else if r.currentPart ≠ some index ∨ r.stream.is_open = false then
    let stream := r.stream.close.clear.openFile files (r.partPaths.getD index [])
    if stream.fail then (false, { r with stream })
    else seekLocal { r with stream, currentPart := some index } localOffset
  else seekLocal r localOffset

/-- The loop of `open` over the parts. -/
def addParts (files : Files) : List (List UInt8) → Reader → Bool × Reader
  | [], r => (true, r)
  | path :: paths, r =>
    match files path with
    | none => (false, r)
    | some bytes =>
      addParts files paths { r with
        partStarts := r.partStarts ++ [r.totalSize]
        partSizes := r.partSizes ++ [bytes.length]
        totalSize := (r.totalSize + bytes.length) % 2 ^ 64 }

/-- `PackageReader::open` -/
def openPackage (files : Files) (r : Reader) (basePath : List UInt8) : Bool × Reader :=
  let r : Reader := { partPaths := discoverParts files basePath, stream := r.stream.close }
  if r.partPaths = [] then (false, r)
  else
    match addParts files r.partPaths r with
    | (false, r) => (false, r)
    | (true, r) => openPart files r 0 0

def seek (files : Files) (r : Reader) (logicalOffset : ℕ) : Bool × Reader :=
  match r.locatePart logicalOffset with
  | none => (false, r)
  | some (idx, off) =>
    match openPart files r idx off with
    | (false, r) => (false, r)
    | (true, r) => (true, { r with position := logicalOffset })

/-- The loop of `read`, which appends to what is in the buffer. -/
def readLoop (files : Files) (remaining : ℕ) (r : Reader) (dst : List UInt8) :
    Option (List UInt8) × Reader :=
  if remaining = 0 then (some dst, r)
  else
    match r.locatePart r.position with
    | none => (none, r)
    | some (idx, off) =>
      match openPart files r idx off with
      | (false, r) => (none, r)
      | (true, r) =>
        let available := (r.partSizes.getD idx 0 + 2 ^ 64 - off) % 2 ^ 64
        let take := min remaining available
        if take = 0 then (none, r)
        else
          let (got, stream) := r.stream.read take
          if got.length ≠ take then (none, { r with stream })
          else
            readLoop files (remaining - take)
              { r with stream, position := (r.position + take) % 2 ^ 64 } (dst ++ got)
termination_by remaining
decreasing_by
  have htake : take ≤ remaining := Nat.min_le_left _ _
  show remaining - take < remaining
  omega

/-- `PackageReader::read`, with what is in the buffer afterwards unless it fails. -/
def read (files : Files) (r : Reader) (bytes : ℕ) : Option (List UInt8) × Reader :=
  if bytes = 0 then (some [], r)
  else if r.totalSize < r.position ∨ r.totalSize - r.position < bytes then (none, r)
  else readLoop files bytes r []

end Reader

/-! ## The calls -/

/-- The calls of a reader that is open. -/
inductive Call where
  | seek (logicalOffset : ℕ)
  | read (bytes : ℕ)
  | tell
  | size
  deriving DecidableEq

/-- What a call returns. -/
inductive Answer where
  | sought (ok : Bool)
  | bytes (buffer : Option (List UInt8))
  | number (n : ℕ)
  deriving DecidableEq

def Reader.call (files : Files) : Call → Reader → Answer × Reader
  | .seek logicalOffset, r =>
    let (ok, r) := r.seek files logicalOffset
    (.sought ok, r)
  | .read bytes, r =>
    let (buffer, r) := r.read files bytes
    (.bytes buffer, r)
  | .tell, r => (.number r.position, r)
  | .size, r => (.number r.totalSize, r)

/-! ## One buffer -/

/-- A row of bytes and a position in it. -/
structure Buffer where
  data : List UInt8
  position : ℕ := 0

/-- A position up to the end is taken, and a read that ends there or before it. -/
def Buffer.call : Call → Buffer → Answer × Buffer
  | .seek offset, b =>
    if offset ≤ b.data.length then (.sought true, { b with position := offset })
    else (.sought false, b)
  | .read n, b =>
    if b.position + n ≤ b.data.length then
      (.bytes (some (slice b.data b.position n)), { b with position := b.position + n })
    else (.bytes none, b)
  | .tell, b => (.number b.position, b)
  | .size, b => (.number b.data.length, b)

/-! ## The parts of a package -/

/-- A package in parts: the files under the names of its parts are these, and there is none under
the next name.  The parts lie on one volume, so that each size is an `off_t`, and the sizes add
up to a 64-bit number. -/
structure Package (files : Files) where
  base : List UInt8
  parts : List (List UInt8)
  holds : ∀ i ≤ parts.length, files (partPath base i) = parts[i]?
  nonempty : parts ≠ []
  part_lt : ∀ part ∈ parts, part.length < 2 ^ 63
  size_lt : parts.flatten.length < 2 ^ 64

end PackageReader
