/-
# The three readers of an NSP's file table

`parseStreamManifest` reads the table of a package that arrives over USB,
`inspectNspManifest` that of a package on the card, and `preflightPackage` checks the latter
before anything else is done with it.  A byte string stands for the package; numbers are
those of the source, cut to the width of their types, and a sum or product that had to be
cut is remembered.
-/
import AioMod.FatFs
import AioMod.ByteImage

namespace Nsp

open ByteImage

/-! ## Diagnostics -/

/-- `ErrorCode`, less `None`. -/
inductive ErrorCode where
  | NotEnoughSpace
  | UnsupportedFormat
  | InvalidPfs0
  | PackageTruncated
  | MissingContent
  | InvalidNca
  | FirmwareTooOld
  | AuthorizationRejected
  | UsbDisconnected
  | UsbTimeout
  | UsbUnstable
  | UsbSlow
  | StorageSlow
  | WriteError
  | PlaceholderError
  | RegistrationError
  | AlreadyInstalled
  | MtpObjectTooLarge
  | Cancelled
  | InternalError
  deriving DecidableEq

/-- A `Diagnostic` that is not `None`. -/
structure Diagnostic where
  code : ErrorCode
  technical : Bytes
  deriving DecidableEq

/-- The bytes of a text of the source. -/
def text (s : String) : Bytes := s.toUTF8.data.toList

/-- `std::to_string` -/
def to_string (n : ℕ) : Bytes := text (toString n)

/-- A reader stops with a diagnostic, and remembers whether a sum or product left its type. -/
abbrev Reader := StateT Bool (Except Diagnostic)

/-- The exact value of a sum or product, cut to the width of its type. -/
def arith (bits exact : ℕ) : Reader ℕ := fun wrapped =>
  .ok (exact % 2 ^ bits, wrapped || decide (2 ^ bits ≤ exact))

/-- `return out` with a diagnostic. -/
def stop {α : Type} (code : ErrorCode) (technical : Bytes) : Reader α := fun _ =>
  .error { code, technical }

/-- Stop if the condition holds. -/
def refuse (c : Prop) [Decidable c] (code : ErrorCode) (technical : Bytes) : Reader Unit :=
  if c then stop code technical else pure ()

/-- Stop if there is no value. -/
def require {α : Type} (r : Option α) (code : ErrorCode) (technical : Bytes) : Reader α :=
  match r with
  | some a => pure a
  | none => stop code technical

/-! ## The tables -/

/-- `Pfs0Header` and `StreamPfs0Header` -/
structure Pfs0Header where
  magic : Bytes
  fileCount : ℕ
  stringTableSize : ℕ
  deriving DecidableEq

/-- `sizeof(Pfs0Header)` -/
def headerSize : ℕ := 16

def Pfs0Header.decode (bs : Bytes) : Pfs0Header where
  magic := slice bs 0 4
  fileCount := ofLe (slice bs 4 4)
  stringTableSize := ofLe (slice bs 8 4)

/-- `Pfs0Entry` and `StreamPfs0Entry` -/
structure Pfs0Entry where
  offset : ℕ
  size : ℕ
  stringOffset : ℕ
  deriving DecidableEq

/-- `sizeof(Pfs0Entry)` -/
def entrySize : ℕ := 24

def Pfs0Entry.decode (bs : Bytes) : Pfs0Entry where
  offset := ofLe (slice bs 0 8)
  size := ofLe (slice bs 8 8)
  stringOffset := ofLe (slice bs 16 4)

/-- An array of entries. -/
def decodeEntries (n : ℕ) (bs : Bytes) : List Pfs0Entry :=
  (List.range n).map fun i => .decode (slice bs (entrySize * i) entrySize)

/-- The string at an address: up to the first NUL. -/
def cString (strings : Bytes) (off : ℕ) : Bytes := (strings.drop off).takeWhile (· ≠ 0)

/-! ## Names -/

/-- `std::tolower` in the C locale -/
def tolower (c : UInt8) : UInt8 := if 65 ≤ c ∧ c ≤ 90 then c + 32 else c

def endsWithCaseInsensitive (value suffix : Bytes) : Bool :=
  suffix.length ≤ value.length &&
    (value.drop (value.length - suffix.length)).map tolower == suffix.map tolower

def streamEndsWithCi (value suffix : Bytes) : Bool := endsWithCaseInsensitive value suffix

/-- The value of a hexadecimal digit. -/
def hexNibble (c : UInt8) : Option UInt8 :=
  if 48 ≤ c ∧ c ≤ 57 then some (c - 48)
  else if 97 ≤ c ∧ c ≤ 102 then some (c - 97 + 10)
  else if 65 ≤ c ∧ c ≤ 70 then some (c - 65 + 10)
  else none

/-- The bytes that pairs of hexadecimal digits stand for. -/
def hexBytes : Bytes → Option Bytes
  | hi :: lo :: rest => do
    let hi ← hexNibble hi
    let lo ← hexNibble lo
    let rest ← hexBytes rest
    return (hi <<< 4 ||| lo) :: rest
  | _ => some []

/-- A content id is read from the 32 digits before the first dot. -/
def parseContentIdFromName (name : Bytes) : Option Bytes :=
  if name.findIdx? (· == 46) = some 32 then hexBytes (name.take 32) else none

def streamParseContentId (name : Bytes) : Option Bytes := parseContentIdFromName name

/-! ## The manifest -/

/-- `NspEntryInfo`; the content id is there when `hasContentId` is set. -/
structure NspEntryInfo where
  name : Bytes
  offset : ℕ
  size : ℕ
  isNca : Bool
  isCnmtNca : Bool
  isTicket : Bool
  isCert : Bool
  contentId : Option Bytes
  deriving DecidableEq

/-- An accepted `NspManifest`. -/
structure NspManifest where
  packageSize : ℕ
  totalNcaBytes : ℕ := 0
  ncaCount : ℕ := 0
  cnmtNcaCount : ℕ := 0
  ticketCount : ℕ := 0
  certCount : ℕ := 0
  entries : List NspEntryInfo := []
  deriving DecidableEq

/-- What both readers note of an entry, with their tests of a name. -/
def entryInfo (endsWith : Bytes → Bytes → Bool) (contentIdOf : Bytes → Option Bytes)
    (name : Bytes) (offset size : ℕ) : NspEntryInfo :=
  let isCnmtNca := endsWith name (text ".cnmt.nca")
  let isNca := isCnmtNca || endsWith name (text ".nca")
  { name, offset, size, isNca, isCnmtNca
    isTicket := endsWith name (text ".tik")
    isCert := endsWith name (text ".cert")
    contentId := if isNca then contentIdOf name else none }

/-- `counter += n` where the condition holds. -/
def addIf (bits : ℕ) (b : Bool) (counter n : ℕ) : Reader ℕ :=
  if b then arith bits (counter + n) else pure counter

/-- An entry is counted and kept. -/
def NspManifest.push (out : NspManifest) (info : NspEntryInfo) : Reader NspManifest := do
  let ncaCount ← addIf 32 info.isNca out.ncaCount 1
  let totalNcaBytes ← addIf 64 info.isNca out.totalNcaBytes info.size
  let cnmtNcaCount ← addIf 32 info.isCnmtNca out.cnmtNcaCount 1
  let ticketCount ← addIf 32 info.isTicket out.ticketCount 1
  let certCount ← addIf 32 info.isCert out.certCount 1
  return { out with
    ncaCount, totalNcaBytes, cnmtNcaCount, ticketCount, certCount
    entries := out.entries ++ [info] }

/-- The first NCA whose name holds no content id. -/
def unnamedNca (out : NspManifest) : Option NspEntryInfo :=
  out.entries.find? fun e => e.isNca && e.contentId.isNone

/-- The sum, when it does not leave its type. -/
def checkedAdd (a b : ℕ) : Reader (Option ℕ) :=
  if 2 ^ 64 - 1 - b < a then pure none else some <$> arith 64 (a + b)

def streamCheckedAdd (a b : ℕ) : Reader (Option ℕ) := checkedAdd a b

/-! ## A package that arrives over USB -/

def STREAM_MAX_PFS0_FILES : ℕ := 0x10000

def STREAM_MAX_STRING_TABLE : ℕ := 32 * 1024 * 1024

/-- `StreamReadExactCallback` on a stream of these bytes, `pos` of which were read before. -/
def readExact (stream : Bytes) (pos size : ℕ) : Option Bytes :=
  if pos + size ≤ stream.length then some (slice stream pos size) else none

/-- The body of the loop over the entries. -/
def streamEntry (packageSize stringTableSize dataStart : ℕ) (strings : Bytes)
    (acc : NspManifest × ℕ) (e : Pfs0Entry) : Reader (NspManifest × ℕ) := do
  let (out, minimumPackageSize) := acc
  refuse (stringTableSize ≤ e.stringOffset) .InvalidPfs0
    (text "PFS0 filename offset outside string table")
  let cName := cString strings e.stringOffset
  let remaining := stringTableSize - e.stringOffset
  refuse (0 ∉ (strings.drop e.stringOffset).take remaining) .InvalidPfs0
    (text "PFS0 filename is not terminated")
  let sum ← streamCheckedAdd dataStart e.offset
  let absoluteOffset ← require sum .InvalidPfs0 (text "PFS0 entry integer overflow")
  let sum ← streamCheckedAdd absoluteOffset e.size
  let absoluteEnd ← require sum .InvalidPfs0 (text "PFS0 entry integer overflow")
  refuse (packageSize ≠ 0 ∧ packageSize < absoluteEnd) .PackageTruncated
    (text "PFS0 entry outside MTP object: " ++ cName)
  let info := entryInfo streamEndsWithCi streamParseContentId cName absoluteOffset e.size
  let out ← out.push info
  return (out, max minimumPackageSize absoluteEnd)

/-- The manifest, and how many bytes of the stream were consumed. -/
def parseStreamManifest (packageSize : ℕ) (stream : Bytes) : Reader (NspManifest × ℕ) := do
  let bytes ← require (readExact stream 0 headerSize) .PackageTruncated
    (text "MTP stream ended before PFS0 header")
  let header := Pfs0Header.decode bytes
  let consumed ← arith 64 (0 + headerSize)
  refuse (header.magic ≠ text "PFS0") .InvalidPfs0 (text "MTP object is not a PFS0 NSP")
  refuse (header.fileCount = 0 ∨ STREAM_MAX_PFS0_FILES < header.fileCount ∨
      STREAM_MAX_STRING_TABLE < header.stringTableSize) .InvalidPfs0
    (text "PFS0 table limits invalid; files=" ++ to_string header.fileCount ++
      text ", strings=" ++ to_string header.stringTableSize)
  let entriesBytes64 ← arith 64 (header.fileCount * entrySize)
  refuse (2 ^ 64 - 1 < entriesBytes64) .InvalidPfs0 (text "PFS0 entry table is too large")
  let bytes ← require (readExact stream consumed entriesBytes64) .PackageTruncated
    (text "MTP stream ended in PFS0 entry table")
  let raw := decodeEntries header.fileCount bytes
  let consumed ← arith 64 (consumed + entriesBytes64)
  let _ ← arith 64 (header.stringTableSize + 1)
  let bytes ← require (readExact stream consumed header.stringTableSize) .PackageTruncated
    (text "MTP stream ended in PFS0 string table")
  let strings := bytes ++ [0]
  let consumed ← arith 64 (consumed + header.stringTableSize)
  let dataStart := consumed
  let (out, minimumPackageSize) ←
    raw.foldlM (streamEntry packageSize header.stringTableSize dataStart strings)
      ({ packageSize }, dataStart)
  let out := if packageSize = 0 then { out with packageSize := minimumPackageSize } else out
  refuse (out.ncaCount = 0) .MissingContent (text "NSP contains no NCA entries")
  refuse (out.cnmtNcaCount ≠ 1) .UnsupportedFormat
    (text "Streaming installer requires exactly one CNMT NCA; count=" ++
      to_string out.cnmtNcaCount)
  refuse (out.ticketCount ≠ out.certCount) .MissingContent
    (text "Ticket/cert count mismatch; tik=" ++ to_string out.ticketCount ++
      text ", cert=" ++ to_string out.certCount)
  refuse (unnamedNca out).isSome .InvalidNca
    (text "Invalid NCA ContentId filename: " ++ ((unnamedNca out).map (·.name)).getD [])
  return (out, consumed)

/-! ## A package on the card -/

def MAX_PFS0_FILES : ℕ := 0x10000

def MAX_STRING_TABLE : ℕ := 32 * 1024 * 1024

/-- `PackageReader::read` at a position of a package of these bytes. -/
def PackageReader.read (file : Bytes) (position bytes : ℕ) : Option Bytes :=
  if bytes = 0 then some []
  else if file.length < position ∨ file.length - position < bytes then none
  else some (slice file position bytes)

/-- The body of the loop over the entries. -/
def inspectEntry (stringTableSize dataStart : ℕ) (strings : Bytes) (out : NspManifest)
    (e : Pfs0Entry) : Reader NspManifest := do
  refuse (stringTableSize ≤ e.stringOffset) .InvalidPfs0 (text "Nombre fuera de rango")
  let cName := cString strings e.stringOffset
  let remaining := stringTableSize - e.stringOffset
  refuse (0 ∉ (strings.drop e.stringOffset).take remaining) .InvalidPfs0
    (text "Nombre sin terminador")
  let outside := text "Entrada fuera del NSP: " ++ cName
  let sum ← checkedAdd e.offset e.size
  let entryEnd ← require sum .PackageTruncated outside
  refuse (out.packageSize - dataStart < entryEnd) .PackageTruncated outside
  let offset ← arith 64 (dataStart + e.offset)
  out.push (entryInfo endsWithCaseInsensitive parseContentIdFromName cName offset e.size)

/-- The checks behind the loop over the entries, whose names tell which of them are contents. -/
def contentChecks (out : NspManifest) : Reader NspManifest := do
  refuse (out.ncaCount = 0) .MissingContent (text "El NSP no contiene entradas NCA")
  refuse (out.cnmtNcaCount = 0) .MissingContent (text "El NSP no contiene .cnmt.nca")
  refuse (out.ticketCount ≠ out.certCount) .MissingContent
    (text "Ticket/cert desparejados: tik=" ++ to_string out.ticketCount ++
      text " cert=" ++ to_string out.certCount)
  refuse (unnamedNca out).isSome .InvalidNca
    (text "Nombre NCA sin Content ID valido: " ++ ((unnamedNca out).map (·.name)).getD [])
  return out

def inspectNspManifest (file : Bytes) : Reader NspManifest := do
  let packageSize := file.length
  refuse (packageSize < headerSize) .PackageTruncated (text "No se pudo leer el NSP")
  let bytes ← require (PackageReader.read file 0 headerSize) .InvalidPfs0
    (text "Magic PFS0 ausente")
  let header := Pfs0Header.decode bytes
  refuse (header.magic ≠ text "PFS0") .InvalidPfs0 (text "Magic PFS0 ausente")
  refuse (header.fileCount = 0 ∨ MAX_PFS0_FILES < header.fileCount ∨
      MAX_STRING_TABLE < header.stringTableSize) .InvalidPfs0
    (text "Cabecera PFS0 fuera de limites")
  let entriesBytes ← arith 64 (header.fileCount * entrySize)
  let sum ← checkedAdd headerSize entriesBytes
  let stringStart ← require sum .PackageTruncated (text "Tablas PFS0 fuera del archivo")
  let sum ← checkedAdd stringStart header.stringTableSize
  let dataStart ← require sum .PackageTruncated (text "Tablas PFS0 fuera del archivo")
  refuse (packageSize < dataStart) .PackageTruncated (text "Tablas PFS0 fuera del archivo")
  let bytes ← require (PackageReader.read file headerSize entriesBytes) .PackageTruncated
    (text "Tablas PFS0 incompletas")
  let entries := decodeEntries header.fileCount bytes
  let _ ← arith 32 (header.stringTableSize + 1)
  let bytes ← require (PackageReader.read file (headerSize + entriesBytes) header.stringTableSize)
    .PackageTruncated (text "Tablas PFS0 incompletas")
  let strings := bytes ++ [0]
  let out ← entries.foldlM (inspectEntry header.stringTableSize dataStart strings) { packageSize }
  contentChecks out

/-! ## The check before anything else -/

/-- An accepted `PackagePreflight`. -/
structure PackagePreflight where
  packageSize : ℕ
  declaredPayloadSize : ℕ
  fileCount : ℕ
  packageType : Bytes
  deriving DecidableEq

/-- `path::filename` -/
def filename (path : Bytes) : Bytes := (path.reverse.takeWhile (· ≠ 47)).reverse

/-- `path::extension` -/
def extension (path : Bytes) : Bytes :=
  let name := filename path
  let ext := (name.reverse.takeWhile (· ≠ 46)).reverse
  -- no dot, a name that is one dot or two, or only a leading dot
  if name = [46, 46] ∨ name.length ≤ ext.length + 1 then [] else 46 :: ext

def lowerExt (path : Bytes) : Bytes := (extension path).map tolower

def sanitizeOneLine (value : Bytes) : Bytes :=
  value.map fun c => if c = 13 ∨ c = 10 then 32 else c

/-- The body of the loop over the entries, which carries its index and the payload's end. -/
def preflightEntry (fileSize stringTableSize dataStart : ℕ) (strings : Bytes) (acc : ℕ × ℕ)
    (e : Pfs0Entry) : Reader (ℕ × ℕ) := do
  let (i, payloadEnd) := acc
  refuse (stringTableSize ≤ e.stringOffset) .InvalidPfs0
    (text "Índice de nombre fuera de rango en entrada " ++ to_string i)
  let name := cString strings e.stringOffset
  let remaining := stringTableSize - e.stringOffset
  refuse (0 ∉ (strings.drop e.stringOffset).take remaining) .InvalidPfs0
    (text "Nombre PFS0 sin terminador en entrada " ++ to_string i)
  let outside := text "Contenido fuera del archivo: " ++ sanitizeOneLine name ++
    text " (offset=" ++ to_string e.offset ++ text ", size=" ++ to_string e.size ++ text ")"
  let sum ← checkedAdd e.offset e.size
  let entryEnd ← require sum .PackageTruncated outside
  refuse (fileSize - dataStart < entryEnd) .PackageTruncated outside
  let i ← arith 32 (i + 1)
  return (i, max payloadEnd entryEnd)

/-- The free space of the card is negative when the system does not tell. -/
def preflightPackage (path file : Bytes) (checkSdSpace : Bool) (sdFreeBytes : ℤ) :
    Reader PackagePreflight := do
  let ext := lowerExt path
  refuse (ext ≠ text ".nsp") .UnsupportedFormat (text "extension=" ++ ext)
  let fileSize := file.length
  refuse (fileSize < headerSize) .PackageTruncated
    (text "No se pudo leer el tamaño del NSP o es demasiado pequeño")
  let bytes ← require (PackageReader.read file 0 headerSize) .InvalidPfs0
    (text "Magic PFS0 ausente")
  let header := Pfs0Header.decode bytes
  refuse (header.magic ≠ text "PFS0") .InvalidPfs0 (text "Magic PFS0 ausente")
  refuse (header.fileCount = 0 ∨ MAX_PFS0_FILES < header.fileCount ∨
      MAX_STRING_TABLE < header.stringTableSize) .InvalidPfs0
    (text "file_count=" ++ to_string header.fileCount ++ text ", string_table=" ++
      to_string header.stringTableSize)
  let outside := text "La tabla PFS0 excede el tamaño real del archivo"
  let entriesBytes ← arith 64 (header.fileCount * entrySize)
  let sum ← checkedAdd headerSize entriesBytes
  let tableStart ← require sum .PackageTruncated outside
  let sum ← checkedAdd tableStart header.stringTableSize
  let dataStart ← require sum .PackageTruncated outside
  refuse (fileSize < dataStart) .PackageTruncated outside
  let bytes ← require (PackageReader.read file headerSize entriesBytes) .PackageTruncated
    (text "Tabla de archivos PFS0 incompleta")
  let entries := decodeEntries header.fileCount bytes
  let _ ← arith 32 (header.stringTableSize + 1)
  let bytes ← require (PackageReader.read file (headerSize + entriesBytes) header.stringTableSize)
    .PackageTruncated (text "Tabla de nombres PFS0 incompleta")
  let strings := bytes ++ [0]
  let (_, payloadEnd) ←
    entries.foldlM (preflightEntry fileSize header.stringTableSize dataStart strings) (0, 0)
  refuse (checkSdSpace ∧ 0 ≤ sdFreeBytes ∧ sdFreeBytes < payloadEnd) .NotEnoughSpace
    (text "required=" ++ to_string payloadEnd ++ text ", free=" ++ text (toString sdFreeBytes))
  return {
    packageSize := fileSize
    declaredPayloadSize := payloadEnd
    fileCount := header.fileCount
    packageType := if ext = [] then text "unknown" else ext.drop 1 }

end Nsp
