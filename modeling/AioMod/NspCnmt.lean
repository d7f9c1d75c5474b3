/-
# The content meta of an NSP

The CNMT file of a package lists its contents.  `parseInstalledMeta` of
`nsp_transaction_installer.cpp` reads it piece by piece, and `buildMetaDbBlob` makes the record of
the meta database from what was read: the contents without their hashes, behind the meta itself.
The structures are those of the system, packed and in little-endian order.
-/
import AioMod.NspManifest
import AioMod.NspApplication
import AioMod.NspStream

namespace NspCnmt

open ByteImage
open Nsp (NspEntryInfo)
open NspJournal (NcmId NcmContentMetaKey)
open NspStream (toNcmId contentId)

/-! ## Structures -/

structure NcmContentMetaHeader where
  extended_header_size : UInt16
  content_count : UInt16
  content_meta_count : UInt16
  attributes : UInt8
  storage_id : UInt8
  deriving DecidableEq

namespace NcmContentMetaHeader

def size : ℕ := 8

def decode (bs : Bytes) : NcmContentMetaHeader where
  extended_header_size := u16 bs 0
  content_count := u16 bs 2
  content_meta_count := u16 bs 4
  attributes := u8 bs 6
  storage_id := u8 bs 7

def encode (h : NcmContentMetaHeader) : Bytes :=
  le 2 h.extended_header_size.toNat ++ le 2 h.content_count.toNat ++
    le 2 h.content_meta_count.toNat ++ [h.attributes] ++ [h.storage_id]

end NcmContentMetaHeader

structure PackagedCnmtHeader where
  titleId : UInt64
  titleVersion : UInt32
  metaType : UInt8
  platformOrReserved : UInt8
  metaHeader : NcmContentMetaHeader
  installType : UInt8
  reserved17 : UInt8
  requiredDownloadSystemVersion : UInt32
  reserved1C : UInt32
  deriving DecidableEq

namespace PackagedCnmtHeader

def size : ℕ := 0x20

def decode (bs : Bytes) : PackagedCnmtHeader where
  titleId := u64 bs 0
  titleVersion := u32 bs 8
  metaType := u8 bs 12
  platformOrReserved := u8 bs 13
  metaHeader := .decode (slice bs 14 8)
  installType := u8 bs 22
  reserved17 := u8 bs 23
  requiredDownloadSystemVersion := u32 bs 24
  reserved1C := u32 bs 28

def encode (h : PackagedCnmtHeader) : Bytes :=
  le 8 h.titleId.toNat ++ le 4 h.titleVersion.toNat ++ [h.metaType] ++ [h.platformOrReserved] ++
    h.metaHeader.encode ++ [h.installType] ++ [h.reserved17] ++
    le 4 h.requiredDownloadSystemVersion.toNat ++ le 4 h.reserved1C.toNat

end PackagedCnmtHeader

def NcmContentType_Meta : UInt8 := 0

def NcmContentType_DeltaFragment : UInt8 := 6

structure NcmContentInfo where
  content_id : NcmId
  size_low : UInt32
  size_high : UInt8
  attr : UInt8
  content_type : UInt8
  id_offset : UInt8
  deriving DecidableEq

namespace NcmContentInfo

def size : ℕ := 24

def decode (bs : Bytes) : NcmContentInfo where
  content_id := toNcmId (slice bs 0 16)
  size_low := u32 bs 16
  size_high := u8 bs 20
  attr := u8 bs 21
  content_type := u8 bs 22
  id_offset := u8 bs 23

def encode (i : NcmContentInfo) : Bytes :=
  i.content_id.1 ++ le 4 i.size_low.toNat ++ [i.size_high] ++ [i.attr] ++ [i.content_type] ++
    [i.id_offset]

end NcmContentInfo

/-- `ncmContentInfoSizeToU64` -/
def ncmContentInfoSizeToU64 (info : NcmContentInfo) : ℕ :=
  info.size_low.toNat + info.size_high.toNat * 2 ^ 32

/-- `ncmU64ToContentInfoSize`: the low 40 bits of a size. -/
def ncmU64ToContentInfoSize (size : ℕ) (info : NcmContentInfo) : NcmContentInfo :=
  { info with size_low := .ofNat size, size_high := .ofNat (size / 2 ^ 32) }

/-- `NcmPackagedContentInfo` -/
structure NcmPackagedContentInfo where
  hash : Bytes
  info : NcmContentInfo
  deriving DecidableEq

namespace NcmPackagedContentInfo

def size : ℕ := 56

def decode (bs : Bytes) : NcmPackagedContentInfo := ⟨slice bs 0 32, .decode (slice bs 32 24)⟩

def encode (p : NcmPackagedContentInfo) : Bytes := p.hash ++ p.info.encode

end NcmPackagedContentInfo

structure NcmContentMetaInfo where
  id : UInt64
  version : UInt32
  type : UInt8
  attr : UInt8
  padding : UInt8 × UInt8
  deriving DecidableEq

namespace NcmContentMetaInfo

def size : ℕ := 16

def decode (bs : Bytes) : NcmContentMetaInfo where
  id := u64 bs 0
  version := u32 bs 8
  type := u8 bs 12
  attr := u8 bs 13
  padding := (u8 bs 14, u8 bs 15)

def encode (m : NcmContentMetaInfo) : Bytes :=
  le 8 m.id.toNat ++ le 4 m.version.toNat ++ [m.type] ++ [m.attr] ++ [m.padding.1] ++
    [m.padding.2]

end NcmContentMetaInfo

/-- An array of `n` structures of `size` bytes. -/
def decodeArray {α : Type} (decode : Bytes → α) (size n : ℕ) (bs : Bytes) : List α :=
  (List.range n).map fun i => decode (slice bs (size * i) size)

/-! ## What is read -/

/-- `ParsedMeta` -/
structure ParsedMeta where
  header : PackagedCnmtHeader
  extendedHeader : Bytes
  contentInfos : List NcmContentInfo
  metaInfos : List NcmContentMetaInfo
  appId : UInt64
  deriving DecidableEq

/-- The limits of the counts. -/
def countsInRange (h : NcmContentMetaHeader) : Prop :=
  h.extended_header_size.toNat ≤ 0x10000 ∧ h.content_count.toNat ≤ 0x4000 ∧
    h.content_meta_count.toNat ≤ 0x4000

instance (h : NcmContentMetaHeader) : Decidable (countsInRange h) :=
  inferInstanceAs (Decidable (_ ∧ _ ∧ _))

/-! ## The record -/

/-- `buildMetaDbBlob`: the header with the counts of what was read. -/
def blobHeader (m : ParsedMeta) : NcmContentMetaHeader where
  extended_header_size := m.header.metaHeader.extended_header_size
  content_count := .ofNat (m.contentInfos.length + 1)
  content_meta_count := .ofNat m.metaInfos.length
  attributes := m.header.metaHeader.attributes
  storage_id := 0

/-- The info of the meta itself. -/
def metaInfo (cnmt : NspEntryInfo) : NcmContentInfo :=
  ncmU64ToContentInfoSize cnmt.size ⟨contentId cnmt, 0, 0, 0, NcmContentType_Meta, 0⟩

/-- `buildMetaDbBlob` -/
def buildMetaDbBlob (m : ParsedMeta) (cnmt : NspEntryInfo) : Bytes :=
  (blobHeader m).encode ++ m.extendedHeader ++ (metaInfo cnmt).encode ++
    m.contentInfos.flatMap NcmContentInfo.encode ++ m.metaInfos.flatMap NcmContentMetaInfo.encode

end NspCnmt
