/-
# The NCA builder of the forwarder installer

A content archive is an encrypted header of 0xC00 bytes and up to four sections behind it.  A
PFS0 section holds a table of hashes and the PFS0 image; a RomFS section holds the five hash
levels of its integrity tree and the RomFS image.  The structures are those of
`forwarder_nca.hpp` and of the content manager, each with its bytes; fields that stay zero are
written out as zero bytes.

SHA-256 and AES-XTS are parameters.  A media offset has 32 bits and counts 0x200 bytes.
-/
import AioMod.RomFs

namespace Forwarder

open ByteImage

/-! ## Hashes and keys -/

/-- A SHA-256 digest. -/
abbrev Digest := { h : Bytes // h.length = 32 }

/-- `u8 hash[SHA256_HASH_SIZE]{}` -/
def Digest.zero : Digest := ⟨zeros 32, length_zeros 32⟩

/-- The cryptographic functions: a hash, and the cipher of one sector under a key. -/
structure Crypto where
  sha256 : Bytes → Digest
  xtsEncrypt : Bytes → ℕ → Bytes → Bytes
  xtsDecrypt : Bytes → ℕ → Bytes → Bytes
  length_xtsEncrypt : ∀ key sector data, (xtsEncrypt key sector data).length = data.length
  xtsDecrypt_encrypt : ∀ key sector data, xtsDecrypt key sector (xtsEncrypt key sector data) = data

/-! ## The structures of an archive -/

namespace Nca

/-- `SectionTableEntry`; `used` is its first byte after the offsets. -/
structure SectionTableEntry where
  media_start_offset : ℕ := 0
  media_end_offset : ℕ := 0
  used : UInt8 := 0
  deriving DecidableEq

def SectionTableEntry.bytes (s : SectionTableEntry) : Bytes :=
  le 4 s.media_start_offset ++ le 4 s.media_end_offset ++ [s.used] ++ zeros 7

/-- `LayerRegion` -/
structure LayerRegion where
  offset : ℕ := 0
  size : ℕ := 0
  deriving DecidableEq

def LayerRegion.bytes (r : LayerRegion) : Bytes := le 8 r.offset ++ le 8 r.size

/-- `HierarchicalSha256Data` -/
structure HierarchicalSha256Data where
  master_hash : Digest := Digest.zero
  block_size : ℕ := 0
  layer_count : ℕ := 0
  hash_layer : LayerRegion := {}
  pfs0_layer : LayerRegion := {}
  deriving DecidableEq

def HierarchicalSha256Data.bytes (d : HierarchicalSha256Data) : Bytes :=
  d.master_hash.val ++ le 4 d.block_size ++ le 4 d.layer_count ++ d.hash_layer.bytes ++
    d.pfs0_layer.bytes ++ zeros 0x30 ++ zeros 0x80

/-- `HierarchicalIntegrityVerificationLevelInformation` -/
structure Level where
  logical_offset : ℕ := 0
  hash_data_size : ℕ := 0
  block_size : ℕ := 0
  deriving DecidableEq

def Level.bytes (l : Level) : Bytes :=
  le 8 l.logical_offset ++ le 8 l.hash_data_size ++ le 4 l.block_size ++ zeros 4

/-- `IntegrityMetaInfo` with its `InfoLevelHash` -/
structure IntegrityMetaInfo where
  magic : ℕ := 0
  version : ℕ := 0
  master_hash_size : ℕ := 0
  max_layers : ℕ := 0
  levels : Fin 6 → Level := fun _ => {}
  master_hash : Digest := Digest.zero

def IntegrityMetaInfo.bytes (m : IntegrityMetaInfo) : Bytes :=
  le 4 m.magic ++ le 4 m.version ++ le 4 m.master_hash_size ++ le 4 m.max_layers ++
    (List.ofFn m.levels).flatMap Level.bytes ++ zeros 0x20 ++ m.master_hash.val ++ zeros 0x18

/-- The union `hash_data`: all zero is the first member, all zero. -/
inductive HashData where
  | hierarchical_sha256_data (d : HierarchicalSha256Data)
  | integrity_meta_info (m : IntegrityMetaInfo)

def HashData.bytes : HashData → Bytes
  | hierarchical_sha256_data d => d.bytes
  | integrity_meta_info m => m.bytes

/-- `FsHeader` -/
structure FsHeader where
  version : ℕ := 0
  fs_type : UInt8 := 0
  hash_type : UInt8 := 0
  encryption_type : UInt8 := 0
  hash_data : HashData := .hierarchical_sha256_data {}

def FsHeader.bytes (f : FsHeader) : Bytes :=
  le 2 f.version ++ [f.fs_type, f.hash_type, f.encryption_type, 0, 0, 0] ++ f.hash_data.bytes ++
    zeros 0x100

/-- `Header` -/
structure Header where
  magic : ℕ := 0
  distribution_type : UInt8 := 0
  content_type : UInt8 := 0
  size : ℕ := 0
  program_id : ℕ := 0
  sdk_version : ℕ := 0
  fs_table : Fin 4 → SectionTableEntry := fun _ => {}
  fs_header_hash : Fin 4 → Digest := fun _ => Digest.zero
  fs_header : Fin 4 → FsHeader := fun _ => {}

/-- `sizeof(nca::Header)` -/
def sizeof_Header : ℕ := 0xC00

def Header.bytes (h : Header) : Bytes :=
  zeros 0x200 ++ le 4 h.magic ++ [h.distribution_type, h.content_type, 0, 0] ++ le 8 h.size ++
    le 8 h.program_id ++ zeros 4 ++ le 4 h.sdk_version ++ zeros 0x20 ++
    (List.ofFn h.fs_table).flatMap SectionTableEntry.bytes ++
    (List.ofFn h.fs_header_hash).flatMap Subtype.val ++ zeros 0x40 ++ zeros 0xC0 ++
    (List.ofFn h.fs_header).flatMap FsHeader.bytes

def NCA3_MAGIC : ℕ := 0x3341434E
def DistributionType_System : UInt8 := 0
def ContentType_Program : UInt8 := 0
def ContentType_Meta : UInt8 := 1
def ContentType_Control : UInt8 := 2
def FileSystemType_RomFS : UInt8 := 0
def FileSystemType_PFS0 : UInt8 := 1
def HashType_HierarchicalSha256 : UInt8 := 2
def HashType_HierarchicalIntegrity : UInt8 := 3
def EncryptionType_None : UInt8 := 1

end Nca

/-! ## PFS0 -/

def PFS0_EXEFS_HASH_BLOCK_SIZE : ℕ := 0x10000
def PFS0_META_HASH_BLOCK_SIZE : ℕ := 0x1000
def PFS0_PADDING_SIZE : ℕ := 0x200
def SHA256_HASH_SIZE : ℕ := 32

/-- The file table and the string table, from the running offsets. -/
def pfs0Tables : FileEntries → ℕ → ℕ → Bytes × Bytes
  | [], _, _ => ([], [])
  | entry :: entries, data_offset, string_offset =>
    let (files, strings) := pfs0Tables entries (data_offset + entry.data.length)
      (string_offset + (entry.name.length + 1))
    (le 8 data_offset ++ le 8 entry.data.length ++ le 4 string_offset ++ le 4 0 ++ files,
      entry.name ++ [0] ++ strings)

/-- `buildPfs0` -/
def buildPfs0 (entries : FileEntries) : Bytes :=
  let (file_table, strings) := pfs0Tables entries 0 0
  let string_table := strings ++ zeros (align strings.length 0x20 - strings.length)
  le 4 0x30534650 ++ le 4 entries.length ++ le 4 string_table.length ++ le 4 0 ++ file_table ++
    string_table ++ entries.flatMap FileEntry.data

/-- The loop that hashes block after block, from `pos` on. -/
def hashBlocks (c : Crypto) (src : Bytes) (block_size pos : ℕ) : Bytes :=
  if pos < src.length ∧ 0 < block_size then
    let read_size := min block_size (src.length - pos)
    (c.sha256 (slice src pos read_size)).val ++ hashBlocks c src block_size (pos + read_size)
  else []
termination_by src.length - pos

/-- `buildPfs0HashTable` -/
def buildPfs0HashTable (c : Crypto) (pfs0 : Bytes) (block_size : ℕ) : Bytes :=
  hashBlocks c pfs0 block_size 0

/-- `buildPfs0MasterHash` -/
def buildPfs0MasterHash (c : Crypto) (hash_table : Bytes) : Digest := c.sha256 hash_table

/-! ## The sections -/

open Nca

/-- A header and the buffer it is built beside. -/
abbrev Building := Header × BufHelper

/-- `writeNcaPadding` -/
def writeNcaPadding (buf : BufHelper) : BufHelper := (writePadding buf buf.tell 0x200).1

/-- Where the section `index` begins: behind the header or behind the section before it. -/
def sectionStart (header : Header) (index : Fin 4) : ℕ :=
  if index = 0 then sizeof_Header else (header.fs_table (index - 1)).media_end_offset * 0x200

/-- `writeNcaSection`; the offsets are cut to 32 bits. -/
def writeNcaSection (header : Header) (index : Fin 4) (start end_ : ℕ) : Header :=
  { header with
    fs_table := Function.update header.fs_table index
      { media_start_offset := start / 0x200 % 2 ^ 32
        media_end_offset := end_ / 0x200 % 2 ^ 32
        used := 1 } }

/-- The end of both `writeNcaFsHeader` functions: the header of the section and its hash. -/
def setFsHeader (c : Crypto) (header : Header) (index : Fin 4) (fs_header : FsHeader) : Header :=
  { header with
    fs_header := Function.update header.fs_header index fs_header
    fs_header_hash := Function.update header.fs_header_hash index (c.sha256 fs_header.bytes) }

/-- `writeNcaFsHeaderPfs0` -/
def writeNcaFsHeaderPfs0 (c : Crypto) (header : Header) (index : Fin 4) (master_hash : Digest)
    (hash_table_size block_size : ℕ) (pfs0_layer : LayerRegion) : Header :=
  setFsHeader c header index
    { version := 0x2
      fs_type := FileSystemType_PFS0
      hash_type := HashType_HierarchicalSha256
      encryption_type := EncryptionType_None
      hash_data := .hierarchical_sha256_data
        { master_hash
          block_size
          layer_count := 0x2
          hash_layer := { size := hash_table_size }
          pfs0_layer } }

/-- `writeNcaPfs0` -/
def writeNcaPfs0 (c : Crypto) (b : Building) (index : Fin 4) (entries : FileEntries)
    (block_size : ℕ) : Building :=
  let (header, buf) := b
  let pfs0 := buildPfs0 entries
  let hash_table := buildPfs0HashTable c pfs0 block_size
  let master_hash := buildPfs0MasterHash c hash_table
  let buf := buf.write hash_table
  let (buf, padding_size) := writePadding buf hash_table.length PFS0_PADDING_SIZE
  let pfs0_layer : LayerRegion :=
    { offset := hash_table.length + padding_size, size := pfs0.length }
  let buf := writeNcaPadding (buf.write pfs0)
  let header := writeNcaSection header index (sectionStart header index) buf.tell
  (writeNcaFsHeaderPfs0 c header index master_hash hash_table.length block_size pfs0_layer, buf)

/-- `ivfcCreateLevel` -/
def ivfcCreateLevel (c : Crypto) (src : Bytes) : Bytes :=
  let buf := ({} : BufHelper).write (hashBlocks c src IVFC_HASH_BLOCK_SIZE 0)
  (writePadding buf buf.tell IVFC_HASH_BLOCK_SIZE).1.buf

/-- The levels `ivfc[0]` to `ivfc[n - 1]` above `src`, the topmost first. -/
def ivfcLevels (c : Crypto) (src : Bytes) : ℕ → List Bytes
  | 0 => []
  | n + 1 => ivfcLevels c (ivfcCreateLevel c src) n ++ [ivfcCreateLevel c src]

/-- The section header of a RomFS section. -/
def romfsFsHeader (levels : Fin 6 → Level) (master_hash : Digest) : FsHeader where
  version := 0x2
  fs_type := FileSystemType_RomFS
  hash_type := HashType_HierarchicalIntegrity
  encryption_type := EncryptionType_None
  hash_data := .integrity_meta_info
    { magic := 0x43465649
      version := 0x20000
      master_hash_size := SHA256_HASH_SIZE
      max_layers := 0x7
      levels
      master_hash }

/-- `writeNcaFsHeaderRomfs`, on the level information that is already there. -/
def writeNcaFsHeaderRomfs (c : Crypto) (header : Header) (index : Fin 4)
    (levels : Fin 6 → Level) (master_hash : Digest) : Header :=
  setFsHeader c header index (romfsFsHeader levels master_hash)

/-- The level information: each level begins where the one before it ends. -/
def levelInfo (sizes : List ℕ) (i : Fin 6) : Level :=
  { logical_offset := (sizes.take i).sum
    hash_data_size := sizes.getD i 0
    block_size := 0x0E }

/-- `writeNcaRomfs` -/
def writeNcaRomfs (c : Crypto) (b : Building) (index : Fin 4) (entries : FileEntries) : Building :=
  let (header, buf) := b
  let (ivfc5, out_size) := romfsBuild entries
  let upper := ivfcLevels c ivfc5 5
  let levels := levelInfo (upper.map List.length ++ [out_size])
  let buf := (upper ++ [ivfc5]).foldl BufHelper.write buf
  let buf := writeNcaPadding buf
  let master_hash := c.sha256 (upper.headD [])
  let header := writeNcaSection header index (sectionStart header index) buf.tell
  (writeNcaFsHeaderRomfs c header index levels master_hash, buf)

/-- `ncaEncryptHeader`: sector by sector. -/
def ncaEncryptHeader (c : Crypto) (key header : Bytes) : Bytes :=
  (List.range 6).flatMap fun sector => c.xtsEncrypt key sector (slice header (0x200 * sector) 0x200)

/-- The header of an archive, decrypted sector by sector. -/
def ncaDecryptHeader (c : Crypto) (key header : Bytes) : Bytes :=
  (List.range 6).flatMap fun sector => c.xtsDecrypt key sector (slice header (0x200 * sector) 0x200)

/-- The header as `writeNcaHeaderEncrypted` completes it. -/
def completeHeader (header : Header) (tid : ℕ) (type : UInt8) (size : ℕ) : Header :=
  { header with
    magic := NCA3_MAGIC
    distribution_type := DistributionType_System
    content_type := type
    program_id := tid
    sdk_version := 0x000C1100
    size }

/-- `writeNcaHeaderEncrypted` -/
def writeNcaHeaderEncrypted (c : Crypto) (key : Bytes) (b : Building) (tid : ℕ) (type : UInt8) :
    BufHelper :=
  let (header, buf) := b
  let header := completeHeader header tid type buf.tell
  (buf.seek 0).write (ncaEncryptHeader c key header.bytes)

/-- The start of every archive: an empty header and as many bytes. -/
def beginNca : Building :=
  let header : Header := {}
  (header, ({} : BufHelper).write header.bytes)

/-! ## The archives of a forwarder -/

/-- `NcmContentType` -/
inductive NcmContentType where
  | Meta
  | Program
  | Data
  | Control
  deriving DecidableEq

/-- The value of the enumeration. -/
def NcmContentType.toByte : NcmContentType → UInt8
  | Meta => 0
  | Program => 1
  | Data => 2
  | Control => 3

/-- `NcaEntry` -/
structure NcaEntry where
  data : Bytes
  type : NcmContentType
  hash : Digest
  deriving DecidableEq

/-- The constructor of `NcaEntry`. -/
def NcaEntry.ofBuf (c : Crypto) (source : BufHelper) (type : NcmContentType) : NcaEntry :=
  { data := source.buf, type, hash := c.sha256 source.buf }

/-- The archive under construction in `createProgramNca`. -/
def programBuilding (c : Crypto) (exefs romfs : FileEntries) : Building :=
  writeNcaRomfs c (writeNcaPfs0 c beginNca 0 exefs PFS0_EXEFS_HASH_BLOCK_SIZE) 1 romfs

/-- `createProgramNca` -/
def createProgramNca (c : Crypto) (key : Bytes) (tid : ℕ) (exefs romfs : FileEntries) : NcaEntry :=
  .ofBuf c (writeNcaHeaderEncrypted c key (programBuilding c exefs romfs) tid ContentType_Program)
    .Program

/-- `createControlNca` -/
def createControlNca (c : Crypto) (key : Bytes) (tid : ℕ) (romfs : FileEntries) : NcaEntry :=
  .ofBuf c (writeNcaHeaderEncrypted c key (writeNcaRomfs c beginNca 0 romfs) tid
    ContentType_Control) .Control

/-! ## The meta archive -/

/-- `NcmContentInfo`; the size has 40 bits. -/
structure NcmContentInfo where
  content_id : Bytes := zeros 16
  size : ℕ := 0
  attr : UInt8 := 0
  content_type : NcmContentType := .Meta
  id_offset : UInt8 := 0
  deriving DecidableEq

def NcmContentInfo.bytes (i : NcmContentInfo) : Bytes :=
  i.content_id ++ le 5 i.size ++ [i.attr, i.content_type.toByte, i.id_offset]

/-- `ncmU64ToContentInfoSize` -/
def ncmU64ToContentInfoSize (size : ℕ) : ℕ := size % 2 ^ 40

/-- `NcmPackagedContentInfo` -/
structure NcmPackagedContentInfo where
  hash : Digest := Digest.zero
  info : NcmContentInfo := {}
  deriving DecidableEq

def NcmPackagedContentInfo.bytes (p : NcmPackagedContentInfo) : Bytes := p.hash.val ++ p.info.bytes

/-- `NcmContentMetaHeader` -/
structure NcmContentMetaHeader where
  extended_header_size : ℕ
  content_count : ℕ
  content_meta_count : ℕ
  attributes : UInt8
  storage_id : UInt8
  deriving DecidableEq

def NcmContentMetaHeader.bytes (h : NcmContentMetaHeader) : Bytes :=
  le 2 h.extended_header_size ++ le 2 h.content_count ++ le 2 h.content_meta_count ++
    [h.attributes, h.storage_id]

def NcmContentMetaType_Application : UInt8 := 0x80
def NcmContentInstallType_Full : UInt8 := 0

/-- `CnmtHeader` -/
structure CnmtHeader where
  title_id : ℕ
  title_version : ℕ
  meta_type : UInt8
  meta_header : NcmContentMetaHeader
  deriving DecidableEq

def CnmtHeader.bytes (h : CnmtHeader) : Bytes :=
  le 8 h.title_id ++ le 4 h.title_version ++ [h.meta_type, 0] ++ h.meta_header.bytes ++
    [0, 0] ++ le 4 0 ++ zeros 4

/-- `NcmApplicationMetaExtendedHeader`: the patch id and two versions that stay zero. -/
structure NcmApplicationMetaExtendedHeader where
  patch_id : ℕ
  deriving DecidableEq

def NcmApplicationMetaExtendedHeader.bytes (h : NcmApplicationMetaExtendedHeader) : Bytes :=
  le 8 h.patch_id ++ zeros 8

/-- `sizeof(NcmApplicationMetaExtendedHeader)` -/
def sizeof_extended : ℕ := 0x10

/-- `NcmContentMetaKey` -/
structure NcmContentMetaKey where
  id : ℕ
  version : ℕ
  type : UInt8
  install_type : UInt8
  deriving DecidableEq

/-- `ContentStorageRecord` -/
structure ContentStorageRecord where
  key : NcmContentMetaKey
  storage_id : UInt8
  deriving DecidableEq

/-- `NcmContentMetaData`: the record of the database. -/
structure NcmContentMetaData where
  header : NcmContentMetaHeader
  extended : NcmApplicationMetaExtendedHeader
  infos : List NcmContentInfo
  deriving DecidableEq

/-- `NcaMetaEntry` -/
structure NcaMetaEntry where
  nca_entry : NcaEntry
  content_meta_header : NcmContentMetaHeader
  content_meta_key : NcmContentMetaKey
  content_storage_record : ContentStorageRecord
  content_meta_data : NcmContentMetaData
  deriving DecidableEq

/-- The content info of an archive. -/
def packagedInfo (nca : NcaEntry) : NcmPackagedContentInfo :=
  { hash := nca.hash
    info :=
      { content_id := nca.hash.val.take 16
        size := ncmU64ToContentInfoSize nca.data.length
        content_type := nca.type } }

/-- `packaged_content_info`: that of the first two archives, zero where there is none. -/
def packaged_content_info (ncas : List NcaEntry) (i : Fin 2) : NcmPackagedContentInfo :=
  (ncas[i.val]?.map packagedInfo).getD {}

/-- `cnmt_header` -/
def cnmt_header (tid : ℕ) (storage_id : UInt8) : CnmtHeader where
  title_id := tid
  title_version := 0
  meta_type := NcmContentMetaType_Application
  meta_header :=
    { extended_header_size := sizeof_extended
      content_count := 0x2
      content_meta_count := 0x1
      attributes := 0x0
      storage_id }

/-- `cnmt_extended` -/
def cnmt_extended (tid : ℕ) : NcmApplicationMetaExtendedHeader := { patch_id := tid ||| 0x800 }

/-- `cnmt_buf` -/
def cnmt_buf (tid : ℕ) (storage_id : UInt8) (ncas : List NcaEntry) : Bytes :=
  (cnmt_header tid storage_id).bytes ++ (cnmt_extended tid).bytes ++
    (packaged_content_info ncas 0).bytes ++ (packaged_content_info ncas 1).bytes ++ zeros 0x20

/-- `%016lX` -/
def hex16 (n : ℕ) : Bytes :=
  ((List.range 16).reverse.map fun i => n / 16 ^ i % 16).map fun d =>
    if d < 10 then UInt8.ofNat (48 + d) else UInt8.ofNat (55 + d)

/-- The one file of the meta archive. -/
def cnmtEntries (tid : ℕ) (storage_id : UInt8) (ncas : List NcaEntry) : FileEntries :=
  [{ name := ascii "Application_" ++ hex16 tid ++ ascii ".cnmt"
     data := cnmt_buf tid storage_id ncas }]

/-- The archive under construction in `createMetaNca`. -/
def metaBuilding (c : Crypto) (entries : FileEntries) : Building :=
  writeNcaPfs0 c beginNca 0 entries PFS0_META_HASH_BLOCK_SIZE

/-- `createMetaNca` -/
def createMetaNca (c : Crypto) (key : Bytes) (tid : ℕ) (storage_id : UInt8)
    (ncas : List NcaEntry) : NcaMetaEntry :=
  let nca_entry := NcaEntry.ofBuf c (writeNcaHeaderEncrypted c key
    (metaBuilding c (cnmtEntries tid storage_id ncas)) tid ContentType_Meta) .Meta
  let content_meta_header :=
    { (cnmt_header tid storage_id).meta_header with
      content_count := (cnmt_header tid storage_id).meta_header.content_count + 1
      storage_id := 0 }
  let content_meta_key : NcmContentMetaKey :=
    { id := (cnmt_header tid storage_id).title_id
      version := (cnmt_header tid storage_id).title_version
      type := (cnmt_header tid storage_id).meta_type
      install_type := NcmContentInstallType_Full }
  { nca_entry
    content_meta_header
    content_meta_key
    content_storage_record := { key := content_meta_key, storage_id }
    content_meta_data :=
      { header := content_meta_header
        extended := cnmt_extended tid
        infos :=
          [ { content_id := nca_entry.hash.val.take 16
              -- the size is taken from the buffer of the CNMT
              size := ncmU64ToContentInfoSize (cnmt_buf tid storage_id ncas).length
              attr := 0
              content_type := nca_entry.type
              id_offset := 0 },
            (packaged_content_info ncas 0).info, (packaged_content_info ncas 1).info] } }

end Forwarder
