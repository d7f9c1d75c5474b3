/-
# The forwarder tab's NRO parser and the forwarder loader

`parseNro` of `forwarders_tab.cpp` decides which files can be made a forwarder;
`forwarder-loader/source/main.c` is what such a forwarder runs: it reads the target and its
arguments from its RomFS and loads the target into its heap.  A buffer of the loader keeps its
length; a read puts its bytes at the front and leaves the rest.

The services are taken to open what they are asked for when it is there; `abort_loader` ends
the loader with the result it is given.
-/
import AioMod.RomFs

namespace Forwarder

open ByteImage

/-! ## NRO files -/

/-- `sizeof(NroStart)` -/
def sizeof_NroStart : ℕ := 0x10

/-- `sizeof(NroHeader)` -/
def sizeof_NroHeader : ℕ := 0x70

/-- `sizeof(NroAssetHeader)` -/
def sizeof_NroAssetHeader : ℕ := 0x38

/-- `sizeof(NacpStruct)` -/
def sizeof_NacpStruct : ℕ := 0x4000

def NROHEADER_MAGIC : ℕ := 0x304F524E

def NROASSETHEADER_MAGIC : ℕ := 0x54455341

def MAX_ICON_SIZE : ℕ := 1024 * 1024

/-- The fields of `NroHeader` that are read. -/
structure NroHeader where
  magic : ℕ
  size : ℕ
  segments : Fin 3 → ℕ × ℕ

/-- The header behind the `NroStart` of an image. -/
def nroHeader (image : Bytes) : NroHeader where
  magic := ofLe (slice image 0x10 4)
  size := ofLe (slice image 0x18 4)
  segments i := (ofLe (slice image (0x20 + 8 * i.val) 4), ofLe (slice image (0x24 + 8 * i.val) 4))

/-- `readAt`: all of `size` bytes from `offset`, which may be out of a stream's range. -/
def readAt (file : Bytes) (offset size : ℕ) : Option Bytes :=
  if offset < 2 ^ 63 ∧ offset + size ≤ file.length then some (slice file offset size) else none

/-- The bytes before the first NUL. -/
def cString (buf : Bytes) : Bytes := buf.takeWhile (· ≠ 0)

/-- `trimCString` -/
def trimCString (value : Bytes) (maxSize : ℕ) : Bytes := cString (value.take maxSize)

/-- `std::filesystem::path::stem` -/
def stem (path : Bytes) : Bytes :=
  let filename := (path.reverse.takeWhile (· ≠ '/'.toNat.toUInt8)).reverse
  let extension := filename.reverse.takeWhile (· ≠ '.'.toNat.toUInt8)
  let dot := filename.length - (extension.length + 1)
  if filename = ascii "." ∨ filename = ascii ".." then filename
  else if extension.length < filename.length ∧ dot ≠ 0 then filename.take dot
  else filename

/-- `fileStem` -/
def fileStem (path : Bytes) : Bytes :=
  if stem path = [] then ascii "Homebrew" else stem path

/-- `ParsedNro` -/
structure ParsedNro where
  path : Bytes
  name : Bytes
  author : Bytes
  version : Bytes
  nacp : Bytes
  icon : Bytes := []
  validNacp : Bool := false
  deriving DecidableEq

/-- `std::strncpy(dst, src, n - 1)` into `n` zero bytes. -/
def strncpyField (src : Bytes) (n : ℕ) : Bytes :=
  let text := (cString src).take (n - 1)
  text ++ zeros (n - text.length)

/-- The NACP of an NRO without assets. -/
def fallbackNacp (name author version : Bytes) : Bytes :=
  strncpyField name 0x200 ++ strncpyField author 0x100 ++ zeros (0x3060 - 0x300) ++
    strncpyField version 0x10 ++ zeros (sizeof_NacpStruct - 0x3070)

/-- The first title with a name, and its author. -/
def firstTitle (nacp : Bytes) : Option (Bytes × Bytes) :=
  (List.range 16).findSome? fun i =>
    let name := trimCString (slice nacp (0x300 * i) 0x200) 0x200
    if name = [] then none
    else some (name, trimCString (slice nacp (0x300 * i + 0x200) 0x100) 0x100)

/-- `NroAssetHeader`: offset and size of the icon and of the NACP, when the header is good. -/
def assetHeader (file : Bytes) (size : ℕ) : Option ((ℕ × ℕ) × ℕ) := do
  let asset ← readAt file size sizeof_NroAssetHeader
  let nacpOffset := ofLe (slice asset 0x18 8)
  if ofLe (slice asset 0 4) = NROASSETHEADER_MAGIC ∧ nacpOffset ≠ 0 ∧
      ofLe (slice asset 0x20 8) = sizeof_NacpStruct then
    some ((ofLe (slice asset 0x08 8), ofLe (slice asset 0x10 8)), nacpOffset)
  else none

/-- `parseNro` of a file that could be opened. -/
def parseNro (path file : Bytes) (loadIcon : Bool) : Option ParsedNro := do
  let data ← readAt file 0 (sizeof_NroStart + sizeof_NroHeader)
  if (nroHeader data).magic ≠ NROHEADER_MAGIC then none
  let size := (nroHeader data).size
  let name := fileStem path
  let author := ascii "Unknown"
  let version := ascii "Unknown"
  match assetHeader file size with
  | none => some { path, name, author, version, nacp := fallbackNacp name author version }
  | some ((iconOffset, iconSize), nacpOffset) =>
    let nacp ← readAt file ((size + nacpOffset) % 2 ^ 64) sizeof_NacpStruct
    let title := firstTitle nacp
    let shown := trimCString (slice nacp 0x3060 0x10) 0x10
    let icon :=
      if loadIcon ∧ iconOffset ≠ 0 ∧ 0 < iconSize ∧ iconSize ≤ MAX_ICON_SIZE then
        (readAt file ((size + iconOffset) % 2 ^ 64) iconSize).getD []
      else []
    some
      { path
        name := (title.map Prod.fst).getD name
        author := ((title.map Prod.snd).filter (· ≠ [])).getD author
        version := if shown = [] then version else shown
        nacp
        icon
        validNacp := true }

/-! ## The loader -/

/-- The results `abort_loader` is called with: one of the loader's own, or that of a call. -/
inductive Abort where
  | homebrewLoader (description : ℕ)
  | call
  deriving DecidableEq

/-- `LibnxError_OutOfMemory` -/
def LibnxError_OutOfMemory : ℕ := 2

/-- `FS_MAX_PATH` -/
def FS_MAX_PATH : ℕ := 0x301

/-- The buffers of the loader. -/
structure Loader where
  s_argv : Bytes
  s_next_argv : Bytes
  s_next_path : Bytes
  s_home_argv : Bytes
  s_home_path : Bytes
  s_heap : Bytes
  deriving DecidableEq

/-- The buffers have the sizes they are declared with. -/
structure Loader.Sized (s : Loader) : Prop where
  argv : s.s_argv.length = 2048
  next_argv : s.s_next_argv.length = 2048
  next_path : s.s_next_path.length = FS_MAX_PATH
  home_argv : s.s_home_argv.length = 2048
  home_path : s.s_home_path.length = FS_MAX_PATH

/-- Bytes are put at the front of a buffer. -/
def fill (buf data : Bytes) : Bytes := data ++ buf.drop data.length

/-- `strcpy`: the string of `src` with its NUL. -/
def strcpy (dst src : Bytes) : Bytes := fill dst (cString src ++ [0])

/-- `fsStorageRead` -/
def fsStorageRead (storage : Bytes) (off size : ℕ) : Except Abort Bytes :=
  if off + size ≤ storage.length then .ok (slice storage off size) else .error .call

/-- `read_initial_launch_spec` on the data storage of the process. -/
def read_initial_launch_spec (storage : Bytes) (s : Loader) : Except Abort Loader := do
  let header ← fsStorageRead storage 0 sizeof_romfs_header
  let dirTableOff := ofLe (slice header 24 8)
  let dirTableSize := ofLe (slice header 32 8)
  let fileTableOff := ofLe (slice header 56 8)
  let fileTableSize := ofLe (slice header 64 8)
  let fileDataOff := ofLe (slice header 72 8)
  if dirTableSize > 2048 ∨ fileTableSize > 4096 then
    .error (.homebrewLoader LibnxError_OutOfMemory)
  let dirs ← fsStorageRead storage dirTableOff dirTableSize
  let files ← fsStorageRead storage fileTableOff fileTableSize
  let childFile := ofLe (slice dirs 12 4)
  let first := files.drop childFile
  let second := files.drop (ofLe (slice first 4 4))
  let firstSize := ofLe (slice first 16 8)
  let secondSize := ofLe (slice second 16 8)
  if firstSize ≥ 2048 ∨ secondSize ≥ FS_MAX_PATH then
    .error (.homebrewLoader LibnxError_OutOfMemory)
  let argv ← fsStorageRead storage ((fileDataOff + ofLe (slice first 8 8)) % 2 ^ 64) firstSize
  let path ← fsStorageRead storage ((fileDataOff + ofLe (slice second 8 8)) % 2 ^ 64) secondSize
  let s_next_argv := fill s.s_next_argv (argv ++ [0])
  let s_next_path := fill s.s_next_path (path ++ [0])
  return { s with
    s_next_argv
    s_next_path
    s_home_argv := strcpy s.s_home_argv s_next_argv
    s_home_path := strcpy s.s_home_path s_next_path }

/-- `strip_sdmc_prefix` -/
def strip_sdmc_prefix (path : Bytes) : Bytes :=
  if path.take 6 = ascii "sdmc:/" then path.drop 5 else path

/-- `load_nro_into_heap` with the files of the SD card. -/
def load_nro_into_heap (sd : Bytes → Option Bytes) (s : Loader) : Except Abort Loader := do
  let path := strip_sdmc_prefix ((cString s.s_next_path).take (FS_MAX_PATH - 1))
  let s := { s with s_argv := s.s_next_argv }
  match sd path with
  | none => .error .call
  | some file =>
    let data := file.take s.s_heap.length
    let s := { s with s_heap := fill s.s_heap data }
    let header := nroHeader s.s_heap
    if header.magic ≠ NROHEADER_MAGIC ∨
        data.length < sizeof_NroStart + sizeof_NroHeader + header.size then
      .error (.homebrewLoader 6)
    else .ok s

/-- `validate_segments` -/
def validate_segments (h : NroHeader) : Except Abort Unit :=
  if ∃ i, (h.segments i).1 ≥ h.size ∨ (h.segments i).2 > h.size ∨
      (h.segments i).1 + (h.segments i).2 > h.size then
    .error (.homebrewLoader 6)
  else .ok ()

/-! ## The launch specification in the image -/

/-- A read of one part of the storage. -/
theorem fsStorageRead_part {storage a b c : Bytes} {off n : ℕ} (h : storage = a ++ (b ++ c))
    (ho : off = a.length) (hn : n = b.length) : fsStorageRead storage off n = .ok b := by
  have hlen : off + n ≤ storage.length := by
    rw [h, List.length_append, List.length_append]
    omega
  rw [fsStorageRead, if_pos hlen, h, ← List.append_assoc, slice_middle ho hn]

/-- What the loader finds in the image of two files: the first is the arguments, the second the
path, and it gives up on what does not fit in its buffers. -/
theorem read_initial_launch_spec_two {e₀ e₁ : FileEntry} (t : TwoFiles e₀ e₁) (rest : Bytes)
    (s : Loader) (htable : fileEntrySize e₀ + fileEntrySize e₁ ≤ 4096)
    (h₀ : e₀.data.length < 2 ^ 62) (h₁ : e₁.data.length < 2 ^ 62) :
    read_initial_launch_spec (t.image ++ rest) s =
      if e₀.data.length ≥ 2048 ∨ e₁.data.length ≥ FS_MAX_PATH then
        .error (.homebrewLoader LibnxError_OutOfMemory)
      else
        .ok { s with
          s_next_argv := fill s.s_next_argv (e₀.data ++ [0])
          s_next_path := fill s.s_next_path (e₁.data ++ [0])
          s_home_argv := strcpy s.s_home_argv (fill s.s_next_argv (e₀.data ++ [0]))
          s_home_path := strcpy s.s_home_path (fill s.s_next_path (e₁.data ++ [0])) } := by
  have hs₁ := align_lt e₀.data.length (by decide : 0 < 0x10)
  have hs₂ := le_align e₀.data.length (by decide : 0 < 0x10)
  have ht₁ := align_lt (secondOff e₀ + e₁.data.length + 0x200) (by decide : 0 < 4)
  have ht₂ := le_align (secondOff e₀ + e₁.data.length + 0x200) (by decide : 0 < 4)
  rw [← tablesOff] at ht₁ ht₂
  rw [← secondOff] at hs₁ hs₂
  -- the parts that are read
  have hheader : fsStorageRead (t.image ++ rest) 0 sizeof_romfs_header = .ok t.header.bytes :=
    fsStorageRead_part (a := []) (by rw [TwoFiles.image, List.append_assoc]; rfl) rfl
      t.header.length_bytes.symm
  have hargv : fsStorageRead (t.image ++ rest) 0x200 e₀.data.length = .ok e₀.data :=
    fsStorageRead_part (a := t.header.bytes ++ zeros 0x1B0)
      (by simp only [TwoFiles.image, List.append_assoc]; rfl) (by simp) rfl
  have hpath : fsStorageRead (t.image ++ rest) (0x200 + secondOff e₀) e₁.data.length
      = .ok e₁.data :=
    fsStorageRead_part
      (a := t.header.bytes ++ zeros 0x1B0 ++ e₀.data ++ zeros (secondOff e₀ - e₀.data.length))
      (by simp only [TwoFiles.image, List.append_assoc]; rfl)
      (by simp only [List.length_append, length_zeros, romfs_header.length_bytes]; omega) rfl
  have hdirs : fsStorageRead (t.image ++ rest) (tablesOff e₀ e₁ + 12) 24
      = .ok (rootDirBytes 0 ROMFS_ENTRY_EMPTY) :=
    fsStorageRead_part
      (a := t.header.bytes ++ zeros 0x1B0 ++ e₀.data ++ zeros (secondOff e₀ - e₀.data.length) ++
        e₁.data ++ zeros (tablesOff e₀ e₁ - (secondOff e₀ + 0x200 + e₁.data.length)) ++ t.dirHash)
      (by simp only [TwoFiles.image, List.append_assoc]; rfl)
      (by
        simp only [List.length_append, length_zeros, romfs_header.length_bytes, t.dirHash_length]
        omega)
      (length_rootDirBytes _ _).symm
  have hfiles : fsStorageRead (t.image ++ rest) (tablesOff e₀ e₁ + 48)
      (fileEntrySize e₀ + fileEntrySize e₁) = .ok (t.entry₀ ++ t.entry₁) :=
    fsStorageRead_part
      (a := t.header.bytes ++ zeros 0x1B0 ++ e₀.data ++ zeros (secondOff e₀ - e₀.data.length) ++
        e₁.data ++ zeros (tablesOff e₀ e₁ - (secondOff e₀ + 0x200 + e₁.data.length)) ++ t.dirHash ++
        rootDirBytes 0 ROMFS_ENTRY_EMPTY ++ t.fileHash)
      (by simp only [TwoFiles.image, List.append_assoc]; rfl)
      (by
        simp only [List.length_append, length_zeros, romfs_header.length_bytes, t.dirHash_length,
          length_rootDirBytes, t.fileHash_length]
        omega)
      (by rw [List.length_append, TwoFiles.entry₀, TwoFiles.entry₁, length_fileEntryBytes,
        length_fileEntryBytes])
  -- the fields that are read
  have f3 : ofLe (slice t.header.bytes 24 8) = tablesOff e₀ e₁ + 12 :=
    (t.header.field (i := 3) rfl (by rw [t.dirTableOff]; omega)).trans t.dirTableOff
  have f4 : ofLe (slice t.header.bytes 32 8) = 24 :=
    (t.header.field (i := 4) rfl (by rw [t.dirTableSize]; omega)).trans t.dirTableSize
  have f7 : ofLe (slice t.header.bytes 56 8) = tablesOff e₀ e₁ + 48 :=
    (t.header.field (i := 7) rfl (by rw [t.fileTableOff]; omega)).trans t.fileTableOff
  have f8 : ofLe (slice t.header.bytes 64 8) = fileEntrySize e₀ + fileEntrySize e₁ :=
    (t.header.field (i := 8) rfl (by rw [t.fileTableSize]; omega)).trans t.fileTableSize
  have f9 : ofLe (slice t.header.bytes 72 8) = 0x200 :=
    (t.header.field (i := 9) rfl (by rw [t.fileDataOff]; omega)).trans t.fileDataOff
  have hchild : ofLe (slice (rootDirBytes 0 ROMFS_ENTRY_EMPTY) 12 4) = 0 := by decide
  have hdrop : (t.entry₀ ++ t.entry₁).drop (fileEntrySize e₀) = t.entry₁ :=
    List.drop_left' (length_fileEntryBytes _ _ _ _)
  obtain ⟨g₁, g₂, g₃⟩ := fileEntryBytes_fields { size := e₀.data.length } (fileEntrySize e₀)
    t.nextHash₀ e₀ t.entry₁ (by omega) (by simp) (by simp only; omega)
  obtain ⟨-, k₂, k₃⟩ := fileEntryBytes_fields
    { entry_offset := fileEntrySize e₀, offset := secondOff e₀, size := e₁.data.length }
    ROMFS_ENTRY_EMPTY t.nextHash₁ e₁ [] (by decide) (by simp only; omega) (by simp only; omega)
  rw [List.append_nil] at k₂ k₃
  rw [← TwoFiles.entry₀] at g₁ g₂ g₃
  rw [← TwoFiles.entry₁] at k₂ k₃
  have hfit : ¬ (24 > 2048 ∨ fileEntrySize e₀ + fileEntrySize e₁ > 4096) := by omega
  simp only [read_initial_launch_spec, hheader, bind, Except.bind, f3, f4, f7, f8, f9, hfit,
    if_false, hdirs, hfiles, hchild, List.drop_zero, g₁, g₂, g₃, hdrop, k₂, k₃]
  have hm₀ : (0x200 + 0) % 2 ^ 64 = 0x200 := rfl
  have hm₁ : (0x200 + secondOff e₀) % 2 ^ 64 = 0x200 + secondOff e₀ :=
    Nat.mod_eq_of_lt (by omega)
  rw [hm₀, hm₁, hargv, hpath]
  rfl

/-- A buffer that was filled holds the string. -/
theorem cString_fill (buf data : Bytes) (h : 0 ∉ data) :
    cString (fill buf (data ++ [0])) = data := by
  rw [cString, fill, List.append_assoc, List.takeWhile_append_of_pos]
  · simp
  · intro b hb
    simpa using fun h0 : b = 0 => h (h0 ▸ hb)

/-- Filling a buffer keeps its length. -/
theorem length_fill (buf data : Bytes) (h : data.length ≤ buf.length) :
    (fill buf data).length = buf.length := by
  rw [fill, List.length_append, List.length_drop]
  omega

/-! ## What the tab accepts and what the loader loads -/

/-- An accepted file holds a whole header with the magic number. -/
theorem parseNro_header {path file : Bytes} {loadIcon : Bool}
    (h : (parseNro path file loadIcon).isSome) :
    0x80 ≤ file.length ∧ (nroHeader file).magic = NROHEADER_MAGIC := by
  by_cases hlen : 0x80 ≤ file.length
  · refine ⟨hlen, ?_⟩
    by_contra hmagic
    have hread : readAt file 0 (sizeof_NroStart + sizeof_NroHeader) = some (slice file 0 0x80) :=
      if_pos ⟨by decide, by simpa [sizeof_NroStart, sizeof_NroHeader] using hlen⟩
    have hslice : (nroHeader (slice file 0 0x80)).magic = (nroHeader file).magic := by
      simp only [nroHeader, slice_slice file (by decide : 0x10 + 4 ≤ 0x80), Nat.zero_add]
    rw [parseNro, hread] at h
    simp [hslice, hmagic] at h
  · have hread : readAt file 0 (sizeof_NroStart + sizeof_NroHeader) = none :=
      if_neg fun hx => hlen (by simpa [sizeof_NroStart, sizeof_NroHeader] using hx.2)
    rw [parseNro, hread] at h
    simp at h

/-- The header of an image does not depend on what is behind it. -/
theorem nroHeader_append {image rest : Bytes} (h : 0x80 ≤ image.length) :
    nroHeader (image ++ rest) = nroHeader image := by
  simp only [nroHeader, NroHeader.mk.injEq]
  refine ⟨?_, ?_, ?_⟩
  · rw [slice_append_left (by omega)]
  · rw [slice_append_left (by omega)]
  · funext i
    have hi := i.isLt
    rw [slice_append_left (by omega), slice_append_left (by omega)]

/-- The path the loader opens. -/
def Loader.target (s : Loader) : Bytes :=
  strip_sdmc_prefix ((cString s.s_next_path).take (FS_MAX_PATH - 1))

/-- A file that fits in the heap is loaded as a whole, when it is long enough for the loader. -/
theorem load_nro_into_heap_eq {sd : Bytes → Option Bytes} {s : Loader} {file : Bytes}
    (hsd : sd s.target = some file) (hfit : file.length ≤ s.s_heap.length)
    (hlen : 0x80 ≤ file.length) (hmagic : (nroHeader file).magic = NROHEADER_MAGIC) :
    load_nro_into_heap sd s =
      if file.length < 0x80 + (nroHeader file).size then .error (.homebrewLoader 6)
      else .ok { s with s_argv := s.s_next_argv, s_heap := fill s.s_heap file } := by
  have hdata : file.take s.s_heap.length = file := List.take_of_length_le hfit
  have hheader : nroHeader (fill s.s_heap file) = nroHeader file := nroHeader_append hlen
  have htarget : sd ( strip_sdmc_prefix ((cString s.s_next_path).take (FS_MAX_PATH - 1)))
      = some file := hsd
  simp only [load_nro_into_heap, htarget, hdata, hheader, hmagic, ne_eq, not_true_eq_false,
    false_or, sizeof_NroStart, sizeof_NroHeader]

/-- **What the loader takes of what the tab accepts.** A file the tab accepts, at least as long
as the size in its header and no longer than the heap, is loaded with its image in place exactly
when it goes on for another 0x80 bytes behind the image. -/
theorem accepted_nro_loads_iff (path file : Bytes) (loadIcon : Bool) (sd : Bytes → Option Bytes)
    (s : Loader) (haccepted : (parseNro path file loadIcon).isSome)
    (hsize : (nroHeader file).size ≤ file.length)
    (hfit : file.length ≤ s.s_heap.length) (hsd : sd s.target = some file) :
    (∃ s', load_nro_into_heap sd s = .ok s' ∧
        s'.s_heap.take (nroHeader file).size = file.take (nroHeader file).size) ↔
      (nroHeader file).size + 0x80 ≤ file.length := by
  obtain ⟨hlen, hmagic⟩ := parseNro_header haccepted
  rw [load_nro_into_heap_eq hsd hfit hlen hmagic]
  constructor
  · rintro ⟨s', hload, -⟩
    by_contra hshort
    rw [if_pos (by omega)] at hload
    cases hload
  · intro hlong
    refine ⟨_, if_neg (by omega), ?_⟩
    exact List.take_append_of_le_length hsize

/-- An NRO of one header, with nothing behind its image. -/
def bareNro : Bytes :=
  zeros 0x10 ++ le 4 NROHEADER_MAGIC ++ le 4 0 ++ le 4 0x80 ++ zeros 0x64

/-- The same image with 0x80 bytes behind it. -/
def tailedNro : Bytes := bareNro ++ zeros 0x80

/-- A loader that is to load the file `a.nro`. -/
def readyLoader : Loader where
  s_argv := []
  s_next_argv := []
  s_next_path := ascii "/a.nro" ++ [0]
  s_home_argv := []
  s_home_path := []
  s_heap := zeros 0x200

theorem accepted_nro_loads_tailed :
    ∃ s', load_nro_into_heap (fun _ => some tailedNro) readyLoader = .ok s' ∧
      s'.s_heap.take (nroHeader tailedNro).size = tailedNro.take (nroHeader tailedNro).size :=
  (accepted_nro_loads_iff (ascii "/a.nro") tailedNro true (fun _ => some tailedNro) readyLoader
    (by decide +kernel) (by decide +kernel) (by decide +kernel) rfl).mpr
    (by decide +kernel)

/-- The tab accepts the bare image and the loader gives up on it. -/
theorem bare_nro_not_loaded :
    (parseNro (ascii "/a.nro") bareNro true).isSome ∧
      (nroHeader bareNro).size ≤ bareNro.length ∧
      validate_segments (nroHeader bareNro) = .ok () ∧
      bareNro.length ≤ readyLoader.s_heap.length ∧
      load_nro_into_heap (fun _ => some bareNro) readyLoader = .error (.homebrewLoader 6) := by
  decide +kernel

end Forwarder
