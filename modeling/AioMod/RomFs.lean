/-
# The RomFS builder of the forwarder installer

`forwarder_installer.cpp` lays out a flat RomFS: a header, the data of the files one after
the other, and behind them the hash tables and entry tables.  A name carries its leading
slash; its length in the tables is one less.

The contexts of the files form a list in the order of their `next` pointers, which is the
order of their `sibling` pointers too: each file is put in behind the first one.
-/
import AioMod.FatFs
import AioMod.ByteImage

namespace Forwarder

open ByteImage

/-! ## The growing buffer -/

/-- `BufHelper` -/
structure BufHelper where
  buf : Bytes := []
  offset : ℕ := 0

namespace BufHelper

/-- `write` -/
def write (b : BufHelper) (data : Bytes) : BufHelper :=
  let buf :=
    if b.buf.length < b.offset + data.length then
      b.buf ++ zeros (b.offset + data.length - b.buf.length)
    else b.buf
  { buf := buf.take b.offset ++ data ++ buf.drop (b.offset + data.length)
    offset := b.offset + data.length }

/-- `seek` -/
def seek (b : BufHelper) (pos : ℕ) : BufHelper := { b with offset := pos }

/-- `tell` -/
def tell (b : BufHelper) : ℕ := b.offset

@[simp] theorem tell_write (b : BufHelper) (data : Bytes) :
    (b.write data).tell = b.tell + data.length := rfl

@[simp] theorem offset_write (b : BufHelper) (data : Bytes) :
    (b.write data).offset = b.offset + data.length := rfl

@[simp] theorem seek_offset (b : BufHelper) (pos : ℕ) : (b.seek pos).offset = pos := rfl

@[simp] theorem seek_buf (b : BufHelper) (pos : ℕ) : (b.seek pos).buf = b.buf := rfl

/-- A write at or past the end leaves zero bytes in between. -/
theorem buf_write (b : BufHelper) (data : Bytes) (h : b.buf.length ≤ b.offset) :
    (b.write data).buf = b.buf ++ zeros (b.offset - b.buf.length) ++ data := by
  have hz : b.offset + data.length - b.buf.length
      = (b.offset - b.buf.length) + data.length := by omega
  have hlen : b.offset = (b.buf ++ zeros (b.offset - b.buf.length)).length := by
    rw [List.length_append, length_zeros]
    omega
  by_cases hlt : b.buf.length < b.offset + data.length
  · rw [write, if_pos hlt, hz]
    have hsplit : b.buf ++ zeros ((b.offset - b.buf.length) + data.length)
        = (b.buf ++ zeros (b.offset - b.buf.length)) ++ zeros data.length := by
      rw [zeros, List.replicate_add, List.append_assoc]
      rfl
    rw [hsplit, List.take_left' hlen.symm, List.drop_eq_nil_of_le, List.append_nil]
    simp only [List.length_append, length_zeros]
    omega
  · -- nothing is written and nothing is missing
    have hd : data = [] := List.eq_nil_of_length_eq_zero (by omega)
    have he : b.offset - b.buf.length = 0 := by omega
    rw [write, if_neg hlt, hd, he]
    simp [List.take_of_length_le (by omega : b.buf.length ≤ b.offset), show
      b.buf.drop b.offset = [] from List.drop_eq_nil_of_le h]

/-- A write at the end. -/
theorem buf_write_end (b : BufHelper) (data : Bytes) (h : b.offset = b.buf.length) :
    (b.write data).buf = b.buf ++ data := by
  rw [buf_write b data h.ge, h, Nat.sub_self, zeros_zero, List.append_nil]

/-- A write never shortens the buffer. -/
theorem length_le_write (b : BufHelper) (data : Bytes) :
    b.buf.length ≤ (b.write data).buf.length := by
  rw [write]
  split <;> simp only [List.length_append, List.length_take, List.length_drop, length_zeros] <;>
    omega

theorem buf_seek_write (b : BufHelper) (pos : ℕ) (data : Bytes) (h : b.buf.length ≤ pos) :
    ((b.seek pos).write data).buf = b.buf ++ zeros (pos - b.buf.length) ++ data :=
  buf_write (b.seek pos) data h

theorem length_seek_write (b : BufHelper) (pos : ℕ) (data : Bytes) (h : b.buf.length ≤ pos) :
    ((b.seek pos).write data).buf.length = pos + data.length := by
  rw [buf_seek_write b pos data h]
  simp only [List.length_append, length_zeros]
  omega

end BufHelper

/-- `writePadding`: zero bytes up to the next block, and their number. -/
def writePadding (b : BufHelper) (off block : ℕ) : BufHelper × ℕ :=
  let size := block - off % block
  (if size ≠ 0 then b.write (zeros size) else b, size)

/-- Padding is added where the buffer ends. -/
theorem buf_writePadding (b : BufHelper) (off : ℕ) {block : ℕ} (hblock : 0 < block)
    (h : b.offset = b.buf.length) :
    (writePadding b off block).1.buf = b.buf ++ padding off block ∧
      (writePadding b off block).1.offset = b.offset + (padding off block).length ∧
      (writePadding b off block).2 = (padding off block).length := by
  have hlt := Nat.mod_lt off hblock
  have hne : block - off % block ≠ 0 := by omega
  simp only [writePadding, if_pos hne, padding]
  exact ⟨b.buf_write_end _ h, by rw [BufHelper.offset_write, length_zeros], (length_zeros _).symm⟩

/-! ## The builder -/

def IVFC_HASH_BLOCK_SIZE : ℕ := 0x4000

def ROMFS_ENTRY_EMPTY : ℕ := 0xFFFFFFFF

def ROMFS_FILEPARTITION_OFS : ℕ := 0x200

/-- `sizeof(romfs_header)` -/
def sizeof_romfs_header : ℕ := 80

/-- `sizeof(romfs_dir)` -/
def sizeof_romfs_dir : ℕ := 24

/-- `sizeof(romfs_file)` -/
def sizeof_romfs_file : ℕ := 32

/-- `FileEntry` -/
structure FileEntry where
  name : Bytes
  data : Bytes
  deriving DecidableEq

/-- `FileEntries` -/
abbrev FileEntries := List FileEntry

/-- `align32` and `align64`: up to the next multiple of a power of two. -/
def align (offset alignment : ℕ) : ℕ := (offset + (alignment - 1)) / alignment * alignment

theorem le_align (n : ℕ) {a : ℕ} (ha : 0 < a) : n ≤ align n a := by
  have h := Nat.div_add_mod (n + (a - 1)) a
  have hm := Nat.mod_lt (n + (a - 1)) ha
  rw [align, Nat.mul_comm]
  omega

theorem align_lt (n : ℕ) {a : ℕ} (ha : 0 < a) : align n a < n + a := by
  have h := Nat.div_mul_le_self (n + (a - 1)) a
  rw [align]
  omega

/-- `calcPathHash` -/
def calcPathHash (parent : UInt32) (path : Bytes) (start path_len : ℕ) : UInt32 :=
  ((path.drop start).take path_len).foldl
    (fun hash c => ((hash >>> 5) ||| (hash <<< 27)) ^^^ c.toUInt32) (parent ^^^ 123456789)

/-- The loop of `romfsGetHashTableCount`: on to a number none of the small primes divides. -/
def nextHashTableCount (count : ℕ) : ℕ :=
  if count % 510510 = 1 then count
  else if count % 2 = 0 ∨ count % 3 = 0 ∨ count % 5 = 0 ∨ count % 7 = 0 ∨ count % 11 = 0 ∨
      count % 13 = 0 ∨ count % 17 = 0 then nextHashTableCount (count + 1)
  else count
termination_by (510511 - count % 510510) % 510510
decreasing_by omega

/-- `romfsGetHashTableCount` -/
def romfsGetHashTableCount (num_entries : ℕ) : ℕ :=
  if num_entries < 3 then 3
  else if num_entries < 19 then num_entries ||| 1
  else nextHashTableCount num_entries

/-- `RomfsFileCtx` -/
structure RomfsFileCtx where
  entry_offset : ℕ := 0
  offset : ℕ := 0
  size : ℕ

/-- A new context goes in behind the first one. -/
def insertCtx (x : RomfsFileCtx) : List RomfsFileCtx → List RomfsFileCtx
  | [] => [x]
  | head :: child => head :: x :: child

/-- The size of an entry of the file table. -/
def fileEntrySize (entry : FileEntry) : ℕ := sizeof_romfs_file + align (entry.name.length - 1) 4

/-- `romfsVisitDir`: the contexts, and the size of the file table. -/
def romfsVisitDir (entries : FileEntries) : List RomfsFileCtx × ℕ :=
  (entries.foldl (fun files entry => insertCtx { size := entry.data.length } files) [],
    (entries.map fileEntrySize).sum)

/-- The first loop over the files: where the data and the table entry of each go, and the size
of the file partition. -/
def romfsPlace : List RomfsFileCtx → FileEntries → ℕ → ℕ → List RomfsFileCtx × ℕ
  | cur_file :: next, entry :: entries, file_partition_size, entry_offset =>
    let offset := align file_partition_size 0x10
    let (placed, size) := romfsPlace next entries (offset + cur_file.size)
      (entry_offset + fileEntrySize entry)
    ({ cur_file with offset, entry_offset } :: placed, size)
  | _, _, file_partition_size, _ => ([], file_partition_size)

/-- `romfs_file` with its name. -/
def fileEntryBytes (cur_file : RomfsFileCtx) (sibling nextHash : ℕ) (entry : FileEntry) : Bytes :=
  let name_size := entry.name.length - 1
  le 4 0 ++ le 4 sibling ++ le 8 cur_file.offset ++ le 8 cur_file.size ++ le 4 nextHash ++
    le 4 name_size ++ (entry.name.drop 1 ++ zeros (align name_size 4 - name_size))

/-- The second loop over the files: the file table and the hash table. -/
def romfsFileTable : List RomfsFileCtx → FileEntries → List ℕ → Bytes × List ℕ
  | cur_file :: next, entry :: entries, file_hash_table =>
    let sibling := (next.head?.map RomfsFileCtx.entry_offset).getD ROMFS_ENTRY_EMPTY
    let hash := (calcPathHash 0 entry.name 1 (entry.name.length - 1)).toNat %
      file_hash_table.length
    let nextHash := file_hash_table.getD hash ROMFS_ENTRY_EMPTY
    let (rest, table) := romfsFileTable next entries
      (file_hash_table.set hash cur_file.entry_offset)
    (fileEntryBytes cur_file sibling nextHash entry ++ rest, table)
  | _, _, file_hash_table => ([], file_hash_table)

/-- `romfs_dir` of the root. -/
def rootDirBytes (childFile nextHash : ℕ) : Bytes :=
  le 4 0 ++ le 4 ROMFS_ENTRY_EMPTY ++ le 4 ROMFS_ENTRY_EMPTY ++ le 4 childFile ++ le 4 nextHash ++
    le 4 0

/-- `romfs_header` -/
structure romfs_header where
  headerSize : ℕ
  dirHashTableOff : ℕ
  dirHashTableSize : ℕ
  dirTableOff : ℕ
  dirTableSize : ℕ
  fileHashTableOff : ℕ
  fileHashTableSize : ℕ
  fileTableOff : ℕ
  fileTableSize : ℕ
  fileDataOff : ℕ

/-- The header as it stands in the image. -/
def romfs_header.bytes (h : romfs_header) : Bytes :=
  [h.headerSize, h.dirHashTableOff, h.dirHashTableSize, h.dirTableOff, h.dirTableSize,
    h.fileHashTableOff, h.fileHashTableSize, h.fileTableOff, h.fileTableSize,
    h.fileDataOff].flatMap (le 8)

/-- The data of the files, each at its place. -/
def writeFiles : List RomfsFileCtx → FileEntries → BufHelper → BufHelper
  | cur_file :: next, entry :: entries, buf =>
    writeFiles next entries
      ((buf.seek (cur_file.offset + ROMFS_FILEPARTITION_OFS)).write entry.data)
  | _, _, buf => buf

/-- `buildRomfsIntoFile` -/
def buildRomfsIntoFile (entries : FileEntries) (buf : BufHelper) : BufHelper :=
  let (files, file_table_size) := romfsVisitDir entries
  let dir_hash_count := romfsGetHashTableCount 1
  let file_hash_count := romfsGetHashTableCount entries.length
  let (placed, file_partition_size) := romfsPlace files entries 0 0
  let (file_table, file_hash_table) := romfsFileTable placed entries
    (List.replicate file_hash_count ROMFS_ENTRY_EMPTY)
  let dir_hash := (calcPathHash 0 [] 0 0).toNat % dir_hash_count
  let dir_table := rootDirBytes
    ((placed.head?.map RomfsFileCtx.entry_offset).getD ROMFS_ENTRY_EMPTY) ROMFS_ENTRY_EMPTY
  let dir_hash_table := (List.replicate dir_hash_count ROMFS_ENTRY_EMPTY).set dir_hash 0
  let dirHashTableOff := align (file_partition_size + ROMFS_FILEPARTITION_OFS) 4
  let dirTableOff := dirHashTableOff + 4 * dir_hash_count
  let fileHashTableOff := dirTableOff + sizeof_romfs_dir
  let header : romfs_header :=
    { headerSize := sizeof_romfs_header
      dirHashTableOff
      dirHashTableSize := 4 * dir_hash_count
      dirTableOff
      dirTableSize := sizeof_romfs_dir
      fileHashTableOff
      fileHashTableSize := 4 * file_hash_count
      fileTableOff := fileHashTableOff + 4 * file_hash_count
      fileTableSize := file_table_size
      fileDataOff := ROMFS_FILEPARTITION_OFS }
  let buf := writeFiles placed entries (buf.write header.bytes)
  let buf := (buf.seek dirHashTableOff).write (dir_hash_table.flatMap (le 4))
  let buf := buf.write dir_table
  let buf := buf.write (file_hash_table.flatMap (le 4))
  buf.write file_table

/-- `romfsBuild`: the image padded to whole hash blocks, and its size before that. -/
def romfsBuild (entries : FileEntries) : Bytes × ℕ :=
  let buf := buildRomfsIntoFile entries {}
  let buf := buf.seek buf.buf.length
  let out_size := buf.tell
  ((writePadding buf buf.tell IVFC_HASH_BLOCK_SIZE).1.buf, out_size)

@[simp] theorem romfs_header.length_bytes (h : romfs_header) : h.bytes.length = 80 := by
  simp [romfs_header.bytes]

@[simp] theorem length_rootDirBytes (childFile nextHash : ℕ) :
    (rootDirBytes childFile nextHash).length = 24 := by
  simp [rootDirBytes]

theorem length_fileEntryBytes (c : RomfsFileCtx) (sibling nextHash : ℕ) (entry : FileEntry) :
    (fileEntryBytes c sibling nextHash entry).length = fileEntrySize entry := by
  have h := le_align (entry.name.length - 1) (by decide : 0 < 4)
  simp only [fileEntryBytes, fileEntrySize, sizeof_romfs_file, List.length_append, length_le,
    List.length_drop, length_zeros]
  omega

/-- A field of the header is read back. -/
theorem romfs_header.field (h : romfs_header) {i n : ℕ}
    (hi : [h.headerSize, h.dirHashTableOff, h.dirHashTableSize, h.dirTableOff, h.dirTableSize,
      h.fileHashTableOff, h.fileHashTableSize, h.fileTableOff, h.fileTableSize,
      h.fileDataOff][i]? = some n) (hn : n < 2 ^ 64) : ofLe (slice h.bytes (8 * i) 8) = n := by
  obtain ⟨hlt, hget⟩ := List.getElem?_eq_some_iff.mp hi
  rw [romfs_header.bytes, slice_flatMap_le 8 _ i hlt, hget]
  exact ofLe_le_of_lt hn

/-- The fields of a table entry are read back. -/
theorem fileEntryBytes_fields (c : RomfsFileCtx) (sibling nextHash : ℕ) (entry : FileEntry)
    (rest : Bytes) (hs : sibling < 2 ^ 32) (ho : c.offset < 2 ^ 64) (hd : c.size < 2 ^ 64) :
    ofLe (slice (fileEntryBytes c sibling nextHash entry ++ rest) 4 4) = sibling ∧
      ofLe (slice (fileEntryBytes c sibling nextHash entry ++ rest) 8 8) = c.offset ∧
      ofLe (slice (fileEntryBytes c sibling nextHash entry ++ rest) 16 8) = c.size := by
  have h4 : slice (fileEntryBytes c sibling nextHash entry ++ rest) 4 4 = le 4 sibling := by
    simp [fileEntryBytes, slice]
  have h8 : slice (fileEntryBytes c sibling nextHash entry ++ rest) 8 8 = le 8 c.offset := by
    simp [fileEntryBytes, slice, List.drop_append, List.drop_eq_nil_of_le]
  have h16 : slice (fileEntryBytes c sibling nextHash entry ++ rest) 16 8 = le 8 c.size := by
    simp [fileEntryBytes, slice, List.drop_append, List.drop_eq_nil_of_le]
  rw [h4, h8, h16]
  exact ⟨ofLe_le_of_lt hs, ofLe_le_of_lt ho, ofLe_le_of_lt hd⟩

/-! ## The image of two files -/

/-- Where the data of the second file goes, in the file partition. -/
def secondOff (e₀ : FileEntry) : ℕ := align e₀.data.length 0x10

/-- Where the tables begin. -/
def tablesOff (e₀ e₁ : FileEntry) : ℕ := align (secondOff e₀ + e₁.data.length + 0x200) 4

/-- The parts of the image of two files that depend on hashes, and its header. -/
structure TwoFiles (e₀ e₁ : FileEntry) where
  header : romfs_header
  dirHash : Bytes
  fileHash : Bytes
  nextHash₀ : ℕ
  nextHash₁ : ℕ
  dirHash_length : dirHash.length = 12
  fileHash_length : fileHash.length = 12
  dirTableOff : header.dirTableOff = tablesOff e₀ e₁ + 12
  dirTableSize : header.dirTableSize = 24
  fileTableOff : header.fileTableOff = tablesOff e₀ e₁ + 48
  fileTableSize : header.fileTableSize = fileEntrySize e₀ + fileEntrySize e₁
  fileDataOff : header.fileDataOff = 0x200

namespace TwoFiles

variable {e₀ e₁ : FileEntry}

/-- The table entry of the first file. -/
def entry₀ (t : TwoFiles e₀ e₁) : Bytes :=
  fileEntryBytes { size := e₀.data.length } (fileEntrySize e₀) t.nextHash₀ e₀

/-- The table entry of the second file. -/
def entry₁ (t : TwoFiles e₀ e₁) : Bytes :=
  fileEntryBytes
    { entry_offset := fileEntrySize e₀, offset := secondOff e₀, size := e₁.data.length }
    ROMFS_ENTRY_EMPTY t.nextHash₁ e₁

/-- The writes of the builder up to the data of the second file. -/
def files (t : TwoFiles e₀ e₁) : BufHelper :=
  (((({} : BufHelper).write t.header.bytes).seek 0x200).write e₀.data |>.seek
    (secondOff e₀ + 0x200)).write e₁.data

/-- The writes of the builder. -/
def writes (t : TwoFiles e₀ e₁) : BufHelper :=
  (((t.files.seek (tablesOff e₀ e₁)).write t.dirHash).write
    (rootDirBytes 0 ROMFS_ENTRY_EMPTY)).write t.fileHash |>.write (t.entry₀ ++ t.entry₁)

/-- The image, part by part. -/
def image (t : TwoFiles e₀ e₁) : Bytes :=
  t.header.bytes ++ (zeros 0x1B0 ++ (e₀.data ++ (zeros (secondOff e₀ - e₀.data.length) ++
    (e₁.data ++ (zeros (tablesOff e₀ e₁ - (secondOff e₀ + 0x200 + e₁.data.length)) ++
      (t.dirHash ++ (rootDirBytes 0 ROMFS_ENTRY_EMPTY ++ (t.fileHash ++
        (t.entry₀ ++ t.entry₁)))))))))

theorem buf_files (t : TwoFiles e₀ e₁) :
    t.files.buf = t.header.bytes ++ zeros 0x1B0 ++ e₀.data ++
        zeros (secondOff e₀ - e₀.data.length) ++ e₁.data ∧
      t.files.buf.length = secondOff e₀ + 0x200 + e₁.data.length := by
  have hs : e₀.data.length ≤ secondOff e₀ := le_align _ (by decide)
  have h1 : (({} : BufHelper).write t.header.bytes).buf = t.header.bytes :=
    BufHelper.buf_write_end _ _ rfl
  have hb1 : (({} : BufHelper).write t.header.bytes).buf.length ≤ 0x200 := by
    rw [h1, romfs_header.length_bytes]
    decide
  have h2 := BufHelper.buf_seek_write _ 0x200 e₀.data hb1
  have hl2 := BufHelper.length_seek_write _ 0x200 e₀.data hb1
  rw [h1, romfs_header.length_bytes] at h2
  have hb2 := hl2.le.trans (by omega : 0x200 + e₀.data.length ≤ secondOff e₀ + 0x200)
  refine ⟨?_, BufHelper.length_seek_write _ _ _ hb2⟩
  rw [files, BufHelper.buf_seek_write _ _ _ hb2, hl2, h2,
    show secondOff e₀ + 0x200 - (0x200 + e₀.data.length) = secondOff e₀ - e₀.data.length by omega]

/-- The writes leave the image. -/
theorem buf_writes (t : TwoFiles e₀ e₁) : t.writes.buf = t.image := by
  have ht : secondOff e₀ + 0x200 + e₁.data.length ≤ tablesOff e₀ e₁ := by
    have h := le_align (secondOff e₀ + e₁.data.length + 0x200) (by decide : 0 < 4)
    rw [tablesOff]
    omega
  obtain ⟨h3, hl3⟩ := t.buf_files
  have hb3 := hl3.le.trans ht
  have h4 := BufHelper.buf_seek_write _ (tablesOff e₀ e₁) t.dirHash hb3
  have hl4 := BufHelper.length_seek_write _ (tablesOff e₀ e₁) t.dirHash hb3
  have h5 := BufHelper.buf_write_end ((t.files.seek (tablesOff e₀ e₁)).write t.dirHash)
    (rootDirBytes 0 ROMFS_ENTRY_EMPTY) hl4.symm
  have h6 := BufHelper.buf_write_end _ t.fileHash
    (by rw [h5, List.length_append, hl4]; rfl :
      (((t.files.seek (tablesOff e₀ e₁)).write t.dirHash).write
        (rootDirBytes 0 ROMFS_ENTRY_EMPTY)).offset = _)
  rw [writes, BufHelper.buf_write_end, h6, h5, h4, hl3, h3]
  · simp only [image, List.append_assoc]
  · rw [h6, h5]
    simp only [List.length_append, hl4]
    rfl

end TwoFiles

/-- What the builder writes for two files. -/
theorem buildRomfsIntoFile_two (e₀ e₁ : FileEntry) :
    ∃ t : TwoFiles e₀ e₁, buildRomfsIntoFile [e₀, e₁] {} = t.writes := by
  have h0 : align 0 0x10 = 0 := rfl
  let dirHash := ((List.replicate 3 ROMFS_ENTRY_EMPTY).set ((calcPathHash 0 [] 0 0).toNat % 3)
    0).flatMap (le 4)
  let hash₀ := (calcPathHash 0 e₀.name 1 (e₀.name.length - 1)).toNat % 3
  let hash₁ := (calcPathHash 0 e₁.name 1 (e₁.name.length - 1)).toNat % 3
  let table₀ := (List.replicate 3 ROMFS_ENTRY_EMPTY).set hash₀ 0
  let table₁ := table₀.set hash₁ (fileEntrySize e₀)
  have hlen : ∀ l : List ℕ, l.length = 3 → (l.flatMap (le 4)).length = 12 := by
    intro l hl
    simp [hl]
  refine ⟨⟨
    { headerSize := 80
      dirHashTableOff := tablesOff e₀ e₁
      dirHashTableSize := 12
      dirTableOff := tablesOff e₀ e₁ + 12
      dirTableSize := 24
      fileHashTableOff := tablesOff e₀ e₁ + 36
      fileHashTableSize := 12
      fileTableOff := tablesOff e₀ e₁ + 48
      fileTableSize := fileEntrySize e₀ + fileEntrySize e₁
      fileDataOff := 0x200 },
    dirHash, table₁.flatMap (le 4), (List.replicate 3 ROMFS_ENTRY_EMPTY).getD hash₀
      ROMFS_ENTRY_EMPTY, table₀.getD hash₁ ROMFS_ENTRY_EMPTY, hlen _ (by simp),
    hlen _ (by simp [table₁, table₀]), rfl, rfl, rfl, rfl, rfl⟩, ?_⟩
  simp [buildRomfsIntoFile, romfsVisitDir, insertCtx, romfsPlace, romfsFileTable, writeFiles,
    romfsGetHashTableCount, h0, sizeof_romfs_header, sizeof_romfs_dir, ROMFS_FILEPARTITION_OFS,
    TwoFiles.writes, TwoFiles.files, TwoFiles.entry₀, TwoFiles.entry₁, secondOff, tablesOff,
    dirHash, table₁, table₀, hash₀, hash₁]

end Forwarder
