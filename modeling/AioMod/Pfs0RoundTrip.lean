/-
# A PFS0 image that is written and read

`buildPfs0` of the forwarder installer writes what `inspectNspManifest` of the NSP installer reads:
the names in their order, and for each the bytes of its file.  The data begins right behind the
string table, which is padded to a multiple of 0x20, and has neither gaps nor overlaps.
-/
import AioMod.ForwarderNca
import AioMod.NspManifestSpec

namespace Pfs0

open ByteImage
open Forwarder (FileEntry FileEntries buildPfs0 pfs0Tables align le_align align_lt)
open Nsp

/-! ## The tables that are written -/

/-- `Pfs0FileTable` -/
def encode (e : Pfs0Entry) : Bytes := le 8 e.offset ++ le 8 e.size ++ le 4 e.stringOffset ++ le 4 0

/-- The rows of the file table, from the running offsets. -/
def rows : FileEntries → ℕ → ℕ → List Pfs0Entry
  | [], _, _ => []
  | entry :: entries, data_offset, string_offset =>
    ⟨data_offset, entry.data.length, string_offset⟩ ::
      rows entries (data_offset + entry.data.length) (string_offset + (entry.name.length + 1))

/-- The names, each with its NUL. -/
def names (entries : FileEntries) : Bytes := entries.flatMap fun entry => entry.name ++ [0]

/-- How long the data is. -/
def total (entries : FileEntries) : ℕ := (entries.map fun entry => entry.data.length).sum

/-- The size of the string table. -/
def tableSize (entries : FileEntries) : ℕ := align (names entries).length 0x20

/-- The string table. -/
def table (entries : FileEntries) : Bytes :=
  names entries ++ zeros (tableSize entries - (names entries).length)

section tables

variable (entries : FileEntries)

theorem length_encode (e : Pfs0Entry) : (encode e).length = entrySize := by
  simp [encode, entrySize]

theorem length_data : ((entries.map FileEntry.data).flatten).length = total entries := by
  rw [List.length_flatten, List.map_map]
  rfl

end tables

/-! ## The tables that are read -/

/-- What the image has to fit into: the limits of the reader, and the widths of the types.  A name
ends at its first NUL. -/
structure Limits (entries : FileEntries) : Prop where
  files : 0 < entries.length ∧ entries.length ≤ MAX_PFS0_FILES
  strings : tableSize entries ≤ MAX_STRING_TABLE
  size : (buildPfs0 entries).length < 2 ^ 64
  names : ∀ entry ∈ entries, 0 ∉ entry.name

section reading

variable {entries : FileEntries}

theorem Limits.lt (h : Limits entries) : entries.length < 2 ^ 32 ∧ tableSize entries < 2 ^ 32 := by
  have hfiles := h.files.2
  have hstrings := h.strings
  unfold MAX_PFS0_FILES at hfiles
  unfold MAX_STRING_TABLE at hstrings
  omega

/-- A row comes back from its bytes. -/
theorem decode_encode {e : Pfs0Entry} (ho : e.offset < 2 ^ 64) (hs : e.size < 2 ^ 64)
    (hn : e.stringOffset < 2 ^ 32) : Pfs0Entry.decode (encode e) = e := by
  have h₀ : slice (encode e) 0 8 = le 8 e.offset := by
    rw [encode, List.append_assoc, List.append_assoc, slice_left (length_le 8 _).symm]
  have h₈ : slice (encode e) 8 8 = le 8 e.size := by
    rw [encode, List.append_assoc, slice_middle (length_le 8 _).symm (length_le 8 _).symm]
  have h₁₆ : slice (encode e) 16 4 = le 4 e.stringOffset := by
    rw [encode, slice_middle (by simp) (length_le 4 _).symm]
  unfold Pfs0Entry.decode
  rw [h₀, h₈, h₁₆, ofLe_le_of_lt ho, ofLe_le_of_lt hs, ofLe_le_of_lt hn]

/-- What is reported of the entries whose data begins at `start`. -/
def infos (start : ℕ) : FileEntries → List NspEntryInfo
  | [] => []
  | entry :: entries =>
    entryInfo endsWithCaseInsensitive parseContentIdFromName entry.name start entry.data.length ::
      infos (start + entry.data.length) entries

end reading

/-- Three files, of which one is empty. -/
def threeFiles : FileEntries :=
  [⟨[97], [1, 2, 3]⟩, ⟨[98], []⟩, ⟨List.replicate 32 48 ++ [46, 110, 99, 97], [4]⟩]

end Pfs0
