/-
# The record of the meta database

What the record of an install holds is read back from it: the counts, the extended header, the info
of the meta before those of the contents, and the metas.  The record has no other bytes.
-/
import AioMod.NspCnmt

namespace NspCnmt

open ByteImage
open Nsp (NspEntryInfo)
open NspStream (toNcmId)

/-! ## Structures -/

theorem NcmContentMetaHeader.decode_encode (h : NcmContentMetaHeader) (rest : Bytes) :
    decode (h.encode ++ rest) = h := by
  unfold decode
  rw [u16_of (x := h.extended_header_size) rfl, u16_of (x := h.content_count) rfl,
    u16_of (x := h.content_meta_count) rfl, u8_of (x := h.attributes) rfl,
    u8_of (x := h.storage_id) rfl]

theorem NcmContentMetaHeader.length_encode (h : NcmContentMetaHeader) : h.encode.length = size := rfl

theorem NcmContentMetaInfo.decode_encode (m : NcmContentMetaInfo) : decode m.encode = m := by
  unfold decode
  rw [u64_of (x := m.id) rfl, u32_of (x := m.version) rfl, u8_of (x := m.type) rfl,
    u8_of (x := m.attr) rfl, u8_of (x := m.padding.1) rfl, u8_of (x := m.padding.2) rfl]

theorem NcmContentMetaInfo.length_encode (m : NcmContentMetaInfo) : m.encode.length = size := rfl

/-- What follows the id of a content. -/
theorem NcmContentInfo.slice_encode (i : NcmContentInfo) (off n : ℕ) :
    slice i.encode (16 + off) n = slice (le 4 i.size_low.toNat ++ [i.size_high] ++ [i.attr] ++
      [i.content_type] ++ [i.id_offset]) off n := by
  have hid : i.content_id.1.length = 16 := i.content_id.2
  have hparts : i.encode = i.content_id.1 ++ (le 4 i.size_low.toNat ++ [i.size_high] ++ [i.attr] ++
      [i.content_type] ++ [i.id_offset]) := by
    unfold encode
    simp only [List.append_assoc]
  rw [hparts, slice_append_right (by omega), hid, Nat.add_sub_cancel_left]

theorem NcmContentInfo.decode_encode (i : NcmContentInfo) : decode i.encode = i := by
  have hid : i.content_id.1.length = 16 := i.content_id.2
  have hcontent : toNcmId (slice i.encode 0 16) = i.content_id := by
    apply Subtype.ext
    have hslice : slice i.encode 0 16 = i.content_id.1 := by
      unfold encode
      simp only [List.append_assoc]
      exact slice_left hid.symm
    rw [hslice]
    show (i.content_id.1 ++ zeros 16).take 16 = i.content_id.1
    rw [List.take_left' hid]
  unfold decode
  rw [hcontent, u32_of (x := i.size_low) (i.slice_encode 0 4),
    u8_of (x := i.size_high) (i.slice_encode 4 1), u8_of (x := i.attr) (i.slice_encode 5 1),
    u8_of (x := i.content_type) (i.slice_encode 6 1), u8_of (x := i.id_offset) (i.slice_encode 7 1)]

theorem NcmContentInfo.length_encode (i : NcmContentInfo) : i.encode.length = size := by
  have hid : i.content_id.1.length = 16 := i.content_id.2
  unfold encode size
  simp [hid]

section arrays

variable {α : Type} {decode : Bytes → α} {encode : α → Bytes} {size : ℕ}

theorem length_flatMap_encode (hlen : ∀ x, (encode x).length = size) (xs : List α) :
    (xs.flatMap encode).length = size * xs.length := by
  induction xs with
  | nil => rfl
  | cons x xs ih =>
    rw [List.flatMap_cons, List.length_append, ih, hlen, List.length_cons, Nat.mul_succ, Nat.add_comm]

theorem decodeArray_succ (decode : Bytes → α) (size n : ℕ) (bs : Bytes) :
    decodeArray decode size (n + 1) bs =
      decode (slice bs 0 size) :: decodeArray decode size n (bs.drop size) := by
  unfold decodeArray
  rw [List.range_succ_eq_map, List.map_cons, List.map_map, Nat.mul_zero]
  refine congrArg (decode (slice bs 0 size) :: ·) (List.map_congr_left fun i _ => ?_)
  rw [Function.comp_apply, Nat.mul_succ, Nat.add_comm]
  unfold slice
  rw [List.drop_drop]

/-- An array needs no more than its own bytes. -/
theorem decodeArray_slice (decode : Bytes → α) (size n off : ℕ) (bs : Bytes) :
    decodeArray decode size n (slice bs off (n * size)) =
      decodeArray decode size n (bs.drop off) := by
  unfold decodeArray
  refine List.map_congr_left fun i hi => ?_
  have hle : size * i + size ≤ n * size := by
    rw [← Nat.mul_succ, Nat.mul_comm]
    exact Nat.mul_le_mul_right size (List.mem_range.mp hi)
  rw [slice_slice bs hle]
  unfold slice
  rw [List.drop_drop]

/-- An array is read back, whatever follows it. -/
theorem decodeArray_encode (hlen : ∀ x, (encode x).length = size)
    (hdecode : ∀ x, decode (encode x) = x) (xs : List α) (rest : Bytes) :
    decodeArray decode size xs.length (xs.flatMap encode ++ rest) = xs := by
  induction xs with
  | nil => rfl
  | cons x xs ih =>
    rw [List.length_cons, decodeArray_succ, List.flatMap_cons, List.append_assoc,
      slice_left (hlen x).symm, hdecode, ← hlen x, List.drop_left, hlen x, ih]

end arrays

/-! ## The record -/

/-- What the database reads of a record. -/
structure MetaRecord where
  header : NcmContentMetaHeader
  extendedHeader : Bytes
  contentInfos : List NcmContentInfo
  metaInfos : List NcmContentMetaInfo

namespace MetaRecord

/-- The header, the extended header, the contents and the metas, one behind the other. -/
def decode (bs : Bytes) : MetaRecord :=
  let header := NcmContentMetaHeader.decode bs
  let contents := NcmContentMetaHeader.size + header.extended_header_size.toNat
  let metas := contents + NcmContentInfo.size * header.content_count.toNat
  { header
    extendedHeader := slice bs NcmContentMetaHeader.size header.extended_header_size.toNat
    contentInfos := decodeArray .decode NcmContentInfo.size header.content_count.toNat
      (bs.drop contents)
    metaInfos := decodeArray .decode NcmContentMetaInfo.size header.content_meta_count.toNat
      (bs.drop metas) }

/-- The length that the counts of a record come to. -/
def length (r : MetaRecord) : ℕ :=
  NcmContentMetaHeader.size + r.extendedHeader.length + NcmContentInfo.size * r.contentInfos.length +
    NcmContentMetaInfo.size * r.metaInfos.length

end MetaRecord

/-- The record of a meta. -/
def recordOf (m : ParsedMeta) (cnmt : NspEntryInfo) : MetaRecord where
  header := blobHeader m
  extendedHeader := m.extendedHeader
  contentInfos := metaInfo cnmt :: m.contentInfos
  metaInfos := m.metaInfos

/-- A meta whose parts have the sizes that its header says and its counts can hold. -/
structure Counted (m : ParsedMeta) : Prop where
  extendedHeader : m.extendedHeader.length = m.header.metaHeader.extended_header_size.toNat
  contentInfos : m.contentInfos.length + 1 < 2 ^ 16
  metaInfos : m.metaInfos.length < 2 ^ 16

theorem length_buildMetaDbBlob (m : ParsedMeta) (cnmt : NspEntryInfo) :
    (buildMetaDbBlob m cnmt).length = (recordOf m cnmt).length := by
  unfold buildMetaDbBlob MetaRecord.length recordOf
  simp only [List.length_append, NcmContentMetaHeader.length_encode, NcmContentInfo.length_encode,
    length_flatMap_encode NcmContentInfo.length_encode,
    length_flatMap_encode NcmContentMetaInfo.length_encode, List.length_cons, Nat.mul_succ]
  omega

theorem decode_buildMetaDbBlob {m : ParsedMeta} (h : Counted m) (cnmt : NspEntryInfo) :
    MetaRecord.decode (buildMetaDbBlob m cnmt) = recordOf m cnmt := by
  have hheader : NcmContentMetaHeader.decode (buildMetaDbBlob m cnmt) = blobHeader m := by
    unfold buildMetaDbBlob
    simp only [List.append_assoc]
    exact NcmContentMetaHeader.decode_encode _ _
  have hext : (blobHeader m).extended_header_size.toNat = m.extendedHeader.length :=
    h.extendedHeader.symm
  have hcontents : (blobHeader m).content_count.toNat = (metaInfo cnmt :: m.contentInfos).length := by
    show (UInt16.ofNat (m.contentInfos.length + 1)).toNat = m.contentInfos.length + 1
    rw [UInt16.toNat_ofNat']
    exact Nat.mod_eq_of_lt h.contentInfos
  have hmetas : (blobHeader m).content_meta_count.toNat = m.metaInfos.length := by
    show (UInt16.ofNat m.metaInfos.length).toNat = m.metaInfos.length
    rw [UInt16.toNat_ofNat']
    exact Nat.mod_eq_of_lt h.metaInfos
  -- the record is cut at the ends of its parts
  have hparts : buildMetaDbBlob m cnmt = (blobHeader m).encode ++ (m.extendedHeader ++
      ((metaInfo cnmt :: m.contentInfos).flatMap NcmContentInfo.encode ++
        m.metaInfos.flatMap NcmContentMetaInfo.encode)) := by
    unfold buildMetaDbBlob
    rw [List.flatMap_cons]
    simp only [List.append_assoc]
  have hlen := NcmContentMetaHeader.length_encode (blobHeader m)
  have hlen' := length_flatMap_encode NcmContentInfo.length_encode (metaInfo cnmt :: m.contentInfos)
  unfold MetaRecord.decode recordOf
  dsimp only
  rw [hheader, hext, hcontents, hmetas, hparts]
  congr 1
  · rw [slice_append_right hlen.le, hlen, Nat.sub_self, slice_left rfl]
  · rw [← hlen, ← List.drop_drop, List.drop_left, List.drop_left]
    exact decodeArray_encode NcmContentInfo.length_encode NcmContentInfo.decode_encode _ _
  · rw [← hlen, ← hlen', ← List.drop_drop, ← List.drop_drop, List.drop_left, List.drop_left,
      List.drop_left]
    have harray := decodeArray_encode NcmContentMetaInfo.length_encode
      NcmContentMetaInfo.decode_encode m.metaInfos []
    rw [List.append_nil] at harray
    exact harray

/-! ## The file -/

/-- What the CNMT file says, and that it is long enough to say it; delta fragments are left out. -/
structure IsCnmt (atLeast15 : Bool) (file : Bytes) (m : ParsedMeta) : Prop where
  header : m.header = .decode (slice file 0 PackagedCnmtHeader.size)
  counts : countsInRange m.header.metaHeader
  extendedHeader : m.extendedHeader =
    slice file PackagedCnmtHeader.size m.header.metaHeader.extended_header_size.toNat
  contentInfos : m.contentInfos =
    ((decodeArray NcmPackagedContentInfo.decode NcmPackagedContentInfo.size
      m.header.metaHeader.content_count.toNat
      (file.drop (PackagedCnmtHeader.size + m.extendedHeader.length))).map
        NcmPackagedContentInfo.info).filter fun i => i.content_type ≠ NcmContentType_DeltaFragment
  metaInfos : m.metaInfos = decodeArray NcmContentMetaInfo.decode NcmContentMetaInfo.size
    m.header.metaHeader.content_meta_count.toNat
    (file.drop (PackagedCnmtHeader.size + m.extendedHeader.length +
      NcmPackagedContentInfo.size * m.header.metaHeader.content_count.toNat))
  appId : m.appId = NspApplication.applicationIdFor atLeast15 m.header.titleId m.header.metaType
    m.extendedHeader
  length : PackagedCnmtHeader.size + m.header.metaHeader.extended_header_size.toNat +
    NcmPackagedContentInfo.size * m.header.metaHeader.content_count.toNat +
    NcmContentMetaInfo.size * m.header.metaHeader.content_meta_count.toNat ≤ file.length

theorem IsCnmt.counted {atLeast15 : Bool} {file : Bytes} {m : ParsedMeta}
    (h : IsCnmt atLeast15 file m) : Counted m := by
  have hlength := h.length
  obtain ⟨-, hcontents, hmetas⟩ := h.counts
  constructor
  · rw [h.extendedHeader, length_slice]
    omega
  · have hle : m.contentInfos.length ≤ m.header.metaHeader.content_count.toNat := by
      rw [h.contentInfos]
      refine (List.length_filter_le _ _).trans ?_
      simp [decodeArray]
    omega
  · have heq : m.metaInfos.length = m.header.metaHeader.content_meta_count.toNat := by
      rw [h.metaInfos]
      simp [decodeArray]
    omega

end NspCnmt
