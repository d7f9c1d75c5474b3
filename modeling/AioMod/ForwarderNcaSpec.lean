/-
# Layout and hashes of the archives

What one section adds to an archive under construction, and from it what a finished archive
is: its sections tile the bytes behind the header, each section header is hashed in the
header, and the hashes of a section are those of the pieces of what they cover.
-/
import AioMod.ForwarderNca

namespace Forwarder

open ByteImage Nca

/-! ## Sizes of the structures -/

@[simp] theorem SectionTableEntry.length_bytes (s : SectionTableEntry) : s.bytes.length = 0x10 := by
  simp [SectionTableEntry.bytes]

@[simp] theorem LayerRegion.length_bytes (r : LayerRegion) : r.bytes.length = 0x10 := by
  simp [LayerRegion.bytes]

@[simp] theorem HierarchicalSha256Data.length_bytes (d : HierarchicalSha256Data) :
    d.bytes.length = 0xF8 := by
  simp [HierarchicalSha256Data.bytes, d.master_hash.property]

@[simp] theorem Level.length_bytes (l : Level) : l.bytes.length = 0x18 := by
  simp [Level.bytes]

@[simp] theorem IntegrityMetaInfo.length_bytes (m : IntegrityMetaInfo) : m.bytes.length = 0xF8 := by
  simp [IntegrityMetaInfo.bytes, m.master_hash.property]

@[simp] theorem HashData.length_bytes (d : HashData) : d.bytes.length = 0xF8 := by
  cases d with
  | hierarchical_sha256_data d => exact HierarchicalSha256Data.length_bytes d
  | integrity_meta_info m => exact IntegrityMetaInfo.length_bytes m

@[simp] theorem FsHeader.length_bytes (f : FsHeader) : f.bytes.length = 0x200 := by
  simp [FsHeader.bytes]

@[simp] theorem Header.length_bytes (h : Header) : h.bytes.length = 0xC00 := by
  have hd : ∀ i, (h.fs_header_hash i).val.length = 32 := fun i => (h.fs_header_hash i).property
  simp [Header.bytes, hd]

/-! ## Hash blocks -/

/-- The loop hashes the consecutive pieces. -/
theorem hashBlocks_eq (c : Crypto) (src : Bytes) {block : ℕ} (hblock : 0 < block) (pos : ℕ) :
    hashBlocks c src block pos
      = (pieces block (src.drop pos)).flatMap fun p => (c.sha256 p).val := by
  fun_induction hashBlocks c src block pos with
  | case1 pos h read_size ih =>
    have hne : src.drop pos ≠ [] := by
      rw [← List.length_pos_iff, List.length_drop]
      omega
    rw [ih, pieces_of_ne_nil hblock hne, List.flatMap_cons, List.drop_drop]
    have htake : slice src pos read_size = (src.drop pos).take block := by
      rw [slice, List.take_eq_take_iff, List.length_drop]
      exact Nat.min_eq_left (Nat.min_le_right _ _)
    have hdrop : src.drop (pos + read_size) = src.drop (pos + block) := by
      by_cases hle : block ≤ src.length - pos
      · rw [show read_size = block from Nat.min_eq_left hle]
      · have hr : read_size = src.length - pos := Nat.min_eq_right (by omega)
        rw [List.drop_eq_nil_of_le (by omega), List.drop_eq_nil_of_le (by omega)]
    rw [htake, hdrop]
  | case2 pos h =>
    have hnil : src.drop pos = [] := List.drop_eq_nil_of_le (by omega)
    rw [hnil, pieces_nil hblock]
    rfl

/-! ## What a good section is -/

/-- A PFS0 section: the table holds the hashes of the pieces of the image, and the header says
where the table and the image are. -/
structure Pfs0Section (c : Crypto) (f : FsHeader) (sec pfs0 : Bytes) (block : ℕ) where
  d : HierarchicalSha256Data
  data : f.hash_data = .hierarchical_sha256_data d
  fs_type : f.fs_type = FileSystemType_PFS0
  hash_type : f.hash_type = HashType_HierarchicalSha256
  block_size : d.block_size = block
  hashes : slice sec d.hash_layer.offset d.hash_layer.size
    = (pieces block pfs0).flatMap fun p => (c.sha256 p).val
  image : slice sec d.pfs0_layer.offset d.pfs0_layer.size = pfs0
  image_size : d.pfs0_layer.size = pfs0.length
  apart : d.hash_layer.offset + d.hash_layer.size ≤ d.pfs0_layer.offset
  master : d.master_hash = c.sha256 (slice sec d.hash_layer.offset d.hash_layer.size)

/-- A RomFS section: six levels one behind the other, the last one the image padded to whole
blocks, each other one the padded hashes of the blocks of the next. -/
structure RomfsSection (c : Crypto) (f : FsHeader) (sec image : Bytes) where
  m : IntegrityMetaInfo
  level : Fin 6 → Bytes
  data : f.hash_data = .integrity_meta_info m
  fs_type : f.fs_type = FileSystemType_RomFS
  hash_type : f.hash_type = HashType_HierarchicalIntegrity
  block_size : ∀ i, (m.levels i).block_size = 14
  whole : ∀ i, 2 ^ 14 ∣ (level i).length
  place : ∀ i, slice sec (m.levels i).logical_offset (level i).length = level i
  size : ∀ i, i ≠ 5 → (m.levels i).hash_data_size = (level i).length
  first : (m.levels 0).logical_offset = 0
  next : ∀ i : Fin 5, (m.levels i.succ).logical_offset
    = (m.levels i.castSucc).logical_offset + (m.levels i.castSucc).hash_data_size
  image_size : (m.levels 5).hash_data_size = image.length
  image_level : ∃ pad, level 5 = image ++ zeros pad
  hashes : ∀ i : Fin 5, ∃ pad, level i.castSucc
    = ((pieces (2 ^ 14) (level i.succ)).flatMap fun p => (c.sha256 p).val) ++ zeros pad
  master : m.master_hash = c.sha256 (level 0)

/-- The bytes of a section, by the table of the header. -/
def sectionBytes (h : Header) (data : Bytes) (i : Fin 4) : Bytes :=
  slice data ((h.fs_table i).media_start_offset * 0x200)
    (((h.fs_table i).media_end_offset - (h.fs_table i).media_start_offset) * 0x200)

/-- The first `n` entries of the table are the used ones, and they tile `data` behind the
header; the header of each section is hashed. -/
structure Tiled (c : Crypto) (h : Header) (data : Bytes) (n : ℕ) : Prop where
  used : ∀ i, (h.fs_table i).used = if i.val < n then 1 else 0
  first : ∀ i, i.val = 0 → 0 < n → (h.fs_table i).media_start_offset * 0x200 = 0xC00
  next : ∀ i j, j.val = i.val + 1 → j.val < n →
    (h.fs_table j).media_start_offset = (h.fs_table i).media_end_offset
  forward : ∀ i, i.val < n → (h.fs_table i).media_start_offset < (h.fs_table i).media_end_offset
  last : ∀ i, i.val + 1 = n → (h.fs_table i).media_end_offset * 0x200 = data.length
  hash : ∀ i, i.val < n → h.fs_header_hash i = c.sha256 (h.fs_header i).bytes

/-! ## Adding a section -/

/-- An archive under construction with `n` sections. -/
structure Built (c : Crypto) (b : Building) (n : ℕ) : Prop where
  tiled : Tiled c b.1 b.2.buf n
  at_end : b.2.offset = b.2.buf.length
  whole : 0x200 ∣ b.2.buf.length
  header : 0xC00 ≤ b.2.buf.length
  empty : n = 0 → b.2.buf.length = 0xC00

theorem Built.begin (c : Crypto) : Built c beginNca 0 := by
  have hbuf : beginNca.2.buf = ({} : Header).bytes := BufHelper.buf_write_end _ _ rfl
  have hlen : beginNca.2.buf.length = 0xC00 := by rw [hbuf, Header.length_bytes]
  refine ⟨⟨fun _ => rfl, ?_, ?_, ?_, ?_, ?_⟩, ?_, ?_, hlen.ge, fun _ => hlen⟩
  · exact fun _ _ h => absurd h (Nat.lt_irrefl 0)
  · exact fun _ _ _ h => absurd h (Nat.not_lt_zero _)
  · exact fun _ h => absurd h (Nat.not_lt_zero _)
  · exact fun _ h => absurd h (Nat.succ_ne_zero _)
  · exact fun _ h => absurd h (Nat.not_lt_zero _)
  · rw [hlen, beginNca, BufHelper.offset_write, Header.length_bytes]
  · rw [hlen]
    decide

private theorem val_sub_one : ∀ n : Fin 4, n ≠ 0 → (n - 1).val = n.val - 1 := by decide

/-- Where the next section begins. -/
theorem Built.start_eq {c : Crypto} {b : Building} {n : Fin 4} (h : Built c b n.val) :
    sectionStart b.1 n = b.2.buf.length := by
  by_cases h0 : n = 0
  · subst h0
    rw [sectionStart, if_pos rfl, h.empty rfl]
    rfl
  · rw [sectionStart, if_neg h0]
    apply h.tiled.last
    have hpos : 0 < n.val := Nat.pos_of_ne_zero fun hx => h0 (Fin.ext hx)
    rw [val_sub_one n h0]
    omega

/-- The sections that are there end within the data. -/
theorem Tiled.end_le {c : Crypto} {h : Header} {data : Bytes} {n : ℕ} (ht : Tiled c h data n)
    (hn : n ≤ 4) : ∀ k (i : Fin 4), i.val + 1 + k = n →
      (h.fs_table i).media_end_offset * 0x200 ≤ data.length := by
  intro k
  induction k with
  | zero => exact fun i hi => (ht.last i hi).le
  | succ k ih =>
    intro i hi
    have hj : i.val + 1 < 4 := by omega
    have hnext := ht.next i ⟨i.val + 1, hj⟩ rfl (by simp only; omega)
    have hlt := ht.forward ⟨i.val + 1, hj⟩ (by simp only; omega)
    have hle := ih ⟨i.val + 1, hj⟩ (by simp only; omega)
    rw [hnext] at hlt
    exact (Nat.mul_le_mul_right _ hlt.le).trans hle

/-- A section is added behind the others: the archive stays tiled, the new section holds what
was written, and the others hold what they held. -/
theorem Built.add {c : Crypto} {header : Header} {buf buf' : BufHelper} {n : Fin 4}
    (h : Built c (header, buf) n.val) (fs_header : FsHeader) {sec : Bytes}
    (hbuf : buf'.buf = buf.buf ++ sec) (hsec : sec ≠ []) (hend : buf'.offset = buf'.buf.length)
    (hwhole : 0x200 ∣ buf'.buf.length) (hfit : buf'.buf.length < 2 ^ 41) {header' : Header}
    (hheader : header' = setFsHeader c
      (writeNcaSection header n (sectionStart header n) buf'.tell) n fs_header) :
    Built c (header', buf') (n.val + 1) ∧ header'.fs_header n = fs_header ∧
      sectionBytes header' buf'.buf n = sec ∧
      ∀ i : Fin 4, i.val < n.val → header'.fs_header i = header.fs_header i ∧
        sectionBytes header' buf'.buf i = sectionBytes header buf.buf i := by
  have hstart : sectionStart header n = buf.buf.length := h.start_eq
  have hlen : buf'.buf.length = buf.buf.length + sec.length := by
    rw [hbuf, List.length_append]
  have hpos : 0 < sec.length := List.length_pos_iff.mpr hsec
  obtain ⟨k, hk⟩ := h.whole
  obtain ⟨k', hk'⟩ := hwhole
  simp only at hk
  have ht := h.tiled
  have hs : buf.buf.length / 0x200 % 2 ^ 32 = k := by omega
  have he : buf'.tell / 0x200 % 2 ^ 32 = k' := by
    rw [show buf'.tell = buf'.buf.length from hend]
    omega
  -- only the entry of this section is written, in each of the three tables
  have hnew : header'.fs_table n
      = { media_start_offset := k, media_end_offset := k', used := 1 } := by
    rw [hheader, setFsHeader, writeNcaSection, hstart, hs, he]
    exact Function.update_self _ _ _
  have hold : ∀ i, i ≠ n → header'.fs_table i = header.fs_table i := by
    intro i hi
    rw [hheader]
    exact Function.update_of_ne hi _ _
  have hfsnew : header'.fs_header n = fs_header := by
    rw [hheader]
    exact Function.update_self _ _ _
  have hfsold : ∀ i, i ≠ n → header'.fs_header i = header.fs_header i := by
    intro i hi
    rw [hheader]
    exact Function.update_of_ne hi _ _
  have hhnew : header'.fs_header_hash n = c.sha256 fs_header.bytes := by
    rw [hheader]
    exact Function.update_self _ _ _
  have hhold : ∀ i, i ≠ n → header'.fs_header_hash i = header.fs_header_hash i := by
    intro i hi
    rw [hheader]
    exact Function.update_of_ne hi _ _
  have hne : ∀ {i : Fin 4}, i.val < n.val → i ≠ n := by
    rintro i hi rfl
    exact absurd hi (Nat.lt_irrefl _)
  refine ⟨⟨⟨?_, ?_, ?_, ?_, ?_, ?_⟩, hend, ⟨k', hk'⟩, ?_, fun hx => absurd hx (Nat.succ_ne_zero _)⟩,
    hfsnew, ?_, ?_⟩
  · -- used
    intro i
    by_cases hi : i = n
    · rw [hi, hnew, if_pos (Nat.lt_succ_self _)]
    · rw [hold i hi, ht.used i]
      have hv : i.val ≠ n.val := fun hx => hi (Fin.ext hx)
      by_cases hlt : i.val < n.val
      · rw [if_pos hlt, if_pos (by omega)]
      · rw [if_neg hlt, if_neg (by omega)]
  · -- first
    intro i hi _
    by_cases hin : i = n
    · subst hin
      rw [hnew]
      have hempty : buf.buf.length = 0xC00 := h.empty hi
      simp only
      omega
    · rw [hold i hin]
      have hv : i.val ≠ n.val := fun hx => hin (Fin.ext hx)
      exact ht.first i hi (by omega)
  · -- next
    intro i j hij hj
    have hin : i.val < n.val := by omega
    rw [hold i (hne hin)]
    by_cases hjn : j = n
    · subst hjn
      rw [hnew]
      have hlast : (header.fs_table i).media_end_offset * 0x200 = buf.buf.length :=
        ht.last i hij.symm
      simp only
      omega
    · have hv : j.val ≠ n.val := fun hx => hjn (Fin.ext hx)
      rw [hold j hjn]
      exact ht.next i j hij (by omega)
  · -- forward
    intro i hi
    by_cases hin : i = n
    · rw [hin, hnew]
      simp only
      omega
    · have hv : i.val ≠ n.val := fun hx => hin (Fin.ext hx)
      rw [hold i hin]
      exact ht.forward i (by omega)
  · -- last
    intro i hi
    have hin : i = n := Fin.ext (by omega)
    rw [hin, hnew]
    simp only
    omega
  · -- hash
    intro i hi
    by_cases hin : i = n
    · rw [hin, hhnew, hfsnew]
    · have hv : i.val ≠ n.val := fun hx => hin (Fin.ext hx)
      rw [hhold i hin, hfsold i hin]
      exact ht.hash i (by omega)
  · have hh := h.header
    simp only at hh ⊢
    omega
  · -- the new section
    rw [sectionBytes, hnew, hbuf, slice_append_right (by simp only; omega)]
    simp only
    rw [show k * 0x200 - buf.buf.length = 0 by omega, slice_all (by omega)]
  · -- the other sections
    intro i hi
    refine ⟨hfsold i (hne hi), ?_⟩
    have hle := ht.end_le (by omega) (n.val - (i.val + 1)) i (by omega)
    have hfw := ht.forward i hi
    rw [sectionBytes, sectionBytes, hold i (hne hi), hbuf]
    apply slice_append_left
    rw [← Nat.add_mul, Nat.add_sub_cancel' hfw.le]
    exact hle

/-! ## The two kinds of sections -/

/-- Padding up to the next media block at the end of the buffer. -/
theorem writeNcaPadding_spec {buf : BufHelper} (h : buf.offset = buf.buf.length) :
    (writeNcaPadding buf).buf = buf.buf ++ padding buf.buf.length 0x200 ∧
      (writeNcaPadding buf).offset = (writeNcaPadding buf).buf.length ∧
      0x200 ∣ (writeNcaPadding buf).buf.length := by
  obtain ⟨h1, h2, -⟩ := buf_writePadding buf buf.tell (by decide : 0 < 0x200) h
  have htell : buf.tell = buf.buf.length := h
  rw [htell] at h1 h2
  refine ⟨?_, ?_, ?_⟩
  · rw [writeNcaPadding, htell, h1]
  · rw [writeNcaPadding, htell, h2, h1, List.length_append, h]
  · rw [writeNcaPadding, htell, h1, List.length_append]
    exact dvd_add_padding (by decide)

/-- The hash table of a PFS0 image. -/
theorem buildPfs0HashTable_eq (c : Crypto) (pfs0 : Bytes) {block : ℕ} (hblock : 0 < block) :
    buildPfs0HashTable c pfs0 block = (pieces block pfs0).flatMap fun p => (c.sha256 p).val :=
  hashBlocks_eq c pfs0 hblock 0

/-- What a PFS0 section puts into the buffer. -/
theorem writeNcaPfs0_buf (c : Crypto) (header : Header) {buf : BufHelper} (n : Fin 4)
    (entries : FileEntries) (block : ℕ) (hend : buf.offset = buf.buf.length) :
    ∃ front, front = buf.buf ++ buildPfs0HashTable c (buildPfs0 entries) block ++
        padding (buildPfs0HashTable c (buildPfs0 entries) block).length 0x200 ++
          buildPfs0 entries ∧
      (writeNcaPfs0 c (header, buf) n entries block).2.buf
        = front ++ padding front.length 0x200 ∧
      (writeNcaPfs0 c (header, buf) n entries block).2.offset
        = (writeNcaPfs0 c (header, buf) n entries block).2.buf.length ∧
      0x200 ∣ (writeNcaPfs0 c (header, buf) n entries block).2.buf.length := by
  let pfs0 := buildPfs0 entries
  let table := buildPfs0HashTable c pfs0 block
  -- the writes one after the other
  have h1 := BufHelper.buf_write_end buf table hend
  have hend1 : (buf.write table).offset = (buf.write table).buf.length := by
    rw [BufHelper.offset_write, h1, List.length_append, hend]
  obtain ⟨h2, hoff2, -⟩ := buf_writePadding (buf.write table) table.length
    (by decide : 0 < PFS0_PADDING_SIZE) hend1
  let buf2 := (writePadding (buf.write table) table.length PFS0_PADDING_SIZE).1
  have hend2 : buf2.offset = buf2.buf.length := by
    rw [hoff2, h2, List.length_append, hend1]
  have h3 := BufHelper.buf_write_end buf2 pfs0 hend2
  have hend3 : (buf2.write pfs0).offset = (buf2.write pfs0).buf.length := by
    rw [BufHelper.offset_write, h3, List.length_append, hend2]
  obtain ⟨h4, hend4, hwhole⟩ := writeNcaPadding_spec hend3
  rw [h3, h2, h1] at h4
  exact ⟨_, rfl, h4, hend4, hwhole⟩

/-- A PFS0 section is added. -/
theorem writeNcaPfs0_spec {c : Crypto} {b : Building} {n : Fin 4} (h : Built c b n.val)
    (entries : FileEntries) {block : ℕ} (hblock : 0 < block)
    (hfit : (writeNcaPfs0 c b n entries block).2.buf.length < 2 ^ 41) :
    Built c (writeNcaPfs0 c b n entries block) (n.val + 1) ∧
      Nonempty (Pfs0Section c ((writeNcaPfs0 c b n entries block).1.fs_header n)
        (sectionBytes (writeNcaPfs0 c b n entries block).1 (writeNcaPfs0 c b n entries block).2.buf n)
        (buildPfs0 entries) block) := by
  obtain ⟨header, buf⟩ := b
  obtain ⟨front, hfront, hbuf, hend, hwhole⟩ := writeNcaPfs0_buf c header n entries block
    h.at_end
  let table := buildPfs0HashTable c (buildPfs0 entries) block
  let pad := padding table.length 0x200
  have hlt := Nat.mod_lt table.length (by decide : 0 < 0x200)
  have hadd : (writeNcaPfs0 c (header, buf) n entries block).2.buf
      = buf.buf ++ (table ++ pad ++ buildPfs0 entries ++ padding front.length 0x200) := by
    rw [hbuf, hfront]
    simp only [List.append_assoc]
    rfl
  have hsec : table ++ pad ++ buildPfs0 entries ++ padding front.length 0x200 ≠ [] := by
    rw [← List.length_pos_iff]
    simp only [List.length_append, pad, padding, length_zeros]
    omega
  have hheader : (writeNcaPfs0 c (header, buf) n entries block).1
      = writeNcaFsHeaderPfs0 c (writeNcaSection header n (sectionStart header n)
          (writeNcaPfs0 c (header, buf) n entries block).2.tell) n (buildPfs0MasterHash c table)
          table.length block
          { offset := table.length + (writePadding (buf.write table) table.length 0x200).2
            size := (buildPfs0 entries).length } := rfl
  generalize writeNcaPfs0 c (header, buf) n entries block = built at *
  obtain ⟨header', buf'⟩ := built
  obtain ⟨hbuilt, hfs, hbytes, -⟩ := h.add _ hadd hsec hend hwhole hfit hheader
  refine ⟨hbuilt, ⟨?_⟩⟩
  rw [hfs, hbytes]
  have hslice : slice (table ++ pad ++ buildPfs0 entries ++ padding front.length 0x200) 0
      table.length = table := by
    rw [List.append_assoc, List.append_assoc, slice_left rfl]
  refine ⟨_, rfl, rfl, rfl, rfl, ?_, ?_, rfl, ?_, ?_⟩
  · exact hslice.trans (buildPfs0HashTable_eq c _ hblock)
  · refine slice_middle ?_ rfl
    rw [List.length_append]
    exact congrArg (table.length + ·) (length_zeros _).symm
  · show 0 + table.length ≤ table.length + _
    omega
  · exact congrArg c.sha256 hslice.symm

/-- A level of hashes over the pieces of the next, padded to whole blocks. -/
theorem ivfcCreateLevel_eq (c : Crypto) (src : Bytes) :
    ivfcCreateLevel c src
      = ((pieces (2 ^ 14) src).flatMap fun p => (c.sha256 p).val) ++
        padding ((pieces (2 ^ 14) src).flatMap fun p => (c.sha256 p).val).length (2 ^ 14) := by
  have hloop : hashBlocks c src IVFC_HASH_BLOCK_SIZE 0
      = (pieces (2 ^ 14) src).flatMap fun p => (c.sha256 p).val :=
    hashBlocks_eq c src (by decide) 0
  have hw := BufHelper.buf_write_end {} (hashBlocks c src IVFC_HASH_BLOCK_SIZE 0) rfl
  have hend : (({} : BufHelper).write (hashBlocks c src IVFC_HASH_BLOCK_SIZE 0)).offset
      = (({} : BufHelper).write (hashBlocks c src IVFC_HASH_BLOCK_SIZE 0)).buf.length := by
    rw [BufHelper.offset_write, hw, List.length_append]
    rfl
  have htell : (({} : BufHelper).write (hashBlocks c src IVFC_HASH_BLOCK_SIZE 0)).tell
      = (hashBlocks c src IVFC_HASH_BLOCK_SIZE 0).length := Nat.zero_add _
  obtain ⟨hp, -, -⟩ := buf_writePadding _ (hashBlocks c src IVFC_HASH_BLOCK_SIZE 0).length
    (by decide : 0 < IVFC_HASH_BLOCK_SIZE) hend
  rw [ivfcCreateLevel]
  simp only [htell, hp, hw]
  rw [hloop]
  rfl

theorem dvd_length_ivfcCreateLevel (c : Crypto) (src : Bytes) :
    2 ^ 14 ∣ (ivfcCreateLevel c src).length := by
  rw [ivfcCreateLevel_eq, List.length_append]
  exact dvd_add_padding (by decide)

@[simp] theorem length_ivfcLevels (c : Crypto) (src : Bytes) (n : ℕ) :
    (ivfcLevels c src n).length = n := by
  induction n generalizing src with
  | zero => rfl
  | succ n ih => rw [ivfcLevels, List.length_append, ih]; rfl

/-- Each level is made from the one below it. -/
theorem ivfcLevels_chain (c : Crypto) (src : Bytes) (n i : ℕ) (h : i < n) :
    (ivfcLevels c src n ++ [src])[i]?
      = ((ivfcLevels c src n ++ [src])[i + 1]?).map (ivfcCreateLevel c) := by
  induction n generalizing src with
  | zero => exact absurd h (Nat.not_lt_zero _)
  | succ n ih =>
    have hlast : (ivfcLevels c (ivfcCreateLevel c src) n ++ [ivfcCreateLevel c src])[n]?
        = some (ivfcCreateLevel c src) := by
      rw [List.getElem?_append_right (by simp), length_ivfcLevels, Nat.sub_self]
      rfl
    have hih := ih (ivfcCreateLevel c src)
    rw [ivfcLevels]
    generalize hl : ivfcLevels c (ivfcCreateLevel c src) n ++ [ivfcCreateLevel c src] = l at *
    have hlen : l.length = n + 1 := by simp [← hl]
    rw [List.getElem?_append_left (by omega)]
    by_cases hin : i < n
    · rw [List.getElem?_append_left (by omega)]
      exact hih hin
    · have hi : i = n := by omega
      rw [hi, hlast, List.getElem?_append_right (by omega), hlen, Nat.sub_self]
      rfl

/-- Writes at the end, one after the other. -/
theorem foldl_write {buf : BufHelper} (h : buf.offset = buf.buf.length) (parts : List Bytes) :
    (parts.foldl BufHelper.write buf).buf = buf.buf ++ parts.flatten ∧
      (parts.foldl BufHelper.write buf).offset = (parts.foldl BufHelper.write buf).buf.length := by
  induction parts generalizing buf with
  | nil => exact ⟨(List.append_nil _).symm, h⟩
  | cons p ps ih =>
    have hw := BufHelper.buf_write_end buf p h
    have hend : (buf.write p).offset = (buf.write p).buf.length := by
      rw [BufHelper.offset_write, hw, List.length_append, h]
    obtain ⟨h1, h2⟩ := ih hend
    refine ⟨?_, h2⟩
    rw [List.foldl_cons, h1, hw, List.flatten_cons, List.append_assoc]

/-- The image, padded to whole hash blocks, and its size. -/
theorem romfsBuild_eq (entries : FileEntries) :
    romfsBuild entries = ((buildRomfsIntoFile entries {}).buf ++
      padding (buildRomfsIntoFile entries {}).buf.length IVFC_HASH_BLOCK_SIZE,
      (buildRomfsIntoFile entries {}).buf.length) := by
  obtain ⟨h, -, -⟩ := buf_writePadding
    ((buildRomfsIntoFile entries {}).seek (buildRomfsIntoFile entries {}).buf.length)
    (buildRomfsIntoFile entries {}).buf.length (by decide : 0 < IVFC_HASH_BLOCK_SIZE) rfl
  exact Prod.ext h rfl

/-- The levels of a RomFS section, the topmost first and the image last. -/
def romfsLevels (c : Crypto) (entries : FileEntries) : List Bytes :=
  ivfcLevels c (romfsBuild entries).1 5 ++ [(romfsBuild entries).1]

theorem length_romfsLevels (c : Crypto) (entries : FileEntries) :
    (romfsLevels c entries).length = 6 := by
  simp [romfsLevels]

/-- The level information agrees with the levels. -/
theorem levelInfo_romfs (c : Crypto) (entries : FileEntries) (i : Fin 6) :
    (levelInfo ((ivfcLevels c (romfsBuild entries).1 5).map List.length ++
      [(romfsBuild entries).2]) i).logical_offset
        = (((romfsLevels c entries).take i).map List.length).sum := by
  have hi : i.val ≤ 5 := by omega
  have hup : i.val - 5 = 0 := by omega
  simp [levelInfo, romfsLevels, List.take_append, hup]

/-- The parts of a RomFS section as it is written. -/
theorem romfsSection_of {c : Crypto} {f : FsHeader} {sec tail : Bytes} (entries : FileEntries)
    (hsec : sec = (romfsLevels c entries).flatten ++ tail)
    (hf : f = romfsFsHeader
      (levelInfo ((ivfcLevels c (romfsBuild entries).1 5).map List.length ++
        [(romfsBuild entries).2]))
      (c.sha256 ((ivfcLevels c (romfsBuild entries).1 5).headD []))) :
    Nonempty (RomfsSection c f sec (buildRomfsIntoFile entries {}).buf) := by
  subst hf hsec
  have hlen := length_romfsLevels c entries
  have hupper := length_ivfcLevels c (romfsBuild entries).1 5
  have hget : ∀ i : Fin 6,
      (romfsLevels c entries)[i.val]? = some ((romfsLevels c entries).getD i []) := by
    intro i
    have hi : i.val < (romfsLevels c entries).length := by omega
    rw [List.getD_eq_getElem?_getD, List.getElem?_eq_getElem hi]
    rfl
  -- each level but the last is made from the next
  have hchain : ∀ i : Fin 5, (romfsLevels c entries).getD i.castSucc []
      = ivfcCreateLevel c ((romfsLevels c entries).getD i.succ []) := by
    intro i
    have h := ivfcLevels_chain c (romfsBuild entries).1 5 i.val i.isLt
    have h1 : (romfsLevels c entries)[i.val]? = _ := hget i.castSucc
    have h2 : (romfsLevels c entries)[i.val + 1]? = _ := hget i.succ
    rw [← romfsLevels, h1, h2] at h
    exact Option.some.inj h
  have hlast : (romfsLevels c entries).getD 5 [] = (romfsBuild entries).1 := by
    rw [List.getD_eq_getElem?_getD, romfsLevels, List.getElem?_append_right hupper.le, hupper]
    rfl
  refine ⟨⟨_, fun i => (romfsLevels c entries).getD i [], rfl, rfl, rfl, fun _ => rfl, ?_, ?_, ?_,
    ?_, ?_, ?_, ?_, ?_, ?_⟩⟩
  · -- whole
    intro i
    induction i using Fin.lastCases with
    | last =>
      show 2 ^ 14 ∣ ((romfsLevels c entries).getD 5 []).length
      rw [hlast, romfsBuild_eq, List.length_append]
      exact dvd_add_padding (by decide)
    | cast i =>
      rw [hchain i]
      exact dvd_length_ivfcCreateLevel c _
  · -- place
    intro i
    have hi : i.val < (romfsLevels c entries).length := by omega
    have hval : (romfsLevels c entries).getD i [] = (romfsLevels c entries)[i.val] := by
      rw [List.getD_eq_getElem?_getD, List.getElem?_eq_getElem hi]
      rfl
    show slice _ (levelInfo _ i).logical_offset _ = _
    rw [levelInfo_romfs, hval, slice_append_left (end_le_length_flatten _ _ hi)]
    exact slice_flatten _ _ hi
  · -- size
    intro i hi
    induction i using Fin.lastCases with
    | last => exact absurd rfl hi
    | cast i =>
      show (_ : List ℕ).getD i.val 0 = ((romfsLevels c entries).getD i.val []).length
      have hv : i.val < (ivfcLevels c (romfsBuild entries).1 5).length := by omega
      rw [List.getD_eq_getElem?_getD, List.getD_eq_getElem?_getD, romfsLevels,
        List.getElem?_append_left (by simp), List.getElem?_append_left hv, List.getElem?_map,
        List.getElem?_eq_getElem hv]
      rfl
  · rfl
  · -- next
    intro i
    show (List.take (i.val + 1) _).sum = (List.take i.val _).sum + (_ : List ℕ).getD i.val 0
    have hv : i.val < ((ivfcLevels c (romfsBuild entries).1 5).map List.length ++
        [(romfsBuild entries).2]).length := by simp; omega
    rw [List.take_succ_eq_append_getElem hv, List.sum_append, List.sum_singleton,
      List.getD_eq_getElem?_getD, List.getElem?_eq_getElem hv]
    rfl
  · -- image size
    have h5 : (5 : Fin 6).val = 5 := rfl
    simp only [levelInfo, h5]
    rw [List.getD_eq_getElem?_getD, List.getElem?_append_right (by simp), List.length_map, hupper,
      romfsBuild_eq]
    rfl
  · exact ⟨_, hlast.trans (congrArg Prod.fst (romfsBuild_eq entries))⟩
  · intro i
    rw [hchain i]
    exact ⟨_, ivfcCreateLevel_eq c _⟩
  · -- master hash
    rfl

/-- A RomFS section in one expression: the levels and the padding go into the buffer, the level
information into the header of the section. -/
theorem writeNcaRomfs_eq (c : Crypto) (header : Header) (buf : BufHelper) (n : Fin 4)
    (entries : FileEntries) :
    writeNcaRomfs c (header, buf) n entries
      = (setFsHeader c (writeNcaSection header n (sectionStart header n)
          (writeNcaPadding ((romfsLevels c entries).foldl BufHelper.write buf)).tell) n
        (romfsFsHeader (levelInfo ((ivfcLevels c (romfsBuild entries).1 5).map List.length ++
          [(romfsBuild entries).2])) (c.sha256 ((ivfcLevels c (romfsBuild entries).1 5).headD []))),
        writeNcaPadding ((romfsLevels c entries).foldl BufHelper.write buf)) := by
  unfold romfsLevels writeNcaRomfs
  -- the pair is a variable here, or its definition would be computed
  generalize romfsBuild entries = built
  rfl

/-- What a RomFS section puts into the buffer. -/
theorem writeNcaRomfs_buf (c : Crypto) (header : Header) {buf : BufHelper} (n : Fin 4)
    (entries : FileEntries) (hend : buf.offset = buf.buf.length) :
    (writeNcaRomfs c (header, buf) n entries).2.buf
        = buf.buf ++ ((romfsLevels c entries).flatten ++
          padding (buf.buf ++ (romfsLevels c entries).flatten).length 0x200) ∧
      (writeNcaRomfs c (header, buf) n entries).2.offset
        = (writeNcaRomfs c (header, buf) n entries).2.buf.length ∧
      0x200 ∣ (writeNcaRomfs c (header, buf) n entries).2.buf.length := by
  rw [writeNcaRomfs_eq]
  obtain ⟨h1, hend1⟩ := foldl_write hend (romfsLevels c entries)
  obtain ⟨h2, hend2, hwhole⟩ := writeNcaPadding_spec hend1
  rw [h1, List.append_assoc] at h2
  exact ⟨h2, hend2, hwhole⟩

/-- A RomFS section is added. -/
theorem writeNcaRomfs_spec {c : Crypto} {b : Building} {n : Fin 4} (h : Built c b n.val)
    (entries : FileEntries) (hfit : (writeNcaRomfs c b n entries).2.buf.length < 2 ^ 41) :
    Built c (writeNcaRomfs c b n entries) (n.val + 1) ∧
      Nonempty (RomfsSection c ((writeNcaRomfs c b n entries).1.fs_header n)
        (sectionBytes (writeNcaRomfs c b n entries).1 (writeNcaRomfs c b n entries).2.buf n)
        (buildRomfsIntoFile entries {}).buf) ∧
      ∀ i : Fin 4, i.val < n.val →
        (writeNcaRomfs c b n entries).1.fs_header i = b.1.fs_header i ∧
        sectionBytes (writeNcaRomfs c b n entries).1 (writeNcaRomfs c b n entries).2.buf i
          = sectionBytes b.1 b.2.buf i := by
  obtain ⟨header, buf⟩ := b
  obtain ⟨h2, hend2, hwhole⟩ := writeNcaRomfs_buf c header n entries h.at_end
  have hsec : (romfsLevels c entries).flatten ++
      padding (buf.buf ++ (romfsLevels c entries).flatten).length 0x200 ≠ [] := by
    have hlt := Nat.mod_lt (buf.buf ++ (romfsLevels c entries).flatten).length
      (by decide : 0 < 0x200)
    rw [← List.length_pos_iff, List.length_append, padding, length_zeros]
    omega
  have hheader := congrArg Prod.fst (writeNcaRomfs_eq c header buf n entries)
  rw [show writeNcaPadding ((romfsLevels c entries).foldl BufHelper.write buf)
    = (writeNcaRomfs c (header, buf) n entries).2 by rw [writeNcaRomfs_eq]] at hheader
  generalize writeNcaRomfs c (header, buf) n entries = built at *
  obtain ⟨header', buf'⟩ := built
  obtain ⟨hbuilt, hfs, hbytes, hold⟩ := h.add _ h2 hsec hend2 hwhole hfit hheader
  exact ⟨hbuilt, romfsSection_of entries hbytes hfs, hold⟩

/-! ## How long the archives get -/

/-- The hash table has one digest a piece. -/
theorem length_hashes (c : Crypto) (block : ℕ) (src : Bytes) :
    ((pieces block src).flatMap fun p => (c.sha256 p).val).length
      = 32 * ((src.length + (block - 1)) / block) := by
  rw [pieces, List.flatMap_map]
  exact length_flatMap_range fun _ _ => (c.sha256 _).property

/-- A level is hardly longer than what it hashes. -/
theorem length_ivfcCreateLevel_le (c : Crypto) (src : Bytes) :
    (ivfcCreateLevel c src).length ≤ src.length + 2 ^ 15 := by
  rw [ivfcCreateLevel_eq, List.length_append, length_hashes, padding, length_zeros]
  omega

theorem length_ivfcLevels_le (c : Crypto) (src : Bytes) (n : ℕ) :
    (ivfcLevels c src n).flatten.length ≤ n * (src.length + n * 2 ^ 15) := by
  induction n generalizing src with
  | zero => exact Nat.zero_le _
  | succ n ih =>
    have hlevel := length_ivfcCreateLevel_le c src
    have hupper := ih (ivfcCreateLevel c src)
    have hmul : n * ((ivfcCreateLevel c src).length + n * 2 ^ 15)
        ≤ n * (src.length + (n + 1) * 2 ^ 15) := by
      apply Nat.mul_le_mul_left
      omega
    have hlast : src.length + 2 ^ 15 ≤ src.length + (n + 1) * 2 ^ 15 := by omega
    rw [ivfcLevels, List.flatten_append, List.length_append, Nat.succ_mul]
    rw [List.flatten_cons, List.flatten_nil, List.append_nil]
    omega

/-- What a RomFS section adds. -/
theorem length_writeNcaRomfs_le (c : Crypto) {b : Building} (n : Fin 4) (entries : FileEntries)
    (hend : b.2.offset = b.2.buf.length) :
    (writeNcaRomfs c b n entries).2.buf.length
      ≤ b.2.buf.length + 6 * (buildRomfsIntoFile entries {}).buf.length + 2 ^ 20 := by
  obtain ⟨header, buf⟩ := b
  have hbuf := (writeNcaRomfs_buf c header n entries hend).1
  have hlevels := length_ivfcLevels_le c (romfsBuild entries).1 5
  have himage : (romfsBuild entries).1.length
      ≤ (buildRomfsIntoFile entries {}).buf.length + 2 ^ 14 := by
    rw [romfsBuild_eq, List.length_append, padding, length_zeros, IVFC_HASH_BLOCK_SIZE]
    omega
  rw [hbuf, romfsLevels, List.flatten_append, List.flatten_cons, List.flatten_nil, List.append_nil]
  simp only [List.length_append, padding, length_zeros] at hlevels ⊢
  omega

/-! ## The finished archives -/

/-- The encrypted header is as long as the header. -/
theorem length_ncaEncryptHeader (c : Crypto) (key : Bytes) (h : Header) :
    (ncaEncryptHeader c key h.bytes).length = 0xC00 := by
  refine length_flatMap_range (k := 0x200) (n := 6) fun i hi => ?_
  rw [c.length_xtsEncrypt, length_slice, Header.length_bytes]
  omega

/-- Decrypting the encrypted header gives the header. -/
theorem ncaDecryptHeader_encrypt (c : Crypto) (key : Bytes) (h : Header) :
    ncaDecryptHeader c key (ncaEncryptHeader c key h.bytes) = h.bytes := by
  have hsize : ∀ i < 6, (c.xtsEncrypt key i (slice h.bytes (0x200 * i) 0x200)).length = 0x200 := by
    intro i hi
    rw [c.length_xtsEncrypt, length_slice, Header.length_bytes]
    omega
  have hsector : ∀ i ∈ List.range 6,
      c.xtsDecrypt key i (slice (ncaEncryptHeader c key h.bytes) (0x200 * i) 0x200)
        = slice h.bytes (0x200 * i) 0x200 := by
    intro i hi
    rw [ncaEncryptHeader, slice_flatMap_range hsize (List.mem_range.mp hi), c.xtsDecrypt_encrypt]
  rw [ncaDecryptHeader, List.flatMap_def, List.map_congr_left hsector, ← List.flatMap_def]
  exact flatMap_slices (by decide) (Header.length_bytes h)

/-- Every section begins behind the header. -/
theorem Tiled.le_start {c : Crypto} {h : Header} {data : Bytes} {n : ℕ} (ht : Tiled c h data n) :
    ∀ k, ∀ i : Fin 4, i.val = k → k < n →
      0xC00 ≤ (h.fs_table i).media_start_offset * 0x200 := by
  intro k
  induction k with
  | zero => exact fun i hi hn0 => (ht.first i hi hn0).ge
  | succ k ih =>
    intro i hi hk
    have hj : k < 4 := by omega
    have hprev := ih ⟨k, hj⟩ rfl (by omega)
    have hnext := ht.next ⟨k, hj⟩ i hi (by omega)
    have hlt := ht.forward ⟨k, hj⟩ (by simp only; omega)
    rw [hnext]
    exact hprev.trans (Nat.mul_le_mul_right _ hlt.le)

/-- Putting the header in front does not shorten the archive. -/
theorem length_le_encrypted (c : Crypto) (key : Bytes) (b : Building) (tid : ℕ) (type : UInt8) :
    b.2.buf.length ≤ (writeNcaHeaderEncrypted c key b tid type).buf.length :=
  BufHelper.length_le_write (b.2.seek 0) _

/-- What a finished archive is: an encrypted header in front, with the size of the archive, and
`n` sections that tile the rest. -/
structure Archive (c : Crypto) (key : Bytes) (nca : NcaEntry) (h : Header) (n : ℕ) : Prop where
  front : ncaDecryptHeader c key (nca.data.take 0xC00) = h.bytes
  size : h.size = nca.data.length
  tiled : Tiled c h nca.data n

/-- The header is put in front of what was built. -/
theorem Built.finish {c : Crypto} {b : Building} {n : ℕ} (h : Built c b n) (key : Bytes)
    (tid : ℕ) (type : UInt8) (t : NcmContentType) :
    Archive c key (.ofBuf c (writeNcaHeaderEncrypted c key b tid type) t)
        (completeHeader b.1 tid type b.2.tell) n ∧
      (writeNcaHeaderEncrypted c key b tid type).buf.length = b.2.buf.length ∧
      ∀ i : Fin 4, i.val < n →
        sectionBytes (completeHeader b.1 tid type b.2.tell)
          (writeNcaHeaderEncrypted c key b tid type).buf i = sectionBytes b.1 b.2.buf i := by
  obtain ⟨header, buf⟩ := b
  have hheader : 0xC00 ≤ buf.buf.length := h.header
  have hend : buf.tell = buf.buf.length := h.at_end
  have henc := length_ncaEncryptHeader c key (completeHeader header tid type buf.tell)
  have hdata : (writeNcaHeaderEncrypted c key (header, buf) tid type).buf
      = ncaEncryptHeader c key (completeHeader header tid type buf.tell).bytes ++
        buf.buf.drop 0xC00 := by
    have hno : ¬ buf.buf.length < 0xC00 := by omega
    show ((buf.seek 0).write _).buf = _
    rw [BufHelper.write]
    simp only [BufHelper.seek_buf, BufHelper.seek_offset, henc, List.take_zero, List.nil_append,
      Nat.zero_add, if_neg hno]
  have hlen : (writeNcaHeaderEncrypted c key (header, buf) tid type).buf.length
      = buf.buf.length := by
    rw [hdata, List.length_append, henc, List.length_drop]
    omega
  have ht := h.tiled
  refine ⟨⟨?_, ?_, ?_⟩, hlen, ?_⟩
  · show ncaDecryptHeader c key ((writeNcaHeaderEncrypted c key (header, buf) tid type).buf.take
      0xC00) = _
    rw [hdata, List.take_left' henc]
    exact ncaDecryptHeader_encrypt c key _
  · exact hend.trans hlen.symm
  · refine ⟨ht.used, ht.first, ht.next, ht.forward, fun i hi => ?_, ht.hash⟩
    exact (ht.last i hi).trans hlen.symm
  · intro i hi
    have hstart := ht.le_start i.val i rfl hi
    show slice _ ((header.fs_table i).media_start_offset * 0x200) _
      = slice buf.buf ((header.fs_table i).media_start_offset * 0x200) _
    rw [hdata, slice_append_right (by rw [henc]; exact hstart), henc, slice, List.drop_drop,
      Nat.add_sub_cancel' hstart]
    rfl

/-- The start and one PFS0 section: how long the archive is. -/
theorem length_pfs0Building (c : Crypto) (entries : FileEntries) (block : ℕ) :
    ∃ front, front = 0xC00 + (buildPfs0HashTable c (buildPfs0 entries) block).length +
        (0x200 - (buildPfs0HashTable c (buildPfs0 entries) block).length % 0x200) +
          (buildPfs0 entries).length ∧
      (writeNcaPfs0 c beginNca 0 entries block).2.buf.length
        = front + (0x200 - front % 0x200) := by
  have hb := Built.begin c
  obtain ⟨front, hfront, hbuf, -, -⟩ := writeNcaPfs0_buf c beginNca.1 (0 : Fin 4) entries
    block hb.at_end
  have hlen : beginNca.2.buf.length = 0xC00 := hb.empty rfl
  refine ⟨front.length, ?_, ?_⟩
  · rw [hfront]
    simp only [List.length_append, padding, length_zeros, hlen]
  · rw [show (beginNca : Building) = (beginNca.1, beginNca.2) from rfl, hbuf, List.length_append,
      padding, length_zeros]

theorem length_packaged_content_info (ncas : List NcaEntry) (i : Fin 2) :
    (packaged_content_info ncas i).bytes.length = 0x38 := by
  rw [packaged_content_info]
  cases ncas[i.val]? with
  | none => simp [NcmPackagedContentInfo.bytes, NcmContentInfo.bytes, Digest.zero]
  | some nca => simp [packagedInfo, NcmPackagedContentInfo.bytes, NcmContentInfo.bytes,
      nca.hash.property]

@[simp] theorem length_cnmt_buf (tid : ℕ) (storage_id : UInt8) (ncas : List NcaEntry) :
    (cnmt_buf tid storage_id ncas).length = 0xC0 := by
  simp [cnmt_buf, CnmtHeader.bytes, NcmContentMetaHeader.bytes,
    NcmApplicationMetaExtendedHeader.bytes, length_packaged_content_info]

@[simp] theorem length_hex16 (n : ℕ) : (hex16 n).length = 16 := by simp [hex16]

/-- The PFS0 image of the one file of the meta archive. -/
theorem length_buildPfs0_cnmt (tid : ℕ) (storage_id : UInt8) (ncas : List NcaEntry) :
    (buildPfs0 (cnmtEntries tid storage_id ncas)).length = 0x128 := by
  have h1 : (ascii "Application_").length = 12 := by decide
  have h2 : (ascii ".cnmt").length = 5 := by decide
  simp [buildPfs0, cnmtEntries, pfs0Tables, h1, h2, align]

theorem length_metaBuilding (c : Crypto) (tid : ℕ) (storage_id : UInt8) (ncas : List NcaEntry) :
    (metaBuilding c (cnmtEntries tid storage_id ncas)).2.buf.length = 0x1000 := by
  obtain ⟨front, hfront, hlen⟩ := length_pfs0Building c (cnmtEntries tid storage_id ncas)
    PFS0_META_HASH_BLOCK_SIZE
  have htable : (buildPfs0HashTable c (buildPfs0 (cnmtEntries tid storage_id ncas))
      PFS0_META_HASH_BLOCK_SIZE).length = 32 := by
    rw [buildPfs0HashTable_eq c _ (by decide), length_hashes, length_buildPfs0_cnmt]
    rfl
  rw [htable, length_buildPfs0_cnmt] at hfront
  rw [metaBuilding, hlen, hfront]

/-- The meta archive always has the same length. -/
theorem length_createMetaNca (c : Crypto) (key : Bytes) (tid : ℕ) (storage_id : UInt8)
    (ncas : List NcaEntry) :
    (createMetaNca c key tid storage_id ncas).nca_entry.data.length = 0x1000 := by
  have hbuilding := length_metaBuilding c tid storage_id ncas
  obtain ⟨hbuilt, -⟩ := writeNcaPfs0_spec (Built.begin c) (n := 0)
    (cnmtEntries tid storage_id ncas) (by decide : 0 < PFS0_META_HASH_BLOCK_SIZE)
    (hbuilding.le.trans_lt (by decide))
  obtain ⟨-, hfinish, -⟩ := hbuilt.finish key tid ContentType_Meta .Meta
  exact hfinish.trans hbuilding

/-- A buffer that the process can hold: an address on the console has 39 bits. -/
def Addressable (data : Bytes) : Prop := data.length < 2 ^ 39

/-- The media offsets reach further than that. -/
theorem Addressable.lt {data : Bytes} (h : Addressable data) : data.length < 2 ^ 41 :=
  lt_of_lt_of_le h (by decide)

/-- The program archive of files that are not too large. -/
theorem addressable_program (c : Crypto) (key : Bytes) (tid : ℕ) (exefs romfs : FileEntries)
    (h : 2 * (buildPfs0 exefs).length + 6 * (buildRomfsIntoFile romfs {}).buf.length < 2 ^ 38) :
    Addressable (createProgramNca c key tid exefs romfs).data := by
  obtain ⟨front, hfront, hlen⟩ := length_pfs0Building c exefs PFS0_EXEFS_HASH_BLOCK_SIZE
  have htable : (buildPfs0HashTable c (buildPfs0 exefs) PFS0_EXEFS_HASH_BLOCK_SIZE).length
      ≤ (buildPfs0 exefs).length + 32 := by
    rw [buildPfs0HashTable_eq c _ (by decide), length_hashes, PFS0_EXEFS_HASH_BLOCK_SIZE]
    omega
  obtain ⟨hbuilt₁, -⟩ := writeNcaPfs0_spec (Built.begin c) (n := 0) exefs
    (by decide : 0 < PFS0_EXEFS_HASH_BLOCK_SIZE) (by omega)
  have hromfs := length_writeNcaRomfs_le c 1 romfs hbuilt₁.at_end
  have hall : (programBuilding c exefs romfs).2.buf.length < 2 ^ 39 := by
    rw [programBuilding]
    omega
  obtain ⟨hbuilt₂, -⟩ := writeNcaRomfs_spec hbuilt₁ (n := 1) romfs
    (lt_of_lt_of_le hall (by decide))
  obtain ⟨-, hfinish, -⟩ := hbuilt₂.finish key tid ContentType_Program .Program
  exact hfinish.trans_lt hall

/-- The control archive of files that are not too large. -/
theorem addressable_control (c : Crypto) (key : Bytes) (tid : ℕ) (romfs : FileEntries)
    (h : 6 * (buildRomfsIntoFile romfs {}).buf.length < 2 ^ 38) :
    Addressable (createControlNca c key tid romfs).data := by
  have hbegin := Built.begin c
  have hromfs := length_writeNcaRomfs_le c 0 romfs hbegin.at_end
  have hempty := hbegin.empty rfl
  have hall : (writeNcaRomfs c beginNca 0 romfs).2.buf.length < 2 ^ 39 := by omega
  obtain ⟨hbuilt, -⟩ := writeNcaRomfs_spec hbegin (n := 0) romfs (lt_of_lt_of_le hall (by decide))
  obtain ⟨-, hfinish, -⟩ := hbuilt.finish key tid ContentType_Control .Control
  exact hfinish.trans_lt hall

/-- The program archive: the PFS0 section first, the RomFS section behind it. -/
theorem programArchive (c : Crypto) (key : Bytes) (tid : ℕ) (exefs romfs : FileEntries)
    (hprogram : Addressable (createProgramNca c key tid exefs romfs).data) :
    ∃ h, Archive c key (createProgramNca c key tid exefs romfs) h 2 ∧
      Nonempty (Pfs0Section c (h.fs_header 0)
        (sectionBytes h (createProgramNca c key tid exefs romfs).data 0) (buildPfs0 exefs)
        PFS0_EXEFS_HASH_BLOCK_SIZE) ∧
      Nonempty (RomfsSection c (h.fs_header 1)
        (sectionBytes h (createProgramNca c key tid exefs romfs).data 1)
        (buildRomfsIntoFile romfs {}).buf) := by
  have hbegin := Built.begin c
  obtain ⟨-, -, -, hend, -⟩ := writeNcaPfs0_buf c beginNca.1 (0 : Fin 4) exefs
    PFS0_EXEFS_HASH_BLOCK_SIZE hbegin.at_end
  have hfit₂ := (length_le_encrypted c key (programBuilding c exefs romfs) tid
    ContentType_Program).trans_lt hprogram.lt
  have hfit₁ : (writeNcaPfs0 c beginNca 0 exefs PFS0_EXEFS_HASH_BLOCK_SIZE).2.buf.length
      < 2 ^ 41 := by
    refine lt_of_le_of_lt ?_ hfit₂
    have hbuf := (writeNcaRomfs_buf c (writeNcaPfs0 c beginNca 0 exefs
      PFS0_EXEFS_HASH_BLOCK_SIZE).1 (1 : Fin 4) romfs hend).1
    rw [programBuilding, ← Prod.mk.eta (p := writeNcaPfs0 c beginNca 0 exefs
      PFS0_EXEFS_HASH_BLOCK_SIZE), hbuf, List.length_append]
    exact Nat.le_add_right _ _
  obtain ⟨hbuilt₁, hpfs0⟩ := writeNcaPfs0_spec hbegin (n := 0) exefs (by decide) hfit₁
  obtain ⟨hbuilt₂, hromfs, hold⟩ := writeNcaRomfs_spec hbuilt₁ (n := 1) romfs hfit₂
  obtain ⟨hfs, hsec⟩ := hold 0 (by decide)
  obtain ⟨harchive, -, hsections⟩ := hbuilt₂.finish key tid ContentType_Program .Program
  rw [← hfs, ← hsec, ← hsections 0 (by decide)] at hpfs0
  rw [← hsections 1 (by decide)] at hromfs
  exact ⟨_, harchive, hpfs0, hromfs⟩

/-- The control archive: one RomFS section. -/
theorem controlArchive (c : Crypto) (key : Bytes) (tid : ℕ) (romfs : FileEntries)
    (hcontrol : Addressable (createControlNca c key tid romfs).data) :
    ∃ h, Archive c key (createControlNca c key tid romfs) h 1 ∧
      Nonempty (RomfsSection c (h.fs_header 0)
        (sectionBytes h (createControlNca c key tid romfs).data 0)
        (buildRomfsIntoFile romfs {}).buf) := by
  have hfit := (length_le_encrypted c key (writeNcaRomfs c beginNca 0 romfs) tid
    ContentType_Control).trans_lt hcontrol.lt
  obtain ⟨hbuilt, hromfs, -⟩ := writeNcaRomfs_spec (Built.begin c) (n := 0) romfs hfit
  obtain ⟨harchive, -, hsections⟩ := hbuilt.finish key tid ContentType_Control .Control
  rw [← hsections 0 (by decide)] at hromfs
  exact ⟨_, harchive, hromfs⟩

/-- The meta archive: one PFS0 section. -/
theorem metaArchive (c : Crypto) (key : Bytes) (tid : ℕ) (storage_id : UInt8)
    (ncas : List NcaEntry) :
    ∃ h, Archive c key (createMetaNca c key tid storage_id ncas).nca_entry h 1 ∧
      Nonempty (Pfs0Section c (h.fs_header 0)
        (sectionBytes h (createMetaNca c key tid storage_id ncas).nca_entry.data 0)
        (buildPfs0 (cnmtEntries tid storage_id ncas)) PFS0_META_HASH_BLOCK_SIZE) := by
  have hlen : (metaBuilding c (cnmtEntries tid storage_id ncas)).2.buf.length < 2 ^ 41 := by
    rw [length_metaBuilding]
    decide
  obtain ⟨hbuilt, hpfs0⟩ := writeNcaPfs0_spec (Built.begin c) (n := 0)
    (cnmtEntries tid storage_id ncas) (by decide) hlen
  obtain ⟨harchive, -, hsections⟩ := hbuilt.finish key tid ContentType_Meta .Meta
  rw [← hsections 0 (by decide)] at hpfs0
  exact ⟨_, harchive, hpfs0⟩

/-- **Layout and hashes of the archives.** For all lists of files whose archives the process can
hold, the program, control and meta archives have sections that tile them, hashed section headers
and sections with the hashes of what they cover. -/
theorem archives_consistent (c : Crypto) (key : Bytes) (tid : ℕ) (storage_id : UInt8)
    (exefs romfs control_romfs : FileEntries) (ncas : List NcaEntry)
    (hprogram : Addressable (createProgramNca c key tid exefs romfs).data)
    (hcontrol : Addressable (createControlNca c key tid control_romfs).data) :
    (∃ h, Archive c key (createProgramNca c key tid exefs romfs) h 2 ∧
      Nonempty (Pfs0Section c (h.fs_header 0)
        (sectionBytes h (createProgramNca c key tid exefs romfs).data 0) (buildPfs0 exefs)
        PFS0_EXEFS_HASH_BLOCK_SIZE) ∧
      Nonempty (RomfsSection c (h.fs_header 1)
        (sectionBytes h (createProgramNca c key tid exefs romfs).data 1)
        (buildRomfsIntoFile romfs {}).buf)) ∧
    (∃ h, Archive c key (createControlNca c key tid control_romfs) h 1 ∧
      Nonempty (RomfsSection c (h.fs_header 0)
        (sectionBytes h (createControlNca c key tid control_romfs).data 0)
        (buildRomfsIntoFile control_romfs {}).buf)) ∧
    (∃ h, Archive c key (createMetaNca c key tid storage_id ncas).nca_entry h 1 ∧
      Nonempty (Pfs0Section c (h.fs_header 0)
        (sectionBytes h (createMetaNca c key tid storage_id ncas).nca_entry.data 0)
        (buildPfs0 (cnmtEntries tid storage_id ncas)) PFS0_META_HASH_BLOCK_SIZE)) :=
  ⟨programArchive c key tid exefs romfs hprogram,
    controlArchive c key tid control_romfs hcontrol, metaArchive c key tid storage_id ncas⟩

/-- A cipher that changes nothing and a hash that keeps the front of its argument. -/
def Crypto.plain : Crypto where
  sha256 data := ⟨(data ++ zeros 32).take 32, by simp⟩
  xtsEncrypt _ _ data := data
  xtsDecrypt _ _ data := data
  length_xtsEncrypt _ _ _ := rfl
  xtsDecrypt_encrypt _ _ _ := rfl

/-- The archives of two small file lists. -/
theorem archives_consistent_small :
    ∃ h, Archive .plain [] (createProgramNca .plain [] 7 [⟨ascii "main", [1, 2]⟩] [⟨ascii "a", [3]⟩])
      h 2 :=
  let h := archives_consistent .plain [] 7 5 [⟨ascii "main", [1, 2]⟩] [⟨ascii "a", [3]⟩]
    [⟨ascii "b", [4]⟩] [] (addressable_program _ _ _ _ _ (by decide +kernel))
    (addressable_control _ _ _ _ (by decide +kernel))
  h.1.imp fun _ h => h.1

end Forwarder
