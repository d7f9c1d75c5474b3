/-
# Looking up files in a built RomFS

What a reader of the image of `buildRomfsIntoFile` finds: a file by the bucket of its name and
the entries that share it, and all files by the child of the root and its siblings.  The tables
are right for any number of files; the sizes in them are those of other files unless the sizes
from the second file on read the same backwards.
-/
import AioMod.RomFs

namespace Forwarder

open ByteImage

/-! ## Chains of offsets -/

/-- From the offset `off` the links lead through `offs` to the end. -/
inductive Follows (next : ℕ → ℕ) : ℕ → List ℕ → Prop where
  | nil : Follows next ROMFS_ENTRY_EMPTY []
  | cons {off : ℕ} {offs : List ℕ} : off ≠ ROMFS_ENTRY_EMPTY → Follows next (next off) offs →
      Follows next off (off :: offs)

/-- There is one way to follow the links. -/
theorem Follows.unique {next : ℕ → ℕ} {off : ℕ} {xs ys : List ℕ} (hx : Follows next off xs)
    (hy : Follows next off ys) : xs = ys := by
  induction hx generalizing ys with
  | nil =>
    cases hy with
    | nil => rfl
    | cons hne _ => exact absurd rfl hne
  | cons hne _ ih =>
    cases hy with
    | nil => exact absurd rfl hne
    | cons _ hrest => rw [ih hrest]

/-! ## What a reader reads -/

/-- A number of four bytes. -/
def u32At (bs : Bytes) (off : ℕ) : ℕ := ofLe (slice bs off 4)

/-- A number of eight bytes. -/
def u64At (bs : Bytes) (off : ℕ) : ℕ := ofLe (slice bs off 8)

/-- The fields of the header a reader uses. -/
structure Tables where
  dirHashTableOff : ℕ
  dirTable : Bytes
  fileHashTable : Bytes
  fileTable : Bytes
  fileDataOff : ℕ

/-- The tables of an image. -/
def tablesOf (image : Bytes) : Tables where
  dirHashTableOff := u64At image 8
  dirTable := slice image (u64At image 24) (u64At image 32)
  fileHashTable := slice image (u64At image 40) (u64At image 48)
  fileTable := slice image (u64At image 56) (u64At image 64)
  fileDataOff := u64At image 72

/-- `sibling` of the entry at an offset. -/
def siblingAt (table : Bytes) (off : ℕ) : ℕ := u32At table (off + 4)

/-- `dataOff` -/
def dataOffAt (table : Bytes) (off : ℕ) : ℕ := u64At table (off + 8)

/-- `dataSize` -/
def dataSizeAt (table : Bytes) (off : ℕ) : ℕ := u64At table (off + 16)

/-- `nextHash` -/
def nextHashAt (table : Bytes) (off : ℕ) : ℕ := u32At table (off + 24)

/-- The name of the entry at an offset. -/
def nameAt (table : Bytes) (off : ℕ) : Bytes := slice table (off + 32) (u32At table (off + 28))

/-- The bucket of a name with its leading slash, in a table of `n` buckets. -/
def bucketOf (n : ℕ) (name : Bytes) : ℕ := (calcPathHash 0 name 1 (name.length - 1)).toNat % n

/-- The first entry of the bucket of a name. -/
def Tables.firstInBucket (t : Tables) (name : Bytes) : ℕ :=
  u32At t.fileHashTable (4 * bucketOf (t.fileHashTable.length / 4) name)

/-- `childFile` of the root -/
def Tables.childFile (t : Tables) : ℕ := u32At t.dirTable 12

/-- The data ranges of two entries do not meet. -/
def Apart (table : Bytes) (o o' : ℕ) : Prop :=
  dataOffAt table o + dataSizeAt table o ≤ dataOffAt table o' ∨
    dataOffAt table o' + dataSizeAt table o' ≤ dataOffAt table o

/-- What looking up and walking find agrees with the files the image was built of. -/
structure Agrees (image : Bytes) (entries : FileEntries) : Prop where
  lookup : ∀ e ∈ entries, ∃ offs o,
    Follows (nextHashAt (tablesOf image).fileTable) ((tablesOf image).firstInBucket e.name) offs ∧
      offs.filter (fun x => nameAt (tablesOf image).fileTable x = e.name.drop 1) = [o] ∧
      dataSizeAt (tablesOf image).fileTable o = e.data.length ∧
      slice image ((tablesOf image).fileDataOff + dataOffAt (tablesOf image).fileTable o)
        e.data.length = e.data
  walk : ∃ offs, Follows (siblingAt (tablesOf image).fileTable) (tablesOf image).childFile offs ∧
    (offs.map (nameAt (tablesOf image).fileTable)).Perm (entries.map fun e => e.name.drop 1) ∧
    (∀ o ∈ offs, (tablesOf image).fileDataOff + dataOffAt (tablesOf image).fileTable o +
      dataSizeAt (tablesOf image).fileTable o ≤ (tablesOf image).dirHashTableOff) ∧
    offs.Pairwise (Apart (tablesOf image).fileTable)

/-! ## Writes and slices -/

namespace BufHelper

theorem length_buf_write (b : BufHelper) (data : Bytes) :
    (b.write data).buf.length = max b.buf.length (b.offset + data.length) := by
  rw [write]
  split <;> simp only [List.length_append, List.length_take, List.length_drop, length_zeros] <;>
    omega

/-- What was written is there. -/
theorem slice_write (b : BufHelper) (data : Bytes) :
    slice (b.write data).buf b.offset data.length = data := by
  rw [write]
  refine slice_middle ?_ rfl
  split <;> simp only [List.length_append, List.length_take, length_zeros] <;> omega

/-- What is in front of a write stays. -/
theorem slice_write_left (b : BufHelper) (data : Bytes) {off n : ℕ} (hoff : off + n ≤ b.offset)
    (hlen : off + n ≤ b.buf.length) : slice (b.write data).buf off n = slice b.buf off n := by
  have htake : ∀ rest : Bytes, slice ((b.buf ++ rest).take b.offset) off n = slice b.buf off n := by
    intro rest
    rw [slice, slice, List.drop_take, List.take_take, Nat.min_eq_left (by omega),
      List.drop_append_of_le_length (by omega), List.take_append_of_le_length]
    rw [List.length_drop]
    omega
  have hfit : ∀ rest : Bytes, off + n ≤ ((b.buf ++ rest).take b.offset).length := by
    intro rest
    rw [List.length_take, List.length_append]
    omega
  rw [write]
  dsimp only
  split
  · rw [List.append_assoc, slice_append_left (hfit _), htake]
  · have h := hfit []
    have h' := htake []
    rw [List.append_nil] at h h'
    rw [List.append_assoc, slice_append_left h, h']

/-- Four writes in a row leave what was in front of them and put their data behind each other. -/
theorem four_writes (b : BufHelper) (w x y z : Bytes) :
    slice ((((b.write w).write x).write y).write z).buf (b.offset + w.length) x.length = x ∧
      slice ((((b.write w).write x).write y).write z).buf (b.offset + w.length + x.length)
        y.length = y ∧
      slice ((((b.write w).write x).write y).write z).buf
        (b.offset + w.length + x.length + y.length) z.length = z ∧
      ∀ off n, off + n ≤ b.buf.length → off + n ≤ b.offset →
        slice ((((b.write w).write x).write y).write z).buf off n = slice b.buf off n := by
  have l1 := length_buf_write b w
  have l2 := length_buf_write (b.write w) x
  have l3 := length_buf_write ((b.write w).write x) y
  have o1 := offset_write b w
  have o2 := offset_write (b.write w) x
  have o3 := offset_write ((b.write w).write x) y
  rw [o1] at l2 o2
  rw [o2] at l3 o3
  refine ⟨?_, ?_, ?_, ?_⟩
  · rw [slice_write_left _ z (by omega) (by omega), slice_write_left _ y (by omega) (by omega), ← o1]
    exact slice_write (b.write w) x
  · rw [slice_write_left _ z (by omega) (by omega), ← o2]
    exact slice_write ((b.write w).write x) y
  · rw [← o3]
    exact slice_write (((b.write w).write x).write y) z
  · intro off n hlen hoff
    rw [slice_write_left _ z (by omega) (by omega), slice_write_left _ y (by omega) (by omega),
      slice_write_left _ x (by omega) (by omega), slice_write_left _ w hoff hlen]

end BufHelper

/-! ## The file table -/

/-- The contexts stand where their entries are written. -/
def Laid : ℕ → List RomfsFileCtx → FileEntries → Prop
  | base, cur_file :: next, entry :: entries =>
    cur_file.entry_offset = base ∧ Laid (base + fileEntrySize entry) next entries
  | _, [], [] => True
  | _, _, _ => False

theorem Laid.length_eq {base : ℕ} {files : List RomfsFileCtx} {entries : FileEntries}
    (h : Laid base files entries) : files.length = entries.length := by
  induction files generalizing base entries with
  | nil =>
    rcases entries with _ | ⟨e, es⟩
    · rfl
    · exact h.elim
  | cons c cs ih =>
    rcases entries with _ | ⟨e, es⟩
    · exact h.elim
    · rw [List.length_cons, List.length_cons, ih h.2]

theorem slice_add (bs : Bytes) (off k n : ℕ) : slice bs (off + k) n = slice (bs.drop off) k n := by
  rw [slice, slice, List.drop_drop]

/-- What is read of an entry of the table. -/
structure ReadsAs (table : Bytes) (off sibling nextHash : ℕ) (c : RomfsFileCtx) (e : FileEntry) :
    Prop where
  sibling : siblingAt table off = sibling
  dataOff : dataOffAt table off = c.offset
  dataSize : dataSizeAt table off = c.size
  nextHash : nextHashAt table off = nextHash
  name : nameAt table off = e.name.drop 1

/-- The fields of a row fit. -/
structure Fitting (c : RomfsFileCtx) (e : FileEntry) : Prop where
  offset : c.offset < 2 ^ 64
  size : c.size < 2 ^ 64
  name : e.name.length < 2 ^ 32

theorem readsAs_of_drop {table rest : Bytes} {off sibling nextHash : ℕ} {c : RomfsFileCtx}
    {e : FileEntry} (hfit : Fitting c e) (hs : sibling < 2 ^ 32) (hn : nextHash < 2 ^ 32)
    (h : table.drop off = fileEntryBytes c sibling nextHash e ++ rest) :
    ReadsAs table off sibling nextHash c e := by
  obtain ⟨h4, h8, h16⟩ := fileEntryBytes_fields c sibling nextHash e rest hs hfit.offset hfit.size
  have h24 : slice (fileEntryBytes c sibling nextHash e ++ rest) 24 4 = le 4 nextHash := by
    simp [fileEntryBytes, slice, List.drop_append, List.drop_eq_nil_of_le]
  have h28 : slice (fileEntryBytes c sibling nextHash e ++ rest) 28 4
      = le 4 (e.name.length - 1) := by
    simp [fileEntryBytes, slice, List.drop_append, List.drop_eq_nil_of_le]
  have h32 : slice (fileEntryBytes c sibling nextHash e ++ rest) 32 (e.name.length - 1)
      = e.name.drop 1 := by
    simp [fileEntryBytes, slice, List.drop_append, List.drop_eq_nil_of_le]
  have hlen : u32At table (off + 28) = e.name.length - 1 := by
    have hname := hfit.name
    rw [u32At, slice_add, h, h28]
    exact ofLe_le_of_lt (show e.name.length - 1 < 2 ^ 32 by omega)
  refine ⟨?_, ?_, ?_, ?_, ?_⟩
  · rw [siblingAt, u32At, slice_add, h, h4]
  · rw [dataOffAt, u64At, slice_add, h, h8]
  · rw [dataSizeAt, u64At, slice_add, h, h16]
  · rw [nextHashAt, u32At, slice_add, h, h24]
    exact ofLe_le_of_lt hn
  · rw [nameAt, hlen, slice_add, h, h32]

/-- A context and its entry. -/
abbrev Row := RomfsFileCtx × FileEntry

/-- The first of the siblings, as a link. -/
def firstOffset (files : List RomfsFileCtx) : ℕ :=
  (files.head?.map RomfsFileCtx.entry_offset).getD ROMFS_ENTRY_EMPTY

theorem Laid.firstOffset_lt {base : ℕ} {files : List RomfsFileCtx} {entries : FileEntries}
    (h : Laid base files entries) (hs : base + (entries.map fileEntrySize).sum < 2 ^ 32) :
    firstOffset files < 2 ^ 32 := by
  rcases files with _ | ⟨c, cs⟩
  · decide
  · rcases entries with _ | ⟨e, es⟩
    · exact h.elim
    · show c.entry_offset < 2 ^ 32
      rw [h.1]
      omega

/-- The entries that a bucket gets, the last one first. -/
def inBucket (n b : ℕ) (rows : List Row) : List ℕ :=
  ((rows.filter fun row => bucketOf n row.2.name = b).map fun row => row.1.entry_offset).reverse

/-- What the table says, row by row, and where its links lead. -/
structure TableReads (table : Bytes) (files : List RomfsFileCtx) (entries : FileEntries)
    (n : ℕ) (before after : List ℕ) : Prop where
  rows : ∀ row ∈ files.zip entries, ∃ sibling nextHash,
    ReadsAs table row.1.entry_offset sibling nextHash row.1 row.2
  siblings : Follows (siblingAt table) (firstOffset files)
    (files.map RomfsFileCtx.entry_offset)
  length : after.length = n
  small : ∀ x ∈ after, x < 2 ^ 32
  buckets : ∀ chain : ℕ → List ℕ,
    (∀ b < n, Follows (nextHashAt table) (before.getD b ROMFS_ENTRY_EMPTY) (chain b)) →
      ∀ b < n, Follows (nextHashAt table) (after.getD b ROMFS_ENTRY_EMPTY)
        (inBucket n b (files.zip entries) ++ chain b)

theorem inBucket_cons (n b : ℕ) (row : Row) (rows : List Row) :
    inBucket n b (row :: rows) =
      inBucket n b rows ++ if bucketOf n row.2.name = b then [row.1.entry_offset] else [] := by
  unfold inBucket
  rw [List.filter_cons]
  split_ifs with h h' h'
  · simp
  · exact absurd (of_decide_eq_true h) h'
  · exact absurd (decide_eq_true h') h
  · simp

theorem romfsFileTable_cons {c : RomfsFileCtx} {cs : List RomfsFileCtx} {e : FileEntry}
    {es : FileEntries} {before : List ℕ} :
    romfsFileTable (c :: cs) (e :: es) before =
      (fileEntryBytes c (firstOffset cs)
          (before.getD (bucketOf before.length e.name) ROMFS_ENTRY_EMPTY) e ++
        (romfsFileTable cs es
          (before.set (bucketOf before.length e.name) c.entry_offset)).1,
        (romfsFileTable cs es
          (before.set (bucketOf before.length e.name) c.entry_offset)).2) := rfl

theorem romfsFileTable_reads {table : Bytes} {n : ℕ} (hn : 0 < n) {files : List RomfsFileCtx}
    {entries : FileEntries} {base : ℕ} {before : List ℕ} (hlaid : Laid base files entries)
    (hfit : ∀ row ∈ files.zip entries, Fitting row.1 row.2)
    (hbase : base + (entries.map fileEntrySize).sum < 2 ^ 32)
    (hlen : before.length = n) (hsmall : ∀ x ∈ before, x < 2 ^ 32)
    (htable : table.drop base = (romfsFileTable files entries before).1) :
    TableReads table files entries n before (romfsFileTable files entries before).2 := by
  induction files generalizing base entries before with
  | nil =>
    rcases entries with _ | ⟨e, es⟩
    · exact ⟨by simp, .nil, hlen, hsmall, fun chain hc b hb => hc b hb⟩
    · exact hlaid.elim
  | cons c cs ih =>
    rcases entries with _ | ⟨e, es⟩
    · exact hlaid.elim
    obtain ⟨hoff, hrest⟩ := hlaid
    rw [romfsFileTable_cons, hlen, hoff] at htable ⊢
    have hsum : (List.map fileEntrySize (e :: es)).sum
        = fileEntrySize e + (List.map fileEntrySize es).sum := List.sum_cons
    have hsize : 32 ≤ fileEntrySize e := Nat.le_add_right _ _
    have hbucket : bucketOf n e.name < n := Nat.mod_lt _ hn
    have hnext : before.getD (bucketOf n e.name) ROMFS_ENTRY_EMPTY < 2 ^ 32 := by
      rw [List.getD_eq_getElem _ _ (hbucket.trans_eq hlen.symm)]
      exact hsmall _ (List.getElem_mem _)
    -- the row at the front
    have hrow : ReadsAs table base (firstOffset cs)
        (before.getD (bucketOf n e.name) ROMFS_ENTRY_EMPTY) c e :=
      readsAs_of_drop (hfit (c, e) List.mem_cons_self) (hrest.firstOffset_lt (by omega)) hnext
        htable
    have hdrop : table.drop (base + fileEntrySize e)
        = (romfsFileTable cs es (before.set (bucketOf n e.name) base)).1 := by
      rw [← List.drop_drop, htable]
      exact List.drop_left' (length_fileEntryBytes _ _ _ _)
    have hlast : base ≠ ROMFS_ENTRY_EMPTY := by
      unfold ROMFS_ENTRY_EMPTY
      omega
    have hset : ∀ x ∈ before.set (bucketOf n e.name) base, x < 2 ^ 32 := by
      intro x hx
      rcases List.mem_or_eq_of_mem_set hx with h | rfl
      · exact hsmall x h
      · omega
    have htail := ih hrest (fun row hr => hfit row (List.mem_cons_of_mem _ hr)) (by omega)
      (by rw [List.length_set, hlen]) hset hdrop
    refine ⟨?_, ?_, htail.length, htail.small, ?_⟩
    · intro row hmem
      rcases List.mem_cons.mp hmem with rfl | hmem
      · exact ⟨_, _, hoff ▸ hrow⟩
      · exact htail.rows row hmem
    · show Follows (siblingAt table) c.entry_offset
        (c.entry_offset :: cs.map RomfsFileCtx.entry_offset)
      rw [hoff]
      exact .cons hlast (hrow.sibling.symm ▸ htail.siblings)
    · intro chain hchain b hb
      have hstep := htail.buckets
        (fun b => if bucketOf n e.name = b then base :: chain b else chain b) (by
          intro b hb
          show Follows (nextHashAt table)
            ((before.set (bucketOf n e.name) base).getD b ROMFS_ENTRY_EMPTY)
            (if bucketOf n e.name = b then base :: chain b else chain b)
          split_ifs with hsame
          · subst hsame
            rw [List.getD_eq_getElem _ _ (by rw [List.length_set]; omega), List.getElem_set_self]
            exact .cons hlast (hrow.nextHash.symm ▸ hchain _ hb)
          · have hkeep : (before.set (bucketOf n e.name) base).getD b ROMFS_ENTRY_EMPTY
                = before.getD b ROMFS_ENTRY_EMPTY := by
              rw [List.getD_eq_getElem?_getD, List.getD_eq_getElem?_getD,
                List.getElem?_set_ne hsame]
            rw [hkeep]
            exact hchain b hb) b hb
      rw [List.zip_cons_cons, inBucket_cons, List.append_assoc, hoff]
      split_ifs at hstep ⊢ with hsame
      · exact hstep
      · exact hstep

/-! ## Where everything is put -/

/-- The data ranges of the contexts follow each other from `start` to `stop`. -/
def Spread : ℕ → List RomfsFileCtx → ℕ → Prop
  | start, [], stop => start ≤ stop
  | start, cur_file :: next, stop =>
    start ≤ cur_file.offset ∧ Spread (cur_file.offset + cur_file.size) next stop

theorem Spread.start_le {start stop : ℕ} {files : List RomfsFileCtx}
    (h : Spread start files stop) : start ≤ stop := by
  induction files generalizing start with
  | nil => exact h
  | cons c cs ih =>
    have hc := ih h.2
    have hs := h.1
    omega

theorem Spread.mem {start stop : ℕ} {files : List RomfsFileCtx} (h : Spread start files stop)
    {c : RomfsFileCtx} (hc : c ∈ files) : start ≤ c.offset ∧ c.offset + c.size ≤ stop := by
  induction files generalizing start with
  | nil => cases hc
  | cons d ds ih =>
    rcases List.mem_cons.mp hc with rfl | hmem
    · exact ⟨h.1, h.2.start_le⟩
    · obtain ⟨hlow, hhigh⟩ := ih h.2 hmem
      have hd := h.1
      exact ⟨by omega, hhigh⟩

theorem Spread.pairwise {start stop : ℕ} {files : List RomfsFileCtx} (h : Spread start files stop) :
    files.Pairwise fun c d => c.offset + c.size ≤ d.offset := by
  induction files generalizing start with
  | nil => exact .nil
  | cons c cs ih => exact .cons (fun d hd => (h.2.mem hd).1) (ih h.2)

/-- The first loop over the files gives each its place and keeps its size. -/
theorem romfsPlace_spec {files : List RomfsFileCtx} {entries : FileEntries}
    (hlen : files.length = entries.length) (size base : ℕ) :
    Laid base (romfsPlace files entries size base).1 entries ∧
      (romfsPlace files entries size base).1.map RomfsFileCtx.size
        = files.map RomfsFileCtx.size ∧
      Spread size (romfsPlace files entries size base).1
        (romfsPlace files entries size base).2 := by
  induction files generalizing entries size base with
  | nil =>
    rcases entries with _ | ⟨e, es⟩
    · exact ⟨trivial, rfl, le_refl _⟩
    · cases hlen
  | cons c cs ih =>
    rcases entries with _ | ⟨e, es⟩
    · cases hlen
    · have hle := le_align size (by decide : 0 < 0x10)
      obtain ⟨hlaid, hsizes, hspread⟩ := ih (Nat.succ.inj hlen) (align size 0x10 + c.size)
        (base + fileEntrySize e)
      refine ⟨⟨rfl, hlaid⟩, ?_, hle, hspread⟩
      show c.size :: _ = c.size :: _
      rw [hsizes]

/-- The contexts of the files behind the first one are in reverse. -/
theorem romfsVisitDir_sizes (e : FileEntry) (es : FileEntries) :
    (romfsVisitDir (e :: es)).1.map RomfsFileCtx.size =
      e.data.length :: (es.map fun x => x.data.length).reverse := by
  have hfold : ∀ (rest : FileEntries) (c : RomfsFileCtx) (cs : List RomfsFileCtx),
      (rest.foldl (fun files entry => insertCtx { size := entry.data.length } files)
        (c :: cs)).map RomfsFileCtx.size
        = c.size :: ((rest.map fun x => x.data.length).reverse ++ cs.map RomfsFileCtx.size) := by
    intro rest
    induction rest with
    | nil => intro c cs; rfl
    | cons x rest ih =>
      intro c cs
      rw [List.foldl_cons, insertCtx, ih]
      simp
  show ((es.foldl _ [_]).map RomfsFileCtx.size) = _
  rw [hfold]
  simp

theorem length_romfsVisitDir (entries : FileEntries) :
    (romfsVisitDir entries).1.length = entries.length := by
  rcases entries with _ | ⟨e, es⟩
  · rfl
  · have h := congrArg List.length (romfsVisitDir_sizes e es)
    simpa using h

/-- The writes of the data keep what is in front of it. -/
theorem writeFiles_keeps {start stop : ℕ} {files : List RomfsFileCtx} (entries : FileEntries)
    (hs : Spread start files stop) (b : BufHelper) :
    b.buf.length ≤ (writeFiles files entries b).buf.length ∧
      ∀ off n, off + n ≤ b.buf.length → off + n ≤ start + 0x200 →
        slice (writeFiles files entries b).buf off n = slice b.buf off n := by
  induction files generalizing entries start b with
  | nil => exact ⟨le_refl _, fun _ _ _ _ => rfl⟩
  | cons c cs ih =>
    rcases entries with _ | ⟨e, es⟩
    · exact ⟨le_refl _, fun _ _ _ _ => rfl⟩
    obtain ⟨hc, hrest⟩ := hs
    have hofs : ROMFS_FILEPARTITION_OFS = 0x200 := rfl
    have hlen := BufHelper.length_buf_write (b.seek (c.offset + ROMFS_FILEPARTITION_OFS)) e.data
    rw [BufHelper.seek_buf, BufHelper.seek_offset] at hlen
    obtain ⟨hle, hkeep⟩ := ih es hrest
      ((b.seek (c.offset + ROMFS_FILEPARTITION_OFS)).write e.data)
    refine ⟨by rw [writeFiles]; omega, ?_⟩
    intro off n hb hstart
    rw [writeFiles, hkeep off n (by omega) (by omega)]
    exact BufHelper.slice_write_left _ _ (by rw [BufHelper.seek_offset]; omega) hb

/-- Where the sizes are those of the files, the data of each file is in its range. -/
theorem writeFiles_data {start stop : ℕ} {files : List RomfsFileCtx} {entries : FileEntries}
    (hs : Spread start files stop) (b : BufHelper)
    (hsize : ∀ row ∈ files.zip entries, row.1.size = row.2.data.length) :
    ∀ row ∈ files.zip entries,
      row.1.offset + 0x200 + row.2.data.length ≤ (writeFiles files entries b).buf.length ∧
      slice (writeFiles files entries b).buf (0x200 + row.1.offset) row.2.data.length
        = row.2.data := by
  induction files generalizing entries start b with
  | nil => intro row hrow; cases hrow
  | cons c cs ih =>
    rcases entries with _ | ⟨e, es⟩
    · intro row hrow
      cases hrow
    obtain ⟨hc, hrest⟩ := hs
    have hofs : ROMFS_FILEPARTITION_OFS = 0x200 := rfl
    intro row hrow
    rcases List.mem_cons.mp hrow with rfl | hmem
    · have hce : c.size = e.data.length := hsize (c, e) List.mem_cons_self
      have hlen := BufHelper.length_buf_write (b.seek (c.offset + ROMFS_FILEPARTITION_OFS)) e.data
      rw [BufHelper.seek_offset] at hlen
      obtain ⟨hle, hkeep⟩ := writeFiles_keeps es hrest
        ((b.seek (c.offset + ROMFS_FILEPARTITION_OFS)).write e.data)
      have hdata := BufHelper.slice_write (b.seek (c.offset + ROMFS_FILEPARTITION_OFS)) e.data
      have hcomm : c.offset + ROMFS_FILEPARTITION_OFS = 0x200 + c.offset := Nat.add_comm _ _
      rw [BufHelper.seek_offset] at hdata
      refine ⟨?_, ?_⟩
      · show c.offset + 0x200 + e.data.length ≤ _
        rw [writeFiles]
        omega
      · show slice (writeFiles (c :: cs) (e :: es) b).buf (0x200 + c.offset) e.data.length = e.data
        rw [writeFiles, hkeep _ _ (by omega) (by omega), ← hcomm]
        exact hdata
    · rw [writeFiles]
      exact ih hrest _ (fun row hr => hsize row (List.mem_cons_of_mem _ hr)) row hmem

/-! ## The image -/

/-- The contexts as the loops leave them. -/
def placedFiles (entries : FileEntries) : List RomfsFileCtx :=
  (romfsPlace (romfsVisitDir entries).1 entries 0 0).1

/-- `file_partition_size` -/
def partitionSize (entries : FileEntries) : ℕ :=
  (romfsPlace (romfsVisitDir entries).1 entries 0 0).2

/-- The file table and its hash table. -/
def fileTables (entries : FileEntries) : Bytes × List ℕ :=
  romfsFileTable (placedFiles entries) entries
    (List.replicate (romfsGetHashTableCount entries.length) ROMFS_ENTRY_EMPTY)

/-- Where the tables begin in the image of the files. -/
def tablesStart (entries : FileEntries) : ℕ :=
  align (partitionSize entries + ROMFS_FILEPARTITION_OFS) 4

/-- The header of the image of the files. -/
def headerOfFiles (entries : FileEntries) : romfs_header where
  headerSize := sizeof_romfs_header
  dirHashTableOff := tablesStart entries
  dirHashTableSize := 12
  dirTableOff := tablesStart entries + 12
  dirTableSize := sizeof_romfs_dir
  fileHashTableOff := tablesStart entries + 12 + sizeof_romfs_dir
  fileHashTableSize := 4 * romfsGetHashTableCount entries.length
  fileTableOff := tablesStart entries + 12 + sizeof_romfs_dir +
    4 * romfsGetHashTableCount entries.length
  fileTableSize := (entries.map fileEntrySize).sum
  fileDataOff := ROMFS_FILEPARTITION_OFS

/-- The hash table of the root alone. -/
def dirHashBytes : Bytes :=
  ((List.replicate 3 ROMFS_ENTRY_EMPTY).set ((calcPathHash 0 [] 0 0).toNat % 3) 0).flatMap (le 4)

theorem length_flatMap_le (l : List ℕ) : (l.flatMap (le 4)).length = 4 * l.length := by
  simp [Nat.mul_comm]

theorem length_dirHashBytes : dirHashBytes.length = 12 := by
  rw [dirHashBytes, length_flatMap_le, List.length_set, List.length_replicate]

/-- The buffer when the data has been written. -/
def dataWritten (entries : FileEntries) : BufHelper :=
  writeFiles (placedFiles entries) entries (({} : BufHelper).write (headerOfFiles entries).bytes)

/-- The directory tables, the hash table of the files and the file table follow. -/
theorem buildRomfsIntoFile_eq (entries : FileEntries) :
    buildRomfsIntoFile entries {} =
      (((((dataWritten entries).seek (tablesStart entries)).write dirHashBytes).write
        (rootDirBytes (firstOffset (placedFiles entries)) ROMFS_ENTRY_EMPTY)).write
          ((fileTables entries).2.flatMap (le 4))).write (fileTables entries).1 := rfl

theorem length_romfsFileTable {files : List RomfsFileCtx} {entries : FileEntries}
    (hlen : files.length = entries.length) (before : List ℕ) :
    (romfsFileTable files entries before).1.length = (entries.map fileEntrySize).sum ∧
      (romfsFileTable files entries before).2.length = before.length := by
  induction files generalizing entries before with
  | nil =>
    rcases entries with _ | ⟨e, es⟩
    · exact ⟨rfl, rfl⟩
    · cases hlen
  | cons c cs ih =>
    rcases entries with _ | ⟨e, es⟩
    · cases hlen
    · obtain ⟨h₁, h₂⟩ := ih (Nat.succ.inj hlen)
        (before.set (bucketOf before.length e.name) c.entry_offset)
      rw [romfsFileTable_cons]
      refine ⟨?_, ?_⟩
      · rw [List.length_append, length_fileEntryBytes, h₁, List.map_cons, List.sum_cons]
      · rw [h₂, List.length_set]

theorem length_placedFiles (entries : FileEntries) :
    (placedFiles entries).length = entries.length :=
  (romfsPlace_spec (length_romfsVisitDir entries) 0 0).1.length_eq

theorem length_fileTables (entries : FileEntries) :
    (fileTables entries).1.length = (entries.map fileEntrySize).sum ∧
      (fileTables entries).2.length = romfsGetHashTableCount entries.length := by
  have h := length_romfsFileTable (length_placedFiles entries)
    (List.replicate (romfsGetHashTableCount entries.length) ROMFS_ENTRY_EMPTY)
  rw [List.length_replicate] at h
  exact h

/-- What stands in the image, and where. -/
structure ImageParts (entries : FileEntries) (image : Bytes) : Prop where
  header : slice image 0 80 = (headerOfFiles entries).bytes
  dirTable : slice image (tablesStart entries + 12) 24 =
    rootDirBytes (firstOffset (placedFiles entries)) ROMFS_ENTRY_EMPTY
  fileHashTable : slice image (tablesStart entries + 36)
    (4 * romfsGetHashTableCount entries.length) = (fileTables entries).2.flatMap (le 4)
  fileTable : slice image
      (tablesStart entries + 36 + 4 * romfsGetHashTableCount entries.length)
      (entries.map fileEntrySize).sum = (fileTables entries).1
  data : ∀ off n, off + n ≤ (dataWritten entries).buf.length → off + n ≤ tablesStart entries →
    slice image off n = slice (dataWritten entries).buf off n

theorem imageParts (entries : FileEntries) :
    ImageParts entries (buildRomfsIntoFile entries {}).buf := by
  obtain ⟨hft, hfh⟩ := length_fileTables entries
  have hfhb : ((fileTables entries).2.flatMap (le 4)).length
      = 4 * romfsGetHashTableCount entries.length := by
    rw [length_flatMap_le, hfh]
  have hspread := (romfsPlace_spec (length_romfsVisitDir entries) 0 0).2.2
  have hstart : 0x200 ≤ tablesStart entries := by
    have h := le_align (partitionSize entries + ROMFS_FILEPARTITION_OFS) (by decide : 0 < 4)
    have hofs : ROMFS_FILEPARTITION_OFS = 0x200 := rfl
    unfold tablesStart
    omega
  obtain ⟨hx, hy, hz, hkeep⟩ := BufHelper.four_writes
    ((dataWritten entries).seek (tablesStart entries)) dirHashBytes
    (rootDirBytes (firstOffset (placedFiles entries)) ROMFS_ENTRY_EMPTY)
    ((fileTables entries).2.flatMap (le 4)) (fileTables entries).1
  rw [← buildRomfsIntoFile_eq, BufHelper.seek_offset, length_dirHashBytes] at hx hy hz
  rw [length_rootDirBytes] at hx hy hz
  rw [hfhb] at hy hz
  rw [hft] at hz
  rw [← buildRomfsIntoFile_eq, BufHelper.seek_offset, BufHelper.seek_buf] at hkeep
  -- the header is in front of the data
  have hhead : (({} : BufHelper).write (headerOfFiles entries).bytes).buf
      = (headerOfFiles entries).bytes := BufHelper.buf_write_end _ _ rfl
  obtain ⟨hle, hfront⟩ := writeFiles_keeps entries hspread
    (({} : BufHelper).write (headerOfFiles entries).bytes)
  rw [hhead, romfs_header.length_bytes] at hle
  have hheader : slice (dataWritten entries).buf 0 80 = (headerOfFiles entries).bytes := by
    rw [dataWritten, placedFiles, hfront 0 80 (by rw [hhead]; simp) (by omega), hhead]
    exact slice_all (romfs_header.length_bytes _).le
  refine ⟨?_, hx, hy, hz, hkeep⟩
  rw [hkeep 0 80 hle (by omega), hheader]

/-- What the data takes, each file up to a multiple of sixteen bytes. -/
def dataRoom (entries : FileEntries) : ℕ := (entries.map fun e => align e.data.length 0x10).sum

/-- The first loop leaves no more room between the files. -/
theorem romfsPlace_le {files : List RomfsFileCtx} {entries : FileEntries} {size blocks : ℕ}
    (hsize : size ≤ blocks * 0x10) (base : ℕ) :
    (romfsPlace files entries size base).2 ≤
      blocks * 0x10 + (files.map fun c => align c.size 0x10).sum := by
  induction files generalizing entries size blocks base with
  | nil =>
    rw [romfsPlace]
    · exact hsize
    · rintro _ _ _ _ ⟨⟩
  | cons c cs ih =>
    rcases entries with _ | ⟨e, es⟩
    · rw [romfsPlace]
      · exact hsize.trans (Nat.le_add_right _ _)
      · rintro _ _ _ _ _ ⟨⟩
    · have hstart : align size 0x10 ≤ blocks * 0x10 := by
        unfold align
        omega
      have hend := le_align c.size (by decide : 0 < 0x10)
      have hblocks : align c.size 0x10 = (c.size + 15) / 0x10 * 0x10 := rfl
      have hnext : align size 0x10 + c.size ≤ (blocks + (c.size + 15) / 0x10) * 0x10 := by
        rw [Nat.add_mul]
        omega
      have htail : (romfsPlace cs es (align size 0x10 + c.size) (base + fileEntrySize e)).2 ≤ _ :=
        ih hnext (base + fileEntrySize e)
      rw [List.map_cons, List.sum_cons]
      rw [Nat.add_mul] at htail
      show (romfsPlace cs es (align size 0x10 + c.size) (base + fileEntrySize e)).2 ≤ _
      omega

theorem partitionSize_le_dataRoom (entries : FileEntries) :
    partitionSize entries ≤ dataRoom entries := by
  have hplaced : partitionSize entries ≤
      0 * 0x10 + ((romfsVisitDir entries).1.map fun c => align c.size 0x10).sum :=
    romfsPlace_le (Nat.le_refl 0) 0
  have hsizes : ((romfsVisitDir entries).1.map fun c => align c.size 0x10).sum =
      (((romfsVisitDir entries).1.map RomfsFileCtx.size).map fun n => align n 0x10).sum := by
    rw [List.map_map]
    rfl
  -- the contexts are in another order, which makes no difference to a sum
  have hroom : (((romfsVisitDir entries).1.map RomfsFileCtx.size).map fun n => align n 0x10).sum =
      dataRoom entries := by
    rcases entries with _ | ⟨e, es⟩
    · rfl
    · rw [romfsVisitDir_sizes, dataRoom, List.map_cons, List.map_cons, List.map_reverse,
        List.sum_cons, List.sum_cons, List.sum_reverse, List.map_map]
      rfl
  omega

/-- The tables begin no later than behind that room. -/
theorem tablesStart_le (entries : FileEntries) :
    tablesStart entries ≤ dataRoom entries + 0x200 := by
  have hle := partitionSize_le_dataRoom entries
  have hofs : ROMFS_FILEPARTITION_OFS = 0x200 := rfl
  obtain ⟨n, hn⟩ : 0x10 ∣ dataRoom entries := by
    apply List.dvd_sum
    intro x hx
    obtain ⟨e, -, rfl⟩ := List.mem_map.mp hx
    exact Nat.dvd_mul_left _ _
  unfold tablesStart align
  omega

/-- The sizes fit the integers they are kept in: 32 bits for the file table, and 64 for the data and
the tables together. -/
structure Fits (entries : FileEntries) : Prop where
  table : (entries.map fileEntrySize).sum < 2 ^ 32
  image : dataRoom entries + 0x200 + 36 + 4 * romfsGetHashTableCount entries.length +
    (entries.map fileEntrySize).sum < 2 ^ 64

instance (entries : FileEntries) : Decidable (Fits entries) :=
  decidable_of_iff ((entries.map fileEntrySize).sum < 2 ^ 32 ∧
      dataRoom entries + 0x200 + 36 + 4 * romfsGetHashTableCount entries.length +
        (entries.map fileEntrySize).sum < 2 ^ 64)
    ⟨fun h => ⟨h.1, h.2⟩, fun h => ⟨h.table, h.image⟩⟩

theorem tablesOf_built {entries : FileEntries} (hfits : Fits entries) :
    tablesOf (buildRomfsIntoFile entries {}).buf =
      { dirHashTableOff := tablesStart entries
        dirTable := rootDirBytes (firstOffset (placedFiles entries)) ROMFS_ENTRY_EMPTY
        fileHashTable := (fileTables entries).2.flatMap (le 4)
        fileTable := (fileTables entries).1
        fileDataOff := 0x200 } := by
  have hb := imageParts entries
  have hstart := tablesStart_le entries
  have himage := hfits.image
  have htable := hfits.table
  have hfield : ∀ (i n : ℕ), 8 * i + 8 ≤ 80 → ([(headerOfFiles entries).headerSize,
      (headerOfFiles entries).dirHashTableOff, (headerOfFiles entries).dirHashTableSize,
      (headerOfFiles entries).dirTableOff, (headerOfFiles entries).dirTableSize,
      (headerOfFiles entries).fileHashTableOff, (headerOfFiles entries).fileHashTableSize,
      (headerOfFiles entries).fileTableOff, (headerOfFiles entries).fileTableSize,
      (headerOfFiles entries).fileDataOff][i]? = some n) → n < 2 ^ 64 →
        u64At (buildRomfsIntoFile entries {}).buf (8 * i) = n := by
    intro i n hi hget hn
    rw [← (headerOfFiles entries).field hget hn, ← hb.header, slice_slice _ hi, Nat.zero_add]
    rfl
  have f1 := hfield 1 (tablesStart entries) (by omega) rfl (by omega)
  have f3 := hfield 3 (tablesStart entries + 12) (by omega) rfl (by omega)
  have f4 := hfield 4 24 (by omega) rfl (by omega)
  have f5 := hfield 5 (tablesStart entries + 36) (by omega) rfl (by omega)
  have f6 := hfield 6 (4 * romfsGetHashTableCount entries.length) (by omega) rfl (by omega)
  have f7 := hfield 7 (tablesStart entries + 36 + 4 * romfsGetHashTableCount entries.length)
    (by omega) rfl (by omega)
  have f8 := hfield 8 (entries.map fileEntrySize).sum (by omega) rfl (by omega)
  have f9 := hfield 9 0x200 (by omega) rfl (by omega)
  unfold tablesOf
  rw [f1, f3, f4, f5, f6, f7, f8, f9, hb.dirTable, hb.fileHashTable, hb.fileTable]

theorem le_nextHashTableCount (n : ℕ) : n ≤ nextHashTableCount n := by
  fun_induction nextHashTableCount n with
  | case1 n _ => exact le_refl n
  | case2 n _ _ ih => omega
  | case3 n _ _ => exact le_refl n

theorem romfsGetHashTableCount_pos (n : ℕ) : 0 < romfsGetHashTableCount n := by
  unfold romfsGetHashTableCount
  split_ifs with h h'
  · decide
  · exact lt_of_lt_of_le (by omega) (Nat.left_le_or (n := n) (m := 1))
  · exact lt_of_lt_of_le (by omega) (le_nextHashTableCount n)

/-- The contexts with their files. -/
def rowsOf (entries : FileEntries) : List Row := (placedFiles entries).zip entries

theorem rowsOf_snd (entries : FileEntries) : (rowsOf entries).map Prod.snd = entries :=
  List.map_snd_zip (length_placedFiles entries).ge

theorem rowsOf_fst (entries : FileEntries) : (rowsOf entries).map Prod.fst = placedFiles entries :=
  List.map_fst_zip (length_placedFiles entries).le

theorem tableReads_built {entries : FileEntries} (hfits : Fits entries) :
    TableReads (fileTables entries).1 (placedFiles entries) entries
      (romfsGetHashTableCount entries.length)
      (List.replicate (romfsGetHashTableCount entries.length) ROMFS_ENTRY_EMPTY)
      (fileTables entries).2 := by
  obtain ⟨hlaid, -, hspread⟩ := romfsPlace_spec (length_romfsVisitDir entries) 0 0
  have htable := hfits.table
  have himage := hfits.image
  have hroom := partitionSize_le_dataRoom entries
  refine romfsFileTable_reads (romfsGetHashTableCount_pos _) hlaid ?_ (by omega)
    List.length_replicate ?_ List.drop_zero
  · intro row hrow
    obtain ⟨hlow, hhigh⟩ := hspread.mem (List.of_mem_zip hrow).1
    have hhigh' : row.1.offset + row.1.size ≤ partitionSize entries := hhigh
    have hentry : fileEntrySize row.2 ≤ (entries.map fileEntrySize).sum :=
      List.le_sum_of_mem (List.mem_map_of_mem (List.of_mem_zip hrow).2)
    have hname := le_align (row.2.name.length - 1) (by decide : 0 < 4)
    have hsize : fileEntrySize row.2 = 32 + align (row.2.name.length - 1) 4 := rfl
    exact ⟨by omega, by omega, by omega⟩
  · intro x hx
    rw [List.eq_of_mem_replicate hx]
    decide

/-! ## Lookups -/

/-- The names of the files: a slash in front, and no two alike. -/
structure Named (entries : FileEntries) : Prop where
  slash : ∀ e ∈ entries, e.name.head? = some '/'.toNat.toUInt8
  nodup : (entries.map FileEntry.name).Nodup

theorem Named.name_eq {entries : FileEntries} (h : Named entries) {e e' : FileEntry}
    (he : e ∈ entries) (he' : e' ∈ entries) : e.name.drop 1 = e'.name.drop 1 ↔ e.name = e'.name := by
  constructor
  · intro hdrop
    rw [← List.cons_head?_tail (h.slash e he), ← List.cons_head?_tail (h.slash e' he'),
      ← List.drop_one, ← List.drop_one, hdrop]
  · intro hname
    rw [hname]

/-- Among rows of different names one has a given name. -/
theorem filter_name {rows : List Row} (hnodup : (rows.map fun row => row.2.name).Nodup) {row : Row}
    (hrow : row ∈ rows) : (rows.filter fun x => x.2.name = row.2.name) = [row] := by
  induction rows with
  | nil => cases hrow
  | cons x rows ih =>
    rw [List.map_cons, List.nodup_cons] at hnodup
    obtain ⟨hx, hrest⟩ := hnodup
    rw [List.filter_cons]
    rcases List.mem_cons.mp hrow with rfl | hmem
    · have hnone : (rows.filter fun x => x.2.name = row.2.name) = [] := by
        rw [List.filter_eq_nil_iff]
        intro y hy hname
        exact hx (List.mem_map.mpr ⟨y, hy, of_decide_eq_true hname⟩)
      rw [if_pos (decide_eq_true rfl), hnone]
    · have hne : ¬ x.2.name = row.2.name := by
        intro heq
        exact hx (List.mem_map.mpr ⟨row, hmem, heq.symm⟩)
      rw [if_neg (by simpa using hne), ih hrest hmem]

/-- `childFile` is read back. -/
theorem u32At_rootDirBytes {childFile nextHash : ℕ} (h : childFile < 2 ^ 32) :
    u32At (rootDirBytes childFile nextHash) 12 = childFile := by
  have hslice : slice (rootDirBytes childFile nextHash) 12 4 = le 4 childFile := by
    simp [rootDirBytes, slice, List.drop_append, List.drop_eq_nil_of_le]
  rw [u32At, hslice]
  exact ofLe_le_of_lt h

/-- The data ranges of the contexts stand in the partition, in their order. -/
theorem rowsOf_spread (entries : FileEntries) :
    (∀ row ∈ rowsOf entries, row.1.offset + row.1.size ≤ partitionSize entries) ∧
      (rowsOf entries).Pairwise fun r s => r.1.offset + r.1.size ≤ s.1.offset := by
  have hspread : Spread 0 (placedFiles entries) (partitionSize entries) :=
    (romfsPlace_spec (length_romfsVisitDir entries) 0 0).2.2
  refine ⟨fun row hrow => (hspread.mem (List.of_mem_zip hrow).1).2, ?_⟩
  have h := hspread.pairwise
  rw [← rowsOf_fst entries, List.pairwise_map] at h
  exact h

theorem partitionSize_le (entries : FileEntries) :
    partitionSize entries + 0x200 ≤ tablesStart entries := by
  have h := le_align (partitionSize entries + ROMFS_FILEPARTITION_OFS) (by decide : 0 < 4)
  have hofs : ROMFS_FILEPARTITION_OFS = 0x200 := rfl
  unfold tablesStart
  omega

section Image

variable {entries : FileEntries} (hfits : Fits entries) (hnamed : Named entries)
include hfits

/-- The entry of a row holds its name, its place and its size. -/
theorem row_reads {row : Row} (hrow : row ∈ rowsOf entries) :
    nameAt (fileTables entries).1 row.1.entry_offset = row.2.name.drop 1 ∧
      dataOffAt (fileTables entries).1 row.1.entry_offset = row.1.offset ∧
      dataSizeAt (fileTables entries).1 row.1.entry_offset = row.1.size := by
  obtain ⟨_, _, hr⟩ := (tableReads_built hfits).rows row hrow
  exact ⟨hr.name, hr.dataOff, hr.dataSize⟩

/-- The chain of a bucket, from its place in the hash table. -/
theorem bucket_chain (name : Bytes) :
    Follows (nextHashAt (tablesOf (buildRomfsIntoFile entries {}).buf).fileTable)
      ((tablesOf (buildRomfsIntoFile entries {}).buf).firstInBucket name)
      (inBucket (romfsGetHashTableCount entries.length)
        (bucketOf (romfsGetHashTableCount entries.length) name) (rowsOf entries)) := by
  have hreads := tableReads_built hfits
  have hpos := romfsGetHashTableCount_pos entries.length
  have hb : bucketOf (romfsGetHashTableCount entries.length) name
      < romfsGetHashTableCount entries.length := Nat.mod_lt _ hpos
  have hchain := hreads.buckets (fun _ => []) (by
    intro b hb
    rw [List.getD_eq_getElem _ _ (by rw [List.length_replicate]; exact hb),
      List.getElem_replicate]
    exact .nil) _ hb
  rw [List.append_nil] at hchain
  rw [tablesOf_built hfits]
  unfold Tables.firstInBucket
  dsimp only
  have hlt : bucketOf (romfsGetHashTableCount entries.length) name < (fileTables entries).2.length :=
    hb.trans_eq hreads.length.symm
  rw [length_flatMap_le, hreads.length, Nat.mul_div_cancel_left _ (by decide : 0 < 4), u32At,
    slice_flatMap_le 4 _ _ hlt, ofLe_le_of_lt (hreads.small _ (List.getElem_mem hlt)),
    ← List.getD_eq_getElem _ ROMFS_ENTRY_EMPTY hlt]
  exact hchain

include hnamed

/-- In the bucket of a name one entry has it. -/
theorem bucket_filter {row : Row} (hrow : row ∈ rowsOf entries) :
    (inBucket (romfsGetHashTableCount entries.length)
        (bucketOf (romfsGetHashTableCount entries.length) row.2.name) (rowsOf entries)).filter
      (fun x => nameAt (fileTables entries).1 x = row.2.name.drop 1) = [row.1.entry_offset] := by
  have hmem : ∀ x ∈ rowsOf entries, x.2 ∈ entries := fun x hx => (List.of_mem_zip hx).2
  have hnodup : ((rowsOf entries).map fun x => x.2.name).Nodup := by
    have h := hnamed.nodup
    rw [← rowsOf_snd entries, List.map_map] at h
    exact h
  have hsame : ((rowsOf entries).filter fun x => bucketOf (romfsGetHashTableCount entries.length)
        x.2.name = bucketOf (romfsGetHashTableCount entries.length) row.2.name).filter
      (fun x => nameAt (fileTables entries).1 x.1.entry_offset = row.2.name.drop 1) = [row] := by
    rw [← filter_name hnodup hrow, List.filter_filter]
    apply List.filter_congr
    intro x hx
    rw [(row_reads hfits hx).1, Bool.eq_iff_iff, Bool.and_eq_true, decide_eq_true_eq,
      decide_eq_true_eq, decide_eq_true_eq, hnamed.name_eq (hmem x hx) (hmem row hrow)]
    constructor
    · exact And.left
    · intro h
      exact ⟨h, by rw [h]⟩
  rw [inBucket, List.filter_reverse, List.filter_map]
  show (List.map _ ((List.filter _ (rowsOf entries)).filter
    (fun x => nameAt (fileTables entries).1 x.1.entry_offset = row.2.name.drop 1))).reverse = _
  rw [hsame]
  rfl

/-- What looking up a file says of its size. -/
theorem Agrees.size {row : Row} (h : Agrees (buildRomfsIntoFile entries {}).buf entries)
    (hrow : row ∈ rowsOf entries) : row.1.size = row.2.data.length := by
  obtain ⟨offs, o, hchain, hfilter, hsize, -⟩ := h.lookup row.2 (List.of_mem_zip hrow).2
  rw [hchain.unique (bucket_chain hfits row.2.name)] at hfilter
  rw [tablesOf_built hfits] at hfilter hsize
  rw [bucket_filter hfits hnamed hrow] at hfilter
  obtain rfl : row.1.entry_offset = o := by simpa using hfilter
  rw [← hsize]
  exact (row_reads hfits hrow).2.2.symm

omit hnamed hfits in
/-- Where the sizes are those of the files, each range of the image holds its file. -/
theorem slice_row (hsizes : ∀ row ∈ rowsOf entries, row.1.size = row.2.data.length) {row : Row}
    (hrow : row ∈ rowsOf entries) :
    slice (buildRomfsIntoFile entries {}).buf (0x200 + row.1.offset) row.2.data.length
      = row.2.data := by
  have hspread : Spread 0 (placedFiles entries) (partitionSize entries) :=
    (romfsPlace_spec (length_romfsVisitDir entries) 0 0).2.2
  obtain ⟨hlen, hdata⟩ := writeFiles_data hspread
    (({} : BufHelper).write (headerOfFiles entries).bytes) hsizes row hrow
  rw [← dataWritten] at hlen hdata
  have hend := (rowsOf_spread entries).1 row hrow
  have hsize := hsizes row hrow
  have hstart := partitionSize_le entries
  rw [(imageParts entries).data _ _ (by omega) (by omega)]
  exact hdata

omit hnamed in
/-- The walk from the root leads through the entries in the order of the files. -/
theorem walk_rows :
    Follows (siblingAt (tablesOf (buildRomfsIntoFile entries {}).buf).fileTable)
      (tablesOf (buildRomfsIntoFile entries {}).buf).childFile
      ((rowsOf entries).map fun row => row.1.entry_offset) := by
  have hlaid : Laid 0 (placedFiles entries) entries :=
    (romfsPlace_spec (length_romfsVisitDir entries) 0 0).1
  have hsum : 0 + (entries.map fileEntrySize).sum < 2 ^ 32 := by
    rw [Nat.zero_add]
    exact hfits.table
  have hoffs : ((rowsOf entries).map fun row => row.1.entry_offset)
      = (placedFiles entries).map RomfsFileCtx.entry_offset := by
    rw [← rowsOf_fst entries, List.map_map]
    rfl
  rw [tablesOf_built hfits, Tables.childFile]
  dsimp only
  rw [u32At_rootDirBytes (hlaid.firstOffset_lt hsum), hoffs]
  exact (tableReads_built hfits).siblings

omit hnamed in
/-- The entries have the names of the files. -/
theorem names_rows : ((rowsOf entries).map fun row => row.1.entry_offset).map
    (nameAt (fileTables entries).1) = entries.map fun e => e.name.drop 1 := by
  have hsnd : (entries.map fun e => e.name.drop 1)
      = (rowsOf entries).map fun row => row.2.name.drop 1 := by
    conv_lhs => rw [← rowsOf_snd entries, List.map_map]
    rfl
  rw [hsnd, List.map_map]
  exact List.map_congr_left fun row hrow => (row_reads hfits hrow).1

/-- Where the sizes are those of the files, the image agrees with them. -/
theorem agrees_of_sizes (hsizes : ∀ row ∈ rowsOf entries, row.1.size = row.2.data.length) :
    Agrees (buildRomfsIntoFile entries {}).buf entries := by
  obtain ⟨hplace, hpairs⟩ := rowsOf_spread entries
  have hstart := partitionSize_le entries
  constructor
  · intro e he
    rw [← rowsOf_snd entries] at he
    obtain ⟨row, hrow, rfl⟩ := List.mem_map.mp he
    obtain ⟨-, hoff, hsize⟩ := row_reads hfits hrow
    refine ⟨_, row.1.entry_offset, bucket_chain hfits row.2.name, ?_, ?_, ?_⟩
    · rw [tablesOf_built hfits]
      exact bucket_filter hfits hnamed hrow
    · rw [tablesOf_built hfits]
      exact hsize.trans (hsizes row hrow)
    · rw [tablesOf_built hfits]
      dsimp only
      rw [hoff]
      exact slice_row hsizes hrow
  · refine ⟨_, walk_rows hfits, ?_, ?_, ?_⟩
    · rw [tablesOf_built hfits]
      dsimp only
      rw [names_rows hfits]
    · rw [tablesOf_built hfits]
      dsimp only
      intro o ho
      obtain ⟨row, hrow, rfl⟩ := List.mem_map.mp ho
      obtain ⟨-, hoff, hsize⟩ := row_reads hfits hrow
      have hend := hplace row hrow
      rw [hoff, hsize]
      omega
    · rw [tablesOf_built hfits]
      dsimp only
      rw [List.pairwise_map]
      refine hpairs.imp_of_mem ?_
      intro r s hr hs hrs
      obtain ⟨-, hro, hrz⟩ := row_reads hfits hr
      obtain ⟨-, hso, -⟩ := row_reads hfits hs
      unfold Apart
      rw [hro, hrz, hso]
      exact .inl hrs

end Image

/-- The sizes from the second file on read the same backwards. -/
def Mirrored (entries : FileEntries) : Prop :=
  ((entries.drop 1).map fun e => e.data.length).reverse =
    (entries.drop 1).map fun e => e.data.length

theorem zip_sizes_iff {files : List RomfsFileCtx} {entries : FileEntries}
    (hlen : files.length = entries.length) :
    (∀ row ∈ files.zip entries, row.1.size = row.2.data.length) ↔
      files.map RomfsFileCtx.size = entries.map fun e => e.data.length := by
  induction files generalizing entries with
  | nil =>
    rcases entries with _ | ⟨e, es⟩
    · simp
    · cases hlen
  | cons c cs ih =>
    rcases entries with _ | ⟨e, es⟩
    · cases hlen
    · rw [List.zip_cons_cons, List.forall_mem_cons, ih (Nat.succ.inj hlen), List.map_cons,
        List.map_cons, List.cons.injEq]

/-- The contexts have the sizes of the files they are written with. -/
theorem sizes_iff_mirrored (entries : FileEntries) :
    (∀ row ∈ rowsOf entries, row.1.size = row.2.data.length) ↔ Mirrored entries := by
  have hsizes := (romfsPlace_spec (length_romfsVisitDir entries) 0 0).2.1
  rw [rowsOf, zip_sizes_iff (length_placedFiles entries), placedFiles, hsizes]
  rcases entries with _ | ⟨e, es⟩
  · exact ⟨fun _ => rfl, fun _ => rfl⟩
  · rw [romfsVisitDir_sizes, List.map_cons, List.cons.injEq]
    exact ⟨And.right, fun h => ⟨rfl, h⟩⟩

/-- The image the builder emits. Where the sizes do not fit their integers the builder writes behind
the table it has allocated, or its offsets wrap, and there is no image. -/
def emitted (entries : FileEntries) : Option Bytes :=
  if Fits entries then some (buildRomfsIntoFile entries {}).buf else none

/-- An image that is emitted is right when the sizes are. -/
theorem emitted_agrees_iff {entries : FileEntries} (hfits : Fits entries) (hnamed : Named entries) :
    Agrees (buildRomfsIntoFile entries {}).buf entries ↔ Mirrored entries := by
  rw [← sizes_iff_mirrored]
  exact ⟨fun h _ hrow => h.size hfits hnamed hrow, agrees_of_sizes hfits hnamed⟩

/-- **When the image agrees with its files.** For files of different names behind a slash, looking
up and walking find them with their data exactly when the sizes fit and those from the second file
on read the same backwards. -/
theorem romfs_agrees_iff {entries : FileEntries} (hnamed : Named entries) :
    (∃ image, emitted entries = some image ∧ Agrees image entries) ↔
      Fits entries ∧ Mirrored entries := by
  unfold emitted
  constructor
  · rintro ⟨image, himage, hagrees⟩
    split_ifs at himage with hfits
    obtain rfl := Option.some.inj himage
    exact ⟨hfits, (emitted_agrees_iff hfits hnamed).mp hagrees⟩
  · rintro ⟨hfits, hmirrored⟩
    exact ⟨_, if_pos hfits, (emitted_agrees_iff hfits hnamed).mpr hmirrored⟩

/-- Two files, as the installer builds them. -/
def twoFiles : FileEntries := [⟨ascii "/nextArgv", [1]⟩, ⟨ascii "/nextNroPath", [2, 3]⟩]

/-- Three files of which the last one has data. -/
def threeFiles : FileEntries := [⟨ascii "/a", []⟩, ⟨ascii "/b", []⟩, ⟨ascii "/c", [1]⟩]

theorem romfs_agrees_iff_two :
    ∃ image, emitted twoFiles = some image ∧ Agrees image twoFiles := by
  have hnamed : Named twoFiles := ⟨by decide, by decide⟩
  have hfits : Fits twoFiles := ⟨by decide, by decide⟩
  exact (romfs_agrees_iff hnamed).mpr ⟨hfits, rfl⟩

/-- The second of three files is found with the size of the third. -/
theorem three_files_disagree :
    Named threeFiles ∧ threeFiles ≠ [] ∧ (emitted threeFiles).isSome ∧
      ¬ ∃ image, emitted threeFiles = some image ∧ Agrees image threeFiles := by
  have hnamed : Named threeFiles := ⟨by decide, by decide⟩
  have hfits : Fits threeFiles := ⟨by decide, by decide⟩
  have hemitted : emitted threeFiles = some (buildRomfsIntoFile threeFiles {}).buf := if_pos hfits
  refine ⟨hnamed, by decide, by rw [hemitted]; rfl, ?_⟩
  rintro ⟨image, himage, hagrees⟩
  rw [hemitted] at himage
  obtain rfl := Option.some.inj himage
  have hmirrored := (emitted_agrees_iff hfits hnamed).mp hagrees
  revert hmirrored
  unfold Mirrored
  decide

end Forwarder
