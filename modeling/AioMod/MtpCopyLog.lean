/-
# The copy log of the MTP mount

The files of `FsTrackedProxy` count their bytes for themselves; the log has one global record of a
copy, which is created by the first write and found again by its number.  While no copy begins in
another one, every file is written before it is closed and stays in its announced size, the log says
of each file what became of it.
-/
import AioMod.ActivityLog

namespace MtpCopyLog

open ActivityLog (Entry)

/-! ## The code -/

/-- The texts of the log: the translations, and what `AddResult` and `formatSizeNetwork` print. -/
structure Texts where
  get : String → String → String
  code : ℕ → String
  resultExplanation : ℕ → String
  formatSizeNetwork : ℕ → String

/-- `FsTrackedProxy::File`, less the inner file. -/
structure File where
  path : String
  total : ℕ
  copied : ℕ
  copy_id : ℕ
  failure : ℕ
  writing : Bool

/-- `CopyStatus`, less the speed. -/
structure CopyStatus where
  active : Bool
  path : String
  id : ℕ
  copied : ℕ
  total : ℕ
  deriving DecidableEq

/-- The open files by their handles, `g_copy`, `g_next_copy_id` and the lines added to the log. -/
structure World where
  files : ℕ → Option File
  g_copy : CopyStatus
  g_next_copy_id : ℕ
  log : List Entry

/-- The world when the program starts. -/
def init : World := ⟨fun _ => none, ⟨false, "", 0, 0, 0⟩, 0, []⟩

/-- The file of the handle `h` becomes `f`. -/
def World.put (w : World) (h : ℕ) (f : Option File) : World :=
  { w with files := Function.update w.files h f }

/-- `activity_log::AddResult`; the lines it adds. -/
def AddResult (t : Texts) (result : ℕ) (tone : ActivityLog.Tone) : List Entry :=
  [⟨"[CODE]", t.code result, tone⟩,
    ⟨if result = 0 then "[RESULT]" else "[CAUSE]", t.resultExplanation result, tone⟩]

/-- `activity_log::BeginCopy` -/
def BeginCopy (t : Texts) (path : String) (total : ℕ) (w : World) : ℕ × World :=
  let id := (w.g_next_copy_id + 1) % 2 ^ 64
  (id, { w with
    g_next_copy_id := id
    g_copy := ⟨true, path, id, 0, total⟩
    log := w.log ++
      [⟨"[COPY]", t.get "aio_mtp_copying" "Copying to microSD" ++ ": " ++ path, .Normal⟩] })

/-- `activity_log::UpdateCopy` -/
def UpdateCopy (id copied total : ℕ) (w : World) : World :=
  if w.g_copy.active = false ∨ w.g_copy.id ≠ id then w
  else
    { w with
      g_copy := { w.g_copy with
        copied := max w.g_copy.copied copied
        total := max w.g_copy.total total } }

/-- The line that says that a copy is complete. -/
def okEntry (t : Texts) (path : String) : Entry :=
  ⟨"[COPY OK]", t.get "aio_mtp_copy_done" "Copy completed" ++ ": " ++ path, .Success⟩

/-- The line that says that it is not. -/
def errorEntry (t : Texts) (path : String) : Entry :=
  ⟨"[COPY ERROR]", t.get "aio_mtp_copy_incomplete" "Copy incomplete" ++ ": " ++ path, .Error⟩

/-- `activity_log::FinishCopy` -/
def FinishCopy (t : Texts) (id : ℕ) (complete : Bool) (result : ℕ) (w : World) : World :=
  if w.g_copy.id ≠ id then w
  else
    { w with
      g_copy := { w.g_copy with active := false }
      log := w.log ++
        if complete = true ∧ result = 0 then
          [okEntry t w.g_copy.path, ⟨"[DATA]", t.formatSizeNetwork w.g_copy.copied, .Muted⟩]
        else
          errorEntry t w.g_copy.path :: if result ≠ 0 then AddResult t result .Error else [] }

/-- `haze::FileOpenMode` -/
inductive FileOpenMode where
  | READ | WRITE
  deriving DecidableEq

/-- `FsTrackedProxy::OpenFile`; `result` is the answer of the inner proxy. -/
def OpenFile (h : ℕ) (path : String) (mode : FileOpenMode) (result : ℕ) (w : World) : World :=
  if result ≠ 0 then w else w.put h (some ⟨path, 0, 0, 0, 0, decide (mode = .WRITE)⟩)

/-- `FsTrackedProxy::SetFileSize` -/
def SetFileSize (h : ℕ) (size : ℤ) (result : ℕ) (w : World) : World :=
  match w.files h with
  | none => w
  | some f =>
    if result = 0 ∧ f.writing = true ∧ size ≥ 0 then
      w.put h (some { f with
        total := if f.copy_id ≠ 0 then max f.total size.toNat else size.toNat })
    else w

/-- `FsTrackedProxy::WriteFile`; the sums are of `u64`. -/
def WriteFile (t : Texts) (h : ℕ) (off : ℤ) (write_size result : ℕ) (w : World) : World :=
  match w.files h with
  | none => w
  | some f =>
    let (copy_id, w) :=
      if f.copy_id = 0 then BeginCopy t f.path f.total w else (f.copy_id, w)
    let f := { f with copy_id := copy_id }
    if result ≠ 0 then w.put h (some { f with failure := result })
    else
      let stop := if off ≥ 0 then (off.toNat + write_size) % 2 ^ 64
        else (f.copied + write_size) % 2 ^ 64
      let f := { f with copied := max f.copied stop }
      UpdateCopy f.copy_id f.copied f.total (w.put h (some f))

/-- `FsTrackedProxy::CloseFile` -/
def CloseFile (t : Texts) (h : ℕ) (w : World) : World :=
  match w.files h with
  | none => w
  | some f =>
    let w :=
      if f.copy_id ≠ 0 then
        let complete := decide (f.failure = 0) && decide (f.total = 0 ∨ f.copied ≥ f.total)
        FinishCopy t f.copy_id complete f.failure w
      else w
    w.put h none

/-- `activity_log::GetCopyStatus` -/
def GetCopyStatus (w : World) : CopyStatus := w.g_copy

/-- A call of the proxy, with the answer of the inner one. -/
inductive Op where
  | OpenFile (h : ℕ) (path : String) (mode : FileOpenMode) (result : ℕ)
  | SetFileSize (h : ℕ) (size : ℤ) (result : ℕ)
  | WriteFile (h : ℕ) (off : ℤ) (write_size result : ℕ)
  | CloseFile (h : ℕ)

/-- What a call leaves. -/
def step (t : Texts) (w : World) : Op → World
  | .OpenFile h path mode result => OpenFile h path mode result w
  | .SetFileSize h size result => SetFileSize h size result w
  | .WriteFile h off write_size result => WriteFile t h off write_size result w
  | .CloseFile h => CloseFile t h w

/-- The world after some calls. -/
def run (t : Texts) (ops : List Op) : World := ops.foldl (step t) init

/-! ## Transfers -/

/-- How far the calls for a file have come. -/
inductive Phase where
  | opened | announced | truncated
  deriving DecidableEq

/-- What becomes of a file: its announced size, the bytes written from the front, whether a write
failed and whether there was one. -/
structure Transfer where
  path : String
  announced : ℕ
  received : ℕ
  failed : Bool
  wrote : Bool
  phase : Phase

/-- All announced bytes were written and no write failed. -/
def Transfer.complete (tr : Transfer) : Bool := !tr.failed && decide (tr.announced ≤ tr.received)

/-- The transfers under way, those closed, and how many were begun by a write. -/
structure Transfers where
  current : ℕ → Option Transfer
  closed : List Transfer
  begun : ℕ

/-- No transfer. -/
def Transfers.none : Transfers := ⟨fun _ => Option.none, [], 0⟩

/-- The transfer of the handle `h` becomes `tr`. -/
def Transfers.put (a : Transfers) (h : ℕ) (tr : Option Transfer) : Transfers :=
  { a with current := Function.update a.current h tr }

/-- A transfer that is written to. -/
def Transfer.write (tr : Transfer) (write_size result : ℕ) : Transfer :=
  { tr with
    wrote := true
    failed := tr.failed || decide (result ≠ 0)
    received := if tr.failed = false ∧ result = 0 then tr.received + write_size else tr.received }

/-- A file is opened for writing, is given its size (an `s64`), is written front to back (after a
failed write anywhere), may be truncated, and is closed. -/
def follow (a : Transfers) : Op → Option Transfers
  | .OpenFile h path mode result =>
    if (a.current h).isNone ∧ mode = .WRITE then
      some (if result = 0 then a.put h (some ⟨path, 0, 0, false, false, .opened⟩) else a)
    else .none
  | .SetFileSize h size result =>
    match a.current h with
    | .none => .none
    | some tr =>
      match tr.phase with
      | .opened =>
        if 0 ≤ size ∧ size < 2 ^ 63 ∧ result = 0 then
          some (a.put h (some { tr with announced := size.toNat, phase := .announced }))
        else .none
      | .announced =>
        if 0 ≤ size ∧ size.toNat ≤ max tr.announced tr.received then
          some (a.put h (some { tr with phase := .truncated }))
        else .none
      | .truncated => .none
  | .WriteFile h off write_size result =>
    match a.current h with
    | .none => .none
    | some tr =>
      if tr.phase = .announced ∧ 0 ≤ off ∧ (tr.failed = false → off = tr.received) then
        some { a.put h (some (tr.write write_size result)) with
          begun := if tr.wrote then a.begun else a.begun + 1 }
      else .none
  | .CloseFile h =>
    match a.current h with
    | .none => .none
    | some tr =>
      if tr.phase ≠ .opened then some { a.put h .none with closed := a.closed ++ [tr] } else .none

/-- The calls follow the transfers, and each step meets `meets`. -/
inductive Follows (meets : Transfers → Op → Prop) : List Op → Transfers → Prop where
  | nil : Follows meets [] .none
  | snoc {ops : List Op} {a a' : Transfers} (ih : Follows meets ops a) (op : Op)
    (hmeets : meets a op) (hfollow : follow a op = some a') : Follows meets (ops ++ [op]) a'

/-- No copy begins while another one is under way (nor the last one that a `u64` can number), no
write leaves the announced size, and no file that has one is closed before a write. -/
def Meets (a : Transfers) : Op → Prop
  | .WriteFile h off write_size result =>
    ∀ tr, a.current h = some tr →
      (tr.wrote = false → a.begun + 1 < 2 ^ 64 ∧
        ∀ h' tr', a.current h' = some tr' → tr'.wrote = false) ∧
      (result = 0 → off.toNat + write_size ≤ tr.announced)
  | .CloseFile h =>
    ∀ tr, a.current h = some tr → tr.announced ≠ 0 → tr.wrote = true
  | _ => True

/-- The line that a transfer ends with. -/
def finalEntry (t : Texts) (tr : Transfer) : Entry :=
  if tr.complete then okEntry t tr.path else errorEntry t tr.path

/-- The lines that end a copy. -/
def finals (log : List Entry) : List Entry :=
  log.filter fun e => e.tag = "[COPY OK]" ∨ e.tag = "[COPY ERROR]"

/-- The transfers that end with a line. -/
def told (closed : List Transfer) : List Transfer :=
  closed.filter fun tr => tr.announced ≠ 0 ∨ tr.wrote = true

/-! ## One call -/

/-- The file of a transfer.  A truncation before the first write takes the size away. -/
structure Tracks (f : File) (tr : Transfer) : Prop where
  path : f.path = tr.path
  writing : f.writing = true
  total : tr.wrote = true ∨ tr.phase ≠ .truncated → f.total = tr.announced
  announced_lt : tr.announced < 2 ^ 63
  copied : tr.failed = false → f.copied = tr.received
  copied_le : f.copied ≤ tr.announced
  received_le : tr.received ≤ tr.announced
  failure : f.failure = 0 ↔ tr.failed = false
  begun : f.copy_id = 0 ↔ tr.wrote = false
  unwritten : tr.wrote = false → f.copied = 0 ∧ tr.received = 0
  opened : tr.phase = .opened → tr.wrote = false

/-- The record of the copy of a file. -/
def Shows (c : CopyStatus) (f : File) : Prop :=
  c = ⟨true, f.path, f.copy_id, f.copied, f.total⟩

/-- The world and the transfers agree. -/
structure Told (t : Texts) (w : World) (a : Transfers) : Prop where
  files : ∀ h, Option.Rel Tracks (w.files h) (a.current h)
  shows : ∀ h f, w.files h = some f → f.copy_id ≠ 0 → Shows w.g_copy f
  alone : ∀ h h' f f', w.files h = some f → w.files h' = some f' → f.copy_id ≠ 0 →
    f'.copy_id ≠ 0 → h = h'
  copied_le : w.g_copy.copied ≤ w.g_copy.total
  next : w.g_next_copy_id = a.begun
  next_lt : a.begun < 2 ^ 64
  finals : finals w.log = (told a.closed).map (finalEntry t)

theorem told_init (t : Texts) : Told t init .none where
  files := fun _ => .none
  shows := by
    intro h f hf
    cases hf
  alone := by
    intro h h' f f' hf
    cases hf
  copied_le := le_rfl
  next := rfl
  next_lt := by decide
  finals := rfl

/-- A handle that is changed on both sides. -/
theorem rel_put {w : World} {a : Transfers} (h : ∀ h, Option.Rel Tracks (w.files h) (a.current h))
    (k : ℕ) {f : Option File} {tr : Option Transfer} (hf : Option.Rel Tracks f tr) :
    ∀ h, Option.Rel Tracks ((w.put k f).files h) ((a.put k tr).current h) := by
  intro h'
  unfold World.put Transfers.put
  dsimp only
  by_cases heq : h' = k
  · subst heq
    rw [Function.update_self, Function.update_self]
    exact hf
  · rw [Function.update_of_ne heq, Function.update_of_ne heq]
    exact h h'

theorem files_put (w : World) (k : ℕ) (f : Option File) {h : ℕ} {g : File}
    (hg : (w.put k f).files h = some g) : h = k ∧ f = some g ∨ h ≠ k ∧ w.files h = some g := by
  unfold World.put at hg
  dsimp only at hg
  by_cases heq : h = k
  · subst heq
    rw [Function.update_self] at hg
    exact .inl ⟨rfl, hg⟩
  · rw [Function.update_of_ne heq] at hg
    exact .inr ⟨heq, hg⟩

/-- The two sides of a handle in use. -/
theorem Told.tracks {t : Texts} {w : World} {a : Transfers} (h : Told t w a) {k : ℕ} {tr : Transfer}
    (htr : a.current k = some tr) : ∃ f, w.files k = some f ∧ Tracks f tr := by
  have hrel := h.files k
  rw [htr] at hrel
  generalize w.files k = f at hrel
  cases hrel with
  | some htracks => exact ⟨_, rfl, htracks⟩

/-- A file that has no record, or stays what it is. -/
theorem Told.put {t : Texts} {w : World} {a : Transfers} (h : Told t w a) {k : ℕ} {f : File}
    {tr : Transfer} (htracks : Tracks f tr) (hkeep : f.copy_id ≠ 0 → w.files k = some f) :
    Told t (w.put k (some f)) (a.put k (some tr)) := by
  have hbegun : ∀ k' g, (w.put k (some f)).files k' = some g → g.copy_id ≠ 0 →
      w.files k' = some g := by
    intro k' g hg hid
    rcases files_put w k _ hg with ⟨rfl, hsame⟩ | ⟨-, hother⟩
    · cases hsame
      exact hkeep hid
    · exact hother
  constructor
  · exact rel_put h.files k (.some htracks)
  · intro k' g hg hid
    exact h.shows k' g (hbegun k' g hg hid) hid
  · intro k₁ k₂ g₁ g₂ hg₁ hg₂ hid₁ hid₂
    exact h.alone k₁ k₂ g₁ g₂ (hbegun k₁ g₁ hg₁ hid₁) (hbegun k₂ g₂ hg₂ hid₂) hid₁ hid₂
  · exact h.copied_le
  · exact h.next
  · exact h.next_lt
  · exact h.finals

/-- The only file with a record, together with this record. -/
theorem Told.put_alone {t : Texts} {w : World} {a : Transfers} (h : Told t w a) (k : ℕ) (f : File)
    (tr : Transfer) (c : CopyStatus) (htracks : Tracks f tr) (hshows : Shows c f)
    (hle : f.copied ≤ f.total)
    (hother : ∀ k' g, k' ≠ k → w.files k' = some g → g.copy_id = 0) :
    Told t { w.put k (some f) with g_copy := c } (a.put k (some tr)) := by
  have hbegun : ∀ k' g, (w.put k (some f)).files k' = some g → g.copy_id ≠ 0 →
      k' = k ∧ g = f := by
    intro k' g hg hid
    rcases files_put w k _ hg with ⟨hk, hsame⟩ | ⟨hk, hg'⟩
    · exact ⟨hk, (Option.some.inj hsame).symm⟩
    · exact absurd (hother k' g hk hg') hid
  constructor
  · exact rel_put h.files k (.some htracks)
  · intro k' g hg hid
    obtain ⟨-, rfl⟩ := hbegun k' g hg hid
    exact hshows
  · intro k₁ k₂ g₁ g₂ hg₁ hg₂ hid₁ hid₂
    rw [(hbegun k₁ g₁ hg₁ hid₁).1, (hbegun k₂ g₂ hg₂ hid₂).1]
  · show c.copied ≤ c.total
    rw [hshows]
    exact hle
  · exact h.next
  · exact h.next_lt
  · exact h.finals

theorem put_self {w : World} {k : ℕ} {f : File} (h : w.files k = some f) : w.put k (some f) = w := by
  unfold World.put
  rw [← h, Function.update_eq_self]

/-- The other files have no record. -/
theorem Told.others {t : Texts} {w : World} {a : Transfers} (h : Told t w a) {k : ℕ} {f : File}
    (hf : w.files k = some f) (hid : f.copy_id ≠ 0) (k' : ℕ) (g : File) (hk : k' ≠ k)
    (hg : w.files k' = some g) : g.copy_id = 0 := by
  by_contra hne
  exact hk (h.alone k' k g f hg hf hne hid)

theorem told_open {t : Texts} {w : World} {a a' : Transfers} {k : ℕ} {path : String}
    {mode : FileOpenMode} {result : ℕ} (h : Told t w a)
    (hfollow : follow a (.OpenFile k path mode result) = some a') :
    Told t (OpenFile k path mode result w) a' := by
  unfold follow at hfollow
  dsimp only at hfollow
  split at hfollow
  · rename_i hopen
    obtain ⟨-, rfl⟩ := hopen
    obtain rfl := Option.some.inj hfollow
    unfold OpenFile
    by_cases hresult : result = 0
    · rw [if_neg (not_not_intro hresult), if_pos hresult]
      apply h.put
      · constructor <;> simp
      · intro hid
        exact absurd rfl hid
    · rw [if_pos hresult, if_neg hresult]
      exact h
  · cases hfollow

theorem told_size {t : Texts} {w : World} {a a' : Transfers} {k : ℕ} {size : ℤ} {result : ℕ}
    (h : Told t w a) (hfollow : follow a (.SetFileSize k size result) = some a') :
    Told t (SetFileSize k size result w) a' := by
  unfold follow at hfollow
  dsimp only at hfollow
  split at hfollow
  · cases hfollow
  · rename_i tr htr
    obtain ⟨f, hf, htracks⟩ := h.tracks htr
    unfold SetFileSize
    rw [hf]
    dsimp only
    split at hfollow
    · rename_i hphase
      split at hfollow
      · rename_i hsize
        -- the size is announced before the first write, and nothing is shown yet
        obtain ⟨hsize, hlt, hresult⟩ := hsize
        obtain rfl := Option.some.inj hfollow
        have hwrote := htracks.opened hphase
        have hid := htracks.begun.mpr hwrote
        obtain ⟨hcopied, hreceived⟩ := htracks.unwritten hwrote
        rw [if_pos ⟨hresult, htracks.writing, hsize⟩, if_neg (not_not_intro hid)]
        apply h.put
        · constructor
          · exact htracks.path
          · exact htracks.writing
          · intro _
            rfl
          · show size.toNat < 2 ^ 63
            omega
          · exact htracks.copied
          · show f.copied ≤ _
            rw [hcopied]
            exact Nat.zero_le _
          · show tr.received ≤ _
            rw [hreceived]
            exact Nat.zero_le _
          · exact htracks.failure
          · exact htracks.begun
          · exact htracks.unwritten
          · rintro ⟨⟩
        · intro hne
          exact absurd hid hne
      · cases hfollow
    · rename_i hphase
      split at hfollow
      · rename_i hsize
        -- a later size cuts the file off, and the announced one stays the total
        obtain ⟨hsize, hle⟩ := hsize
        obtain rfl := Option.some.inj hfollow
        have htotal : f.total = tr.announced := htracks.total (.inr (by rw [hphase]; decide))
        have hkept : Tracks f { tr with phase := .truncated } :=
          { htracks with
            total := fun _ => htotal
            opened := by rintro ⟨⟩ }
        have hsame := h.put hkept fun _ => hf
        rw [put_self hf] at hsame
        split
        · by_cases hid : f.copy_id = 0
          · rw [if_neg (not_not_intro hid)]
            have hwrote := htracks.begun.mp hid
            apply h.put
            · exact { hkept with
                total := by
                  rintro (hbegun | htruncated)
                  · rw [hwrote] at hbegun
                    cases hbegun
                  · exact absurd rfl htruncated }
            · intro hne
              exact absurd hid hne
          · have hmax : max f.total size.toNat = f.total := by
              have hreceived := htracks.received_le
              omega
            rw [if_pos hid, hmax, put_self hf]
            exact hsame
        · exact hsame
      · cases hfollow
    · cases hfollow

theorem Tracks.copy_id_ne {f : File} {tr : Transfer} (h : Tracks f tr) (hwrote : tr.wrote = true) :
    f.copy_id ≠ 0 := by
  intro hzero
  have hfalse := h.begun.mp hzero
  rw [hwrote] at hfalse
  cases hfalse

/-- A write to a file that has its record. -/
theorem told_write_begun {t : Texts} {w : World} {a : Transfers} {k : ℕ} {off : ℤ}
    {write_size result : ℕ} {f : File} {tr : Transfer} (h : Told t w a) (hf : w.files k = some f)
    (htracks : Tracks f tr) (hid : f.copy_id ≠ 0) (hphase : tr.phase = .announced) (hoff : 0 ≤ off)
    (hfront : tr.failed = false → off = tr.received)
    (hinside : result = 0 → off.toNat + write_size ≤ tr.announced) :
    Told t (WriteFile t k off write_size result w)
      (a.put k (some (tr.write write_size result))) := by
  have hwrote : tr.wrote = true := by
    rw [← Bool.not_eq_false]
    intro hfalse
    exact hid (htracks.begun.mpr hfalse)
  have htotal : f.total = tr.announced := htracks.total (.inl hwrote)
  have hshows := h.shows k f hf hid
  have hlt := htracks.announced_lt
  have hle := htracks.copied_le
  have hbegun : f.copy_id = 0 ↔ true = false := by
    constructor
    · intro hzero
      exact absurd hzero hid
    · rintro ⟨⟩
  unfold WriteFile
  rw [hf]
  dsimp only
  rw [if_neg hid]
  dsimp only
  -- a write that works moves the record on, one that fails only marks the file
  by_cases hresult : result = 0
  · have hstop : (off.toNat + write_size) % 2 ^ 64 = off.toNat + write_size := by
      apply Nat.mod_eq_of_lt
      have hend := hinside hresult
      omega
    have hend := hinside hresult
    rw [if_neg (not_not_intro hresult), if_pos hoff, hstop]
    have hrecord : UpdateCopy f.copy_id (max f.copied (off.toNat + write_size)) f.total
        (w.put k (some { f with copied := max f.copied (off.toNat + write_size) }))
        = { w.put k (some { f with copied := max f.copied (off.toNat + write_size) }) with
            g_copy := ⟨true, f.path, f.copy_id, max f.copied (off.toNat + write_size), f.total⟩ } := by
      have hcopy : (w.put k (some { f with
          copied := max f.copied (off.toNat + write_size) })).g_copy
          = ⟨true, f.path, f.copy_id, f.copied, f.total⟩ := hshows
      unfold UpdateCopy
      rw [hcopy]
      dsimp only
      rw [if_neg (by simp), Nat.max_self, Nat.max_eq_right (Nat.le_max_left ..)]
    rw [hrecord]
    apply h.put_alone
    · constructor
      · exact htracks.path
      · exact htracks.writing
      · intro _
        exact htotal
      · exact hlt
      · intro hfailed
        have hbefore : tr.failed = false := by
          cases htr : tr.failed
          · rfl
          · exact absurd hfailed (by simp [Transfer.write, htr])
        have hcopied := htracks.copied hbefore
        have hoffset := hfront hbefore
        show max f.copied (off.toNat + write_size)
          = if tr.failed = false ∧ result = 0 then tr.received + write_size else tr.received
        rw [if_pos ⟨hbefore, hresult⟩]
        omega
      · show max f.copied (off.toNat + write_size) ≤ tr.announced
        omega
      · have hreceived := htracks.received_le
        show (if tr.failed = false ∧ result = 0 then tr.received + write_size else tr.received)
          ≤ tr.announced
        split
        · rename_i hgood
          have hoffset := hfront hgood.1
          omega
        · exact hreceived
      · show f.failure = 0 ↔ (tr.failed || decide (result ≠ 0)) = false
        rw [decide_eq_false (not_not_intro hresult), Bool.or_false]
        exact htracks.failure
      · exact hbegun
      · rintro ⟨⟩
      · intro hopened
        exact absurd (hphase.symm.trans hopened) (by decide)
    · rfl
    · show max f.copied (off.toNat + write_size) ≤ f.total
      omega
    · exact h.others hf hid
  · rw [if_pos hresult]
    apply h.put_alone k { f with failure := result } (tr.write write_size result) w.g_copy
    · constructor
      · exact htracks.path
      · exact htracks.writing
      · intro _
        exact htotal
      · exact hlt
      · intro hfailed
        exact absurd hfailed (by simp [Transfer.write, hresult])
      · exact hle
      · show (if tr.failed = false ∧ result = 0 then tr.received + write_size else tr.received)
          ≤ tr.announced
        rw [if_neg fun hgood => hresult hgood.2]
        exact htracks.received_le
      · show result = 0 ↔ (tr.failed || decide (result ≠ 0)) = false
        rw [decide_eq_true hresult, Bool.or_true]
        constructor
        · intro hzero
          exact absurd hzero hresult
        · rintro ⟨⟩
      · exact hbegun
      · rintro ⟨⟩
      · intro hopened
        exact absurd (hphase.symm.trans hopened) (by decide)
    · exact hshows
    · show f.copied ≤ f.total
      omega
    · exact h.others hf hid

/-- The world in which a copy of `f` has begun. -/
def begin (t : Texts) (k : ℕ) (f : File) (w : World) : World :=
  (BeginCopy t f.path f.total w).2.put k
    (some { f with copy_id := (BeginCopy t f.path f.total w).1 })

theorem put_put (w : World) (k : ℕ) (f g : Option File) : (w.put k f).put k g = w.put k g := by
  unfold World.put
  rw [Function.update_idem]

/-- The first write begins a copy and is then like another. -/
theorem WriteFile_first (t : Texts) {w : World} {k : ℕ} {off : ℤ} {write_size result : ℕ} {f : File}
    (hf : w.files k = some f) (hid : f.copy_id = 0) (hnext : (w.g_next_copy_id + 1) % 2 ^ 64 ≠ 0) :
    WriteFile t k off write_size result w
      = WriteFile t k off write_size result (begin t k f w) := by
  have hbegun : (begin t k f w).files k
      = some { f with copy_id := (w.g_next_copy_id + 1) % 2 ^ 64 } := by
    unfold begin World.put
    exact Function.update_self ..
  have hput : ∀ g, (begin t k f w).put k g = (BeginCopy t f.path f.total w).2.put k g := by
    intro g
    unfold begin
    exact put_put _ k _ g
  conv_lhs => unfold WriteFile
  conv_rhs => unfold WriteFile
  rw [hf, hbegun]
  dsimp only
  rw [if_pos hid, if_neg hnext]
  simp only [hput]
  rfl

theorem told_begin {t : Texts} {w : World} {a : Transfers} {k : ℕ} {f : File} {tr : Transfer}
    (h : Told t w a) (htracks : Tracks f tr) (hphase : tr.phase = .announced)
    (hwrote : tr.wrote = false) (hbegun : a.begun + 1 < 2 ^ 64)
    (hother : ∀ k' g, k' ≠ k → w.files k' = some g → g.copy_id = 0) :
    Told t (begin t k f w)
      { a.put k (some { tr with wrote := true }) with begun := a.begun + 1 } := by
  have hid : (w.g_next_copy_id + 1) % 2 ^ 64 = a.begun + 1 := by
    rw [h.next]
    exact Nat.mod_eq_of_lt hbegun
  have hcopied := (htracks.unwritten hwrote).1
  have htracks' : Tracks { f with copy_id := (w.g_next_copy_id + 1) % 2 ^ 64 }
      { tr with wrote := true } :=
    { htracks with
      total := fun _ => htracks.total (.inr (by rw [hphase]; decide))
      begun := by
        show (w.g_next_copy_id + 1) % 2 ^ 64 = 0 ↔ true = false
        rw [hid]
        simp
      unwritten := by rintro ⟨⟩
      opened := by
        intro hopened
        exact absurd (hphase.symm.trans hopened) (by decide) }
  have halone := h.put_alone k _ _
    ⟨true, f.path, (w.g_next_copy_id + 1) % 2 ^ 64, 0, f.total⟩ htracks'
    (by unfold Shows; rw [hcopied]) (by rw [hcopied]; exact Nat.zero_le _) hother
  exact
    { files := halone.files
      shows := halone.shows
      alone := halone.alone
      copied_le := halone.copied_le
      next := hid
      next_lt := hbegun
      finals := by
        show finals (w.log ++ [⟨"[COPY]", _, _⟩]) = _
        unfold finals
        rw [List.filter_append]
        have hcopy := halone.finals
        unfold finals at hcopy
        rw [show w.log.filter _ = _ from hcopy]
        exact List.append_nil _ }

theorem told_write {t : Texts} {w : World} {a a' : Transfers} {k : ℕ} {off : ℤ}
    {write_size result : ℕ} (h : Told t w a)
    (hfollow : follow a (.WriteFile k off write_size result) = some a')
    (hmeets : Meets a (.WriteFile k off write_size result)) :
    Told t (WriteFile t k off write_size result w) a' := by
  unfold follow at hfollow
  dsimp only at hfollow
  split at hfollow
  · cases hfollow
  · rename_i tr htr
    obtain ⟨f, hf, htracks⟩ := h.tracks htr
    obtain ⟨hfirst, hinside⟩ := hmeets tr htr
    split at hfollow
    · rename_i hwrite
      obtain ⟨hphase, hoff, hfront⟩ := hwrite
      obtain rfl := Option.some.inj hfollow
      cases hwrote : tr.wrote with
      | false =>
        obtain ⟨hbegun, hothers⟩ := hfirst hwrote
        have hother : ∀ k' g, k' ≠ k → w.files k' = some g → g.copy_id = 0 := by
          intro k' g _ hg
          have hrel := h.files k'
          rw [hg] at hrel
          cases hcurrent : a.current k' with
          | none =>
            rw [hcurrent] at hrel
            cases hrel
          | some tr' =>
            rw [hcurrent] at hrel
            cases hrel with
            | some htracks' => exact htracks'.begun.mpr (hothers k' tr' hcurrent)
        have hid := htracks.begun.mpr hwrote
        have hnext : (w.g_next_copy_id + 1) % 2 ^ 64 ≠ 0 := by
          rw [h.next, Nat.mod_eq_of_lt hbegun]
          exact Nat.succ_ne_zero _
        rw [WriteFile_first t hf hid hnext]
        have hbegin := told_begin h htracks hphase hwrote hbegun hother
        have htr' : ({ a.put k (some { tr with wrote := true }) with
            begun := a.begun + 1 } : Transfers).current k = some { tr with wrote := true } :=
          Function.update_self ..
        obtain ⟨f', hf', htracks'⟩ := hbegin.tracks htr'
        have hwritten := told_write_begun hbegin hf' htracks' (htracks'.copy_id_ne rfl) hphase hoff
          hfront hinside
        have hput : ({ a.put k (some { tr with wrote := true }) with
            begun := a.begun + 1 } : Transfers).put k
              (some (({ tr with wrote := true } : Transfer).write write_size result))
            = { a.put k (some (tr.write write_size result)) with begun := a.begun + 1 } := by
          unfold Transfers.put
          rw [Function.update_idem]
          rfl
        exact hput ▸ hwritten
      | true =>
        exact told_write_begun h hf htracks (htracks.copy_id_ne hwrote) hphase hoff hfront hinside
    · cases hfollow

/-- What `CloseFile` finds complete is complete. -/
theorem complete_iff {f : File} {tr : Transfer} (htracks : Tracks f tr) (hwrote : tr.wrote = true) :
    ((decide (f.failure = 0) && decide (f.total = 0 ∨ f.copied ≥ f.total)) = true ∧ f.failure = 0) ↔
      tr.complete = true := by
  have htotal := htracks.total (.inl hwrote)
  unfold Transfer.complete
  rw [Bool.and_eq_true, Bool.and_eq_true, decide_eq_true_iff, decide_eq_true_iff,
    decide_eq_true_iff, Bool.not_eq_true', htotal]
  constructor
  · rintro ⟨⟨hfailure, hall⟩, -⟩
    have hfailed := htracks.failure.mp hfailure
    have hcopied := htracks.copied hfailed
    exact ⟨hfailed, by omega⟩
  · rintro ⟨hfailed, hall⟩
    have hfailure := htracks.failure.mpr hfailed
    have hcopied := htracks.copied hfailed
    exact ⟨⟨hfailure, by omega⟩, hfailure⟩

/-- A copy ends with one final line. -/
theorem finals_finish (t : Texts) (log : List Entry) (path : String) (copied result : ℕ)
    (ok : Prop) [Decidable ok] :
    finals (log ++ if ok then [okEntry t path, ⟨"[DATA]", t.formatSizeNetwork copied, .Muted⟩]
      else errorEntry t path :: if result ≠ 0 then AddResult t result .Error else [])
      = finals log ++ [if ok then okEntry t path else errorEntry t path] := by
  unfold finals
  rw [List.filter_append]
  congr 1
  by_cases hok : ok
  · rw [if_pos hok, if_pos hok]
    rfl
  · rw [if_neg hok, if_neg hok]
    by_cases hresult : result = 0
    · rw [if_neg (not_not_intro hresult)]
      rfl
    · rw [if_pos hresult]
      unfold AddResult
      rw [if_neg hresult]
      rfl

theorem told_snoc (closed : List Transfer) (tr : Transfer) :
    told (closed ++ [tr])
      = told closed ++ if tr.announced ≠ 0 ∨ tr.wrote = true then [tr] else [] := by
  unfold told
  rw [List.filter_append]
  congr 1
  by_cases htold : tr.announced ≠ 0 ∨ tr.wrote = true
  · rw [if_pos htold, List.filter_cons_of_pos]
    · rfl
    · exact decide_eq_true htold
  · rw [if_neg htold, List.filter_cons_of_neg]
    · rfl
    · rwa [decide_eq_true_iff]

/-- A handle that is given back. -/
theorem Told.drop {t : Texts} {w : World} {a : Transfers} (h : Told t w a) (k : ℕ)
    (hother : ∀ k' g, k' ≠ k → w.files k' = some g → g.copy_id ≠ 0 → Shows w.g_copy g) :
    Told t (w.put k none) (a.put k none) := by
  have hkept : ∀ k' g, (w.put k none).files k' = some g → k' ≠ k ∧ w.files k' = some g := by
    intro k' g hg
    rcases files_put w k _ hg with ⟨-, hnone⟩ | hkept
    · cases hnone
    · exact hkept
  constructor
  · exact rel_put h.files k .none
  · intro k' g hg hid
    exact hother k' g (hkept k' g hg).1 (hkept k' g hg).2 hid
  · intro k₁ k₂ g₁ g₂ hg₁ hg₂
    exact h.alone k₁ k₂ g₁ g₂ (hkept k₁ g₁ hg₁).2 (hkept k₂ g₂ hg₂).2
  · exact h.copied_le
  · exact h.next
  · exact h.next_lt
  · exact h.finals

theorem told_close {t : Texts} {w : World} {a a' : Transfers} {k : ℕ} (h : Told t w a)
    (hfollow : follow a (.CloseFile k) = some a') (hmeets : Meets a (.CloseFile k)) :
    Told t (CloseFile t k w) a' := by
  unfold follow at hfollow
  dsimp only at hfollow
  split at hfollow
  · cases hfollow
  · rename_i tr htr
    obtain ⟨f, hf, htracks⟩ := h.tracks htr
    split at hfollow
    · obtain rfl := Option.some.inj hfollow
      have hdrop := h.drop k fun k' g _ hg hid => h.shows k' g hg hid
      unfold CloseFile
      rw [hf]
      dsimp only
      -- a file that was never written has no record, and nothing is told of it
      cases hwrote : tr.wrote with
      | false =>
        have hid := htracks.begun.mpr hwrote
        have hannounced : ¬(tr.announced ≠ 0 ∨ tr.wrote = true) := by
          rintro (hne | hbegun)
          · have htrue := hmeets tr htr hne
            rw [hwrote] at htrue
            cases htrue
          · rw [hwrote] at hbegun
            cases hbegun
        rw [if_neg (not_not_intro hid)]
        exact { hdrop with
          finals := by
            show finals w.log = (told (a.closed ++ [tr])).map (finalEntry t)
            rw [told_snoc, if_neg hannounced, List.append_nil]
            exact h.finals }
      | true =>
        have hid := htracks.copy_id_ne hwrote
        have hshows := h.shows k f hf hid
        rw [if_pos hid]
        have hfinish : FinishCopy t f.copy_id (decide (f.failure = 0) &&
            decide (f.total = 0 ∨ f.copied ≥ f.total)) f.failure w
            = { w with
                g_copy := { w.g_copy with active := false }
                log := w.log ++ if (decide (f.failure = 0) &&
                    decide (f.total = 0 ∨ f.copied ≥ f.total)) = true ∧ f.failure = 0 then
                  [okEntry t f.path, ⟨"[DATA]", t.formatSizeNetwork f.copied, .Muted⟩]
                else errorEntry t f.path ::
                  if f.failure ≠ 0 then AddResult t f.failure .Error else [] } := by
          unfold FinishCopy
          rw [show w.g_copy = _ from hshows]
          exact if_neg (not_not_intro rfl)
        rw [hfinish]
        exact
          { files := hdrop.files
            shows := by
              intro k' g hg hne
              rcases files_put w k _ hg with ⟨-, hnone⟩ | ⟨hk, hg'⟩
              · cases hnone
              · exact absurd (h.others hf hid k' g hk hg') hne
            alone := hdrop.alone
            copied_le := h.copied_le
            next := h.next
            next_lt := h.next_lt
            finals := by
              show finals (w.log ++ _) = (told (a.closed ++ [tr])).map (finalEntry t)
              have htold : tr.announced ≠ 0 ∨ tr.wrote = true := .inr hwrote
              rw [finals_finish, told_snoc, if_pos htold, List.map_append, h.finals, htracks.path]
              congr 2
              exact if_congr (complete_iff htracks hwrote) rfl rfl }
    · cases hfollow

/-- Every call that meets the condition keeps the agreement. -/
theorem told_step {t : Texts} {w : World} {a a' : Transfers} {op : Op} (h : Told t w a)
    (hfollow : follow a op = some a') (hmeets : Meets a op) : Told t (step t w op) a' := by
  cases op with
  | OpenFile k path mode result => exact told_open h hfollow
  | SetFileSize k size result => exact told_size h hfollow
  | WriteFile k off write_size result => exact told_write h hfollow hmeets
  | CloseFile k => exact told_close h hfollow hmeets

theorem told_run (t : Texts) {ops : List Op} {a : Transfers} (h : Follows Meets ops a) :
    Told t (run t ops) a := by
  induction h with
  | nil => exact told_init t
  | snoc _ op hmeets hfollow ih =>
    unfold run
    rw [List.foldl_append]
    exact told_step ih hfollow hmeets

/-! ## The record between two calls -/

/-- The record has the last number that was given. -/
def Numbered (w : World) : Prop := w.g_copy.id = w.g_next_copy_id

/-- From `w` to `w'` the record is replaced by one with another number, or its count does not
decrease. -/
def Grows (w w' : World) : Prop := w'.g_copy.id = w.g_copy.id → w.g_copy.copied ≤ w'.g_copy.copied

theorem UpdateCopy_id (id copied total : ℕ) (w : World) :
    (UpdateCopy id copied total w).g_copy.id = w.g_copy.id ∧
      (UpdateCopy id copied total w).g_next_copy_id = w.g_next_copy_id ∧
      w.g_copy.copied ≤ (UpdateCopy id copied total w).g_copy.copied := by
  unfold UpdateCopy
  split
  · exact ⟨rfl, rfl, le_rfl⟩
  · exact ⟨rfl, rfl, Nat.le_max_left ..⟩

theorem FinishCopy_id (t : Texts) (id : ℕ) (complete : Bool) (result : ℕ) (w : World) :
    (FinishCopy t id complete result w).g_copy.id = w.g_copy.id ∧
      (FinishCopy t id complete result w).g_next_copy_id = w.g_next_copy_id ∧
      w.g_copy.copied ≤ (FinishCopy t id complete result w).g_copy.copied := by
  unfold FinishCopy
  split <;> exact ⟨rfl, rfl, le_rfl⟩

theorem grows_write (t : Texts) {w : World} (h : Numbered w) (k : ℕ) (off : ℤ)
    (write_size result : ℕ) :
    Numbered (WriteFile t k off write_size result w) ∧
      Grows w (WriteFile t k off write_size result w) := by
  unfold WriteFile
  split
  · exact ⟨h, fun _ => le_rfl⟩
  · rename_i f hf
    dsimp only
    by_cases hid : f.copy_id = 0
    · -- a new number is given, which is not that of the record
      have hnew : (w.g_next_copy_id + 1) % 2 ^ 64 ≠ w.g_copy.id := by
        rw [h]
        omega
      rw [if_pos hid]
      split
      · exact ⟨rfl, fun hsame => absurd hsame hnew⟩
      · obtain ⟨hsame, hnext, -⟩ := UpdateCopy_id (BeginCopy t f.path f.total w).1
          (max f.copied (if off ≥ 0 then (off.toNat + write_size) % 2 ^ 64
            else (f.copied + write_size) % 2 ^ 64)) f.total
          ((BeginCopy t f.path f.total w).2.put k (some { f with
            copy_id := (BeginCopy t f.path f.total w).1
            copied := max f.copied (if off ≥ 0 then (off.toNat + write_size) % 2 ^ 64
              else (f.copied + write_size) % 2 ^ 64) }))
        refine ⟨hsame.trans hnext.symm, ?_⟩
        intro hold
        exact absurd (hsame.symm.trans hold) hnew
    · rw [if_neg hid]
      split
      · exact ⟨h, fun _ => le_rfl⟩
      · obtain ⟨hsame, hnext, hle⟩ := UpdateCopy_id f.copy_id
          (max f.copied (if off ≥ 0 then (off.toNat + write_size) % 2 ^ 64
            else (f.copied + write_size) % 2 ^ 64)) f.total
          (w.put k (some { f with
            copied := max f.copied (if off ≥ 0 then (off.toNat + write_size) % 2 ^ 64
              else (f.copied + write_size) % 2 ^ 64) }))
        exact ⟨hsame.trans (h.trans hnext.symm), fun _ => hle⟩

theorem grows_step (t : Texts) {w : World} (h : Numbered w) (op : Op) :
    Numbered (step t w op) ∧ Grows w (step t w op) := by
  cases op with
  | OpenFile k path mode result =>
    show Numbered (OpenFile k path mode result w) ∧ Grows w (OpenFile k path mode result w)
    unfold OpenFile
    split <;> exact ⟨h, fun _ => le_rfl⟩
  | SetFileSize k size result =>
    show Numbered (SetFileSize k size result w) ∧ Grows w (SetFileSize k size result w)
    unfold SetFileSize
    split
    · exact ⟨h, fun _ => le_rfl⟩
    · split <;> exact ⟨h, fun _ => le_rfl⟩
  | WriteFile k off write_size result => exact grows_write t h k off write_size result
  | CloseFile k =>
    show Numbered (CloseFile t k w) ∧ Grows w (CloseFile t k w)
    unfold CloseFile
    split
    · exact ⟨h, fun _ => le_rfl⟩
    · rename_i f hf
      dsimp only
      split
      · obtain ⟨hsame, hnext, hle⟩ := FinishCopy_id t f.copy_id
          (decide (f.failure = 0) && decide (f.total = 0 ∨ f.copied ≥ f.total)) f.failure w
        exact ⟨hsame.trans (h.trans hnext.symm), fun _ => hle⟩
      · exact ⟨h, fun _ => le_rfl⟩

theorem run_snoc (t : Texts) (ops : List Op) (op : Op) :
    run t (ops ++ [op]) = step t (run t ops) op := by
  unfold run
  rw [List.foldl_append]
  rfl

theorem numbered_run (t : Texts) (ops : List Op) : Numbered (run t ops) := by
  induction ops using List.reverseRecOn with
  | nil => rfl
  | append_singleton ops op ih =>
    rw [run_snoc]
    exact (grows_step t ih op).1

/-- In a run whose calls meet the condition, the log has one final line for each file closed that has
a size or was written, which tells what became of it; and the count on the screen stays in its total
and, until another copy begins, does not decrease. -/
theorem log_tells_truth (t : Texts) {ops : List Op} {a : Transfers} (h : Follows Meets ops a) :
    finals (run t ops).log = (told a.closed).map (finalEntry t) ∧
    (GetCopyStatus (run t ops)).copied ≤ (GetCopyStatus (run t ops)).total ∧
    ∀ op, (GetCopyStatus (run t (ops ++ [op]))).id = (GetCopyStatus (run t ops)).id →
      (GetCopyStatus (run t ops)).copied ≤ (GetCopyStatus (run t (ops ++ [op]))).copied := by
  have htold := told_run t h
  refine ⟨htold.finals, htold.copied_le, ?_⟩
  intro op
  rw [run_snoc]
  exact (grows_step t (numbered_run t ops) op).2

/-- The texts without a translation. -/
def plain : Texts := ⟨fun _ text => text, fun _ => "", fun _ => "", fun _ => ""⟩

/-- A file of two bytes is sent. -/
def sending : List Op :=
  [.OpenFile 0 "/a" .WRITE 0, .SetFileSize 0 2 0, .WriteFile 0 0 2 0, .CloseFile 0]

theorem log_tells_truth_sending :
    finals (run plain sending).log = [okEntry plain "/a"] := by
  have hopen : Follows Meets [] .none := .nil
  have hopened := hopen.snoc (.OpenFile 0 "/a" .WRITE 0) trivial rfl
  have hsized := hopened.snoc (.SetFileSize 0 2 0) trivial rfl
  have hwritten := hsized.snoc (.WriteFile 0 0 2 0) (by
    intro tr htr
    obtain rfl := Option.some.inj htr
    refine ⟨fun _ => ⟨by decide, ?_⟩, fun _ => by decide⟩
    intro h' tr' htr'
    by_cases hh : h' = 0
    · rw [hh] at htr'
      obtain rfl := Option.some.inj htr'
      rfl
    · simp [Transfers.put, Transfers.none, hh] at htr') rfl
  have hclosed := hwritten.snoc (.CloseFile 0) (by
    intro tr htr _
    obtain rfl := Option.some.inj htr
    rfl) rfl
  exact (log_tells_truth plain hclosed).1

/-- Two files of a byte, the second of which is begun before the first is closed. -/
def overlapping : List Op :=
  [.OpenFile 0 "/a" .WRITE 0, .OpenFile 1 "/b" .WRITE 0, .SetFileSize 0 1 0, .SetFileSize 1 1 0,
    .WriteFile 0 0 1 0, .WriteFile 1 0 1 0, .CloseFile 0, .CloseFile 1]

/-- A transfer that is interrupted before the first byte. -/
def interrupted : List Op :=
  [.OpenFile 0 "/c" .WRITE 0, .SetFileSize 0 5 0, .SetFileSize 0 0 0, .CloseFile 0]

/-- The first of two overlapping copies, and a copy that is interrupted before the first byte, end
without a line. -/
theorem copies_are_lost :
    (∃ a, Follows (fun _ _ => True) overlapping a ∧ (told a.closed).map (·.path) = ["/a", "/b"] ∧
      finals (run plain overlapping).log = [okEntry plain "/b"]) ∧
    ∃ a, Follows (fun _ _ => True) interrupted a ∧ (told a.closed).map (·.path) = ["/c"] ∧
      finals (run plain interrupted).log = [] := by
  have hnil : Follows (fun _ _ => True) [] .none := .nil
  constructor
  · have hopened := (hnil.snoc (.OpenFile 0 "/a" .WRITE 0) trivial rfl).snoc
      (.OpenFile 1 "/b" .WRITE 0) trivial rfl
    have hsized := (hopened.snoc (.SetFileSize 0 1 0) trivial rfl).snoc
      (.SetFileSize 1 1 0) trivial rfl
    have hwritten := (hsized.snoc (.WriteFile 0 0 1 0) trivial rfl).snoc
      (.WriteFile 1 0 1 0) trivial rfl
    have hclosed := (hwritten.snoc (.CloseFile 0) trivial rfl).snoc
      (.CloseFile 1) trivial rfl
    exact ⟨_, hclosed, rfl, by decide⟩
  · have hsized := (hnil.snoc (.OpenFile 0 "/c" .WRITE 0) trivial rfl).snoc
      (.SetFileSize 0 5 0) trivial rfl
    have hclosed := (hsized.snoc (.SetFileSize 0 0 0) trivial rfl).snoc
      (.CloseFile 0) trivial rfl
    exact ⟨_, hclosed, rfl, by decide⟩

end MtpCopyLog
