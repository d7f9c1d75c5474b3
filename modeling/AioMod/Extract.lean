/-
# Extracting archives

`extract.cpp` and the parts of `fs.cpp` that it uses.  An archive is the list of its entries; each
call of minizip may fail.  What minizip reads of an entry comes in chunks.  The progress display
and its counts are left out, and so are the texts that go with a key of a message, but for the path.
The list of what is preserved and the list of titles are read at once, before anything is written.
-/
import AioMod.ExplorerOps
import AioMod.ForwarderNca
import AioMod.IniEditor
import AioMod.NspManifest

namespace Extract

open Explorer Throws TextLines IniEditor

/-! ## Texts and paths -/

def SLASH : UInt8 := 47

/-- A text as the name of a file. -/
def name (b : Bytes) : Name := String.ofList (b.map fun c => Char.ofNat c.toNat)

/-- Where a path leads, from the working directory `cwd` unless it begins with a separator.  Its
components are names as they stand: none of them is resolved, nor is a device in front. -/
def place (cwd : FsPath) (path : Bytes) : FsPath :=
  (if path.head? = some SLASH then [] else cwd) ++ (getlines SLASH path).map name

/-- `path::lexically_normal`, one component: the components so far, the last one first, and
whether a separator ends them. -/
def normalStep (absolute : Bool) (s : List Bytes × Bool) (c : Bytes) : List Bytes × Bool :=
  if c = [] ∨ c = ascii "." then (s.1, true)
  else if c = ascii ".." then
    match s.1 with
    | [] => if absolute then ([], true) else ([c], false)
    | d :: ds => if d = ascii ".." then (c :: d :: ds, false) else (ds, true)
  else (c :: s.1, false)

/-- The components between separators, the last one empty where a separator ends the path. -/
def components (path : Bytes) : List Bytes :=
  getlines SLASH path ++ if endsWith SLASH path then [[]] else []

/-- `path::lexically_normal` -/
def lexically_normal (path : Bytes) : Bytes :=
  let absolute := decide (path.head? = some SLASH)
  let s := (components path).foldl (normalStep absolute) ([], false)
  let text := (if absolute then [SLASH] else []) ++
    join [SLASH] (s.2 && decide (s.1.head? ≠ some (ascii ".."))) s.1.reverse
  if path = [] then [] else if text = [] then ascii "." else text

/-- `path::operator/`, of a path that does not begin with a separator. -/
def slash (base path : Bytes) : Bytes :=
  if base = [] ∨ base.getLast? = some SLASH then base ++ path else base ++ SLASH :: path

/-! ## `readLineByLine` -/

/-- `readLineByLine`, of what is in the file. -/
def readLineByLine (contents : Option Bytes) : Finset Bytes :=
  (((getlines LF (contents.getD [])).filter fun line => line.length > 0).map popCR).toFinset

/-! ## Archives -/

/-- An entry of an archive: its header, and what is read of it; a read of nothing is its end. -/
structure ZipEntry where
  filename : Bytes
  uncompressed_size : ℕ
  chunks : List Bytes
  nonempty : [] ∉ chunks
  deriving DecidableEq

theorem nil_not_mem_singleton : ([] : Bytes) ∉ [[1]] := by decide

/-- The bytes of an entry. -/
def ZipEntry.data (e : ZipEntry) : Bytes := e.chunks.flatten

/-- `checkZip`, of a call of minizip. -/
def checkZip (operation : String) : Op Unit := do
  let ok ← fs .minizip
  require (ok = true) operation

/-- `ProgressEvent::getInterupt` -/
def getInterupt : Op Bool := fs .load

/-- The names that `entryInfo` lets pass. -/
def safeName (filename : Bytes) : Prop :=
  filename ≠ [] ∧ filename.length ≤ 0x300 ∧ 0 ∉ filename ∧ filename.head? ≠ some SLASH ∧
    92 ∉ filename ∧ 58 ∉ filename ∧ ascii ".." ∉ getlines SLASH filename

instance (filename : Bytes) : Decidable (safeName filename) :=
  inferInstanceAs (Decidable (_ ∧ _ ∧ _ ∧ _ ∧ _ ∧ _ ∧ _))

/-- `entryInfo` without a name -/
def entrySize (e : ZipEntry) : Op Unit := do
  checkZip "menus/errors/archive_info"
  require (e.uncompressed_size ≤ 2 ^ 63 - 1) "menus/errors/archive_too_large"

/-- `entryInfo` with the name -/
def entryInfo (e : ZipEntry) : Op Unit := do
  entrySize e
  require (e.filename ≠ [] ∧ e.filename.length ≤ 0x300) "menus/errors/archive_name"
  checkZip "menus/errors/archive_info"
  require (safeName e.filename) "menus/errors/archive_name"

/-- `unzGoToNextFile`, where there is one. -/
def goToNext (rest : List ZipEntry) : Op Unit :=
  if rest = [] then pure () else checkZip "menus/errors/archive_walk"

/-- The loop of `getUncompressedSize`. -/
def sumSizes : List ZipEntry → ℕ → Op (Option ℕ)
  | [], size => pure (some size)
  | e :: rest, size => do
    if ← getInterupt then pure none
    else
      entryInfo e
      require (e.uncompressed_size ≤ 2 ^ 63 - 1 - size) "menus/errors/archive_too_large"
      goToNext rest
      sumSizes rest (size + e.uncompressed_size)

/-- The constructor of `Archive`, and `archiveInfo`. -/
def openArchive : Op Unit := do
  let ok ← fs .minizip
  require (ok = true) "menus/errors/archive_open"
  checkZip "menus/errors/archive_info"

/-- `ensureAvailableStorage`, which has no size when it is interrupted. -/
def ensureAvailableStorage (archive : List ZipEntry) : Op (Option ℕ) := do
  openArchive
  match ← sumSizes archive 0 with
  | none => pure none
  | some uncompressedSize =>
    match ← fs (.space []) with
    | none => pure (some uncompressedSize)
    | some freeStorage =>
      require (uncompressedSize * 11 ≤ freeStorage * 10) "menus/errors/insufficient_storage"
      pure (some uncompressedSize)

/-! ## `extractEntry` -/

/-- The paths that `createTree` creates: up to each separator. -/
def directories (path : Bytes) : List Bytes := path.inits.filter (endsWith SLASH)

/-- `createTree`.  Where the parent is there, creating one directory and creating all that lead to
it is the same. -/
def createTree (cwd : FsPath) (path : Bytes) : Op Unit :=
  forEach (fun directory => do
    let ok ← fs (.create_directories (place cwd directory))
    require (ok = true) ("filesystem error: cannot create directory: " ++ name directory))
    (directories path)

/-- The loop of `extractEntry`, with the number of bytes that are written. -/
def writeChunks (file : FsPath) (filename : Bytes) : List Bytes → ℕ → Op ℕ
  | chunks, fileNow => do
    if ← getInterupt then pure fileNow
    else
      let bytesRead ← fs .minizip
      require (bytesRead = true) ("menus/errors/extract_read: " ++ name filename)
      match chunks with
      | [] => pure fileNow
      | chunk :: chunks =>
        let bytesWritten ← fs (.write file chunk)
        require (bytesWritten = true) ("menus/errors/extract_write: " ++ name filename)
        writeChunks file filename chunks (fileNow + chunk.length)

/-- `extractEntry` -/
def extractEntry (cwd : FsPath) (filename : Bytes) (e : ZipEntry) : Op Unit := do
  entrySize e
  if ← getInterupt then pure ()
  else
    require (filename ≠ []) "menus/errors/archive_name"
    if filename.getLast? = some SLASH then createTree cwd filename
    else
      let file := place cwd filename
      createTree cwd filename
      checkZip "menus/errors/archive_entry_open"
      let outfile ← fs (.ofstream file)
      require (outfile = true) ("menus/errors/extract_create: " ++ name filename)
      let fileNow ← writeChunks file filename e.chunks 0
      let closeResult ← fs (.close file)
      let zipResult ← fs .minizip
      require (closeResult = true) ("menus/errors/extract_close: " ++ name filename)
      if ← getInterupt then pure ()
      else
        require (zipResult = true) "menus/errors/extract_crc"
        require (fileNow = e.uncompressed_size)
          ("menus/errors/extract_incomplete: " ++ name filename)

/-! ## `extract` -/

/-- The firmware that runs. -/
inductive CFW where
  | rnx
  | sxos
  | ams
  deriving DecidableEq

/-- What `extract` asks of the console and of the user.  The answer about the payload is the same
whenever it is asked for in one run. -/
structure Env where
  cwd : FsPath
  appPath : Bytes
  running_cfw : CFW
  rebootPayload : Bool

def UPDATE_BIN_PATH : Bytes := ascii "/bootloader/update.bin"

def REBOOT_PAYLOAD_PATH : Bytes := ascii "/atmosphere/reboot_payload.bin"

/-- `copyFile`.  The stream is copied by one read and one write, which can stop part way. -/
def copyFile (cwd : FsPath) (source target : Bytes) : Op Bool := do
  let src ← fs (.ifstream (place cwd source))
  let dst ← fs (.ofstream (place cwd target))
  if src ∧ dst then
    match ← fs (.read (place cwd source) 0 (2 ^ 64)) with
    | none => pure true
    | some data =>
      let _ ← fs (.write (place cwd target) data)
      pure true
  else pure false

/-- Where an entry goes. -/
def target (workingPath entryName : Bytes) : Bytes :=
  let filename := lexically_normal (slash workingPath entryName)
  if entryName.getLast? = some SLASH ∧ filename.getLast? ≠ some SLASH then filename ++ [SLASH]
  else filename

/-- Whether a path is kept if it is there: `find` comes to 0 or 1. -/
def preserved (preserveInis : Bool) (ignoreList : Finset Bytes) (filename : Bytes) : Prop :=
  preserveInis = true ∧ ascii ".ini" <:+ filename ∨
    ∃ ignored ∈ ignoreList, ignored <+: filename ∨ ignored <+: filename.tail

instance (preserveInis : Bool) (ignoreList : Finset Bytes) (filename : Bytes) :
    Decidable (preserved preserveInis ignoreList filename) := inferInstanceAs (Decidable (_ ∨ _))

/-- The files that are not replaced while they are in use. -/
def inUse (filename : Bytes) : Prop :=
  filename = ascii "/atmosphere/package3" ∨ filename = ascii "/atmosphere/stratosphere.romfs"

instance (filename : Bytes) : Decidable (inUse filename) := inferInstanceAs (Decidable (_ ∨ _))

/-- What follows the extraction of a payload. -/
def copyPayload (env : Env) (filename : Bytes) : Op Unit := do
  let _ ← copyFile env.cwd filename UPDATE_BIN_PATH
  if env.running_cfw = .ams ∧ env.rebootPayload then
    let _ ← copyFile env.cwd UPDATE_BIN_PATH REBOOT_PAYLOAD_PATH

/-- What is done about one entry. -/
def extractOne (env : Env) (preserveInis : Bool) (ignoreList : Finset Bytes) (filename : Bytes)
    (e : ZipEntry) : Op Unit := do
  if env.appPath ≠ filename then
    if preserved preserveInis ignoreList filename then
      let there ← value (← fs (.exists_ (place env.cwd filename))) (name filename)
      if there = false then extractEntry env.cwd filename e
    else if inUse filename then extractEntry env.cwd (filename ++ ascii ".aio") e
    else
      extractEntry env.cwd filename e
      if ← getInterupt then pure ()
      else if ascii "/hekate_ctcaer" <+: filename then copyPayload env filename

/-- The loop over the entries; the result says whether it came to the end. -/
def walk (select : ZipEntry → Op Unit) : List ZipEntry → Op Bool
  | [] => pure true
  | e :: rest => do
    entryInfo e
    if ← getInterupt then pure false
    else
      select e
      if ← getInterupt then pure false
      else
        goToNext rest
        walk select rest

/-- `extract`; the result says whether the extraction is shown as complete. -/
def extract (env : Env) (preserve : Option Bytes) (archive : List ZipEntry) (workingPath : Bytes)
    (preserveInis : Bool) : Op Bool := do
  match ← ensureAvailableStorage archive with
  | none => pure false
  | some _ =>
    openArchive
    let ignoreList := readLineByLine preserve
    let _ ← walk (fun e => extractOne env preserveInis ignoreList (target workingPath e.filename) e)
      archive
    let interupt ← getInterupt
    pure !interupt

/-! ## `extractCheats` -/

def CHEATS_VERSION : Bytes := ascii "/config/aio-switch-updater-mod/cheats_version.dat"

/-- `caselessCompare`, of texts without a zero. -/
def caselessCompare (a b : Bytes) : Prop := a.map Nsp.tolower = b.map Nsp.tolower

instance (a b : Bytes) : Decidable (caselessCompare a b) := inferInstanceAs (Decidable (_ = _))

/-- The folder of a firmware, and that of the titles in it. -/
def CFW.folders : CFW → Bytes × Bytes
  | .ams => (ascii "/atmosphere/", ascii "contents/")
  | .rnx => (ascii "/ReiNX/", ascii "contents/")
  | .sxos => (ascii "/sxos/", ascii "titles/")

/-- `create_directory`, where the parent is there. -/
def create_directory (path : Bytes) : Op Unit := do
  let ok ← fs (.create_directories (place [] path))
  require (ok = true) ("filesystem error: cannot create directory: " ++ name path)

/-- `computeOffset`: the working directory and the offset. -/
def computeOffset (cwd : FsPath) (cfw : CFW) : Op (FsPath × ℕ) := do
  create_directory cfw.folders.1
  create_directory (cfw.folders.1 ++ cfw.folders.2)
  let chdir ← fs (.status (place [] cfw.folders.1))
  pure (if chdir = some true then place [] cfw.folders.1 else cwd, cfw.folders.2.length)

/-- Which entries `extractCheats` extracts. -/
def selected (titles : List Bytes) (extractAll : Bool) (offset : ℕ) (filename : Bytes) : Prop :=
  filename.length > offset + 16 + 7 ∧
    caselessCompare ((filename.drop (offset + 16)).take 7) (ascii "/cheats") ∧
    (extractAll = true ∨
      ∃ title ∈ titles, caselessCompare (title.take 13) ((filename.drop offset).take 13))

instance (titles : List Bytes) (extractAll : Bool) (offset : ℕ) (filename : Bytes) :
    Decidable (selected titles extractAll offset filename) :=
  inferInstanceAs (Decidable (_ ∧ _ ∧ _))

/-- `saveToFile` -/
def saveToFile (text path : Bytes) : Op Unit := do
  let file ← fs (.ofstream (place [] path))
  if file then
    let _ ← fs (.write (place [] path) (text ++ [LF]))

/-- `extractCheats`; the result says whether the extraction is shown as complete. -/
def extractCheats (cwd : FsPath) (archive : List ZipEntry) (titles : List Bytes) (cfw : CFW)
    (version : Bytes) (extractAll : Bool) : Op Bool := do
  match ← ensureAvailableStorage archive with
  | none => pure false
  | some _ =>
    openArchive
    let (cwd, offset) ← computeOffset cwd cfw
    let _ ← walk (fun e =>
      if selected titles extractAll offset e.filename then extractEntry cwd e.filename e
      else pure ()) archive
    let complete ← getInterupt
    if ← getInterupt then pure !complete
    else
      if version ≠ ascii "offline" ∧ version ≠ [] then saveToFile version CHEATS_VERSION
      pure !complete

end Extract
