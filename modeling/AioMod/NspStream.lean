/-
# An NSP is installed as it arrives

`installNspStreamToSdTransactional` from the accepted manifest to the end of the stream.  The
entries are taken in the order of their offsets: what lies between them is read and thrown away,
an NCA that is not on the card goes into a placeholder, and tickets and certificates are kept in
memory.  Every call of the services can fail.  A difference or sum that would leave its type ends
the program here, with a failure of its own.
-/
import AioMod.NspManifest
import AioMod.NspJournal
import AioMod.ThrowProg

namespace NspStream

open ByteImage
open Nsp (NspEntryInfo NspManifest Diagnostic ErrorCode text to_string)
open NspJournal (NcmId NcmContentMetaKey Json PlannedContent rcDiag)

/-! ## The calls -/

/-- What is called: the content manager, the journal, the user's interruption and the stream. -/
inductive Fn where
  | ncmInitialize | ncmOpenContentStorage | ncmOpenContentMetaDatabase
  | Has (id : NcmId)
  | nsGetFreeSpaceSize
  | saveJournal (journal : Json)
  | getInterupt
  | readExact (size : ℕ)
  | GeneratePlaceHolderId
  | CreatePlaceHolder (content ph : NcmId) (size : ℕ)
  | WritePlaceHolder (ph : NcmId) (offset : ℕ) (data : Bytes)
  | Register (content ph : NcmId)

/-- What a call returns; the result 0 is success, and what is returned with it is valid then. -/
@[reducible] def Fn.Res : Fn → Type
  | .Has _ => ℕ × Bool
  | .nsGetFreeSpaceSize => ℕ × ℤ
  | .saveJournal _ => Unit
  | .getInterupt => Bool
  | .readExact _ => Option Bytes
  | .GeneratePlaceHolderId => ℕ × NcmId
  | _ => ℕ

@[reducible] def FnI : Interface := ⟨Fn, Fn.Res⟩

/-- How the program can fail: with a diagnostic, or because a number leaves its type. -/
inductive Failure where
  | stop (d : Diagnostic)
  | wrapped
  deriving DecidableEq

abbrev Installer (α : Type) : Type := Throws FnI Failure α

/-- Make a call. -/
def call (fn : Fn) : Installer fn.Res := Throws.call (I := FnI) fn

/-- Return with a diagnostic unless the condition holds. -/
def require (c : Prop) [Decidable c] (code : ErrorCode) (technical : Bytes) : Installer Unit :=
  Throws.require c (.stop ⟨code, technical⟩)

/-- Return with the diagnostic of a result that is not success. -/
def check (rc : ℕ) (code : ErrorCode) (place : String) : Installer Unit :=
  require (rc = 0) code (rcDiag rc place)

/-- A difference of two `uint64_t`. -/
def sub (a b : ℕ) : Installer ℕ := do
  Throws.require (b ≤ a) .wrapped
  return a - b

/-- A sum of two `uint64_t`. -/
def add (a b : ℕ) : Installer ℕ := do
  Throws.require (a + b < 2 ^ 64) .wrapped
  return a + b

/-! ## The card and the stream -/

/-- A placeholder, with what was written to it and where. -/
structure Placeholder where
  id : NcmId
  size : ℕ
  writes : List (ℕ × Bytes) := []

/-- A content, with what was written to it when it was a placeholder. -/
structure Content where
  id : NcmId
  writes : List (ℕ × Bytes)

structure Storage where
  contents : List Content
  placeholders : List Placeholder

namespace Storage

/-- `ncmContentStorageHas` -/
def has (st : Storage) (id : NcmId) : Bool := st.contents.any fun c => c.id = id

/-- `ncmContentStorageCreatePlaceHolder` -/
def create (st : Storage) (ph : NcmId) (size : ℕ) : Storage :=
  { st with placeholders := st.placeholders ++ [{ id := ph, size }] }

/-- `ncmContentStorageWritePlaceHolder` -/
def write (st : Storage) (ph : NcmId) (offset : ℕ) (data : Bytes) : Storage :=
  { st with placeholders := st.placeholders.map fun p =>
      if p.id = ph then { p with writes := p.writes ++ [(offset, data)] } else p }

/-- `ncmContentStorageRegister`: the placeholder becomes a content. -/
def register (st : Storage) (content ph : NcmId) : Storage where
  contents := st.contents ++
    (st.placeholders.filter fun p => p.id = ph).map fun p => ⟨content, p.writes⟩
  placeholders := st.placeholders.filter fun p => p.id ≠ ph

end Storage

/-- How much of the stream was read, and what is on the card. -/
structure State where
  pos : ℕ
  storage : Storage

/-- What a call can return, and the state after it: it works as documented, or it fails and
changes nothing, except that a failing read may have taken something off the stream. -/
def ncm (stream : Bytes) : Machine FnI State
  | s, .Has id, r, s' => s' = s ∧ (r.1 = 0 → r.2 = s.storage.has id)
  | s, .readExact size, some data, s' =>
    Nsp.readExact stream s.pos size = some data ∧ s' = { s with pos := s.pos + size }
  | s, .readExact _, none, s' => ∃ pos, s' = { s with pos }
  | s, .CreatePlaceHolder _ ph size, rc, s' =>
    if rc = 0 then
      (∀ p ∈ s.storage.placeholders, p.id ≠ ph) ∧
        s' = { s with storage := s.storage.create ph size }
    else s' = s
  | s, .WritePlaceHolder ph offset data, rc, s' =>
    s' = if rc = 0 then { s with storage := s.storage.write ph offset data } else s
  | s, .Register content ph, rc, s' =>
    s' = if rc = 0 then { s with storage := s.storage.register content ph } else s
  | s, _, _, s' => s' = s

/-! ## Reading on -/

def COPY_BUFFER_SIZE : ℕ := 1024 * 1024

section consume

variable {α : Type}

/-- The loop of `consumeBytes`, which comes to an end after at most `fuel` rounds; `done` is what
the source calls `local`. -/
def consumeLoop (bytes : ℕ) (sink : α → Bytes → ℕ → Installer α) (stage : Bytes) :
    ℕ → ℕ → ℕ → α → Installer (ℕ × α)
  | 0, _, streamOffset, a => return (streamOffset, a)
  | fuel + 1, done, streamOffset, a =>
    if done < bytes then do
      let interrupt ← call .getInterupt
      require (interrupt = false) .Cancelled (text "User cancelled streaming install")
      let rest ← sub bytes done
      let want := min COPY_BUFFER_SIZE rest
      match ← call (.readExact want) with
      | none => throw (.stop ⟨.PackageTruncated, text "MTP stream ended while reading " ++ stage ++
          text "; offset=" ++ to_string streamOffset⟩)
      | some data => do
        let a ← sink a data done
        let done ← add done want
        let streamOffset ← add streamOffset want
        consumeLoop bytes sink stage fuel done streamOffset a
    else return (streamOffset, a)

/-- `consumeBytes`: so many bytes go into the sink, which carries a value. -/
def consumeBytes (streamOffset bytes : ℕ) (sink : α → Bytes → ℕ → Installer α) (stage : Bytes)
    (a : α) : Installer (ℕ × α) :=
  consumeLoop bytes sink stage bytes 0 streamOffset a

end consume

/-- Bytes are read and thrown away. -/
def skipBytes (streamOffset bytes : ℕ) (stage : Bytes) : Installer ℕ := do
  let r ← consumeBytes streamOffset bytes (fun u _ _ => return u) stage ()
  return r.1

/-- The sink of a placeholder, which counts what is installed. -/
def toPlaceholder (ph : NcmId) (installedNow : ℕ) (data : Bytes) (done : ℕ) : Installer ℕ := do
  let wr ← call (.WritePlaceHolder ph done data)
  check wr .WriteError "WritePlaceHolder(stream)"
  add installedNow data.length

/-- A buffer of zeros that is being filled, and how far. -/
structure Filling where
  bytes : Bytes
  copied : ℕ

/-- The sink of a buffer: `memcpy` to where it is filled. -/
def toBuffer (f : Filling) (data : Bytes) (_ : ℕ) : Installer Filling := do
  let copied ← add f.copied data.length
  return ⟨f.bytes.take f.copied ++ data ++ f.bytes.drop (f.copied + data.length), copied⟩

/-! ## The plan -/

def STREAM_INSTALL_SPACE_RESERVE : ℕ := 64 * 1024 * 1024

/-- Sixteen bytes: the first of those given, or zeros. -/
def toNcmId (bs : Bytes) : NcmId := ⟨(bs ++ zeros 16).take 16, by simp⟩

/-- `contentId` of an entry, which is zero unless it was parsed. -/
def contentId (e : NspEntryInfo) : NcmId := toNcmId (e.contentId.getD [])

def findCnmt (manifest : NspManifest) : Option NspEntryInfo :=
  manifest.entries.find? fun e => e.isCnmtNca && e.contentId.isSome

/-- `NcmContext::open` -/
def openContext : Installer Unit := do
  let rc ← call .ncmInitialize
  check rc .InternalError "ncmInitialize"
  let rc ← call .ncmOpenContentStorage
  check rc .PlaceholderError "ncmOpenContentStorage(SD)"
  let rc ← call .ncmOpenContentMetaDatabase
  check rc .RegistrationError "ncmOpenContentMetaDatabase(SD)"

/-- The body of the loop that plans, with the bytes that are new. -/
def planEntry (acc : List PlannedContent × ℕ) (e : NspEntryInfo) :
    Installer (List PlannedContent × ℕ) :=
  if !e.isNca || e.contentId.isNone then return acc
  else do
    let r ← call (.Has (contentId e))
    check r.1 .RegistrationError "ContentStorageHas"
    let p : PlannedContent :=
      { content_id := contentId e, placeholder := toNcmId [], placeholderCreated := false
        registered := false, preExisting := r.2 }
    if r.2 then return (acc.1 ++ [p], acc.2)
    else do
      let most ← sub (2 ^ 64 - 1) e.size
      require (acc.2 ≤ most) .NotEnoughSpace (text "Install size overflow")
      let newContentBytes ← add acc.2 e.size
      return (acc.1 ++ [p], newContentBytes)

/-- The test of the free space, where it is known. -/
def checkSpace (newContentBytes : ℕ) : Installer Unit := do
  let r ← call .nsGetFreeSpaceSize
  if r.1 = 0 ∧ 0 ≤ r.2 then do
    let freeBytes := r.2.toNat
    let most ← sub (2 ^ 64 - 1) STREAM_INSTALL_SPACE_RESERVE
    let required ←
      if most < newContentBytes then pure (2 ^ 64 - 1)
      else add newContentBytes STREAM_INSTALL_SPACE_RESERVE
    require (required ≤ freeBytes) .NotEnoughSpace
      (text "stream_install_required=" ++ to_string required ++ text ", free=" ++
        to_string freeBytes)
  else return ()

/-- `provisionalKey` -/
def provisionalKey : NcmContentMetaKey := ⟨0, 0, 0, 0, (0, 0)⟩

/-- The journal while the stream is read. -/
def save (displayName : Bytes) (plan : List PlannedContent) (stage : String) : Installer Unit :=
  call (.saveJournal (NspJournal.saveJournal displayName 0 provisionalKey plan false false false
    (text stage)))

/-- A planned content and its place. -/
def findPlan (plan : List PlannedContent) (id : NcmId) : Option (PlannedContent × ℕ) :=
  plan.zipIdx.find? fun x => x.1.content_id = id

/-! ## The entries -/

def STREAM_MAX_AUX_FILE : ℕ := 16 * 1024 * 1024

def STREAM_MAX_AUX_TOTAL : ℕ := 32 * 1024 * 1024

structure BufferedAuxFile where
  entry : NspEntryInfo
  bytes : Bytes
  deriving DecidableEq

/-- The variables of the installer, `installedBytes` and `installedContents` being those of its
result. -/
structure Vars where
  streamOffset : ℕ
  plan : List PlannedContent
  aux : List BufferedAuxFile := []
  auxTotal : ℕ := 0
  installedNow : ℕ := 0
  installedBytes : ℕ := 0
  installedContents : ℕ := 0

/-- The order of the entries in the package. -/
def physical (manifest : NspManifest) : List NspEntryInfo :=
  manifest.entries.insertionSort fun a b => a.offset ≤ b.offset

/-- An NCA that is not on the card, at its place in the plan. -/
def installContent (displayName : Bytes) (v : Vars) (e : NspEntryInfo) (i : ℕ) :
    Installer Vars := do
  let r ← call .GeneratePlaceHolderId
  check r.1 .PlaceholderError "GeneratePlaceHolderId"
  let ph := r.2
  let plan := v.plan.modify i fun p => { p with placeholder := ph }
  let rc ← call (.CreatePlaceHolder (contentId e) ph e.size)
  check rc .PlaceholderError "CreatePlaceHolder"
  let plan := plan.modify i fun p => { p with placeholderCreated := true }
  save displayName plan "stream-writing-content"
  let r ← consumeBytes v.streamOffset e.size (toPlaceholder ph) e.name v.installedNow
  let rc ← call (.Register (contentId e) ph)
  check rc .RegistrationError "Register content(stream)"
  let plan := plan.modify i fun p => { p with placeholderCreated := false, registered := true }
  save displayName plan "stream-registered-content"
  return { v with
    streamOffset := r.1, plan, installedNow := r.2, installedBytes := r.2
    installedContents := v.installedContents + 1 }

/-- A ticket or a certificate. -/
def bufferAux (v : Vars) (e : NspEntryInfo) : Installer Vars := do
  let tooLarge := text "Ticket/cert payload is unexpectedly large"
  require (e.size ≤ STREAM_MAX_AUX_FILE) .UnsupportedFormat tooLarge
  let room ← sub STREAM_MAX_AUX_TOTAL e.size
  require (v.auxTotal ≤ room) .UnsupportedFormat tooLarge
  let r ← consumeBytes v.streamOffset e.size toBuffer e.name ⟨zeros e.size, 0⟩
  let auxTotal ← add v.auxTotal e.size
  return { v with streamOffset := r.1, auxTotal, aux := v.aux ++ [⟨e, r.2.bytes⟩] }

/-- The data of an entry, which the stream has come to. -/
def streamData (displayName : Bytes) (v : Vars) (e : NspEntryInfo) : Installer Vars :=
  if e.isNca then
    match findPlan v.plan (contentId e) with
    | none => throw (.stop ⟨.InternalError, text "NCA missing from stream content plan"⟩)
    | some (p, i) =>
      if p.preExisting then do
        let streamOffset ← skipBytes v.streamOffset e.size (e.name ++ text " (already present)")
        return { v with streamOffset }
      else installContent displayName v e i
  else if e.isTicket || e.isCert then bufferAux v e
  else do
    let streamOffset ← skipBytes v.streamOffset e.size (text "Skipping " ++ e.name)
    return { v with streamOffset }

/-- The body of the loop over the entries. -/
def streamEntry (displayName : Bytes) (v : Vars) (e : NspEntryInfo) : Installer Vars := do
  require (v.streamOffset ≤ e.offset) .InvalidPfs0
    (text "Overlapping/out-of-order PFS0 entries")
  if v.streamOffset < e.offset then do
    let gap ← sub e.offset v.streamOffset
    let streamOffset ← skipBytes v.streamOffset gap (text "Skipping NSP padding")
    streamData displayName { v with streamOffset } e
  else streamData displayName v e

/-- What is left of the package behind the entries. -/
def finish (manifest : NspManifest) (v : Vars) : Installer Vars :=
  if v.streamOffset < manifest.packageSize then do
    let trailer ← sub manifest.packageSize v.streamOffset
    let streamOffset ← skipBytes v.streamOffset trailer (text "Finishing NSP stream")
    return { v with streamOffset }
  else return v

/-- `installNspStreamToSdTransactional`, from the manifest to the end of the stream. -/
def streamPackage (displayName : Bytes) (manifest : NspManifest) (streamOffset : ℕ) :
    Installer Vars := do
  require (findCnmt manifest).isSome .MissingContent (text "CNMT NCA missing")
  openContext
  let planned ← manifest.entries.foldlM planEntry ([], 0)
  checkSpace planned.2
  save displayName planned.1 "stream-prepared"
  let v ← (physical manifest).foldlM (streamEntry displayName)
    { streamOffset, plan := planned.1 }
  finish manifest v

end NspStream
