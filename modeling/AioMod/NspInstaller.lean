/-
# The install of an NSP that is sent

`installNspStreamToSdTransactional` as one program: the recovery of what an earlier run left, the
tables, the contents as they arrive (`NspStream`), the content meta and its tests, the meta
database, the ticket and the application record.  From the first journal on, every failure is rolled
back by the recovery.
-/
import AioMod.NspInstall

namespace NspInstall

open ByteImage
open Nsp (NspEntryInfo NspManifest Diagnostic ErrorCode text to_string)
open NspJournal (NcmId NcmContentMetaKey Json PlannedContent rcDiag hex)
open NspRecords (ContentStorageRecord addKey)
open NspApplication (NcmContentMetaType_Application NcmContentMetaType_Patch
  NcmContentMetaType_AddOnContent applicationIdFor)
open NspStream (Failure Storage toNcmId contentId findCnmt BufferedAuxFile)
open NspCnmt (ParsedMeta PackagedCnmtHeader NcmContentInfo NcmPackagedContentInfo
  NcmContentMetaInfo countsInRange ncmContentInfoSizeToU64 buildMetaDbBlob)

/-! ## The tables -/

/-- The bytes of the header, the entries and the names. -/
def readTables : Throws FnI Failure Bytes := do
  match ← call (.readExact Nsp.headerSize) with
  | none => throw (.stop ⟨.PackageTruncated, text "MTP stream ended before PFS0 header"⟩)
  | some head => do
    let header := Nsp.Pfs0Header.decode head
    require (header.magic = text "PFS0") .InvalidPfs0 (text "MTP object is not a PFS0 NSP")
    require (¬(header.fileCount = 0 ∨ Nsp.STREAM_MAX_PFS0_FILES < header.fileCount ∨
        Nsp.STREAM_MAX_STRING_TABLE < header.stringTableSize)) .InvalidPfs0
      (text "PFS0 table limits invalid; files=" ++ to_string header.fileCount ++
        text ", strings=" ++ to_string header.stringTableSize)
    match ← call (.readExact (header.fileCount * Nsp.entrySize)) with
    | none => throw (.stop ⟨.PackageTruncated, text "MTP stream ended in PFS0 entry table"⟩)
    | some raw =>
      if header.stringTableSize = 0 then return head ++ raw
      else do
        match ← call (.readExact header.stringTableSize) with
        | none => throw (.stop ⟨.PackageTruncated, text "MTP stream ended in PFS0 string table"⟩)
        | some strings => return head ++ raw ++ strings

/-- `parseStreamManifest`; nothing is called once the tables are read. -/
def parseStreamManifest (packageSize : ℕ) : Throws FnI Failure (NspManifest × ℕ) := do
  let tables ← readTables
  match Nsp.parseStreamManifest packageSize tables false with
  | .ok (r, _) => return r
  | .error d => throw (.stop d)

/-! ## The content meta -/

/-- So many bytes of the file of the CNMT. -/
def readMetaBytes (id : NcmId) (path : Bytes) (off size : ℕ) (technical : String) :
    Throws FnI Failure Bytes := do
  let r ← call (.fsFileRead id path off size)
  require (r.1 = 0 ∧ r.2.length = size) .InvalidNca (text technical)
  return r.2

/-- The loop over the contents, with those that are no delta fragments. -/
def readContentInfos (id : NcmId) (path : Bytes) :
    ℕ → ℕ → List NcmContentInfo → Throws FnI Failure (ℕ × List NcmContentInfo)
  | 0, off, infos => return (off, infos)
  | n + 1, off, infos => do
    let bs ← readMetaBytes id path off NcmPackagedContentInfo.size "CNMT contents incomplete"
    let pi := NcmPackagedContentInfo.decode bs
    readContentInfos id path n (off + NcmPackagedContentInfo.size)
      (if pi.info.content_type ≠ NspCnmt.NcmContentType_DeltaFragment then infos ++ [pi.info]
        else infos)

/-- Nothing is read where there is nothing to read. -/
def readMetaPart (id : NcmId) (path : Bytes) (off size : ℕ) (technical : String) :
    Throws FnI Failure Bytes :=
  if size = 0 then return [] else readMetaBytes id path off size technical

/-- What is read of the file. -/
def readMetaFile (atLeast15 : Bool) (id : NcmId) (path : Bytes) :
    Throws FnI Failure ParsedMeta := do
  let bs ← readMetaBytes id path 0 PackagedCnmtHeader.size "CNMT header incomplete"
  let header := PackagedCnmtHeader.decode bs
  require (countsInRange header.metaHeader) .InvalidNca (text "CNMT counts out of range")
  let extSize := header.metaHeader.extended_header_size.toNat
  let extendedHeader ← readMetaPart id path PackagedCnmtHeader.size extSize "CNMT ext incomplete"
  let r ← readContentInfos id path header.metaHeader.content_count.toNat
    (PackagedCnmtHeader.size + extSize) []
  let metaCount := header.metaHeader.content_meta_count.toNat
  let metas ← readMetaPart id path r.1 (metaCount * NcmContentMetaInfo.size)
    "CNMT meta refs incomplete"
  return {
    header, extendedHeader, contentInfos := r.2
    metaInfos := NspCnmt.decodeArray .decode NcmContentMetaInfo.size metaCount metas
    appId := applicationIdFor atLeast15 header.titleId header.metaType extendedHeader }

/-- `parseInstalledMeta`; `atLeast15` is `hosversionAtLeast(15,0,0)`. -/
def parseInstalledMeta (atLeast15 : Bool) (cnmt : NspEntryInfo) :
    Throws FnI Failure ParsedMeta := do
  let id := contentId cnmt
  let rc ← call (.GetPath id)
  check rc .RegistrationError "GetPath(CNMT)"
  let rc ← call (.fsOpenFileSystem id)
  check rc .AuthorizationRejected "fsOpenFileSystem(ContentMeta)"
  let rc ← call (.fsFsOpenDirectory id)
  check rc .InvalidNca "Open CNMT dir"
  let cnt ← call (.fsDirGetEntryCount id)
  require (cnt.1 = 0 ∧ 0 < cnt.2 ∧ cnt.2 ≤ 32) .InvalidNca
    (text "CNMT file missing or directory count invalid")
  let ents ← call (.fsDirRead id cnt.2.toNat)
  require (ents.1 = 0 ∧ 0 < ents.2.length) .InvalidNca (text "CNMT file missing")
  let path := 47 :: ents.2.headD []
  let rc ← call (.fsFsOpenFile id path)
  check rc .InvalidNca "Open CNMT file"
  readMetaFile atLeast15 id path

/-! ## Its tests -/

def findEntry (manifest : NspManifest) (id : NcmId) : Option NspEntryInfo :=
  manifest.entries.find? fun e => e.isNca && e.contentId.isSome && decide (contentId e = id)

/-- `streamValidateCnmtReferences`: the text of the first content that is missing or has another
size. -/
def streamValidateCnmtReferences (m : ParsedMeta) (manifest : NspManifest) : Option Bytes :=
  m.contentInfos.findSome? fun info =>
    match findEntry manifest info.content_id with
    | none => some (text "CNMT references ContentId missing from NSP: " ++ hex info.content_id.1)
    | some e =>
      let expected := ncmContentInfoSizeToU64 info
      if e.size ≠ expected then
        some (text "CNMT/NCA size mismatch for " ++ e.name ++ text "; cnmt=" ++
          to_string expected ++ text ", pfs0=" ++ to_string e.size)
      else none

/-- `NcmContentInstallType_Full` -/
def NcmContentInstallType_Full : UInt8 := 0

def keyOf (header : PackagedCnmtHeader) : NcmContentMetaKey :=
  ⟨header.titleId, header.titleVersion, header.metaType, NcmContentInstallType_Full, (0, 0)⟩

/-- The base application is installed, on the card or in the console's memory. -/
def findBase (appId : UInt64) : Throws FnI Failure Bool := do
  let r ← call (.GetLatestContentMetaKey false appId)
  if r.1 = 0 ∧ r.2.type = NcmContentMetaType_Application then return true
  else do
    let urc ← call .openUserDatabase
    if urc = 0 then do
      let r ← call (.GetLatestContentMetaKey true appId)
      return decide (r.1 = 0 ∧ r.2.type = NcmContentMetaType_Application)
    else return false

/-- `inspect`: a version of the same content, and the latest of those that were found. -/
def inspect (user : Bool) (header : PackagedCnmtHeader) (acc : Bool × UInt32) :
    Throws FnI Failure (Bool × UInt32) := do
  let r ← call (.GetLatestContentMetaKey user header.titleId)
  if r.1 = 0 ∧ r.2.type = header.metaType then return (true, max acc.2 r.2.version)
  else return acc

/-- The versions of the same content on the card and in the console's memory. -/
def inspectBoth (header : PackagedCnmtHeader) : Throws FnI Failure (Bool × UInt32) := do
  let onCard ← inspect false header (false, 0)
  let urc ← call .openUserDatabase
  if urc = 0 then inspect true header onCard else return onCard

/-- `streamRequiredSystemVersion`: the field behind the first one, if the header is long enough. -/
def streamRequiredSystemVersion (metaType : UInt8) (ext : Bytes) : UInt32 :=
  if metaType = NcmContentMetaType_Application ∧ 0x10 ≤ ext.length then u32 ext 8
  else if metaType = NcmContentMetaType_Patch ∧ 0x18 ≤ ext.length then u32 ext 8
  else 0

/-- `streamCurrentFirmwarePacked`; the call reads the numbers of the version. -/
def streamCurrentFirmwarePacked : Throws FnI Failure UInt32 := do
  match ← call .setsysGetFirmwareVersion with
  | none => return 0
  | some (major, minor, micro) =>
    return (UInt32.ofNat (min major 0x3F) <<< 26) ||| (UInt32.ofNat (min minor 0x3F) <<< 20) |||
      (UInt32.ofNat (min micro 0x0F) <<< 16)

def formatPackedSystemVersion (version : UInt32) : Bytes :=
  if version = 0 then text "0.0.0"
  else
    to_string ((version >>> 26) &&& 0x3F).toNat ++ text "." ++
      to_string ((version >>> 20) &&& 0x3F).toNat ++ text "." ++
      to_string ((version >>> 16) &&& 0x0F).toNat

/-- A patch or an add-on content, which belongs to a base application. -/
def needsBase (metaType : UInt8) : Bool :=
  metaType = NcmContentMetaType_Patch || metaType = NcmContentMetaType_AddOnContent

/-- The base of such a content has to be installed. -/
def testBase (m : ParsedMeta) : Throws FnI Failure Unit :=
  if needsBase m.header.metaType then do
    let baseFound ← findBase m.appId
    require (baseFound = true) .MissingContent
      (text "The base application is not installed. Install the base game before its update/DLC.")
  else return ()

/-- `validateStreamMetaAgainstInstalled` -/
def validateStreamMetaAgainstInstalled (m : ParsedMeta) :
    Throws FnI Failure NcmContentMetaKey := do
  let type := m.header.metaType
  require (type = NcmContentMetaType_Application ∨ type = NcmContentMetaType_Patch ∨
      type = NcmContentMetaType_AddOnContent) .UnsupportedFormat
    (text "Only Application, Patch and AddOnContent CNMT types are supported.")
  let exact ← call (.MetaHas (keyOf m.header))
  check exact.1 .RegistrationError "ContentMetaDatabaseHas"
  require (exact.2 = false) .AlreadyInstalled
    (text "This exact title/version is already installed.")
  testBase m
  let found ← inspectBoth m.header
  require (¬(found.1 = true ∧ m.header.titleVersion ≤ found.2)) .AlreadyInstalled
    (text "The same or a newer version is already installed.")
  require (¬(type = NcmContentMetaType_Application ∧ found.1 = true)) .AlreadyInstalled
    (text "Base application replacement is disabled; install newer content as an Update/Patch.")
  let required := streamRequiredSystemVersion type m.extendedHeader
  let current ← streamCurrentFirmwarePacked
  require (¬(required ≠ 0 ∧ current ≠ 0 ∧ current < required)) .FirmwareTooOld
    (text "required=" ++ formatPackedSystemVersion required ++ text ", current=" ++
      formatPackedSystemVersion current)
  return keyOf m.header

/-! ## Ticket and record -/

/-- The first rights id that is not zero, of the contents that are no metas. -/
def findRights : List NspEntryInfo → Throws FnI Failure (Option NcmId)
  | [] => return none
  | e :: es =>
    if e.isCnmtNca then findRights es
    else do
      let rr ← call (.GetRightsIdFromContentId (contentId e))
      if rr.1 = 0 ∧ rr.2 ≠ toNcmId [] then return some rr.2 else findRights es

def findBufferedRights (aux : List BufferedAuxFile) (rights : NcmId) (ticket : Bool) :
    Option BufferedAuxFile :=
  let wanted := hex rights.1
  aux.find? fun f =>
    (if ticket then f.entry.isTicket else f.entry.isCert) &&
      decide (wanted.length ≤ f.entry.name.length) &&
      wanted.map Nsp.tolower == (f.entry.name.take wanted.length).map Nsp.tolower

def importTicket (tik cert : Bytes) : Throws FnI Failure ℕ := do
  let rc ← call .smGetService
  if rc = 0 then call (.ImportTicket tik cert) else return rc

/-- The ticket of a title that is managed by rights; whether one was imported. -/
def importRights (planned : List NspEntryInfo) (aux : List BufferedAuxFile) :
    Throws FnI Failure Bool := do
  match ← findRights planned with
  | none => return false
  | some rights =>
    match findBufferedRights aux rights true, findBufferedRights aux rights false with
    | some tik, some cert => do
      let rc ← importTicket tik.bytes cert.bytes
      check rc .AuthorizationRejected "es ImportTicket(stream)"
      return true
    | _, _ =>
      throw (.stop ⟨.MissingContent, text "Rights-managed title requires matching .tik and .cert"⟩)

/-- The records that the application has, with the first failure. -/
def listRecords (appId : UInt64) : Throws FnI Failure (ℕ × List ContentStorageRecord) := do
  let rr ← call .nsInitialize
  if rr ≠ 0 then return (rr, [])
  else do
    let rr ← call .nsGetApplicationManagerInterface
    if rr ≠ 0 then return (rr, [])
    else do
      let r ← call (.ListRecords appId)
      return (r.1, if r.1 = 0 then r.2 else [])

def pushApplicationRecord (appId : UInt64) (records : List ContentStorageRecord) :
    Throws FnI Failure ℕ := do
  let rc ← call .nsInitialize
  if rc ≠ 0 then return rc
  else do
    let rc ← call .nsGetApplicationManagerInterface
    if rc ≠ 0 then return rc else call (.PushRecord appId records)

/-! ## The installer -/

/-- What a journal is about. -/
structure Transaction where
  displayName : Bytes
  appId : UInt64
  key : NcmContentMetaKey
  plan : List PlannedContent

/-- The journal of a transaction. -/
def Transaction.json (t : Transaction) (metaSet recordPushed ticketImported : Bool)
    (stage : String) : Json :=
  NspJournal.saveJournal t.displayName t.appId t.key t.plan metaSet recordPushed ticketImported
    (text stage)

def Transaction.save (t : Transaction) (metaSet recordPushed ticketImported : Bool)
    (stage : String) : Throws FnI Failure Unit :=
  Throws.lift (saveJournal (t.json metaSet recordPushed ticketImported stage))

/-- `RealInstallResult` of an install that succeeds. -/
structure Installed where
  titleId : UInt64
  applicationId : UInt64
  installedBytes : ℕ
  installedContents : ℕ
  ticketImported : Bool

/-- The entries that are planned. -/
def plannedEntries (manifest : NspManifest) : List NspEntryInfo :=
  manifest.entries.filter fun e => e.isNca && e.contentId.isSome

/-- The meta is put into the database. -/
def setMeta (t : Transaction) (blob : Bytes) : Throws FnI Failure Unit := do
  t.save true false false "metadata-pending"
  let rc ← call (.MetaSet t.key blob)
  check rc .RegistrationError "ContentMetaDatabaseSet(stream)"
  let rc ← call .MetaCommit
  check rc .RegistrationError "ContentMetaDatabaseCommit(stream)"
  t.save true false false "metadata-committed"

/-- The journal says that a ticket was imported. -/
def saveTicket (t : Transaction) (ticketImported : Bool) : Throws FnI Failure Unit :=
  if ticketImported then t.save true false true "ticket-imported" else return ()

/-- The key joins the application's records. -/
def pushRecord (t : Transaction) (metaType : UInt8) (ticketImported : Bool) :
    Throws FnI Failure Unit := do
  let rr ← listRecords t.appId
  require (¬(rr.1 ≠ 0 ∧ metaType ≠ NcmContentMetaType_Application)) .RegistrationError
    (rcDiag rr.1 "ListApplicationRecordContentMeta(stream)")
  t.save true false ticketImported "application-record-pending"
  let rc ← pushApplicationRecord t.appId (addKey t.key rr.2)
  check rc .RegistrationError "PushApplicationRecord(stream)"
  t.save true true ticketImported "application-record"
  t.save true true ticketImported "complete"
  let _ ← Throws.lift removeJournal
  return ()

/-- What follows the end of the stream. -/
def finishInstall (atLeast15 : Bool) (displayName : Bytes) (manifest : NspManifest)
    (cnmt : NspEntryInfo) (v : NspStream.Vars) : Throws FnI Failure Installed := do
  let m ← parseInstalledMeta atLeast15 cnmt
  match streamValidateCnmtReferences m manifest with
  | some refError => throw (.stop ⟨.MissingContent, refError⟩)
  | none => do
    let key ← validateStreamMetaAgainstInstalled m
    let t : Transaction := ⟨displayName, m.appId, key, v.plan⟩
    t.save false false false "stream-content-complete"
    setMeta t (buildMetaDbBlob m cnmt)
    let ticketImported ← importRights (plannedEntries manifest) v.aux
    saveTicket t ticketImported
    pushRecord t m.header.metaType ticketImported
    return {
      titleId := m.header.titleId, applicationId := m.appId, installedBytes := v.installedBytes
      installedContents := v.installedContents, ticketImported }

/-- The entries in the order of the package, and what is left behind them. -/
def streamContents (displayName : Bytes) (manifest : NspManifest) (v : NspStream.Vars) :
    NspStream.Installer NspStream.Vars := do
  let v ← (NspStream.physical manifest).foldlM (NspStream.streamEntry displayName) v
  NspStream.finish manifest v

/-- What is done with the first journal saved, and its rollback. -/
def transact (atLeast15 : Bool) (displayName : Bytes) (manifest : NspManifest)
    (cnmt : NspEntryInfo) (v : NspStream.Vars) : Throws FnI Failure Installed :=
  tryCatch
    (do
      let v ← streaming (streamContents displayName manifest v)
      finishInstall atLeast15 displayName manifest cnmt v)
    fun e => do
      let _ ← Throws.lift recoverStaleRealInstall
      throw e

/-- What is done with an accepted manifest: the plan, and the transaction. -/
def installManifest (atLeast15 : Bool) (displayName : Bytes) (manifest : NspManifest)
    (streamOffset : ℕ) : Throws FnI Failure Installed := do
  match findCnmt manifest with
  | none => throw (.stop ⟨.MissingContent, text "CNMT NCA missing"⟩)
  | some cnmt => do
    streaming NspStream.openContext
    let planned ← streaming (manifest.entries.foldlM NspStream.planEntry ([], 0))
    streaming (NspStream.checkSpace planned.2)
    streaming (NspStream.save displayName planned.1 "stream-prepared")
    transact atLeast15 displayName manifest cnmt { streamOffset, plan := planned.1 }

/-- `installNspStreamToSdTransactional` -/
def installNspStreamToSdTransactional (atLeast15 : Bool) (displayName : Bytes) (packageSize : ℕ) :
    Throws FnI Failure Installed := do
  let recovery ← Throws.lift recoverStaleRealInstall
  require (recovery.1 = true) .RegistrationError
    (text "Recovery failed: " ++ recovery.2.getD [])
  let found ← call .existsJournal
  require (found = false) .RegistrationError
    (text "Install journal remained after recovery: " ++ recovery.2.getD [])
  let (manifest, streamOffset) ← parseStreamManifest packageSize
  installManifest atLeast15 displayName manifest streamOffset

end NspInstall
