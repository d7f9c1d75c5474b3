/-
# The card under an install

What `installNspStreamToSdTransactional` and `recoverStaleRealInstall` call, and what the calls do:
the contents and placeholders on the card, the meta database, the application records, the tickets,
and the files of the journal, which are written and moved call by call.  Any call can fail, and a
program can be cut between two calls.  The recovery is a program here, so that it can be cut too.
-/
import AioMod.NspCnmt
import AioMod.NspRecords
import AioMod.ProgHandler

namespace NspInstall

open ByteImage
open Nsp (NspEntryInfo NspManifest Diagnostic ErrorCode text to_string)
open NspJournal (NcmId NcmContentMetaKey Json PlannedContent rcDiag)
open NspRecords (ContentStorageRecord)
open NspStream (Failure Storage toNcmId)

/-! ## The calls -/

/-- What is called.  The calls of a file of the CNMT have its content. -/
inductive Fn where
  | ncmInitialize | ncmOpenContentStorage | ncmOpenContentMetaDatabase
  | Has (id : NcmId) | Delete (id : NcmId)
  | HasPlaceHolder (ph : NcmId) | DeletePlaceHolder (ph : NcmId)
  | GeneratePlaceHolderId
  | CreatePlaceHolder (content ph : NcmId) (size : ℕ)
  | WritePlaceHolder (ph : NcmId) (offset : ℕ) (data : Bytes)
  | Register (content ph : NcmId)
  | GetPath (id : NcmId) | fsOpenFileSystem (id : NcmId) | fsFsOpenDirectory (id : NcmId)
  | fsDirGetEntryCount (id : NcmId) | fsDirRead (id : NcmId) (count : ℕ)
  | fsFsOpenFile (id : NcmId) (path : Bytes)
  | fsFileRead (id : NcmId) (path : Bytes) (offset size : ℕ)
  | MetaHas (key : NcmContentMetaKey) | openUserDatabase
  | GetLatestContentMetaKey (user : Bool) (id : UInt64)
  | MetaSet (key : NcmContentMetaKey) (blob : Bytes) | MetaRemove (key : NcmContentMetaKey)
  | MetaCommit
  | GetRightsIdFromContentId (id : NcmId)
  | smGetService | ImportTicket (tik cert : Bytes)
  | nsInitialize | nsGetApplicationManagerInterface
  | ListRecords (appId : UInt64)
  | PushRecord (appId : UInt64) (records : List ContentStorageRecord)
  | nsGetFreeSpaceSize | setsysGetFirmwareVersion
  | getInterupt | readExact (size : ℕ)
  | existsJournal | openJournal | create_directories
  | openTmp | writeTmp (journal : Json) | renameTmp
  | removeTmp | removeRecovered | removeActive | existsActive | renameActive

/-- What a call returns; the result 0 is success, and what is returned with it is valid then. -/
@[reducible] def Fn.Res : Fn → Type
  | .Has _ | .HasPlaceHolder _ | .MetaHas _ | .existsActive => ℕ × Bool
  | .GeneratePlaceHolderId | .GetRightsIdFromContentId _ => ℕ × NcmId
  | .fsDirGetEntryCount _ | .nsGetFreeSpaceSize => ℕ × ℤ
  | .fsDirRead _ _ => ℕ × List Bytes
  | .fsFileRead _ _ _ _ => ℕ × Bytes
  | .GetLatestContentMetaKey _ _ => ℕ × NcmContentMetaKey
  | .ListRecords _ => ℕ × List ContentStorageRecord
  | .setsysGetFirmwareVersion => Option (ℕ × ℕ × ℕ)
  | .getInterupt | .existsJournal | .openTmp | .writeTmp _ => Bool
  | .readExact _ => Option Bytes
  | .openJournal => Option (Option Json)
  | _ => ℕ

@[reducible] def FnI : Interface := ⟨Fn, Fn.Res⟩

/-- Make a call. -/
def call {ε : Type} (fn : Fn) : Throws FnI ε fn.Res := Throws.call (I := FnI) fn

/-- Make a call of a program that does not throw. -/
def op (fn : Fn) : Prog FnI fn.Res := Prog.op (I := FnI) fn

/-! ## The card -/

/-- The meta database: keys with their records. -/
abbrev MetaDatabase := List (NcmContentMetaKey × Bytes)

/-- How much of the stream was read, the content manager with the meta database in memory and as it
was committed, that of the console's own memory, the application records, the tickets, and the files
of the journal: each is there with a text, or with one that is no JSON. -/
structure World where
  pos : ℕ
  storage : Storage
  db : MetaDatabase
  saved : MetaDatabase
  userDb : List NcmContentMetaKey
  records : UInt64 → List ContentStorageRecord
  tickets : List (Bytes × Bytes)
  journal : Option (Option Json)
  tmp : Option (Option Json)
  recovered : Bool

namespace Storage

/-- `ncmContentStorageDelete` -/
def delete (st : Storage) (id : NcmId) : Storage :=
  { st with contents := st.contents.filter fun c => c.id ≠ id }

/-- `ncmContentStorageHasPlaceHolder` -/
def hasPlaceHolder (st : Storage) (ph : NcmId) : Bool := st.placeholders.any fun p => p.id = ph

/-- `ncmContentStorageDeletePlaceHolder` -/
def deletePlaceHolder (st : Storage) (ph : NcmId) : Storage :=
  { st with placeholders := st.placeholders.filter fun p => p.id ≠ ph }

end Storage

/-- `ncmContentMetaDatabaseRemove` -/
def remove (db : MetaDatabase) (key : NcmContentMetaKey) : MetaDatabase :=
  db.filter fun m => m.1 ≠ key

/-- `ncmContentMetaDatabaseSet` -/
def set (db : MetaDatabase) (key : NcmContentMetaKey) (blob : Bytes) : MetaDatabase :=
  remove db key ++ [(key, blob)]

/-- `ncmContentMetaDatabaseGetLatestContentMetaKey`: the greatest version. -/
def IsLatest (keys : List NcmContentMetaKey) (id : UInt64) (key : NcmContentMetaKey) : Prop :=
  key ∈ keys ∧ key.id = id ∧ ∀ k ∈ keys, k.id = id → k.version ≤ key.version

/-- What does not change: the package that is sent, and the files in the contents that are metas. -/
structure Env where
  stream : Bytes
  files : NcmId → List (Bytes × Bytes)

/-- The file of a path in a content. -/
def Env.file (env : Env) (id : NcmId) (path : Bytes) : Bytes :=
  ((env.files id).find? fun f => 47 :: f.1 = path).elim [] Prod.snd

/-- What a call can return, and the state after it: it works as documented, or it fails and
changes nothing, except that a failing read may have taken something off the stream, and that a
failing write leaves a text that is no JSON. -/
def ncm (env : Env) : Machine FnI World
  | s, .Has id, r, s' => s' = s ∧ (r.1 = 0 → r.2 = s.storage.has id)
  | s, .Delete id, rc, s' =>
    s' = if rc = 0 then { s with storage := Storage.delete s.storage id } else s
  | s, .HasPlaceHolder ph, r, s' =>
    s' = s ∧ (r.1 = 0 → r.2 = Storage.hasPlaceHolder s.storage ph)
  | s, .DeletePlaceHolder ph, rc, s' =>
    s' = if rc = 0 then { s with storage := Storage.deletePlaceHolder s.storage ph } else s
  | s, .CreatePlaceHolder _ ph size, rc, s' =>
    if rc = 0 then
      (∀ p ∈ s.storage.placeholders, p.id ≠ ph) ∧
        s' = { s with storage := s.storage.create ph size }
    else s' = s
  | s, .WritePlaceHolder ph offset data, rc, s' =>
    s' = if rc = 0 then { s with storage := s.storage.write ph offset data } else s
  | s, .Register content ph, rc, s' =>
    if rc = 0 then
      s.storage.has content = false ∧
        s' = { s with storage := s.storage.register content ph }
    else s' = s
  | s, .fsDirGetEntryCount id, r, s' => s' = s ∧ (r.1 = 0 → r.2 = (env.files id).length)
  | s, .fsDirRead id count, r, s' =>
    s' = s ∧ (r.1 = 0 → r.2 = ((env.files id).map Prod.fst).take count)
  | s, .fsFileRead id path offset size, r, s' =>
    s' = s ∧ (r.1 = 0 → r.2 = slice (env.file id path) offset size)
  | s, .MetaHas key, r, s' => s' = s ∧ (r.1 = 0 → r.2 = s.db.any fun m => m.1 = key)
  | s, .GetLatestContentMetaKey user id, r, s' =>
    s' = s ∧ (r.1 = 0 → IsLatest (if user then s.userDb else s.db.map Prod.fst) id r.2)
  | s, .MetaSet key blob, rc, s' => s' = if rc = 0 then { s with db := set s.db key blob } else s
  | s, .MetaRemove key, rc, s' => s' = if rc = 0 then { s with db := remove s.db key } else s
  | s, .MetaCommit, rc, s' => s' = if rc = 0 then { s with saved := s.db } else s
  | s, .ImportTicket tik cert, rc, s' =>
    s' = if rc = 0 then { s with tickets := s.tickets ++ [(tik, cert)] } else s
  | s, .ListRecords appId, r, s' =>
    s' = s ∧ (r.1 = 0 → r.2 = (s.records appId).take NspRecords.MAX_RECORDS)
  | s, .PushRecord appId records, rc, s' =>
    s' = if rc = 0 then { s with records := Function.update s.records appId records } else s
  | s, .readExact size, some data, s' =>
    Nsp.readExact env.stream s.pos size = some data ∧ s' = { s with pos := s.pos + size }
  | s, .readExact _, none, s' => ∃ pos, s' = { s with pos }
  | s, .existsJournal, r, s' => s' = s ∧ r = s.journal.isSome
  | s, .openJournal, r, s' => s' = s ∧ ∀ t, r = some t → s.journal = some t
  | s, .openTmp, ok, s' => s' = if ok then { s with tmp := some none } else s
  | s, .writeTmp journal, ok, s' =>
    s' = { s with tmp := some (if ok then some journal else none) }
  | s, .renameTmp, rc, s' =>
    if rc = 0 then s.tmp ≠ none ∧ s' = { s with journal := s.tmp, tmp := none } else s' = s
  | s, .removeTmp, rc, s' => s' = if rc = 0 then { s with tmp := none } else s
  | s, .removeRecovered, rc, s' => s' = if rc = 0 then { s with recovered := false } else s
  | s, .removeActive, rc, s' => s' = if rc = 0 then { s with journal := none } else s
  | s, .existsActive, r, s' => s' = s ∧ (r.1 = 0 → r.2 = s.journal.isSome)
  | s, .renameActive, rc, s' =>
    if rc = 0 then s.journal ≠ none ∧ s' = { s with journal := none, recovered := true } else s' = s
  | s, _, _, s' => s' = s

section steps

variable {env : Env} {s s' : World} {rc : ℕ}

theorem ncm_create {content ph : NcmId} {size : ℕ} :
    ncm env s (.CreatePlaceHolder content ph size) rc s' ↔
      if rc = 0 then
        (∀ p ∈ s.storage.placeholders, p.id ≠ ph) ∧
          s' = { s with storage := s.storage.create ph size }
      else s' = s := Iff.rfl

theorem ncm_register {content ph : NcmId} :
    ncm env s (.Register content ph) rc s' ↔
      if rc = 0 then
        s.storage.has content = false ∧
          s' = { s with storage := s.storage.register content ph }
      else s' = s := Iff.rfl

theorem ncm_renameTmp :
    ncm env s .renameTmp rc s' ↔
      if rc = 0 then s.tmp ≠ none ∧ s' = { s with journal := s.tmp, tmp := none } else s' = s :=
  Iff.rfl

theorem ncm_renameActive :
    ncm env s .renameActive rc s' ↔
      if rc = 0 then s.journal ≠ none ∧ s' = { s with journal := none, recovered := true }
      else s' = s :=
  Iff.rfl

end steps

/-- The console is switched off and on: what was not committed is gone. -/
def reboot (s : World) : World := { s with db := s.saved }

/-! ## Diagnostics -/

/-- Return with a diagnostic unless the condition holds. -/
def require (c : Prop) [Decidable c] (code : ErrorCode) (technical : Bytes) :
    Throws FnI Failure Unit :=
  Throws.require c (.stop ⟨code, technical⟩)

/-- Return with the diagnostic of a result that is not success. -/
def check (rc : ℕ) (code : ErrorCode) (place : String) : Throws FnI Failure Unit :=
  require (rc = 0) code (rcDiag rc place)

/-! ## The journal -/

/-- `saveJournal`: the text goes into the file beside the journal, which then takes its place; where
that is refused, the journal is removed first. -/
def saveJournal (j : Json) : Prog FnI Unit :=
  (op .create_directories).bind fun _ =>
  (op .openTmp).bind fun out =>
  ((if out then op (.writeTmp j) else .ret false) : Prog FnI Bool).bind fun _ =>
  (op .renameTmp).bind fun ec =>
  if ec = 0 then .ret ()
  else
    (op .removeActive).bind fun _ =>
    (op .renameTmp).bind fun _ => .ret ()

/-- `removeJournal`, with its detail. -/
def removeJournal : Prog FnI (Bool × Bytes) :=
  (op .removeTmp).bind fun _ =>
  (op .removeRecovered).bind fun _ =>
  (op .removeActive).bind fun _ =>
  (op .existsActive).bind fun r =>
  if r.2 = false ∧ r.1 = 0 then .ret (true, ascii "Install journal cleared.")
  else
    (op .renameActive).bind fun ec =>
    if ec = 0 then
      (op .removeRecovered).bind fun _ =>
      (op .existsActive).bind fun r =>
      if r.2 = false ∧ r.1 = 0 then
        .ret (true, ascii "Install journal cleared after rename fallback.")
      else .ret (false, ascii "Could not remove the active install journal.")
    else .ret (false, ascii "Could not remove the active install journal.")

/-- The calls of the part of the installer that reads the stream. -/
def ofStream : (fn : NspStream.Fn) → Prog FnI fn.Res
  | .ncmInitialize => op .ncmInitialize
  | .ncmOpenContentStorage => op .ncmOpenContentStorage
  | .ncmOpenContentMetaDatabase => op .ncmOpenContentMetaDatabase
  | .Has id => op (.Has id)
  | .nsGetFreeSpaceSize => op .nsGetFreeSpaceSize
  | .saveJournal j => saveJournal j
  | .getInterupt => op .getInterupt
  | .readExact size => op (.readExact size)
  | .GeneratePlaceHolderId => op .GeneratePlaceHolderId
  | .CreatePlaceHolder content ph size => op (.CreatePlaceHolder content ph size)
  | .WritePlaceHolder ph offset data => op (.WritePlaceHolder ph offset data)
  | .Register content ph => op (.Register content ph)

/-- A program of the part that reads the stream. -/
def streaming {α : Type} (p : NspStream.Installer α) : Throws FnI Failure α :=
  Throws.handle (J := FnI) ofStream p

/-! ## The recovery -/

/-- A recovery returns false with a detail, which is not set where there is an exception. -/
abbrev Recovery (α : Type) : Type := Throws FnI (Option Bytes) α

/-- Return false with a detail unless the condition holds. -/
def must (c : Prop) [Decidable c] (detail : Bytes) : Recovery Unit := Throws.require c (some detail)

/-- What is read of a journal; where there is nothing, that is an exception. -/
def json {α : Type} (r : Option α) : Recovery α :=
  match r with
  | some a => pure a
  | none => throw none

/-- `NcmContext::open`, whose diagnostic becomes the detail. -/
def openContext : Recovery Unit :=
  ExceptT.mk ((streaming NspStream.openContext).run.bind fun
    | .ok () => .ret (.ok ())
    | .error (.stop d) => .ret (.error (some d.technical))
    | .error .wrapped => .ret (.error none))

/-- The end of a recovery: the journal is removed. -/
def clear (failed done : Bytes) : Recovery Bytes := do
  let r ← Throws.lift removeJournal
  must (r.1 = true) (failed ++ r.2)
  return done

/-- A journal of the kind "ncm-probe". -/
def recoverProbe (j : Json) : Recovery Bytes := do
  let s ← json (j.valueStr "placeholder_id" [])
  must ((NspJournal.fromHex s 16).1 = true)
    (ascii "Legacy ncm-probe journal has an invalid placeholder id.")
  let placeholder := toNcmId (NspJournal.fromHex s 16).2
  openContext
  let r ← call (.HasPlaceHolder placeholder)
  must (r.1 = 0) (ascii "Could not inspect legacy NCM placeholder.")
  if r.2 then do
    let rc ← call (.DeletePlaceHolder placeholder)
    must (rc = 0) (ascii "Could not remove legacy NCM placeholder.")
    clear [] (ascii "Legacy ncm-probe transaction recovered.")
  else clear [] (ascii "Legacy ncm-probe transaction recovered.")

/-- A journal of the kind "cnmt-analysis". -/
def recoverAnalysis (j : Json) : Recovery Bytes := do
  let s ← json (j.valueStr "content_id" [])
  must ((NspJournal.fromHex s 16).1 = true)
    (ascii "Legacy cnmt-analysis journal has an invalid ContentId.")
  let content := toNcmId (NspJournal.fromHex s 16).2
  let created ← json (j.valueBool "content_created" false)
  if created then do
    openContext
    let r ← call (.Has content)
    must (r.1 = 0) (ascii "Could not inspect legacy CNMT content.")
    if r.2 then do
      let rc ← call (.Delete content)
      must (rc = 0) (ascii "Could not remove legacy CNMT content.")
      clear [] (ascii "Legacy cnmt-analysis transaction recovered.")
    else clear [] (ascii "Legacy cnmt-analysis transaction recovered.")
  else clear [] (ascii "Legacy cnmt-analysis transaction recovered.")

/-- The meta database is rolled back. -/
def undoMeta (j : Json) : Recovery Unit := do
  let metaSet ← json (j.valueBool "meta_set" false)
  if metaSet then do
    let key ← json (NspJournal.metaKeyOf j)
    let _ ← call (.MetaRemove key)
    let _ ← call .MetaCommit
    return ()
  else return ()

/-- The calls for a content of the journal. -/
def undoContent (x : Json) : Recovery Unit := do
  match ← json (NspJournal.undoOf x) with
  | .deleteContent cid => do
    let r ← call (.Has (toNcmId cid))
    if r.1 = 0 ∧ r.2 = true then do
      let _ ← call (.Delete (toNcmId cid))
      return ()
    else return ()
  | .deletePlaceHolder ph => do
    let r ← call (.HasPlaceHolder (toNcmId ph))
    if r.1 = 0 ∧ r.2 = true then do
      let _ ← call (.DeletePlaceHolder (toNcmId ph))
      return ()
    else return ()
  | .nothing => return ()

/-- The rollback of the contents, the last one first. -/
def undoContents (j : Json) : Recovery Unit :=
  match j.field "contents" with
  | some (some contents) => Throws.forEach undoContent contents.items.reverse
  | _ => pure ()

/-- A journal of the kind "real-install". -/
def recoverInstall (j : Json) : Recovery Bytes := do
  let stage ← json (j.valueStr "stage" [])
  if stage = ascii "application-record" ∨ stage = ascii "complete" then
    clear [] (ascii "Completed install journal cleared.")
  else do
    openContext
    undoMeta j
    undoContents j
    clear (ascii "Rollback completed, but ")
      (ascii "Interrupted AIO install rolled back and journal cleared.")

/-- What a journal is recovered by. -/
def recoverJournal (j : Json) : Recovery Bytes := do
  let owner ← json (j.valueStr "owner" [])
  must (owner = ascii "aio-switch-updater-mod")
    (ascii "Install journal belongs to an unknown owner; it was preserved.")
  let kind ← json (j.valueStr "kind" [])
  if kind = ascii "ncm-probe" then recoverProbe j
  else if kind = ascii "cnmt-analysis" then recoverAnalysis j
  else do
    must (kind = ascii "real-install") (ascii "Unknown AIO install journal kind: " ++ kind)
    recoverInstall j

/-- The journal is opened and recovered. -/
def openAndRecover : Recovery Bytes := do
  match ← call .openJournal with
  | none => throw (some (ascii "Could not open install journal for recovery."))
  | some t => do
    let j ← json t
    recoverJournal j

/-- `recoverStaleRealInstall`: its answer and the detail. -/
def recoverStaleRealInstall : Prog FnI (Bool × Option Bytes) :=
  (op .existsJournal).bind fun found =>
  if found = false then .ret (true, none)
  else
    openAndRecover.run.bind fun
      | .ok done => .ret (true, some done)
      | .error detail => .ret (false, detail)

end NspInstall
