/-
# The Horizon side of the CFW update

`utils.cpp`: the application's view of the transaction of the CFW updater.  It tells
whether a transaction is pending and, after a boot into the new CFW, commits it.  Log
messages are left out.
-/
import AioMod.HorizonFs
import AioMod.CfwUpdater

namespace Util

/-! ## Paths -/

def CFW_UPDATE_ROOT_NATIVE : FsPath := ["aio-mod-update"]
def CFW_UPDATE_NEW_NATIVE : FsPath := ["aio-mod-update", "new"]
def CFW_UPDATE_BACKUP_NATIVE : FsPath := ["aio-mod-update", "backup"]
def CFW_UPDATE_READY_PATH : FsPath := ["aio-mod-update", "ready"]
def CFW_UPDATE_STATE_PATH : FsPath := ["aio-mod-update", "state"]
def CFW_UPDATE_STATE_TMP_PATH : FsPath := ["aio-mod-update", "state.tmp"]
def CFW_UPDATE_RECOVERY_PAYLOAD_PATH : FsPath := ["aio-mod-update", "recovery.bin"]
def MARIKO_PAYLOAD_PATH_TEMP : FsPath := ["payload.bin.aio"]

/-- Both sides speak of the same files. -/
example : [CFW_UPDATE_ROOT_NATIVE, CFW_UPDATE_NEW_NATIVE, CFW_UPDATE_BACKUP_NATIVE,
    CFW_UPDATE_READY_PATH, CFW_UPDATE_STATE_PATH, CFW_UPDATE_STATE_TMP_PATH,
    CFW_UPDATE_RECOVERY_PAYLOAD_PATH, MARIKO_PAYLOAD_PATH_TEMP] =
    [CfwUpdater.UPDATE_ROOT, CfwUpdater.UPDATE_NEW, CfwUpdater.UPDATE_BACKUP,
      CfwUpdater.UPDATE_READY, CfwUpdater.UPDATE_STATE, CfwUpdater.UPDATE_STATE_TMP,
      CfwUpdater.RECOVERY_PAYLOAD, CfwUpdater.MARIKO_PAYLOAD_FALLBACK] := rfl

/-! ## Native helpers -/

inductive CfwDirProbe : Type where
  | Missing | Empty | NonEmpty | Error
  deriving DecidableEq

def cfwSdFileSystem : Prog Horizon Bool := hcall .fsdevGetDeviceFileSystem

/-- A directory that cannot be opened is missing when it can be created. -/
def cfwProbeDirectory (path : FsPath) : Prog Horizon CfwDirProbe := do
  if !(← cfwSdFileSystem) then
    return .Error
  if ← hcall (.fsFsOpenDirectory path) then
    match ← hcall (.fsDirRead path) with
    | none => return .Error
    | some count => return if count = 0 then .Empty else .NonEmpty
  else if ← hcall (.fsFsCreateDirectory path) then
    let _ ← hcall (.fsFsDeleteDirectory path)
    return .Missing
  else
    return .Error

def cfwCreateDirectoryNative (path : FsPath) : Prog Horizon Bool := do
  if !(← cfwSdFileSystem) then
    return false
  if ← hcall (.fsFsCreateDirectory path) then
    return true
  let probe ← cfwProbeDirectory path
  return probe = .Empty || probe = .NonEmpty

/-- A path without an entry type counts as deleted. -/
def cfwDeleteTreeNative (path : FsPath) : Prog Horizon Bool := do
  match ← hcall (.fsFsGetEntryType path) with
  | none => return true
  | some false => return false
  | some true =>
    if !(← hcall (.fsFsCleanDirectoryRecursively path)) then
      return false
    hcall (.fsFsDeleteDirectory path)

/-- `cfwCommitCleanupNative` on a single file: what is there must be a file and go. -/
def cleanupFile (path : FsPath) : Prog Horizon Bool := do
  match ← hcall (.fsFsGetEntryType path) with
  | none => return true
  | some true => return false
  | some false => hcall (.fsFsDeleteFile path)

def files_before_state : List FsPath :=
  [CFW_UPDATE_RECOVERY_PAYLOAD_PATH, ["aio-mod-update", "recovery.bin.tmp"],
    CFW_UPDATE_READY_PATH, ["aio-mod-update", "ready.tmp"],
    ["aio-mod-update", "payload.next"], ["aio-mod-update", "updater-live.bin"]]

/-- The journal files go last, the temporary one first. -/
def cleanupJournal : Prog Horizon Bool := do
  if !(← cleanupFile CFW_UPDATE_STATE_TMP_PATH) then
    return false
  if !(← hcall .fsFsCommit) then
    return false
  if !(← cleanupFile CFW_UPDATE_STATE_PATH) then
    return false
  if !(← hcall .fsFsCommit) then
    return false
  let _ ← hcall (.fsFsDeleteDirectory CFW_UPDATE_ROOT_NATIVE)
  hcall .fsFsCommit

def cfwCommitCleanupNative : Prog Horizon Bool := do
  if !(← cfwSdFileSystem) then
    return false
  if !(← cfwDeleteTreeNative CFW_UPDATE_BACKUP_NATIVE) then
    return false
  if !(← cfwDeleteTreeNative CFW_UPDATE_NEW_NATIVE) then
    return false
  let stopped ← Prog.untilSome (fun path => do
    let ok ← cleanupFile path
    return if ok then none else some ()) files_before_state
  match stopped with
  | some () => return false
  | none => cleanupJournal

/-- The size of a file that is not empty. -/
def cfwNativeFileSize (path : FsPath) : Prog Horizon (Option ℕ) := do
  if !(← cfwSdFileSystem) then
    return none
  if !(← hcall (.fsFsOpenFile path)) then
    return none
  match ← hcall (.fsFileGetSize path) with
  | none => return none
  | some size => return if size = 0 then none else some size

/-- A path without an entry type counts as deleted. -/
def cfwDeleteFileNative (path : FsPath) (commit : Bool) : Prog Horizon Bool := do
  if !(← cfwSdFileSystem) then
    return false
  match ← hcall (.fsFsGetEntryType path) with
  | none => return true
  | some true => return false
  | some false =>
    if !(← hcall (.fsFsDeleteFile path)) then
      return false
    if commit then
      hcall .fsFsCommit
    else
      return true

/-- The temporary file of `cfwWriteTextFileAtomic`, once created, gets its text; on an
error it is deleted. -/
def writeTmp (tmp_path : FsPath) (text : Bytes) : Prog Horizon Bool := do
  if !(← hcall (.fsFsOpenFile tmp_path)) then
    let _ ← cfwDeleteFileNative tmp_path false
    return false
  if !(← hcall (.fsFileWrite tmp_path 0 text)) then
    let _ ← cfwDeleteFileNative tmp_path false
    return false
  return true

def cfwWriteTextFileAtomic (final_path tmp_path : FsPath) (text : Bytes) : Prog Horizon Bool := do
  if !(← cfwSdFileSystem) || text.isEmpty then
    return false
  let _ ← cfwDeleteFileNative tmp_path false
  if !(← hcall (.fsFsCreateFile tmp_path text.length)) then
    return false
  if !(← writeTmp tmp_path text) then
    return false
  let _ ← cfwDeleteFileNative final_path false
  if !(← hcall (.fsFsRenameFile tmp_path final_path)) then
    let _ ← cfwDeleteFileNative tmp_path false
    return false
  hcall .fsFsCommit

/-! ## The journal -/

/-- The text of a small file, without the line ends and NULs at its end. -/
def trimText (text : Bytes) : Bytes := text.rdropWhile fun c => c = 10 || c = 13 || c = 0

def cfwReadSmallTextFileNative (path : FsPath) : Prog Horizon Bytes := do
  if !(← cfwSdFileSystem) then
    return []
  if !(← hcall (.fsFsOpenFile path)) then
    return []
  match ← hcall (.fsFileGetSize path) with
  | none => return []
  | some size =>
    if size = 0 ∨ size > 256 then
      return []
    match ← hcall (.fsFileRead path size) with
    | none => return []
    | some text => return trimText text

def cfwReadSmallTextFileStdio (native_path : FsPath) : Prog Horizon Bytes := do
  if !(← hcall (.fopen native_path)) then
    return []
  let buf ← hcall (.fread native_path 256)
  return trimText buf

def readCfwUpdateStateFile (path : FsPath) : Prog Horizon Bytes := do
  let state ← cfwReadSmallTextFileNative path
  if !state.isEmpty then
    return state
  cfwReadSmallTextFileStdio path

def readCfwUpdateState : Prog Horizon Bytes := do
  let state ← readCfwUpdateStateFile CFW_UPDATE_STATE_PATH
  if !state.isEmpty then
    return state
  readCfwUpdateStateFile CFW_UPDATE_STATE_TMP_PATH

def writeCfwUpdateState (state : Bytes) : Prog Horizon Bool := do
  if !(← cfwCreateDirectoryNative CFW_UPDATE_ROOT_NATIVE) then
    return false
  cfwWriteTextFileAtomic CFW_UPDATE_STATE_PATH CFW_UPDATE_STATE_TMP_PATH (state ++ [10])

/-! ## The transaction -/

def hasPendingCfwUpdateTransaction : Prog Horizon Bool := do
  if !(← readCfwUpdateState).isEmpty then
    return true
  if (← cfwNativeFileSize CFW_UPDATE_READY_PATH).isSome then
    return true
  let root ← cfwProbeDirectory CFW_UPDATE_ROOT_NATIVE
  if root = .Missing || root = .Empty then
    return false
  if root = .Error then
    return true
  let backup ← cfwProbeDirectory CFW_UPDATE_BACKUP_NATIVE
  return backup = .Empty || backup = .NonEmpty || backup = .Error

/-- The part of `finalizeCfwUpdateAfterSuccessfulBoot` after the journal is at
`COMMIT_IN_PROGRESS`. -/
def commitAfterBoot (isErista : Bool) : Prog Horizon Bool := do
  if !isErista then
    let _ ← cfwDeleteFileNative MARIKO_PAYLOAD_PATH_TEMP true
    cfwCommitCleanupNative
  else
    cfwCommitCleanupNative

def finalizeCfwUpdateAfterSuccessfulBoot (isErista : Bool) : Prog Horizon Bool := do
  let state ← readCfwUpdateState
  if state = ascii "ROLLBACK_IN_PROGRESS" ∨ state = ascii "ROLLBACK_FAILED" then
    return false
  if state ≠ ascii "PENDING_BOOT" ∧ state ≠ ascii "FINALIZE_BOOT_PAYLOAD" ∧
      state ≠ ascii "COMMIT_IN_PROGRESS" then
    return false
  if state ≠ ascii "COMMIT_IN_PROGRESS" then
    if !(← writeCfwUpdateState (ascii "COMMIT_IN_PROGRESS")) then
      return false
    commitAfterBoot isErista
  else
    commitAfterBoot isErista

end Util
