/-
# Staging the CFW update

`utils.cpp`: the recovery payload is copied onto the card by way of a temporary file, and the
extracted package is looked over before the journal and the ready marker are written, which are
what the updater of the payload starts from.  The extraction itself is modelled elsewhere.
-/
import AioMod.CfwHorizon

namespace Util

/-! ## The recovery payload -/

def RECOVERY_TMP : FsPath := ["aio-mod-update", "recovery.bin.tmp"]

/-- The write loop: 16 KiB at a time, for at most `n` rounds. -/
def writePayload (path : FsPath) (payload : Bytes) : ℕ → ℕ → Prog Horizon Bool
  | 0, offset => return offset = payload.length
  | n + 1, offset =>
    if offset < payload.length then do
      let chunk := min (payload.length - offset) (16 * 1024)
      if ← hcall (.fsFileWrite path offset ((payload.drop offset).take chunk)) then
        writePayload path payload n (offset + chunk)
      else
        return false
    else return offset = payload.length

/-- The temporary file, once open, is written and flushed. -/
def fillRecoveryTmp (payload : Bytes) : Prog Horizon Bool := do
  if ← writePayload RECOVERY_TMP payload payload.length 0 then
    hcall (.fsFileFlush RECOVERY_TMP)
  else
    return false

/-- The temporary file takes the place of the payload. -/
def renameRecovery (payload : Bytes) : Prog Horizon Bool := do
  let _ ← cfwDeleteFileNative CFW_UPDATE_RECOVERY_PAYLOAD_PATH false
  if !(← hcall (.fsFsRenameFile RECOVERY_TMP CFW_UPDATE_RECOVERY_PAYLOAD_PATH)) then
    let _ ← cfwDeleteFileNative RECOVERY_TMP true
    return false
  if !(← hcall .fsFsCommit) then
    let _ ← cfwDeleteFileNative RECOVERY_TMP true
    return false
  let final_size ← cfwNativeFileSize CFW_UPDATE_RECOVERY_PAYLOAD_PATH
  return final_size = some payload.length

/-- `src` is what the stream of the built-in payload gave, if it could be read. -/
def copyRecoveryPayloadAtomic (src : Option Bytes) : Prog Horizon Bool :=
  match src with
  | none => return false
  | some payload => do
    if payload.isEmpty then
      return false
    if !(← cfwSdFileSystem) then
      return false
    let _ ← cfwDeleteFileNative RECOVERY_TMP false
    if !(← hcall (.fsFsCreateFile RECOVERY_TMP payload.length)) then
      return false
    if !(← hcall (.fsFsOpenFile RECOVERY_TMP)) then
      let _ ← cfwDeleteFileNative RECOVERY_TMP false
      return false
    if !(← fillRecoveryTmp payload) then
      let _ ← cfwDeleteFileNative RECOVERY_TMP true
      return false
    let tmp_size ← cfwNativeFileSize RECOVERY_TMP
    if tmp_size ≠ some payload.length then
      let _ ← cfwDeleteFileNative RECOVERY_TMP true
      return false
    renameRecovery payload

/-! ## The package -/

def NEW_PACKAGE3 : FsPath := ["aio-mod-update", "new", "atmosphere", "package3"]
def NEW_UPDATE_BIN : FsPath := ["aio-mod-update", "new", "bootloader", "update.bin"]
def NEW_REBOOT_PAYLOAD : FsPath := ["aio-mod-update", "new", "atmosphere", "reboot_payload.bin"]
def NEW_PAYLOAD_BIN : FsPath := ["aio-mod-update", "new", "payload.bin"]
def READY_TMP : FsPath := ["aio-mod-update", "ready.tmp"]

/-- Why a package is not staged. -/
inductive StagingFault where
  | cfw_missing_package3 | cfw_invalid_boot_method | cfw_recovery_missing | cfw_journal_failed
  | cfw_ready_marker_failed
  deriving DecidableEq

def clearMarkers : Prog Horizon Unit := do
  if ← cfwSdFileSystem then
    let _ ← cfwDeleteFileNative CFW_UPDATE_READY_PATH false
    let _ ← cfwDeleteFileNative CFW_UPDATE_STATE_PATH false
    let _ ← cfwDeleteFileNative CFW_UPDATE_STATE_TMP_PATH false
    let _ ← hcall .fsFsCommit
    return ()
  else
    return ()

def refuseStaging (fault : StagingFault) : Prog Horizon (Option StagingFault) := do
  clearMarkers
  return some fault

/-- The recovery payload is not looked at again if it has just been copied. -/
def hasRecoveryPayload (recoveryAlreadyVerified : Bool) : Prog Horizon Bool := do
  if recoveryAlreadyVerified then
    return true
  else
    return (← cfwNativeFileSize CFW_UPDATE_RECOVERY_PAYLOAD_PATH).isSome

/-- The journal, and behind it the ready marker. -/
def markStaged : Prog Horizon (Option StagingFault) := do
  if !(← writeCfwUpdateState (ascii "STAGED")) then
    refuseStaging .cfw_journal_failed
  else if !(← cfwWriteTextFileAtomic CFW_UPDATE_READY_PATH READY_TMP
      (ascii "AIO_MOD_CFW_UPDATE_V2" ++ [10])) then
    refuseStaging .cfw_ready_marker_failed
  else
    return none

/-- A Mariko console starts its own payload, an Erista console any of three. -/
def noBootMethod (erista hasHekate hasRebootPayload hasRootPayload : Bool) : Bool :=
  (!erista && !hasRootPayload) ||
    (erista && !hasHekate && !hasRebootPayload && !hasRootPayload)

/-- What keeps the package from being staged, if anything does. -/
def validateCfwUpdateStaging (erista recoveryAlreadyVerified : Bool) :
    Prog Horizon (Option StagingFault) := do
  let hasAtmosphere ← cfwNativeFileSize NEW_PACKAGE3
  let hasHekate ← cfwNativeFileSize NEW_UPDATE_BIN
  let hasRebootPayload ← cfwNativeFileSize NEW_REBOOT_PAYLOAD
  let hasRootPayload ← cfwNativeFileSize NEW_PAYLOAD_BIN
  let recovery ← hasRecoveryPayload recoveryAlreadyVerified
  if !hasAtmosphere.isSome then
    refuseStaging .cfw_missing_package3
  else if noBootMethod erista hasHekate.isSome hasRebootPayload.isSome hasRootPayload.isSome then
    refuseStaging .cfw_invalid_boot_method
  else if !recovery then
    refuseStaging .cfw_recovery_missing
  else
    markStaged

end Util
