/-
# The application updater of the payload

`aio_app_updater.c`: the NRO staged by Horizon replaces the installed one, under a
journal that a relaunched payload reads to resume or to roll back.  The pages the
updater draws are kept as far as they report: which page, which stage and which
code.  Drawing and waiting for the power button have no effect on the SD card and
are left out.
-/
import AioMod.Journal

namespace AppUpdater

/-! ## Paths and journal tokens -/

def APP_UPDATE_ROOT : FsPath := ["aio-mod-app-update"]
def APP_UPDATE_READY : FsPath := ["aio-mod-app-update", "ready"]
def APP_UPDATE_STATE : FsPath := ["aio-mod-app-update", "state"]
def APP_UPDATE_STATE_TMP : FsPath := ["aio-mod-app-update", "state.tmp"]
def APP_UPDATE_NEW_DIR : FsPath := ["aio-mod-app-update", "new"]
def APP_UPDATE_BACKUP_DIR : FsPath := ["aio-mod-app-update", "backup"]

def APP_NEW_NRO : FsPath :=
  ["aio-mod-app-update", "new", "switch", "aio-switch-updater-mod", "aio-switch-updater-mod.nro"]
def APP_BACKUP_NRO : FsPath := ["aio-mod-app-update", "backup", "aio-switch-updater-mod.nro"]
def APP_TARGET_NRO : FsPath := ["switch", "aio-switch-updater-mod", "aio-switch-updater-mod.nro"]

def MARIKO_SAVED_PAYLOAD : FsPath := ["payload.bin.aio"]
def ROOT_PAYLOAD : FsPath := ["payload.bin"]

/-- The journal tokens. -/
inductive State : Type where
  | STAGED | BACKUP_IN_PROGRESS | BACKUP_COMPLETE | COPY_IN_PROGRESS | COPY_COMPLETE
  | ROLLBACK_IN_PROGRESS | ROLLBACK_COMPLETE | COMMIT_IN_PROGRESS
  deriving DecidableEq

/-- The text of a token. -/
def State.text : State → Bytes
  | STAGED => ascii "STAGED"
  | BACKUP_IN_PROGRESS => ascii "BACKUP_IN_PROGRESS"
  | BACKUP_COMPLETE => ascii "BACKUP_COMPLETE"
  | COPY_IN_PROGRESS => ascii "COPY_IN_PROGRESS"
  | COPY_COMPLETE => ascii "COPY_COMPLETE"
  | ROLLBACK_IN_PROGRESS => ascii "ROLLBACK_IN_PROGRESS"
  | ROLLBACK_COMPLETE => ascii "ROLLBACK_COMPLETE"
  | COMMIT_IN_PROGRESS => ascii "COMMIT_IN_PROGRESS"

def journal : JournalFiles where
  root := APP_UPDATE_ROOT
  stateName := "state"
  tmpName := "state.tmp"
  ne := journal_names_ne
  strict := true

example : journal.state = APP_UPDATE_STATE ∧ journal.tmp = APP_UPDATE_STATE_TMP := ⟨rfl, rfl⟩

/-! ## File checks -/

def APP_FILE_EMPTY : ℕ := 1001
def APP_FILE_DIRECTORY : ℕ := 1002

/-! ## Helpers -/

section helpers

variable (depth FSBuffSize : ℕ)

def nonempty_file_status (path : FsPath) : Prog FatFs ℕ := do
  match ← call (.f_stat path) with
  | .error res => return code res
  | .ok info =>
    if info.isDir then
      return APP_FILE_DIRECTORY
    if info.fsize = 0 then
      return APP_FILE_EMPTY
    return code .FR_OK

def valid_nonempty_file (path : FsPath) : Prog FatFs Bool := do
  let status ← nonempty_file_status path
  return status = code .FR_OK

def file_sizes_match (a b : FsPath) : Prog FatFs Bool := do
  match ← call (.f_stat a) with
  | .error _ => return false
  | .ok ia =>
    match ← call (.f_stat b) with
    | .error _ => return false
    | .ok ib =>
      if ia.isDir || ib.isDir then
        return false
      return ia.fsize > 0 && ia.fsize = ib.fsize

/-- `remove_path_if_exists`: `FR_NO_FILE` from `f_unlink` is not an error. -/
def remove_path_if_exists (path : FsPath) : Prog FatFs FRESULT :=
  removePath (fun res => if res = .FR_NO_FILE then .FR_OK else res) depth path

def read_state : Prog FatFs (Option Bytes) := readState journal

def write_state (state : State) : Prog FatFs FRESULT :=
  writeState journal (fun res => if res = .FR_NO_FILE then .FR_OK else res) depth state.text

/-- The `while` loop of `file_contents_match`, `left` bounding the bytes to go. -/
def file_contents_match.loop (a b : FsPath) : ℕ → ℕ → ℕ → Prog FatFs Bool
  | 0, _, _ => return true
  | turns + 1, ofs, left => do
    if left = 0 then
      return true
    let size := min left 4096
    match ← call (.f_read a ofs size) with
    | .error _ => return false
    | .ok first =>
      match ← call (.f_read b ofs size) with
      | .error _ => return false
      | .ok second =>
        if first.length ≠ size ∨ second.length ≠ size ∨ first ≠ second then
          return false
        loop a b turns (ofs + size) (left - size)

def file_contents_match (a b : FsPath) : Prog FatFs Bool := do
  match ← call (.f_open a) with
  | .error _ => return false
  | .ok size_first =>
    match ← call (.f_open b) with
    | .error _ => do
      let _ ← call (.f_close a)
      return false
    | .ok size_second =>
      let buffer ← call (.malloc 8192)
      let same ← if buffer && size_first = size_second then
          file_contents_match.loop a b size_first 0 size_first
        else pure false
      let res_second ← call (.f_close b)
      let res_first ← call (.f_close a)
      return same && res_second = .FR_OK && res_first = .FR_OK

def copy_verified (src dst : FsPath) : Prog FatFs FRESULT := do
  if !(← valid_nonempty_file src) then
    return .FR_NO_FILE
  let res ← FileCopy FSBuffSize src dst
  if res ≠ .FR_OK then
    return res
  if !(← file_sizes_match src dst) then
    return .FR_DISK_ERR
  if !(← file_contents_match src dst) then
    return .FR_DISK_ERR
  return .FR_OK

def restore_mariko_payload : Prog FatFs FRESULT := do
  if !(← valid_nonempty_file MARIKO_SAVED_PAYLOAD) then
    return .FR_NO_FILE
  copy_verified FSBuffSize MARIKO_SAVED_PAYLOAD ROOT_PAYLOAD

def boot_installed_cfw_now (patched_or_mariko : Bool) : Prog FatFs Boot :=
  bootInstalled patched_or_mariko

def boot_installed_cfw (patched_or_mariko : Bool) (warning : FRESULT) : Prog FatFs Exit :=
  bootAfterCommit patched_or_mariko warning

/-- `restore_boot_payload_if_needed`; the result is the error it sets. -/
def restore_boot_payload_if_needed (patched_or_mariko : Bool) : Prog FatFs (Option UiError) := do
  if !patched_or_mariko then
    return none
  let res ← restore_mariko_payload FSBuffSize
  if res ≠ .FR_OK then
    return some ⟨"BOOT-PAYLOAD", code res⟩
  return none

/-- The first error of two. -/
def FRESULT.first (result res : FRESULT) : FRESULT := if result = .FR_OK then res else result

def cleanup_transaction (patched_or_mariko : Bool) : Prog FatFs FRESULT := do
  let result ← remove_path_if_exists depth APP_UPDATE_NEW_DIR
  let res ← remove_path_if_exists depth APP_UPDATE_BACKUP_DIR
  let result := FRESULT.first result res
  let res ← remove_path_if_exists depth APP_UPDATE_READY
  let result := FRESULT.first result res
  let res ← remove_path_if_exists depth APP_UPDATE_STATE_TMP
  let result := FRESULT.first result res
  if result ≠ .FR_OK then
    return result
  let res ← remove_path_if_exists depth APP_UPDATE_STATE
  if res ≠ .FR_OK then
    return res
  let res ← remove_path_if_exists depth APP_UPDATE_ROOT
  if res ≠ .FR_OK then
    return res
  if patched_or_mariko then
    remove_path_if_exists depth MARIKO_SAVED_PAYLOAD
  else
    return .FR_OK

def prepare_backup : Prog FatFs FRESULT := do
  let res ← mkdir_if_needed APP_UPDATE_BACKUP_DIR
  if res ≠ .FR_OK then
    return res
  let _ ← remove_path_if_exists depth APP_BACKUP_NRO
  copy_verified FSBuffSize APP_TARGET_NRO APP_BACKUP_NRO

/-! ## The three ways out -/

/-- `rollback_transaction`, `err` being the error set before. -/
def rollback_transaction (patched_or_mariko : Bool) (err : UiError) : Prog FatFs Exit := do
  let res ← write_state depth .ROLLBACK_IN_PROGRESS
  if res ≠ .FR_OK then
    return .fatal ⟨"ROLLBACK-JOURNAL", code .FR_DISK_ERR⟩
  if !(← valid_nonempty_file APP_BACKUP_NRO) then
    return .fatal ⟨"ROLLBACK-BACKUP", code .FR_NO_FILE⟩
  let res ← copy_verified FSBuffSize APP_BACKUP_NRO APP_TARGET_NRO
  if res ≠ .FR_OK then
    return .fatal ⟨"ROLLBACK-COPY", code res⟩
  let res ← write_state depth .ROLLBACK_COMPLETE
  if res ≠ .FR_OK then
    match ← restore_boot_payload_if_needed FSBuffSize patched_or_mariko with
    | some e => return .fatal e
    | none => return .fatal ⟨"ROLLBACK-STATE", code .FR_DISK_ERR⟩
  match ← restore_boot_payload_if_needed FSBuffSize patched_or_mariko with
  | some e => return .fatal e
  | none =>
    let _ ← cleanup_transaction depth patched_or_mariko
    let b ← boot_installed_cfw_now patched_or_mariko
    return .boot (.rollbackSuccess err) b

def abort_before_changes (patched_or_mariko : Bool) (err : UiError) : Prog FatFs Exit := do
  match ← restore_boot_payload_if_needed FSBuffSize patched_or_mariko with
  | some e => return .fatal e
  | none =>
    let res ← cleanup_transaction depth patched_or_mariko
    let err := if res ≠ .FR_OK ∧ err.code = 0 then ⟨"CLEANUP", code res⟩ else err
    let b ← boot_installed_cfw_now patched_or_mariko
    return .boot (.unchanged err) b

def commit_transaction (patched_or_mariko : Bool) : Prog FatFs Exit := do
  let res ← write_state depth .COMMIT_IN_PROGRESS
  if res ≠ .FR_OK then
    return ← rollback_transaction depth FSBuffSize patched_or_mariko
      ⟨"COMMIT-JOURNAL", code .FR_DISK_ERR⟩
  match ← restore_boot_payload_if_needed FSBuffSize patched_or_mariko with
  | some e => return .fatal e
  | none =>
    let res ← cleanup_transaction depth patched_or_mariko
    boot_installed_cfw patched_or_mariko res

end helpers

/-! ## The run -/

def aio_app_update_pending : Prog FatFs Bool := do
  if ← path_exists APP_UPDATE_READY then return true
  if ← path_exists APP_UPDATE_STATE then return true
  if ← path_exists APP_UPDATE_STATE_TMP then return true
  path_exists APP_UPDATE_BACKUP_DIR

section run

variable (depth FSBuffSize : ℕ) (patched_or_mariko : Bool)

/-- The part of `aio_app_update_run` behind a verified backup: install the new NRO
and commit. -/
def install_new_nro : Prog FatFs Exit := do
  if !(← valid_nonempty_file APP_BACKUP_NRO) then
    return ← rollback_transaction depth FSBuffSize patched_or_mariko
      ⟨"BACKUP-VERIFY", code .FR_DISK_ERR⟩
  if !(← file_sizes_match APP_BACKUP_NRO APP_TARGET_NRO) then
    return ← rollback_transaction depth FSBuffSize patched_or_mariko
      ⟨"BACKUP-VERIFY", code .FR_DISK_ERR⟩
  let res ← write_state depth .COPY_IN_PROGRESS
  if res ≠ .FR_OK then
    return ← rollback_transaction depth FSBuffSize patched_or_mariko
      ⟨"JOURNAL-INSTALL", code .FR_DISK_ERR⟩
  let res ← copy_verified FSBuffSize APP_NEW_NRO APP_TARGET_NRO
  if res ≠ .FR_OK then
    return ← rollback_transaction depth FSBuffSize patched_or_mariko ⟨"INSTALL", code res⟩
  if !(← file_sizes_match APP_NEW_NRO APP_TARGET_NRO) then
    return ← rollback_transaction depth FSBuffSize patched_or_mariko
      ⟨"INSTALL-VERIFY", code .FR_DISK_ERR⟩
  let res ← write_state depth .COPY_COMPLETE
  if res ≠ .FR_OK then
    return ← rollback_transaction depth FSBuffSize patched_or_mariko
      ⟨"JOURNAL-INSTALL", code .FR_DISK_ERR⟩
  commit_transaction depth FSBuffSize patched_or_mariko

/-- The part of `aio_app_update_run` that makes the backup and goes on to install. -/
def back_up_and_install : Prog FatFs Exit := do
  let res ← prepare_backup depth FSBuffSize
  if res ≠ .FR_OK then
    return ← abort_before_changes depth FSBuffSize patched_or_mariko ⟨"BACKUP", code res⟩
  let res ← write_state depth .BACKUP_COMPLETE
  if res ≠ .FR_OK then
    return ← abort_before_changes depth FSBuffSize patched_or_mariko
      ⟨"JOURNAL-BACKUP", code .FR_DISK_ERR⟩
  install_new_nro depth FSBuffSize patched_or_mariko

/-- `aio_app_update_run` from the point where the journal token is known. -/
def run_from (state : Bytes) : Prog FatFs Exit := do
  if state = State.COMMIT_IN_PROGRESS.text then
    match ← restore_boot_payload_if_needed FSBuffSize patched_or_mariko with
    | some e => return .fatal e
    | none =>
      let res ← cleanup_transaction depth patched_or_mariko
      return ← boot_installed_cfw patched_or_mariko res
  if state = State.ROLLBACK_COMPLETE.text then
    match ← restore_boot_payload_if_needed FSBuffSize patched_or_mariko with
    | some e => return .fatal e
    | none =>
      let res ← cleanup_transaction depth patched_or_mariko
      let err := if res ≠ .FR_OK then ⟨"ROLLBACK-CLEANUP", code res⟩ else ⟨"UNKNOWN", 0⟩
      let b ← boot_installed_cfw_now patched_or_mariko
      return .boot (.rollbackSuccess err) b
  if state = State.ROLLBACK_IN_PROGRESS.text then
    return ← rollback_transaction depth FSBuffSize patched_or_mariko ⟨"ROLLBACK-RESUME", 0⟩
  if state = State.COPY_IN_PROGRESS.text then
    return ← rollback_transaction depth FSBuffSize patched_or_mariko ⟨"INSTALL-INTERRUPTED", 0⟩
  if state = State.COPY_COMPLETE.text then
    return ← commit_transaction depth FSBuffSize patched_or_mariko
  let file_status ← nonempty_file_status APP_NEW_NRO
  if file_status ≠ code .FR_OK then
    if state = State.STAGED.text then
      return ← abort_before_changes depth FSBuffSize patched_or_mariko ⟨"PACKAGE", file_status⟩
    else
      return ← rollback_transaction depth FSBuffSize patched_or_mariko ⟨"PACKAGE", file_status⟩
  let file_status ← nonempty_file_status APP_TARGET_NRO
  if file_status ≠ code .FR_OK then
    if ← valid_nonempty_file APP_BACKUP_NRO then
      return ← rollback_transaction depth FSBuffSize patched_or_mariko
        ⟨"INSTALLED-NRO", file_status⟩
    else
      return ← abort_before_changes depth FSBuffSize patched_or_mariko
        ⟨"INSTALLED-NRO", file_status⟩
  if state = State.STAGED.text then
    let res ← write_state depth .BACKUP_IN_PROGRESS
    if res ≠ .FR_OK then
      return ← abort_before_changes depth FSBuffSize patched_or_mariko
        ⟨"JOURNAL-BACKUP", code .FR_DISK_ERR⟩
    return ← back_up_and_install depth FSBuffSize patched_or_mariko
  if state = State.BACKUP_IN_PROGRESS.text then
    return ← back_up_and_install depth FSBuffSize patched_or_mariko
  if state = State.BACKUP_COMPLETE.text then
    return ← install_new_nro depth FSBuffSize patched_or_mariko
  if ← valid_nonempty_file APP_BACKUP_NRO then
    rollback_transaction depth FSBuffSize patched_or_mariko ⟨"UNKNOWN-STATE", 1⟩
  else
    abort_before_changes depth FSBuffSize patched_or_mariko ⟨"UNKNOWN-STATE", 1⟩

def aio_app_update_run : Prog FatFs Exit := do
  match ← read_state with
  | some state => run_from depth FSBuffSize patched_or_mariko state
  | none =>
    if ← path_exists APP_UPDATE_READY then
      let res ← write_state depth .STAGED
      if res ≠ .FR_OK then
        return ← abort_before_changes depth FSBuffSize patched_or_mariko
          ⟨"JOURNAL", code .FR_DISK_ERR⟩
      return ← run_from depth FSBuffSize patched_or_mariko State.STAGED.text
    if ← valid_nonempty_file APP_BACKUP_NRO then
      return ← rollback_transaction depth FSBuffSize patched_or_mariko
        ⟨"JOURNAL", code .FR_INVALID_OBJECT⟩
    abort_before_changes depth FSBuffSize patched_or_mariko ⟨"STATE", 1⟩

end run

end AppUpdater
