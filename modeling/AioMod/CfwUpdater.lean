/-
# The CFW updater of the payload

`aio_cfw_updater.c`: the managed paths of the SD root move into a backup folder, the
staged tree is copied over the root, and the backup is deleted or moved back, under a
journal that a relaunched payload reads to resume.  Progress drawing, the wait for the
power button and the fault injection, which is compiled out, are left out.
-/
import AioMod.Journal

namespace CfwUpdater

/-! ## Paths and journal tokens -/

def UPDATE_ROOT : FsPath := ["aio-mod-update"]
def UPDATE_NEW : FsPath := ["aio-mod-update", "new"]
def UPDATE_BACKUP : FsPath := ["aio-mod-update", "backup"]
def UPDATE_READY : FsPath := ["aio-mod-update", "ready"]
def UPDATE_STATE : FsPath := ["aio-mod-update", "state"]
def UPDATE_STATE_TMP : FsPath := ["aio-mod-update", "state.tmp"]
def UPDATE_PAYLOAD_NEXT : FsPath := ["aio-mod-update", "payload.next"]
def UPDATE_UPDATER_SAVED : FsPath := ["aio-mod-update", "updater-live.bin"]
def MARIKO_PAYLOAD_FALLBACK : FsPath := ["payload.bin.aio"]
def ROOT_PAYLOAD : FsPath := ["payload.bin"]
def RECOVERY_PAYLOAD : FsPath := ["aio-mod-update", "recovery.bin"]

/-- The journal tokens. -/
inductive State : Type where
  | STAGED | BACKUP_IN_PROGRESS | BACKUP_COMPLETE | COPY_IN_PROGRESS | COPY_COMPLETE
  | FINALIZE_PAYLOAD | PENDING_BOOT | ROLLBACK_IN_PROGRESS | ROLLBACK_FAILED
  | COMMIT_IN_PROGRESS
  deriving DecidableEq

/-- The text of a token. -/
def State.text : State → Bytes
  | STAGED => ascii "STAGED"
  | BACKUP_IN_PROGRESS => ascii "BACKUP_IN_PROGRESS"
  | BACKUP_COMPLETE => ascii "BACKUP_COMPLETE"
  | COPY_IN_PROGRESS => ascii "COPY_IN_PROGRESS"
  | COPY_COMPLETE => ascii "COPY_COMPLETE"
  | FINALIZE_PAYLOAD => ascii "FINALIZE_BOOT_PAYLOAD"
  | PENDING_BOOT => ascii "PENDING_BOOT"
  | ROLLBACK_IN_PROGRESS => ascii "ROLLBACK_IN_PROGRESS"
  | ROLLBACK_FAILED => ascii "ROLLBACK_FAILED"
  | COMMIT_IN_PROGRESS => ascii "COMMIT_IN_PROGRESS"

def journal : JournalFiles where
  root := UPDATE_ROOT
  stateName := "state"
  tmpName := "state.tmp"
  ne := journal_names_ne
  strict := false

example : journal.state = UPDATE_STATE ∧ journal.tmp = UPDATE_STATE_TMP := ⟨rfl, rfl⟩

def managed_paths : List String :=
  ["atmosphere", "bootloader", "Next", "scripts", "boot.dat", "boot.ini", "exosphere.ini",
    "hbmenu.nro", "payload.bin"]

/-- An index into `managed_paths`. -/
abbrev Managed : Type := Fin managed_paths.length

def Managed.name (i : Managed) : String := managed_paths.get i

def is_hidden_legacy_path (name : String) : Bool := name = "Next"

/-- `sd:/name`. -/
def rootPath (name : String) : FsPath := CombinePaths [] name

/-- `UPDATE_BACKUP/name`. -/
def backupPath (name : String) : FsPath := CombinePaths UPDATE_BACKUP name

/-- `UPDATE_NEW/name`. -/
def stagedPath (name : String) : FsPath := CombinePaths UPDATE_NEW name

def absent_marker_path (index : Managed) : FsPath :=
  CombinePaths UPDATE_BACKUP (".absent" ++ toString index.val)

/-- Where the original of a managed path is before the backup: on patched and Mariko
hardware the original of `payload.bin` is the saved copy. -/
def originalPath (patched_or_mariko : Bool) (name : String) : FsPath :=
  if patched_or_mariko && name = "payload.bin" then MARIKO_PAYLOAD_FALLBACK else rootPath name

/-! ## Helpers -/

section helpers

variable (depth FSBuffSize : ℕ)

/-- `remove_path_silent`: the result of `f_unlink` is passed on. -/
def remove_path_silent (path : FsPath) : Prog FatFs FRESULT := removePath id depth path

def create_absent_marker (index : Managed) : Prog FatFs FRESULT := do
  if ← path_exists (absent_marker_path index) then
    return .FR_OK
  let res ← call (.f_create (absent_marker_path index))
  if res ≠ .FR_OK then
    return res
  let _ ← call (.f_close (absent_marker_path index))
  return res

def read_state : Prog FatFs (Option Bytes) := readState journal

def write_state (state : State) : Prog FatFs FRESULT := writeState journal id depth state.text

def file_sizes_match (a b : FsPath) : Prog FatFs Bool := do
  match ← call (.f_stat a) with
  | .error _ => return false
  | .ok fa =>
    match ← call (.f_stat b) with
    | .error _ => return false
    | .ok fb =>
      if fa.isDir || fb.isDir then
        return false
      return fa.fsize = fb.fsize

/-! ## Backup and rollback -/

/-- The body of the loop in `move_managed_to_backup`. -/
def move_managed_item (patched_or_mariko : Bool) (i : Managed) : Prog FatFs FRESULT := do
  let src := originalPath patched_or_mariko i.name
  let dst := backupPath i.name
  let src_exists ← path_exists src
  let dst_exists ← path_exists dst
  let was_absent ← path_exists (absent_marker_path i)
  if dst_exists then
    return if src_exists then .FR_EXIST else .FR_OK
  if was_absent then
    return .FR_OK
  if !src_exists then
    create_absent_marker i
  else
    call (.f_rename src dst)

def move_managed_to_backup (patched_or_mariko : Bool) : Prog FatFs FRESULT := do
  let res ← mkdir_if_needed UPDATE_BACKUP
  if res ≠ .FR_OK then
    return res
  let ret ← Prog.untilSome (fun i => do
    let res ← move_managed_item patched_or_mariko i
    return res.stop) (List.finRange managed_paths.length)
  return .ofStop ret

/-- Put `src` in the place of `dst`. -/
def restorePath (src dst : FsPath) : Prog FatFs FRESULT := do
  let res ← remove_path_silent depth dst
  if res ≠ .FR_OK then
    return res
  call (.f_rename src dst)

/-- The loop of `restore_backup`; it goes on after an error. -/
def restore_backup.loop : List Managed → FRESULT → Prog FatFs FRESULT
  | [], result => return result
  | i :: items, result => do
    if !(← path_exists (backupPath i.name)) then
      return ← loop items result
    let res ← restorePath depth (backupPath i.name) (rootPath i.name)
    loop items (if res ≠ .FR_OK then res else result)

def restore_backup (patched_or_mariko : Bool) : Prog FatFs FRESULT := do
  let result ← restore_backup.loop depth (List.finRange managed_paths.length) .FR_OK
  if !patched_or_mariko then
    return result
  if !(← path_exists MARIKO_PAYLOAD_FALLBACK) then
    return result
  let res ← restorePath depth MARIKO_PAYLOAD_FALLBACK ROOT_PAYLOAD
  return if res ≠ .FR_OK then res else result

/-- The loop at the start of `rollback_transaction`: the paths with a backup or a
marker are removed from the root.  `res` is the last result. -/
def rollback_transaction.loop : List Managed → FRESULT → Prog FatFs FRESULT
  | [], res => return res
  | i :: items, res => do
    let has_backup ← path_exists (backupPath i.name)
    let was_absent ← path_exists (absent_marker_path i)
    if !(has_backup || was_absent) then
      return ← loop items res
    let res ← remove_path_silent depth (rootPath i.name)
    if res ≠ .FR_OK then
      return res
    if !has_backup && was_absent then
      let res ← call (.f_unlink (absent_marker_path i))
      if res ≠ .FR_OK ∧ res ≠ .FR_NO_FILE then
        return res
      loop items res
    else
      loop items res

/-- The middle of `rollback_transaction`: everything between the two journal writes. -/
def rollback_transaction.restore (patched_or_mariko : Bool) : Prog FatFs FRESULT := do
  let res ← rollback_transaction.loop depth (List.finRange managed_paths.length) .FR_OK
  if res ≠ .FR_OK then
    return res
  let res ← restore_backup depth patched_or_mariko
  if res ≠ .FR_OK then
    return res
  if patched_or_mariko then
    let _ ← remove_path_silent depth UPDATE_PAYLOAD_NEXT
    let _ ← remove_path_silent depth UPDATE_UPDATER_SAVED
    let _ ← remove_path_silent depth MARIKO_PAYLOAD_FALLBACK
    return res
  else
    return res

def rollback_transaction (patched_or_mariko : Bool) : Prog FatFs FRESULT := do
  let res ← write_state depth .ROLLBACK_IN_PROGRESS
  if res ≠ .FR_OK then
    return res
  let res ← rollback_transaction.restore depth patched_or_mariko
  if res ≠ .FR_OK then
    let _ ← write_state depth .ROLLBACK_FAILED
    return res
  remove_path_silent depth UPDATE_ROOT

/-! ## Copy and verification -/

def copy_staged_entry (entry : FSEntry_t) : Prog FatFs FRESULT :=
  if entry.isDir then FolderCopy FSBuffSize depth (stagedPath entry.name) []
  else FileCopy FSBuffSize (stagedPath entry.name) (rootPath entry.name)

def copy_staged_root (patched_or_mariko : Bool) : Prog FatFs FRESULT := do
  match ← call (.ReadFolder UPDATE_NEW) with
  | .error read_res => return read_res
  | .ok fs =>
    let ret ← Prog.untilSome (fun e => do
      if is_hidden_legacy_path e.name then
        return none
      if patched_or_mariko && e.name = "payload.bin" then
        return none
      let res ← copy_staged_entry depth FSBuffSize e
      return res.stop) fs
    return .ofStop ret

def staged_package_valid (patched_or_mariko : Bool) : Prog FatFs Bool := do
  if !(← path_exists (UPDATE_NEW ++ ["atmosphere", "package3"])) then
    return false
  if patched_or_mariko then
    return ← path_exists (UPDATE_NEW ++ ["payload.bin"])
  if ← path_exists (UPDATE_NEW ++ ["bootloader", "update.bin"]) then
    return true
  if ← path_exists (UPDATE_NEW ++ ["atmosphere", "reboot_payload.bin"]) then
    return true
  path_exists (UPDATE_NEW ++ ["payload.bin"])

def installed_core_valid (patched_or_mariko : Bool) : Prog FatFs Bool := do
  if !(← file_sizes_match (UPDATE_NEW ++ ["atmosphere", "package3"])
      ["atmosphere", "package3"]) then
    return false
  if patched_or_mariko then
    return true
  if ← path_exists (UPDATE_NEW ++ ["bootloader", "update.bin"]) then
    return ← file_sizes_match (UPDATE_NEW ++ ["bootloader", "update.bin"])
      ["bootloader", "update.bin"]
  if ← path_exists (UPDATE_NEW ++ ["atmosphere", "reboot_payload.bin"]) then
    return ← file_sizes_match (UPDATE_NEW ++ ["atmosphere", "reboot_payload.bin"])
      ["atmosphere", "reboot_payload.bin"]
  if ← path_exists (UPDATE_NEW ++ ["payload.bin"]) then
    return ← file_sizes_match (UPDATE_NEW ++ ["payload.bin"]) ROOT_PAYLOAD
  return false

/-- The last part of `finalize_patched_payload`: the copy takes the place of the root
payload, unless one is there. -/
def finalize_patched_payload.install (staged : FsPath) : Prog FatFs FRESULT := do
  let res ←
    if ← path_exists ROOT_PAYLOAD then
      pure FRESULT.FR_OK
    else
      call (.f_rename UPDATE_PAYLOAD_NEXT ROOT_PAYLOAD)
  if res ≠ .FR_OK then
    return res
  if !(← file_sizes_match staged ROOT_PAYLOAD) then
    return .FR_DISK_ERR
  let _ ← remove_path_silent depth UPDATE_PAYLOAD_NEXT
  return .FR_OK

def finalize_patched_payload : Prog FatFs FRESULT := do
  let staged := UPDATE_NEW ++ ["payload.bin"]
  if !(← path_exists staged) then
    return .FR_NO_FILE
  if ← file_sizes_match staged ROOT_PAYLOAD then
    let _ ← remove_path_silent depth UPDATE_PAYLOAD_NEXT
    return .FR_OK
  let res ← remove_path_silent depth UPDATE_PAYLOAD_NEXT
  if res ≠ .FR_OK then
    return res
  let copy_res ← FileCopy FSBuffSize staged UPDATE_PAYLOAD_NEXT
  if copy_res ≠ .FR_OK then
    return copy_res
  if !(← file_sizes_match staged UPDATE_PAYLOAD_NEXT) then
    return .FR_DISK_ERR
  if ← path_exists ROOT_PAYLOAD then
    if !(← path_exists UPDATE_UPDATER_SAVED) then
      let res ← call (.f_rename ROOT_PAYLOAD UPDATE_UPDATER_SAVED)
      if res ≠ .FR_OK then
        return res
  finalize_patched_payload.install depth staged

/-! ## Commit -/

/-- What `commit_transaction` removes once the journal says so, in this order: recovery
data first, the journal last. -/
def commit_paths : List FsPath :=
  [UPDATE_BACKUP, UPDATE_NEW, UPDATE_READY, UPDATE_PAYLOAD_NEXT, UPDATE_UPDATER_SAVED,
    MARIKO_PAYLOAD_FALLBACK, RECOVERY_PAYLOAD, UPDATE_STATE_TMP, UPDATE_STATE]

def commit_transaction : Prog FatFs FRESULT := do
  let res ← write_state depth .COMMIT_IN_PROGRESS
  if res ≠ .FR_OK then
    return res
  let ret ← Prog.untilSome (fun path => do
    let res ← remove_path_silent depth path
    return res.stop) commit_paths
  match ret with
  | some res => return res
  | none =>
    let root_res ← call (.f_unlink UPDATE_ROOT)
    if root_res ≠ .FR_OK ∧ root_res ≠ .FR_NO_FILE ∧ root_res ≠ .FR_NO_PATH then
      return root_res
    return .FR_OK

/-! ## Ways out -/

def boot_installed_cfw_now (patched_or_mariko : Bool) : Prog FatFs Boot :=
  bootInstalled patched_or_mariko

def boot_installed_cfw (patched_or_mariko : Bool) (warning : FRESULT) : Prog FatFs Exit :=
  bootAfterCommit patched_or_mariko warning

def boot_previous_after_rollback (patched_or_mariko : Bool) (err : UiError) : Prog FatFs Exit := do
  let b ← boot_installed_cfw_now patched_or_mariko
  return .boot (.rollbackSuccess err) b

/-- The part of `fail_before_changes` that puts the saved boot payload back. -/
def fail_before_changes.restore (patched_or_mariko : Bool) : Prog FatFs Unit := do
  if !patched_or_mariko then
    return
  if ← path_exists MARIKO_PAYLOAD_FALLBACK then
    let _ ← remove_path_silent depth ROOT_PAYLOAD
    let _ ← call (.f_rename MARIKO_PAYLOAD_FALLBACK ROOT_PAYLOAD)
    return

def fail_before_changes (patched_or_mariko : Bool) (err : UiError) : Prog FatFs Exit := do
  fail_before_changes.restore depth patched_or_mariko
  let _ ← remove_path_silent depth UPDATE_ROOT
  let b ← boot_installed_cfw_now patched_or_mariko
  return .boot (.unchanged err) b

/-- Roll back and boot, or stop: what `aio_cfw_update_run` does after each error, `err`
being the error set before. -/
def rollback_and_boot (patched_or_mariko : Bool) (err : UiError) : Prog FatFs Exit := do
  let res ← rollback_transaction depth patched_or_mariko
  if res = .FR_OK then
    boot_previous_after_rollback patched_or_mariko err
  else
    return .fatal ⟨"ROLLBACK", code res⟩

/-- Commit and boot; an error of the commit is only a warning. -/
def commit_and_boot (patched_or_mariko : Bool) : Prog FatFs Exit := do
  let commit_res ← commit_transaction depth
  boot_installed_cfw patched_or_mariko commit_res

end helpers

/-! ## The run -/

def aio_cfw_update_pending : Prog FatFs Bool := do
  if ← path_exists UPDATE_READY then return true
  match ← read_state with
  | some _ => return true
  | none => path_exists UPDATE_BACKUP

section run

variable (depth FSBuffSize : ℕ) (patched_or_mariko : Bool)

/-- `aio_cfw_update_run` from the finalization of the boot payload on. -/
def finalize_and_commit (state : Bytes) : Prog FatFs Exit := do
  if patched_or_mariko ∧ state = State.FINALIZE_PAYLOAD.text then
    let res ← finalize_patched_payload depth FSBuffSize
    if res ≠ .FR_OK then
      return ← rollback_and_boot depth patched_or_mariko ⟨"PAYLOAD", code res⟩
    if !(← file_sizes_match (UPDATE_NEW ++ ["payload.bin"]) ROOT_PAYLOAD) then
      return ← rollback_and_boot depth patched_or_mariko ⟨"PAYLOAD-VERIFY", code .FR_DISK_ERR⟩
    commit_and_boot depth patched_or_mariko
  else
    commit_and_boot depth patched_or_mariko

/-- From a complete copy on. -/
def after_copy (state : Bytes) : Prog FatFs Exit := do
  if patched_or_mariko ∧ state = State.COPY_COMPLETE.text then
    let res ← write_state depth .FINALIZE_PAYLOAD
    if res ≠ .FR_OK then
      return ← rollback_and_boot depth patched_or_mariko ⟨"JOURNAL-PAYLOAD", code .FR_DISK_ERR⟩
    finalize_and_commit depth FSBuffSize patched_or_mariko State.FINALIZE_PAYLOAD.text
  else
    finalize_and_commit depth FSBuffSize patched_or_mariko state

/-- From the copy on. -/
def copy_phase (state : Bytes) : Prog FatFs Exit := do
  if state = State.COPY_IN_PROGRESS.text then
    let res ← copy_staged_root depth FSBuffSize patched_or_mariko
    if res ≠ .FR_OK then
      return ← rollback_and_boot depth patched_or_mariko ⟨"COPY", code res⟩
    let _ ← remove_path_silent depth (rootPath "Next")
    if !(← installed_core_valid patched_or_mariko) then
      return ← rollback_and_boot depth patched_or_mariko ⟨"VERIFY", code .FR_DISK_ERR⟩
    let res ← write_state depth .COPY_COMPLETE
    if res ≠ .FR_OK then
      return ← rollback_and_boot depth patched_or_mariko ⟨"JOURNAL-COPY", code .FR_DISK_ERR⟩
    after_copy depth FSBuffSize patched_or_mariko State.COPY_COMPLETE.text
  else
    after_copy depth FSBuffSize patched_or_mariko state

/-- From a complete backup on. -/
def start_copy (state : Bytes) : Prog FatFs Exit := do
  if state = State.BACKUP_COMPLETE.text then
    let res ← write_state depth .COPY_IN_PROGRESS
    if res ≠ .FR_OK then
      return ← rollback_and_boot depth patched_or_mariko ⟨"JOURNAL-COPY", code .FR_DISK_ERR⟩
    copy_phase depth FSBuffSize patched_or_mariko State.COPY_IN_PROGRESS.text
  else
    copy_phase depth FSBuffSize patched_or_mariko state

/-- From the backup on. -/
def backup_phase (state : Bytes) : Prog FatFs Exit := do
  if state = State.BACKUP_IN_PROGRESS.text then
    let res ← move_managed_to_backup patched_or_mariko
    if res ≠ .FR_OK then
      return ← rollback_and_boot depth patched_or_mariko ⟨"BACKUP", code res⟩
    let res ← write_state depth .BACKUP_COMPLETE
    if res ≠ .FR_OK then
      return ← rollback_and_boot depth patched_or_mariko ⟨"JOURNAL-BACKUP", code .FR_DISK_ERR⟩
    start_copy depth FSBuffSize patched_or_mariko State.BACKUP_COMPLETE.text
  else
    start_copy depth FSBuffSize patched_or_mariko state

/-- From a valid package on. -/
def update_phase (state : Bytes) : Prog FatFs Exit := do
  if state = State.STAGED.text then
    let res ← write_state depth .BACKUP_IN_PROGRESS
    if res ≠ .FR_OK then
      return ← fail_before_changes depth patched_or_mariko ⟨"JOURNAL-BACKUP", code .FR_DISK_ERR⟩
    backup_phase depth FSBuffSize patched_or_mariko State.BACKUP_IN_PROGRESS.text
  else
    backup_phase depth FSBuffSize patched_or_mariko state

/-- `aio_cfw_update_run` from the point where the journal token is known. -/
def run_from (state : Bytes) : Prog FatFs Exit := do
  if state = State.COMMIT_IN_PROGRESS.text then
    return ← commit_and_boot depth patched_or_mariko
  if state = State.PENDING_BOOT.text then
    return ← commit_and_boot depth patched_or_mariko
  if state = State.ROLLBACK_IN_PROGRESS.text ∨ state = State.ROLLBACK_FAILED.text then
    return ← rollback_and_boot depth patched_or_mariko ⟨"ROLLBACK-RESUME", 0⟩
  if !(← staged_package_valid patched_or_mariko) then
    if state = State.STAGED.text then
      return ← fail_before_changes depth patched_or_mariko ⟨"PACKAGE", code .FR_NO_FILE⟩
    else
      return ← rollback_and_boot depth patched_or_mariko ⟨"PACKAGE", code .FR_NO_FILE⟩
  update_phase depth FSBuffSize patched_or_mariko state

def aio_cfw_update_run : Prog FatFs Exit := do
  match ← read_state with
  | some state => run_from depth FSBuffSize patched_or_mariko state
  | none =>
    if ← path_exists UPDATE_READY then
      let res ← write_state depth .STAGED
      if res ≠ .FR_OK then
        return ← fail_before_changes depth patched_or_mariko ⟨"JOURNAL", code .FR_DISK_ERR⟩
      return ← run_from depth FSBuffSize patched_or_mariko State.STAGED.text
    if ← path_exists UPDATE_BACKUP then
      return ← rollback_and_boot depth patched_or_mariko ⟨"JOURNAL", code .FR_INVALID_OBJECT⟩
    return .fatal ⟨"STATE", 1⟩

end run

end CfwUpdater
