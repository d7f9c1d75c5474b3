/-
# Journal files and the small helpers of the two updaters

`aio_app_updater.c` and `aio_cfw_updater.c` each have their own copy of these
helpers.  What the copies share is stated here once; each updater then names its
own.
-/
import AioMod.FsCopy

/-- `path_exists`: any error of `f_stat` counts as absence. -/
def path_exists (path : FsPath) : Prog FatFs Bool := do
  match ← probeCall (.f_stat path) with
  | .ok _ => return true
  | .error _ => return false

/-- `mkdir_if_needed`. -/
def mkdir_if_needed (path : FsPath) : Prog FatFs FRESULT := do
  let res ← call (.f_mkdir path)
  return if res = .FR_EXIST then .FR_OK else res

/-- Remove whatever stands at `path`; `unlinked` maps the result of `f_unlink`. -/
def removePath (unlinked : FRESULT → FRESULT) (depth : ℕ) (path : FsPath) : Prog FatFs FRESULT := do
  match ← call (.f_stat path) with
  | .error res => return if res = .FR_NO_FILE ∨ res = .FR_NO_PATH then .FR_OK else res
  | .ok info =>
    if info.isDir then
      deleteTree depth path
    else
      let res ← call (.f_unlink path)
      return unlinked res

/-- The files of a journal, two different ones in one directory, and whether a short
write of the token counts as an error. -/
structure JournalFiles where
  root : FsPath
  stateName : Name
  tmpName : Name
  ne : stateName ≠ tmpName
  strict : Bool

/-- The names both journals use. -/
theorem journal_names_ne : ("state" : Name) ≠ "state.tmp" := by decide

namespace JournalFiles

/-- The journal. -/
def state (j : JournalFiles) : FsPath := j.root ++ [j.stateName]

/-- The file a new token is written to. -/
def tmp (j : JournalFiles) : FsPath := j.root ++ [j.tmpName]

end JournalFiles

/-- The token in a journal file: up to 63 bytes, cut at the first line end or NUL. -/
def parseState (content : Bytes) : Option Bytes :=
  match (content.take 63).takeWhile (fun c => c ≠ 0 ∧ c ≠ 10 ∧ c ≠ 13) with
  | [] => none
  | token => some token

/-- `read_state_from` with a buffer of 64 bytes. -/
def read_state_from (path : FsPath) : Prog FatFs (Option Bytes) := do
  match ← call (.f_open path) with
  | .error _ => return none
  | .ok _ =>
    let res ← call (.f_read path 0 63)
    let _ ← call (.f_close path)
    match res with
    | .error _ => return none
    | .ok out => return parseState out

/-- `read_state`. -/
def readState (j : JournalFiles) : Prog FatFs (Option Bytes) := do
  match ← read_state_from j.state with
  | some state => return some state
  | none => read_state_from j.tmp

/-- The new line of `write_state`, after a token written without an error. -/
def writeNewline (tmp : FsPath) (complete : Bool) (res : FRESULT) : Prog FatFs FRESULT := do
  if res = .FR_OK ∧ complete then
    let (res, nl_written) ← call (.f_write tmp [10])
    return if res = .FR_OK ∧ nl_written ≠ 1 then .FR_DISK_ERR else res
  else
    return res

/-- The `f_sync` of `write_state`, after writes without an error. -/
def syncWritten (tmp : FsPath) (res : FRESULT) : Prog FatFs FRESULT :=
  if res = .FR_OK then call (.f_sync tmp) else return res

/-- The part of `write_state` between opening and closing the temporary file. -/
def writeToken (j : JournalFiles) (state : Bytes) : Prog FatFs FRESULT := do
  let res ← call (.f_create j.tmp)
  if res ≠ .FR_OK then
    return res
  let (res, written) ← call (.f_write j.tmp state)
  let res := if res = .FR_OK ∧ written ≠ state.length ∧ j.strict then .FR_DISK_ERR else res
  let res ← writeNewline j.tmp (written = state.length) res
  let res ← syncWritten j.tmp res
  let _ ← call (.f_close j.tmp)
  return res

/-- `write_state`: the token and a newline go to the temporary file, which then
replaces the journal. -/
def writeState (j : JournalFiles) (unlinked : FRESULT → FRESULT) (depth : ℕ) (state : Bytes) :
    Prog FatFs FRESULT := do
  let res ← mkdir_if_needed j.root
  if res ≠ .FR_OK then
    return res
  let _ ← removePath unlinked depth j.tmp
  let res ← writeToken j state
  if res ≠ .FR_OK then
    return res
  let res ← removePath unlinked depth j.state
  if res ≠ .FR_OK then
    return res
  call (.f_rename j.tmp j.state)

/-! ## What a run reports -/

/-- `FRESULT` as the `int` shown on a page. -/
def code : FRESULT → ℕ
  | .FR_OK => 0
  | .FR_DISK_ERR => 1
  | .FR_INT_ERR => 2
  | .FR_NOT_READY => 3
  | .FR_NO_FILE => 4
  | .FR_NO_PATH => 5
  | .FR_INVALID_NAME => 6
  | .FR_DENIED => 7
  | .FR_EXIST => 8
  | .FR_INVALID_OBJECT => 9
  | .FR_WRITE_PROTECTED => 10
  | .FR_INVALID_DRIVE => 11
  | .FR_NOT_ENABLED => 12
  | .FR_NO_FILESYSTEM => 13
  | .FR_MKFS_ABORTED => 14
  | .FR_TIMEOUT => 15
  | .FR_LOCKED => 16
  | .FR_NOT_ENOUGH_CORE => 17
  | .FR_TOO_MANY_OPEN_FILES => 18
  | .FR_INVALID_PARAMETER => 19
  | .TE_ERR_SAME_LOC => 20

/-- `g_last_error_stage` and `g_last_error_code`. -/
structure UiError where
  stage : String
  code : ℕ
  deriving DecidableEq

/-- The page shown before the console boots again. -/
inductive Page : Type where
  | success
  | warning (e : UiError)
  | rollbackSuccess (e : UiError)
  | unchanged (e : UiError)
  deriving DecidableEq

/-- What boots: the console itself, or a payload started from the card.  `none` is
the page `BOOT / 1` and a power-off, when there is no payload to start. -/
inductive Boot : Type where
  | reboot
  | payload (p : FsPath)
  | none
  deriving DecidableEq

/-- How a run ends: at `boot_installed_cfw` or `boot_installed_cfw_now` after a
page, or at `ui_fatal_wait_poweroff`. -/
inductive Exit : Type where
  | boot (page : Page) (b : Boot)
  | fatal (e : UiError)
  deriving DecidableEq

/-- Start `path` if it is there; the result says whether it took over. -/
def launch_if_exists (path : FsPath) : Prog FatFs Bool := do
  if ← path_exists path then
    call (.launch_payload path)
  else
    return false

/-- The shared body of `boot_installed_cfw_now`. -/
def bootInstalled (patched_or_mariko : Bool) : Prog FatFs Boot := do
  if patched_or_mariko then
    return .reboot
  if ← launch_if_exists ["bootloader", "update.bin"] then
    return .payload ["bootloader", "update.bin"]
  if ← launch_if_exists ["atmosphere", "reboot_payload.bin"] then
    return .payload ["atmosphere", "reboot_payload.bin"]
  if ← launch_if_exists ["payload.bin"] then
    return .payload ["payload.bin"]
  return .none

/-- The shared body of `boot_installed_cfw`, `warning` being `g_commit_warning_code`. -/
def bootAfterCommit (patched_or_mariko : Bool) (warning : FRESULT) : Prog FatFs Exit := do
  let page := if warning = .FR_OK then Page.success else .warning ⟨"COMMIT", code warning⟩
  let b ← bootInstalled patched_or_mariko
  return .boot page b
