/-
# The copy and delete routines of `fscopy.c`

`FileCopy`, `FolderCopy` and `FolderDelete`.  The recursive routines take a bound
on the depth of the tree they walk; below it they hang, so that a run which comes
back has walked the whole tree.
-/
import AioMod.FatFs

/-- An error ends a loop, `FR_OK` goes on with it. -/
def FRESULT.stop : FRESULT → Option FRESULT
  | .FR_OK => none
  | e => some e

/-- The result of a loop that an error ends. -/
def FRESULT.ofStop : Option FRESULT → FRESULT
  | none => .FR_OK
  | some e => e

/-- A computation that does not come back. -/
def hang {α : Type} : Prog FatFs α :=
  (Prog.op (I := FatFs) ⟨.other, .hang⟩).bind fun (e : Empty) => nomatch e

/-! ## `FileCopy` -/

/-- The `while (sizeRemaining > 0)` loop of `FileCopy`, `ofs` being the position in
both files.  Each turn copies at least one byte, so `sizeRemaining` bounds the
number of turns. -/
def FileCopy.loop (FSBuffSize : ℕ) (locin locout : FsPath) : ℕ → ℕ → ℕ → Prog FatFs FRESULT
  | 0, _, _ => return .FR_OK
  | turns + 1, ofs, sizeRemaining => do
    if sizeRemaining = 0 then
      return .FR_OK
    let toCopy := min sizeRemaining FSBuffSize
    match ← copyCall (.f_read locin ofs toCopy) with
    | .error res => return res
    | .ok buff =>
      if buff.length ≠ toCopy then
        return .FR_DISK_ERR
      let (res, bytesWritten) ← copyCall (.f_write locout buff)
      if res ≠ .FR_OK then
        return res
      if bytesWritten ≠ buff.length then
        return .FR_DISK_ERR
      loop FSBuffSize locin locout turns (ofs + toCopy) (sizeRemaining - toCopy)

/-- `FileCopy`, as called with `COPY_MODE_PRINT`. -/
def FileCopy (FSBuffSize : ℕ) (locin locout : FsPath) : Prog FatFs FRESULT := do
  if locin = locout then
    return .TE_ERR_SAME_LOC
  match ← copyCall (.f_open locin) with
  | .error res => return res
  | .ok size =>
    match ← copyCall (.f_stat locin) with
    | .error res => do
      let _ ← copyCall (.f_close locin)
      return res
    | .ok _ =>
      let res ← copyCall (.f_create locout)
      if res ≠ .FR_OK then
        let _ ← copyCall (.f_close locin)
        return res
      let buff ← copyCall (.malloc FSBuffSize)
      if !buff || FSBuffSize = 0 then
        let _ ← copyCall (.f_close locout)
        let _ ← copyCall (.f_close locin)
        return .FR_NOT_ENOUGH_CORE
      let err ← FileCopy.loop FSBuffSize locin locout size 0 size
      let res ← copyCall (.f_close locout)
      let err := if err = .FR_OK then res else err
      let res ← copyCall (.f_close locin)
      let err := if err = .FR_OK then res else err
      if err = .FR_OK then
        copyCall (.f_chmod locout)
      else
        return err

/-! ## `FolderCopy` and `FolderDelete` -/

/-- `FolderCopy`.  The explorer's copy mode, which adds a check for copies into
themselves, is `CMODE_None` when an updater runs. -/
def FolderCopy (FSBuffSize : ℕ) : ℕ → FsPath → FsPath → Prog FatFs FRESULT
  | 0, _, _ => hang
  | depth + 1, locin, locout => do
    if locin = locout then
      return .TE_ERR_SAME_LOC
    let dstPath := locout ++ locin.getLast?.toList
    match ← copyCall (.ReadFolder locin) with
    | .error res => return res
    | .ok fs =>
      let _ ← copyCall (.f_mkdir dstPath)
      let ret ← Prog.untilSome (fun e => do
        let temp := CombinePaths locin e.name
        if e.isDir then
          let ret ← FolderCopy FSBuffSize depth temp dstPath
          return ret.stop
        else
          let ret ← FileCopy FSBuffSize temp (CombinePaths dstPath e.name)
          return ret.stop) fs
      match ret with
      | some err => return err
      | none =>
        match ← copyCall (.f_stat locin) with
        | .error res => return res
        | .ok _ => copyCall (.f_chmod dstPath)

/-- `FolderDelete`, and `remove_tree_silent` of the CFW updater: delete the files and folders in a
directory, in the order it lists them, and then the directory itself. -/
def deleteTree : ℕ → FsPath → Prog FatFs FRESULT
  | 0, _ => hang
  | depth + 1, path => do
    match ← call (.ReadFolder path) with
    | .error res => return res
    | .ok fs =>
      let ret ← Prog.untilSome (fun e => do
        let child := CombinePaths path e.name
        if e.isDir then
          let ret ← deleteTree depth child
          return ret.stop
        else
          let ret ← call (.f_unlink child)
          return ret.stop) fs
      match ret with
      | some err => return err
      | none => call (.f_unlink path)
