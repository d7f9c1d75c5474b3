/-
# The port uninstaller

`port_uninstall_page.cpp`: the ports that are listed, and the removal of one.  The label and the
icon of a port are for display and left out, and so is the order of the list.  A card of this kind
has no symbolic links, so that a test for one can only fail.
-/
import AioMod.ExplorerOps
import AioMod.ForwarderLoader

namespace PortUninstall

open Explorer Throws

/-! ## Paths and files -/

def SwitchFolder : FsPath := ["switch"]

def AppFolder : FsPath := ["switch", "aio-switch-updater-mod"]

/-- The updater's own file. -/
def AppNro : FsPath := AppFolder ++ ["aio-switch-updater-mod.nro"]

/-- `InstalledPort` -/
structure InstalledPort where
  folder : FsPath
  nro : FsPath
  wholeFolder : Bool
  deriving DecidableEq

/-- `std::filesystem::path::extension` of a file name. -/
def extension (name : Name) : Name :=
  let rest := name.toList.reverse.takeWhile (· ≠ '.')
  if rest.length + 1 < name.toList.length ∧ name ≠ ".." then String.ofList ('.' :: rest.reverse)
  else ""

/-- Whether the extension of a path is that of an NRO, in any case. -/
def hasNroExtension (p : FsPath) : Bool := lower (extension (filename p)) = ".nro"

/-- `safeComponent` -/
def safeComponent (name : Name) : Bool :=
  name ≠ "" ∧ name ≠ "." ∧ name ≠ ".." ∧ name.toList.head? ≠ some '.' ∧
    name.toList.all (fun c => c ≠ '/' ∧ c ≠ '\\' ∧ c ≠ ':') = true

/-- `withinSwitch` -/
def withinSwitch (folder : FsPath) : Bool :=
  folder.dropLast = SwitchFolder ∧ folder ≠ AppFolder ∧ safeComponent (filename folder)

/-- Whether the first bytes of a file are a whole header with the magic number. -/
def hasNroHeader (front : Option Bytes) : Bool :=
  match front with
  | some b => b.length = Forwarder.sizeof_NroStart + Forwarder.sizeof_NroHeader ∧
      (Forwarder.nroHeader b).magic = Forwarder.NROHEADER_MAGIC
  | none => false

/-! ## The listing -/

/-- The loop of `verifiedPortFolder` over what is below the folder: the number of NROs, all of
them `nro`. -/
def countNros (nro : FsPath) : List FsPath → ℕ → Op (Option ℕ)
  | [], nroCount => pure (some nroCount)
  | p :: ps, nroCount => do
    match ← fs (.status p) with
    | none => pure none
    | some isDir =>
      if isDir = false ∧ hasNroExtension p then
        if p ≠ nro ∨ nroCount + 1 > 1 then pure none else countNros nro ps (nroCount + 1)
      else countNros nro ps nroCount

/-- `verifiedPortFolder` -/
def verifiedPortFolder (port : InstalledPort) : Op Bool := do
  if withinSwitch port.folder = false ∨ port.nro.dropLast ≠ port.folder ∨
      hasNroExtension port.nro = false then
    pure false
  else
    let folder ← fs (.status port.folder)
    let nro ← fs (.status port.nro)
    if folder ≠ some true ∨ nro ≠ some false then pure false
    else
      let front ← fs (.read port.nro 0 (Forwarder.sizeof_NroStart + Forwarder.sizeof_NroHeader))
      if hasNroHeader front = false then pure false
      else
        let (entries, complete) ← fs (.recursive_directory_iterator port.folder none)
        let nroCount ← countNros port.nro entries 0
        pure (complete && nroCount = some 1)

/-- The loop of `validNroFile` from a folder, last component first, up to `SwitchFolder`. -/
def withinSwitchFolder : List Name → Op Bool
  | [] => pure false
  | name :: parents => do
    if (name :: parents).reverse = SwitchFolder then pure true
    else
      match ← fs (.status (name :: parents).reverse) with
      | none => pure false
      | some _ => withinSwitchFolder parents

/-- `validNroFile` -/
def validNroFile (path : FsPath) : Op Bool := do
  if hasNroExtension path = false ∨ path = AppNro then pure false
  else
    let within ← withinSwitchFolder path.dropLast.reverse
    if within = false then pure false
    else
      let type ← fs (.status path)
      if type ≠ some false then pure false
      else
        let front ← fs (.read path 0 (Forwarder.sizeof_NroStart + Forwarder.sizeof_NroHeader))
        pure (hasNroHeader front)

/-- `findInstalledPorts` -/
def findInstalledPorts : Op (List InstalledPort) := do
  let (entries, complete) ← fs (.recursive_directory_iterator SwitchFolder (some AppFolder))
  let ports ← collect (fun path => do
    let isDir ← value (← fs (.status path)) (text path)
    if isDir then pure none
    else
      let valid ← validNroFile path
      if valid = false then pure none
      else
        let wholeFolder ← verifiedPortFolder
          { folder := path.dropLast, nro := path, wholeFolder := false }
        pure (some { folder := path.dropLast, nro := path, wholeFolder })) entries
  require (complete = true) (text SwitchFolder)
  pure ports

/-! ## The removal -/

/-- The second look at a folder that is to be removed as a whole. -/
def stillVerified (port : InstalledPort) : Op Bool :=
  if port.wholeFolder then verifiedPortFolder port else pure true

/-- What is given to the deletion besides the NRO. -/
def otherContents (port : InstalledPort) : Op (List FsPath) :=
  if port.wholeFolder then do
    let (entries, complete) ← fs (.directory_iterator port.folder)
    require (complete = true) (text port.folder)
    pure (entries.filter (· ≠ port.nro))
  else pure []

/-- What follows a deletion: an error is thrown again unless the user cancelled, and else the
folder goes as well. -/
def afterDeletion (port : InstalledPort) : Option String → Op Bool
  | some e => do
    let interrupt ← fs .load
    if interrupt then pure false else throw ("ERROR: " ++ e)
  | none =>
    if port.wholeFolder then do
      let removed ← value (← fs (.remove port.folder)) (text port.folder)
      require (removed = true) (text port.folder)
      pure true
    else pure true

/-- `removePort`; it returns whether everything was deleted, or the user cancelled. -/
def removePort (depth : ℕ) (port : InstalledPort) : Op Bool := do
  let valid ← validNroFile port.nro
  require (valid = true ∧ port.nro.dropLast = port.folder) "menus/tools/remove_ports_changed"
  let verified ← stillVerified port
  require (verified = true) "menus/tools/remove_ports_changed"
  let others ← otherContents port
  let error ← tryCatch (do
    let _ ← deleteJob depth (others ++ [port.nro])
    pure none) (fun e => pure (some e))
  afterDeletion port error

end PortUninstall
