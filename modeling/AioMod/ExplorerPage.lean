/-
# The file explorer's page

`file_explorer_page.cpp`: two panes, of which one or both are shown, a clipboard, and one job at a
time in the background.  What the file system answers to the calls of an action is given with the
action, so that nothing is assumed of the card or of the calls that fail.  A confirmation that is
refused is an option that was not chosen.  Sizes and drawing are left out.
-/
import AioMod.ExplorerOps

namespace ExplorerPage

open Explorer (isSdPath lower)

/-! ## `explorer::list` -/

/-- `explorer::Entry` -/
structure Entry where
  path : FsPath
  name : Name
  directory : Bool
  deriving DecidableEq

/-- An entry the iterator comes to, with the answers to the questions asked of it. -/
structure Found where
  name : Name
  is_symlink : Option Bool
  is_directory : Option Bool

/-- What the iteration over a directory comes to, and the error it ends with. -/
structure Reading where
  found : List Found := []
  failed : Option String := none

/-- An entry of the listing; links and what cannot be asked are left out. -/
def Found.entry (directory : FsPath) (f : Found) : Option Entry :=
  match f.is_symlink, f.is_directory with
  | some false, some dir => some { path := directory ++ [f.name], name := f.name, directory := dir }
  | _, _ => none

/-- The order of a listing: directories first, then by name in small letters. -/
def Entry.before (a b : Entry) : Prop :=
  if a.directory ≠ b.directory then a.directory = true else ¬lower b.name < lower a.name

instance : DecidableRel Entry.before := fun _ _ => inferInstanceAs (Decidable (ite _ _ _))

/-- `explorer::list` -/
def list (directory : FsPath) (reading : Reading) : Except String (List Entry) :=
  if ¬isSdPath directory then .error "Ruta fuera de la microSD"
  else match reading.failed with
    | some message => .error (directory.getLastD "" ++ ": " ++ message)
    | none => .ok ((reading.found.filterMap (Found.entry directory)).insertionSort Entry.before)

/-! ## Jobs -/

/-- `explorer::Operation` -/
inductive Operation where
  | Copy
  | Move
  | Delete
  | ExtractZip
  deriving DecidableEq

/-- `explorer::Job` -/
structure Job where
  operation : Operation
  sources : List FsPath
  destination : FsPath

/-- What `explorer::run` returns when nothing is thrown. -/
def Operation.done : Operation → String
  | .Copy => "Copia completada"
  | .Move => "Elementos movidos"
  | .Delete => "Elementos eliminados"
  | .ExtractZip => "ZIP descomprimido"

/-- What `explorer::run` returns, for how its work ended. -/
def result (operation : Operation) (ended : Except String Unit) : String :=
  match ended with
  | .ok () => operation.done
  | .error what => "ERROR: " ++ what

/-- `jobResult.rfind("ERROR:", 0) == 0` -/
def IsError (jobResult : String) : Prop := "ERROR:".toList <+: jobResult.toList

instance (jobResult : String) : Decidable (IsError jobResult) :=
  inferInstanceAs (Decidable (_ <+: _))

/-- `operationStatus` -/
def operationStatus : Operation → String
  | .Copy => "explorer/copying"
  | .Move => "explorer/moving"
  | .Delete => "explorer/deleting"
  | .ExtractZip => "explorer/extracting"

/-- `pathInside`: nothing but the root itself counts as inside the root. -/
def pathInside (child parent : FsPath) : Prop := child = parent ∨ (parent ≠ [] ∧ parent <+: child)

instance (child parent : FsPath) : Decidable (pathInside child parent) :=
  inferInstanceAs (Decidable (_ ∨ _))

/-! ## The view -/

/-- `FileExplorerView::Pane` -/
structure Pane where
  folder : FsPath := []
  entries : List Entry := []
  selected : Finset FsPath := ∅
  cursor : ℕ := 0
  first : ℕ := 0

/-- `FileExplorerView`; the panes are numbered by a bit. -/
structure FileExplorerView where
  panes : Bool → Pane := fun _ => {}
  active : Bool := false
  dualPane : Bool := false
  jobCancel : Bool := false
  jobFinished : Bool := false
  jobResult : String := ""
  runningJob : Job := ⟨.Copy, [], []⟩
  status : String := ""
  busy : Bool := false
  clipboard : List FsPath := []
  clipboardCut : Bool := false

/-- What the file system answers to the calls of one action. -/
structure Calls where
  /-- the listing of a pane -/
  directory : Bool → Reading := fun _ => {}
  /-- `exists` of a path of the clipboard or of the target of a rename -/
  exists_ : FsPath → Option Bool := fun _ => some true
  /-- `exists` of a folder of a pane -/
  above : Bool → FsPath → Option Bool := fun _ _ => some true
  create_directory : FsPath → Except String Bool := fun _ => .ok true
  rename : FsPath → FsPath → Except String Unit := fun _ _ => .ok ()

/-- The rows on the screen. -/
def rows : ℕ := 10

/-- The pane is shown another folder, as `open` and `onBack` do. -/
def Pane.enter (p : Pane) (folder : FsPath) : Pane :=
  { p with folder := folder, cursor := 0, first := 0, selected := ∅ }

/-- A listing is taken over: cursor, window and marks are fitted to it. -/
def Pane.listed (p : Pane) (entries : List Entry) : Pane :=
  let cursor := if entries.length ≤ p.cursor then
    (if entries = [] then 0 else entries.length - 1) else p.cursor
  { p with
    entries := entries
    cursor := cursor
    first := if cursor < p.first then cursor else p.first
    selected := p.selected.filter fun q => ∃ e ∈ entries, e.path = q }

/-- While the folder does not exist, its parent takes its place. -/
def Pane.climb (exists_ : FsPath → Option Bool) : ℕ → Pane → Pane
  | 0, p => p
  | n + 1, p =>
    if p.folder ≠ [] ∧ exists_ p.folder = some false then
      climb exists_ n (p.enter p.folder.dropLast)
    else p

namespace FileExplorerView

variable (i18n : String → String) (calls : Calls)

/-- The pane the actions act on. -/
def pane (v : FileExplorerView) : Pane := v.panes v.active

/-- The other pane. -/
def other (v : FileExplorerView) : Pane := v.panes (!v.active)

def setPane (v : FileExplorerView) (which : Bool) (p : Pane) : FileExplorerView :=
  { v with panes := fun w => if w = which then p else v.panes w }

/-- `error` -/
def error (v : FileExplorerView) (message : String) : FileExplorerView :=
  { v with status := message }

/-- The entry under the cursor. -/
def current (v : FileExplorerView) : Option Entry := v.pane.entries[v.pane.cursor]?

/-- `refresh` -/
def refresh (which : Bool) (v : FileExplorerView) : FileExplorerView :=
  match list (v.panes which).folder (calls.directory which) with
  | .ok entries => v.setPane which ((v.panes which).listed entries)
  | .error what => { v with status := what }

/-- `refreshAll` -/
def refreshAll (v : FileExplorerView) : FileExplorerView :=
  let v := v.refresh calls v.active
  if v.dualPane then v.refresh calls (!v.active) else v

/-- `step` -/
def step (delta : ℤ) (v : FileExplorerView) : FileExplorerView :=
  if v.busy then v
  else if v.pane.entries = [] then v
  else
    let p := v.pane
    let cursor := (max 0 (min (p.cursor + delta) (p.entries.length - 1 : ℕ))).toNat
    let first := if cursor < p.first then cursor else p.first
    let first := if first + rows ≤ cursor then cursor - rows + 1 else first
    v.setPane v.active { p with cursor := cursor, first := first }

/-- `switchPane` -/
def switchPane (v : FileExplorerView) : FileExplorerView :=
  if !v.busy && v.dualPane then { v with active := !v.active } else v

/-- `togglePanels` -/
def togglePanels (v : FileExplorerView) : FileExplorerView :=
  if v.busy then v
  else
    let v := { v with dualPane := !v.dualPane }
    if v.dualPane then v.refresh calls (!v.active) else v

/-- `onBack`; at the root the page is left. -/
def onBack (v : FileExplorerView) : FileExplorerView :=
  if v.busy then { v with jobCancel := true }
  else if v.pane.folder ≠ [] then
    (v.setPane v.active (v.pane.enter v.pane.folder.dropLast)).refresh calls v.active
  else v

/-- `open`; a file is shown in the editor or gets its menu. -/
def open_ (v : FileExplorerView) : FileExplorerView :=
  if v.busy then v
  else match v.current with
    | none => v
    | some entry =>
      if entry.directory then
        (v.setPane v.active (v.pane.enter entry.path)).refresh calls v.active
      else v

/-- `toggleSelection` -/
def toggleSelection (v : FileExplorerView) : FileExplorerView :=
  if v.busy then v
  else match v.current with
    | none => v
    | some entry =>
      let p := v.pane
      v.setPane v.active { p with
        selected := if entry.path ∈ p.selected then p.selected.erase entry.path
          else insert entry.path p.selected }

/-- `sources` -/
def sources (v : FileExplorerView) : List FsPath :=
  if v.pane.selected ≠ ∅ then
    (v.pane.entries.filter fun e => e.path ∈ v.pane.selected).map Entry.path
  else (v.current.map Entry.path).toList

/-- `stageClipboard` -/
def stageClipboard (paths : List FsPath) (cut : Bool) (v : FileExplorerView) : FileExplorerView :=
  if paths = [] then v
  else
    { v with
      clipboard := paths
      clipboardCut := cut
      status := i18n (if cut then "explorer/staged_cut" else "explorer/staged_copy") ++ " " ++
        toString paths.length ++ " " ++ i18n "explorer/items" }

/-- `startJob` -/
def startJob (job : Job) (v : FileExplorerView) : FileExplorerView :=
  if v.busy then v
  else
    { v with
      busy := true
      jobCancel := false
      jobFinished := false
      runningJob := job
      status := i18n (operationStatus job.operation) }

/-- `paste` -/
def paste (destination : FsPath) (v : FileExplorerView) : FileExplorerView :=
  if v.busy then v
  else if v.clipboard = [] then v.error (i18n "explorer/clipboard_empty")
  else if v.clipboardCut then v.startJob i18n ⟨.Move, v.clipboard, destination⟩
  else v.startJob i18n ⟨.Copy, v.clipboard, destination⟩

/-- `name.find_first_of("/:\\") != npos`, and the names of the folder and of its parent -/
def badName (name : Name) : Prop :=
  name = "." ∨ name = ".." ∨ '/' ∈ name.toList ∨ ':' ∈ name.toList ∨ '\\' ∈ name.toList

instance (name : Name) : Decidable (badName name) := inferInstanceAs (Decidable (_ ∨ _))

/-- `createFolder`, for the name the keyboard returns. -/
def createFolder (name : Option Name) (v : FileExplorerView) : FileExplorerView :=
  if v.busy then v
  else match name with
    | none => v
    | some name =>
      if name = "" then v
      else if badName name then v.error (i18n "explorer/invalid_name")
      else match calls.create_directory (v.pane.folder ++ [name]) with
        | .error message => v.error (i18n "explorer/create_failed" ++ ": " ++ message)
        | .ok false => v.error (i18n "explorer/target_exists")
        | .ok true => v.refreshAll calls

/-- A rename is refused while the other pane shows the folder or something inside it. -/
def renameRefused (v : FileExplorerView) (entry : Entry) : Prop :=
  entry.directory = true ∧ pathInside v.other.folder entry.path

instance (v : FileExplorerView) (entry : Entry) : Decidable (v.renameRefused entry) :=
  inferInstanceAs (Decidable (_ ∧ _))

/-- A name that cannot be given. -/
def badNewName (name : Name) : Prop := badName name ∨ ∃ c ∈ name.toList, c.toNat < 32

instance (name : Name) : Decidable (badNewName name) := inferInstanceAs (Decidable (_ ∨ _))

/-- The path of an entry under another name. -/
def renamed (entry : Entry) (name : Name) : FsPath := entry.path.dropLast ++ [name]

/-- The marks go and the panes are listed anew, as at the end of `renameEntry`. -/
def afterRename (v : FileExplorerView) : FileExplorerView :=
  let p := v.pane
  (v.setPane v.active { p with selected := ∅ }).refreshAll calls

/-- `renameEntry`, for the name the keyboard returns. -/
def renameEntry (entry : Entry) (name : Option Name) (v : FileExplorerView) : FileExplorerView :=
  if v.busy then v
  else if v.renameRefused entry then v.error (i18n "explorer/rename_open_folder")
  else match name with
    | none => v
    | some name =>
      if name = "" ∨ name = entry.name then v
      else if badNewName name then v.error (i18n "explorer/invalid_name")
      else if ¬isSdPath (renamed entry name) ∨ calls.exists_ (renamed entry name) ≠ some false then
        v.error (i18n "explorer/target_exists")
      else match calls.rename entry.path (renamed entry name) with
        | .error message =>
          (v.error (i18n "explorer/rename_failed" ++ ": " ++ message)).afterRename calls
        | .ok () =>
          { v with
            status := i18n "explorer/renamed" ++ ": " ++ name
            clipboard := if ∃ p ∈ v.clipboard, pathInside p entry.path then []
              else v.clipboard }.afterRename calls

/-! ### The menus -/

/-- The options of `actions`. -/
inductive ActionsOption where
  | new_folder (name : Option Name)
  | paste
  | refresh
  | clipboard_copy
  | clipboard_cut
  | rename (name : Option Name)
  | copy_other
  | move_other
  | delete

/-- `actions`, for the option that is chosen; one that is not offered does nothing. -/
def actions (option : ActionsOption) (v : FileExplorerView) : FileExplorerView :=
  if v.busy then v
  else
    let paths := v.sources
    match option with
    | .new_folder name => v.createFolder i18n calls name
    | .paste => if v.clipboard = [] then v else v.paste i18n v.pane.folder
    | .refresh => v.refreshAll calls
    | .clipboard_copy => v.stageClipboard i18n paths false
    | .clipboard_cut => v.stageClipboard i18n paths true
    | .rename name =>
      match paths with
      | [path] =>
        match v.pane.entries.find? fun e => e.path = path with
        | some entry => v.renameEntry i18n calls entry name
        | none => v
      | _ => v
    | .copy_other =>
      if paths ≠ [] ∧ v.dualPane then v.startJob i18n ⟨.Copy, paths, v.other.folder⟩ else v
    | .move_other =>
      if paths ≠ [] ∧ v.dualPane then v.startJob i18n ⟨.Move, paths, v.other.folder⟩ else v
    | .delete => if paths ≠ [] then v.startJob i18n ⟨.Delete, paths, []⟩ else v

/-- The options of `entryMenu`; the editor is another page. -/
inductive EntryOption where
  | extract
  | clipboard_copy
  | clipboard_cut
  | paste
  | rename (name : Option Name)
  | delete

/-- `endsWith(entry.name, ".zip")` -/
def isZip (name : Name) : Prop := ".zip".toList <:+ (lower name).toList

instance (name : Name) : Decidable (isZip name) := inferInstanceAs (Decidable (_ <:+ _))

/-- `entryMenu`, of the entry under the cursor -/
def entryMenu (option : EntryOption) (v : FileExplorerView) : FileExplorerView :=
  if v.busy then v
  else match v.current with
    | none => v
    | some entry =>
      let destination := if entry.directory then entry.path else v.pane.folder
      match option with
      | .extract =>
        let target := if v.dualPane then v.other.folder else v.pane.folder
        if isZip entry.name then v.startJob i18n ⟨.ExtractZip, [entry.path], target⟩ else v
      | .clipboard_copy => v.stageClipboard i18n [entry.path] false
      | .clipboard_cut => v.stageClipboard i18n [entry.path] true
      | .paste => if v.clipboard = [] then v else v.paste i18n destination
      | .rename name => v.renameEntry i18n calls entry name
      | .delete => v.startJob i18n ⟨.Delete, [entry.path], []⟩

/-! ### The job's end -/

/-- The thread of the job stores its result. -/
def jobEnds (ended : Except String Unit) (v : FileExplorerView) : FileExplorerView :=
  if v.busy && !v.jobFinished then
    { v with jobResult := result v.runningJob.operation ended, jobFinished := true }
  else v

/-- The status line for a result. -/
def finishedStatus (jobResult : String) : String :=
  if jobResult = "Elementos eliminados" then i18n "explorer/deleted"
  else if jobResult = "Elementos movidos" then i18n "explorer/moved"
  else if jobResult = "Copia completada" then i18n "explorer/copied"
  else if jobResult = "ZIP descomprimido" then i18n "explorer/extracted"
  else jobResult

/-- The job was a move or a deletion. -/
def takesAway (v : FileExplorerView) : Prop :=
  v.runningJob.operation = .Move ∨ v.runningJob.operation = .Delete

instance (v : FileExplorerView) : Decidable v.takesAway := inferInstanceAs (Decidable (_ ∨ _))

/-- What `finishJob` leaves of the clipboard. -/
def keptClipboard (v : FileExplorerView) : List FsPath :=
  let clipboard :=
    if ¬IsError v.jobResult ∧ v.takesAway ∧
        (∃ p ∈ v.clipboard, ∃ source ∈ v.runningJob.sources, pathInside p source) then []
    else v.clipboard
  if v.takesAway then clipboard.filter fun p => calls.exists_ p ≠ some false else clipboard

/-- `finishJob` -/
def finishJob (v : FileExplorerView) : FileExplorerView :=
  if ¬(v.busy ∧ v.jobFinished) then v
  else
    { v with
      busy := false
      clipboard := v.keptClipboard calls
      clipboardCut := v.clipboardCut && v.keptClipboard calls ≠ []
      status := finishedStatus i18n v.jobResult
      panes := fun which =>
        (v.panes which).climb (calls.above which) (v.panes which).folder.length }.refreshAll calls

/-! ## Runs -/

/-- What can happen to the view. -/
inductive Act where
  | open_
  | back
  | step (delta : ℤ)
  | toggleSelection
  | togglePanels
  | switchPane
  | createFolder (name : Option Name)
  | actions (option : ActionsOption)
  | entryMenu (option : EntryOption)
  | jobEnds (ended : Except String Unit)
  | finishJob

/-- What an action does. -/
def act (v : FileExplorerView) : Act → FileExplorerView
  | .open_ => v.open_ calls
  | .back => v.onBack calls
  | .step delta => v.step delta
  | .toggleSelection => v.toggleSelection
  | .togglePanels => v.togglePanels calls
  | .switchPane => v.switchPane
  | .createFolder name => v.createFolder i18n calls name
  | .actions option => v.actions i18n calls option
  | .entryMenu option => v.entryMenu i18n calls option
  | .jobEnds ended => v.jobEnds ended
  | .finishJob => v.finishJob i18n calls

/-- The constructor. -/
def opened : FileExplorerView := refresh calls false {}

/-- A run of actions, each with the answers its calls get. -/
def run (v : FileExplorerView) (acts : List (Act × Calls)) : FileExplorerView :=
  acts.foldl (fun v a => v.act i18n a.2 a.1) v

end FileExplorerView

end ExplorerPage
