/-
# The text editor

`ini_editor_page.cpp`: a file of the card is loaded into lines, edited line by line and written
back through a temporary file and a backup.  Drawing and the confirmation of a discard are left
out, and so is the keyboard, whose answers are given.
-/
import AioMod.ExplorerOps
import AioMod.PortUninstall
import AioMod.TextLines

namespace IniEditor

open Explorer Throws TextLines

def LF : UInt8 := 10

def CR : UInt8 := 13

/-- The largest file the editor loads or writes. -/
def maxSize : ℕ := 128 * 1024

/-- The largest number of lines. -/
def maxLines : ℕ := 2000

/-- The rows on the screen. -/
def rows : ℕ := 14

/-- `IniEditorView`, of a file that is loaded. -/
structure IniEditorView where
  file : FsPath
  lines : List Bytes
  cursor : ℕ := 0
  first : ℕ := 0
  crlf : Bool
  trailingNewline : Bool
  jsonFile : Bool
  dirty : Bool := false
  status : String
  deriving DecidableEq

/-- A carriage return at the end of a line is dropped. -/
def popCR (line : Bytes) : Bytes := if line.getLast? = some CR then line.dropLast else line

/-- The constructor, for the contents that are read; an exception becomes the status of a view
that is not loaded, on which nothing can be done. -/
def IniEditorView.load (file : FsPath) (contents : Bytes) : Except String IniEditorView :=
  let extension := lower (PortUninstall.extension (filename file))
  let crlf := decide ([CR, LF] <:+: contents)
  let trailingNewline := endsWith LF contents
  let lines := (getlines LF contents).map popCR
  let lines := if lines = [] then [[]] else lines
  if ¬isSdPath file ∨ (extension ≠ ".ini" ∧ extension ≠ ".json" ∧ extension ≠ ".txt") then
    .error "Solo se editan archivos INI, JSON o TXT de la microSD"
  else if maxSize < contents.length then
    .error "Archivo demasiado grande para el editor (maximo 128 KiB)"
  else if 0 ∈ contents then .error "El archivo no es texto plano"
  else if maxLines < lines.length then .error "Archivo con demasiadas lineas"
  else .ok
    { file, lines, crlf, trailingNewline, jsonFile := extension = ".json", status := text file }

namespace IniEditorView

/-! ## Moving and editing -/

/-- `std::clamp` -/
def clamp (value low high : ℤ) : ℤ :=
  if value < low then low else if high < value then high else value

def move (e : IniEditorView) (amount : ℤ) : IniEditorView :=
  let cursor := (clamp (e.cursor + amount) 0 (e.lines.length - 1)).toNat
  let first := if cursor < e.first then cursor else e.first
  let first := if first + rows ≤ cursor then cursor - 13 else first
  { e with cursor, first }

/-- Whether the keyboard's answer fits on one line. -/
def oneLine (text : Bytes) : Bool := LF ∉ text ∧ CR ∉ text

/-- `edit`, the keyboard being cancelled or answered with a text. -/
def edit (e : IniEditorView) (updated : Option Bytes) : IniEditorView :=
  match e.lines[e.cursor]?, updated with
  | some line, some updated =>
    if 512 < line.length then e
    else if oneLine updated = false then e
    else if updated ≠ line then { e with lines := e.lines.set e.cursor updated, dirty := true }
    else e
  | _, _ => e

/-- `insertLine`, with the keyboard's answer. -/
def insertLine (e : IniEditorView) (added : Option Bytes) : IniEditorView :=
  if maxLines ≤ e.lines.length then e
  else
    match added with
    | some added =>
      if oneLine added = false then e
      else
        let cursor := e.cursor + 1
        { e with
          lines := e.lines.insertIdx (e.cursor + 1) added
          cursor
          first := if e.first + rows ≤ cursor then cursor - 13 else e.first
          dirty := true }
    | none => e

/-- `deleteLine`, with the answer to the dialog. -/
def deleteLine (e : IniEditorView) (confirmed : Bool) : IniEditorView :=
  if confirmed then
    let lines := if e.lines.length = 1 then e.lines.set 0 [] else e.lines.eraseIdx e.cursor
    { e with
      lines
      cursor := if lines.length ≤ e.cursor then lines.length - 1 else e.cursor
      dirty := true }
  else e

/-- The lines that `draw` shows. -/
def drawn (e : IniEditorView) : List ℕ :=
  (List.range' e.first rows).filter fun index => index < e.lines.length

/-! ## Saving -/

/-- The text that `save` writes. -/
def serialized (e : IniEditorView) : Bytes :=
  join (if e.crlf then [CR, LF] else [LF]) e.trailingNewline e.lines

/-- A file beside another one. -/
def beside (file : FsPath) (suffix : String) : FsPath := file.dropLast ++ [filename file ++ suffix]

def temporary (e : IniEditorView) : FsPath := beside e.file ".aio-edit.tmp"

def backup (e : IniEditorView) : FsPath := beside e.file ".aio-edit.bak"

/-- What `save` shows in the end. -/
inductive Saved where
  | unchanged
  | tooLarge
  | jsonInvalid
  | tempExists
  | saved
  | failed (status : String)
  deriving DecidableEq

/-- An `exists` whose error is not looked at. -/
def probe (p : FsPath) : Op Bool := do
  let r ← fs (.exists_ p)
  pure (r = some true)

/-- The body of the `try` of `save`. -/
def write (e : IniEditorView) : Op Unit := do
  let output ← fs (.ofstream e.temporary)
  require (output = true) "No se pudo crear el archivo temporal"
  let written ← fs (.write e.temporary e.serialized)
  let flushed ← fs (.flush e.temporary)
  require (written = true ∧ flushed = true) "No se pudo escribir el INI"
  let closed ← fs (.close e.temporary)
  require (closed = true) "No se pudo cerrar el archivo temporal"
  let moved ← fs (.rename e.file e.backup)
  require (moved = true) "No se pudo resguardar el INI original: "
  let moved ← fs (.rename e.temporary e.file)
  if moved then pure ()
  else
    let _ ← fs (.rename e.backup e.file)
    throw "No se pudo guardar el INI: "
  let _ ← fs (.remove e.backup)

/-- The handler of `save`. -/
def cleanUp (e : IniEditorView) : Op Unit := do
  let file ← probe e.file
  if file = false then
    let backup ← probe e.backup
    if backup then
      let _ ← fs (.rename e.backup e.file)
  let file ← probe e.file
  if file then
    let _ ← fs (.remove e.temporary)

/-- `save`; `parses` says which texts are JSON. -/
def save (parses : Bytes → Bool) (e : IniEditorView) : Op Saved := do
  if e.dirty = false then return .unchanged
  if maxSize < e.serialized.length then return .tooLarge
  if e.jsonFile = true ∧ parses e.serialized = false then return .jsonInvalid
  let temporary ← probe e.temporary
  if temporary then return .tempExists
  let backup ← probe e.backup
  if backup then return .tempExists
  tryCatch (do
    e.write
    pure .saved) fun status => do
      e.cleanUp
      pure (.failed status)

end IniEditorView

end IniEditor
