/-
# The journal of an NSP install

`saveJournal`, `removeJournal` and `recoverStaleRealInstall` of `nsp_transaction_installer.cpp`.  An
interrupted install is rolled back from its journal, the content storage and the meta database being
asked call by call, each of which can fail; then the journal is removed.
-/
import AioMod.FatFs

namespace NspJournal

/-! ## JSON -/

/-- A JSON value, as far as the journals have them. -/
inductive Json where
  | str (s : Bytes)
  | num (n : ℕ)
  | bool (b : Bool)
  | arr (items : List Json)
  | obj (fields : List (String × Json))

namespace Json

/-- The field `key` of an object; `none` is the exception of another type. -/
def field (key : String) : Json → Option (Option Json)
  | .obj fields => some (fields.lookup key)
  | _ => none

/-- `value(key, default)` of a text; `none` is the exception of another type. -/
def valueStr (j : Json) (key : String) (default : Bytes) : Option Bytes := do
  match ← j.field key with
  | none => some default
  | some (.str s) => some s
  | some _ => none

/-- `value(key, default)` of a number; a boolean is one too. -/
def valueNat (j : Json) (key : String) (default : ℕ) : Option ℕ := do
  match ← j.field key with
  | none => some default
  | some (.num n) => some n
  | some (.bool b) => some b.toNat
  | some _ => none

/-- `value(key, default)` of a boolean. -/
def valueBool (j : Json) (key : String) (default : Bool) : Option Bool := do
  match ← j.field key with
  | none => some default
  | some (.bool b) => some b
  | some _ => none

/-- What the iterators of a value run over. -/
def items : Json → List Json
  | .arr items => items
  | .obj fields => fields.map Prod.snd
  | j => [j]

end Json

/-! ## Hexadecimal texts -/

/-- `hex` -/
def hex (p : Bytes) : Bytes := p.flatMap fun b => [hexDigit (b.toNat / 16), hexDigit (b.toNat % 16)]

/-- `nibble` -/
def nibble (c : UInt8) : Option ℕ :=
  if 48 ≤ c ∧ c ≤ 57 then some (c.toNat - 48)
  else if 97 ≤ c ∧ c ≤ 102 then some (c.toNat - 97 + 10)
  else if 65 ≤ c ∧ c ≤ 70 then some (c.toNat - 65 + 10)
  else none

/-- The loop of `fromHex` over a buffer of zeros. -/
def fromHexLoop : Bytes → Bool × Bytes
  | hi :: lo :: rest =>
    match nibble hi, nibble lo with
    | some h, some l =>
      let (ok, out) := fromHexLoop rest
      (ok, UInt8.ofNat (h * 16 + l) :: out)
    | _, _ => (false, List.replicate (rest.length / 2 + 1) 0)
  | _ => (true, [])

/-- `fromHex` into a buffer of `size` zeros. -/
def fromHex (s : Bytes) (size : ℕ) : Bool × Bytes :=
  if s.length ≠ size * 2 then (false, List.replicate size 0) else fromHexLoop s

/-! ## The content manager -/

/-- `NcmContentId` and `NcmPlaceHolderId`. -/
abbrev NcmId := { id : Bytes // id.length = 16 }

/-- `NcmContentMetaKey` -/
structure NcmContentMetaKey where
  id : UInt64
  version : UInt32
  type : UInt8
  install_type : UInt8
  padding : UInt8 × UInt8
  deriving DecidableEq

/-- A call that can fail; those of a content have its place in the journal. -/
inductive Call where
  | ncmInitialize | ncmOpenContentStorage | ncmOpenContentMetaDatabase
  | Remove | Commit
  | Has (i : ℕ) | Delete (i : ℕ) | HasPlaceHolder (i : ℕ) | DeletePlaceHolder (i : ℕ)
  | openJournal | removeTmp | removeRecovered | removeActive | existsActive | renameActive
  | removeTombstone | existsAgain

/-- The files of the journal, the contents and placeholders on the card, and the meta database: in
memory and as it was committed. -/
structure World where
  journal : Option Json
  tmp : Bool
  recovered : Bool
  contents : List Bytes
  placeholders : List Bytes
  db : List NcmContentMetaKey
  saved : List NcmContentMetaKey

/-- What the calls return; 0 is success. -/
abbrev Results := Call → ℕ

/-- All services work. -/
def works : Results := fun _ => 0

/-- The text of `rcDiag`. -/
def rcDiag (rc : ℕ) (place : String) : Bytes :=
  ascii place ++ ascii " rc=0x" ++ (Nat.toDigits 16 rc).map fun c => c.toUpper.toNat.toUInt8

/-- `NcmContext::open`; the text of its diagnostic where it fails. -/
def NcmContext.open (rc : Results) : Option Bytes :=
  if rc .ncmInitialize ≠ 0 then some (rcDiag (rc .ncmInitialize) "ncmInitialize")
  else if rc .ncmOpenContentStorage ≠ 0 then
    some (rcDiag (rc .ncmOpenContentStorage) "ncmOpenContentStorage(SD)")
  else if rc .ncmOpenContentMetaDatabase ≠ 0 then
    some (rcDiag (rc .ncmOpenContentMetaDatabase) "ncmOpenContentMetaDatabase(SD)")
  else none

/-- `ncmContentStorageDelete` -/
def ncmContentStorageDelete (rc : Results) (i : ℕ) (id : Bytes) (w : World) : World :=
  if rc (.Delete i) = 0 then { w with contents := w.contents.filter (· ≠ id) } else w

/-- `ncmContentStorageDeletePlaceHolder` -/
def ncmContentStorageDeletePlaceHolder (rc : Results) (i : ℕ) (id : Bytes) (w : World) : World :=
  if rc (.DeletePlaceHolder i) = 0 then
    { w with placeholders := w.placeholders.filter (· ≠ id) }
  else w

/-- `ncmContentMetaDatabaseRemove` -/
def ncmContentMetaDatabaseRemove (rc : Results) (key : NcmContentMetaKey) (w : World) : World :=
  if rc .Remove = 0 then { w with db := w.db.filter (· ≠ key) } else w

/-- `ncmContentMetaDatabaseCommit` -/
def ncmContentMetaDatabaseCommit (rc : Results) (w : World) : World :=
  if rc .Commit = 0 then { w with saved := w.db } else w

/-! ## The journal -/

/-- `PlannedContent`, less what the journal does not have. -/
structure PlannedContent where
  content_id : NcmId
  placeholder : NcmId
  placeholderCreated : Bool
  registered : Bool
  preExisting : Bool

/-- A content in the journal. -/
def PlannedContent.json (c : PlannedContent) : Json :=
  .obj [("content_id", .str (hex c.content_id.1)), ("placeholder_id", .str (hex c.placeholder.1)),
    ("placeholder_created", .bool c.placeholderCreated), ("registered", .bool c.registered),
    ("pre_existing", .bool c.preExisting)]

/-- `saveJournal`: what stands in the journal. -/
def saveJournal (package : Bytes) (appId : UInt64) (key : NcmContentMetaKey)
    (contents : List PlannedContent) (metaSet recordPushed ticketImported : Bool) (stage : Bytes) :
    Json :=
  .obj [("owner", .str (ascii "aio-switch-updater-mod")), ("kind", .str (ascii "real-install")),
    ("package", .str package), ("stage", .str stage), ("application_id", .num appId.toNat),
    ("meta_key", .obj [("id", .num key.id.toNat), ("version", .num key.version.toNat),
      ("type", .num key.type.toNat), ("install_type", .num key.install_type.toNat)]),
    ("meta_set", .bool metaSet), ("record_pushed", .bool recordPushed),
    ("ticket_imported", .bool ticketImported),
    ("contents", .arr (contents.map PlannedContent.json))]

/-- `removeJournal` -/
def removeJournal (rc : Results) (w : World) : (Bool × Bytes) × World :=
  let w := if rc .removeTmp = 0 then { w with tmp := false } else w
  let w := if rc .removeRecovered = 0 then { w with recovered := false } else w
  let w := if rc .removeActive = 0 then { w with journal := none } else w
  if rc .existsActive = 0 ∧ w.journal.isNone then ((true, ascii "Install journal cleared."), w)
  else if rc .renameActive = 0 ∧ w.journal.isSome then
    let w := { w with journal := none, recovered := true }
    let w := if rc .removeTombstone = 0 then { w with recovered := false } else w
    if rc .existsAgain = 0 ∧ w.journal.isNone then
      ((true, ascii "Install journal cleared after rename fallback."), w)
    else ((false, ascii "Could not remove the active install journal."), w)
  else ((false, ascii "Could not remove the active install journal."), w)

/-- The end of a recovery: the journal is removed. -/
def clear (rc : Results) (failed done : Bytes) (w : World) : (Bool × Option Bytes) × World :=
  match removeJournal rc w with
  | ((true, _), w) => ((true, some done), w)
  | ((false, detail), w) => ((false, some (failed ++ detail)), w)

theorem lawfulBEq_bytes : LawfulBEq Bytes := inferInstance

attribute [local instance] lawfulBEq_bytes

/-- A journal of the kind "ncm-probe". -/
def recoverProbe (rc : Results) (j : Json) (w : World) : (Bool × Option Bytes) × World :=
  match j.valueStr "placeholder_id" [] with
  | none => ((false, none), w)
  | some s =>
    let (ok, placeholder) := fromHex s 16
    if ok = false then
      ((false, some (ascii "Legacy ncm-probe journal has an invalid placeholder id.")), w)
    else
      match NcmContext.open rc with
      | some d => ((false, some d), w)
      | none =>
        if rc (.HasPlaceHolder 0) ≠ 0 then
          ((false, some (ascii "Could not inspect legacy NCM placeholder.")), w)
        else if placeholder ∈ w.placeholders ∧ rc (.DeletePlaceHolder 0) ≠ 0 then
          ((false, some (ascii "Could not remove legacy NCM placeholder.")), w)
        else
          clear rc [] (ascii "Legacy ncm-probe transaction recovered.")
            (ncmContentStorageDeletePlaceHolder rc 0 placeholder w)

/-- A journal of the kind "cnmt-analysis". -/
def recoverAnalysis (rc : Results) (j : Json) (w : World) : (Bool × Option Bytes) × World :=
  match j.valueStr "content_id" [], j.valueBool "content_created" false with
  | some s, created =>
    let (ok, content) := fromHex s 16
    if ok = false then
      ((false, some (ascii "Legacy cnmt-analysis journal has an invalid ContentId.")), w)
    else
      match created with
      | none => ((false, none), w)
      | some false => clear rc [] (ascii "Legacy cnmt-analysis transaction recovered.") w
      | some true =>
        match NcmContext.open rc with
        | some d => ((false, some d), w)
        | none =>
          if rc (.Has 0) ≠ 0 then
            ((false, some (ascii "Could not inspect legacy CNMT content.")), w)
          else if content ∈ w.contents ∧ rc (.Delete 0) ≠ 0 then
            ((false, some (ascii "Could not remove legacy CNMT content.")), w)
          else
            clear rc [] (ascii "Legacy cnmt-analysis transaction recovered.")
              (ncmContentStorageDelete rc 0 content w)
  | none, _ => ((false, none), w)

/-- What the loop over the contents does for one of them. -/
inductive Undo where
  | deleteContent (cid : Bytes)
  | deletePlaceHolder (ph : Bytes)
  | nothing

/-- What is read of a content in the journal; `none` is an exception. -/
def undoOf (x : Json) : Option Undo := do
  let cid := (fromHex (← x.valueStr "content_id" []) 16).2
  let ph := (fromHex (← x.valueStr "placeholder_id" []) 16).2
  let registered ← x.valueBool "registered" false
  let newly ← if registered then (x.valueBool "pre_existing" false).map (!·) else some false
  if newly then some (.deleteContent cid)
  else if ← x.valueBool "placeholder_created" false then some (.deletePlaceHolder ph)
  else some .nothing

/-- The calls for one content. -/
def undo (rc : Results) (i : ℕ) (w : World) : Undo → World
  | .deleteContent cid =>
    if rc (.Has i) = 0 ∧ cid ∈ w.contents then ncmContentStorageDelete rc i cid w else w
  | .deletePlaceHolder ph =>
    if rc (.HasPlaceHolder i) = 0 ∧ ph ∈ w.placeholders then
      ncmContentStorageDeletePlaceHolder rc i ph w
    else w
  | .nothing => w

/-- The loop over the contents; an exception ends it with the world as it is then. -/
def undoContents (rc : Results) : List (Json × ℕ) → World → Except World World
  | [], w => .ok w
  | (x, i) :: rest, w =>
    match undoOf x with
    | none => .error w
    | some u => undoContents rc rest (undo rc i w u)

/-- The key in the journal, its padding being zero. -/
def metaKeyOf (j : Json) : Option NcmContentMetaKey := do
  let k ← (← j.field "meta_key")
  let id ← k.valueNat "id" 0
  let version ← k.valueNat "version" 0
  let type ← k.valueNat "type" 0
  let install_type ← k.valueNat "install_type" 0
  some ⟨UInt64.ofNat id, UInt32.ofNat version, UInt8.ofNat type, UInt8.ofNat install_type, (0, 0)⟩

/-- The part of the rollback that is about the meta database. -/
def undoMeta (rc : Results) (j : Json) (w : World) : Except World World :=
  match j.valueBool "meta_set" false with
  | none => .error w
  | some false => .ok w
  | some true =>
    match metaKeyOf j with
    | none => .error w
    | some key => .ok (ncmContentMetaDatabaseCommit rc (ncmContentMetaDatabaseRemove rc key w))

/-- The rollback. -/
def rollBack (rc : Results) (j : Json) (w : World) : Except World World :=
  match undoMeta rc j w with
  | .error w => .error w
  | .ok w =>
    match j.field "contents" with
    | some (some contents) => undoContents rc contents.items.zipIdx.reverse w
    | _ => .ok w

/-- A journal of the kind "real-install". -/
def recoverInstall (rc : Results) (j : Json) (w : World) : (Bool × Option Bytes) × World :=
  match j.valueStr "stage" [] with
  | none => ((false, none), w)
  | some stage =>
    if stage = ascii "application-record" ∨ stage = ascii "complete" then
      clear rc [] (ascii "Completed install journal cleared.") w
    else
      match NcmContext.open rc with
      | some d => ((false, some d), w)
      | none =>
        match rollBack rc j w with
        | .error w => ((false, none), w)
        | .ok w =>
          clear rc (ascii "Rollback completed, but ")
            (ascii "Interrupted AIO install rolled back and journal cleared.") w

/-- `recoverStaleRealInstall`: its answer, the detail (`none` where it is not set, or is the text of
an exception), and the world afterwards. -/
def recoverStaleRealInstall (rc : Results) (w : World) : (Bool × Option Bytes) × World :=
  match w.journal with
  | none => ((true, none), w)
  | some j =>
    if rc .openJournal ≠ 0 then
      ((false, some (ascii "Could not open install journal for recovery.")), w)
    else
      match j.valueStr "owner" [], j.valueStr "kind" [] with
      | some owner, some kind =>
        if owner ≠ ascii "aio-switch-updater-mod" then
          ((false, some (ascii "Install journal belongs to an unknown owner; it was preserved.")), w)
        else if kind = ascii "ncm-probe" then recoverProbe rc j w
        else if kind = ascii "cnmt-analysis" then recoverAnalysis rc j w
        else if kind ≠ ascii "real-install" then
          ((false, some (ascii "Unknown AIO install journal kind: " ++ kind)), w)
        else recoverInstall rc j w
      | _, _ => ((false, none), w)

end NspJournal
