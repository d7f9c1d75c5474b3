/-
# The native MTP responder

The USB thread reads command containers, answers them, and hands the object of a
`SendObject` to the installer.  `usb` holds what the host is going to send, one item for each
receive that is posted; when nothing is left the cable is out and a receive fails.  What is
sent to the host is recorded; sends succeed.

The installer reads its stream through `InstallStream`, so its verdict depends on the bytes
pushed and on what was installed before.
-/
import AioMod.MtpDatasets

namespace MtpNativeServer

open ByteImage

/-- `IO_BUFFER_SIZE` -/
def IO_BUFFER_SIZE : ℕ := 4 * 1024 * 1024

/-- What a receive that is posted gets: a transfer, or it fails. -/
abbrev Completion := Option Bytes

/-- `ServerState` -/
inductive ServerState where
  | Stopped
  | Starting
  | WaitingForHost
  | Connected
  | Receiving
  | Preflighting
  | Ready
  | Installing
  | Error
  deriving DecidableEq

/-- What goes to the host. -/
inductive Message where
  | response (code : UInt16) (transaction : UInt32) (params : List UInt32)
  | data (operation : UInt16) (transaction : UInt32) (payload : Bytes)
  | event (code : UInt16) (params : List UInt32)
  deriving DecidableEq

/-- A run of the installer: its arguments and the bytes pushed before the end of its stream. -/
structure Install where
  name : Bytes
  packageSize : ℕ
  stream : Bytes
  deriving DecidableEq

/-- The system's answers: the installer's result after the runs so far, `none` if it is ok,
and the sizes of the card. -/
structure Platform where
  install : List Install → Option Nsp.ErrorCode
  totalSpace : Option ℤ
  freeSpace : Option ℤ

/-- A console that installs everything, and does not tell the sizes of its card. -/
def platform : Platform := ⟨fun _ => none, none, none⟩

/-- `rxBuffer` with its `rxAvailable` bytes, `rxOffset` and `rxShortPacket` -/
structure Rx where
  rxBuffer : Bytes := []
  rxOffset : ℕ := 0
  rxShortPacket : Bool := false
  deriving DecidableEq

/-- `NativeMtpServer`, with the file names and counters of its `status`. -/
structure Server where
  usb : List Completion
  rx : Rx := {}
  sessionId : UInt32 := 0
  nextObjectHandle : UInt32 := 1
  pendingObjectHandle : UInt32 := 0
  pendingName : Bytes := []
  pendingSize : ℕ := 0
  pendingSizeKnown : Bool := false
  pendingFormat : UInt16 := 0
  pendingValid : Bool := false
  installerBusy : Bool := false
  state : ServerState := .Connected
  currentFile : Bytes := []
  lastCompletedFile : Bytes := []
  lastFailedFile : Bytes := []
  sessionInstalledCount : ℕ := 0
  sessionFailedCount : ℕ := 0
  sent : List Message := []
  installed : List Install := []
  deriving DecidableEq

/-! ## Receiving -/

/-- A transfer in the buffer. -/
def Rx.received (bs : Bytes) : Rx := ⟨bs, 0, bs.length < IO_BUFFER_SIZE⟩

/-- The buffer after a receive that failed. -/
def Rx.failed (rx : Rx) : Rx := { rx with rxBuffer := [], rxOffset := 0 }

/-- The bytes that were received and not yet read. -/
def Rx.rest (rx : Rx) : Bytes := rx.rxBuffer.drop rx.rxOffset

/-- `rxOffset += n` -/
def Rx.advance (rx : Rx) (n : ℕ) : Rx := { rx with rxOffset := rx.rxOffset + n }

/-- The loop of `readExact`.  A round that finds the buffer empty receives first; here each
round ends with that receive. -/
def readLoop (size : ℕ) : List Completion → Rx → Bytes → Option Bytes × List Completion × Rx
  | usb, rx, done =>
    let take := min (size - done.length) rx.rest.length
    let done := done ++ rx.rest.take take
    let rx := rx.advance take
    if size ≤ done.length then (some done, usb, rx)
    else
      match usb with
      | [] => (none, [], rx.failed)
      | none :: usb => (none, usb, rx.failed)
      | some [] :: usb => (none, usb, .received [])
      | some bs :: usb => readLoop size usb (.received bs) done

/-- `readExact`: the bytes, or `none` for false. -/
def Server.readExact (s : Server) (size : ℕ) : Option Bytes × Server :=
  let r := readLoop size s.usb s.rx []
  (r.1, { s with usb := r.2.1, rx := r.2.2 })

/-- `drainExact` -/
def Server.drainExact (s : Server) (size : ℕ) : Bool × Server :=
  if _h : size = 0 then (true, s)
  else
    match s.readExact (min size 4096) with
    | (none, s) => (false, s)
    | (some _, s) => s.drainExact (size - min size 4096)
  termination_by size
  decreasing_by omega

/-! ## Sending -/

/-- `sendResponse` -/
def Server.sendResponse (s : Server) (code : UInt16) (transaction : UInt32)
    (params : List UInt32 := []) : Server :=
  { s with sent := s.sent ++ [.response code transaction params] }

/-- `sendData` -/
def Server.sendData (s : Server) (operation : UInt16) (transaction : UInt32) (payload : Bytes) :
    Server :=
  { s with sent := s.sent ++ [.data operation transaction payload] }

/-- `sendEvent` -/
def Server.sendEvent (s : Server) (code : UInt16) (params : List UInt32) : Server :=
  { s with sent := s.sent ++ [.event code params] }

/-! ## The pending object -/

def Server.currentObjectExists (s : Server) : Bool := s.pendingValid

def Server.currentObjectName (s : Server) : Bytes := if s.pendingValid then s.pendingName else []

def Server.currentObjectSize (s : Server) : ℕ :=
  if s.pendingValid ∧ s.pendingSizeKnown then s.pendingSize else 0

def Server.currentObjectHandle (s : Server) : UInt32 :=
  if s.pendingValid then s.pendingObjectHandle else 0

def Server.resetPendingObject (s : Server) : Server :=
  { s with
    pendingName := [], pendingSize := 0, pendingSizeKnown := false, pendingFormat := 0,
    pendingValid := false, pendingObjectHandle := 0
    rx := { s.rx with rxShortPacket := false } }

/-- The event that makes the host drop an object. -/
def Server.sendRemoved (s : Server) (handle : UInt32) : Server :=
  if handle ≠ 0 then s.sendEvent EVENT_OBJECT_REMOVED [handle] else s

/-- `failTransfer` while the device is configured. -/
def Server.failTransfer (s : Server) (mtpResponse : UInt16) (transaction : UInt32) : Server :=
  let failedHandle := s.currentObjectHandle
  let failedName := s.pendingName
  let s := { s with state := .Error }
  let s := s.sendResponse mtpResponse transaction
  let s := s.resetPendingObject
  let s := { s with
    currentFile := failedName, lastFailedFile := failedName
    sessionFailedCount := s.sessionFailedCount + 1 }
  s.sendRemoved failedHandle

/-- The handle that `preparePendingObject` gives out, and the one after it. -/
def freshHandle (nextObjectHandle : UInt32) : UInt32 × UInt32 :=
  if nextObjectHandle = 0 ∨ nextObjectHandle = 0xFFFFFFFF then (1, 2)
  else (nextObjectHandle, nextObjectHandle + 1)

def Server.preparePendingObject (s : Server) (name : Bytes) (size : ℕ) (sizeKnown : Bool)
    (format : UInt16) (trans : UInt32) : Server :=
  if s.installerBusy ∨ s.pendingValid then s.sendResponse RES_DEVICE_BUSY trans
  else if format = FORMAT_ASSOCIATION ∨ ¬isSafeNspName name then
    s.sendResponse (if format = FORMAT_ASSOCIATION then RES_INVALID_OBJECT_FORMAT
      else RES_INVALID_OBJECT_INFO) trans
  else
    let handles := freshHandle s.nextObjectHandle
    let s := { s with
      pendingName := name, pendingSize := size, pendingSizeKnown := sizeKnown
      pendingFormat := format, pendingObjectHandle := handles.1, nextObjectHandle := handles.2
      pendingValid := true, currentFile := name, state := .Connected }
    s.sendResponse RES_OK trans [STORAGE_ID, ROOT_PARENT, s.currentObjectHandle]

/-! ## Datasets for the host -/

/-- `APP_VERSION` -/
def APP_VERSION : String := "5.2.1"

def makeDeviceInfo : Bytes :=
  add16 100 ++ add32 6 ++ add16 0x0064 ++ addString (Nsp.text "microsoft.com: 1.0;") ++ add16 0 ++
    addArray16 (Operation.all.map Operation.code) ++ addArray16 [EVENT_OBJECT_REMOVED] ++
    addArray16 [] ++ addArray16 [] ++ addArray16 [FORMAT_UNDEFINED, FORMAT_ASSOCIATION] ++
    addString (Nsp.text "Alucardio") ++ addString (Nsp.text "AIO MOD") ++
    addString (Nsp.text (APP_VERSION ++ " MTP Installer")) ++
    addString (Nsp.text ("AIO-MOD-" ++ APP_VERSION))

def makeStorageIds : Bytes := addArray32 [STORAGE_ID]

/-- A size that the system reports, 0 if it is not positive or not there. -/
def positiveSize (size : Option ℤ) : ℕ := (size.getD 0).toNat

def makeStorageInfo (p : Platform) : Bytes :=
  let freeBytes := positiveSize p.freeSpace
  let capacity := if 0 < positiveSize p.totalSpace then positiveSize p.totalSpace else max freeBytes 1
  add16 0x0003 ++ add16 0x0002 ++ add16 0x0000 ++ add64 (.ofNat capacity) ++ add64 (.ofNat freeBytes) ++
    add32 0xFFFFFFFF ++ addString (Nsp.text "SD Card Install") ++ addString (Nsp.text "AIO-MOD")

def Server.makeObjectHandles (s : Server) : Bytes :=
  addArray32 (if s.currentObjectExists then [s.currentObjectHandle] else [])

def Server.makeObjectInfo (s : Server) : Bytes :=
  let size := s.currentObjectSize
  add32 STORAGE_ID ++ add16 FORMAT_UNDEFINED ++ add16 0 ++
    add32 (if 0xFFFFFFFF < size then 0xFFFFFFFF else .ofNat size) ++
    add16 0 ++ add32 0 ++ add32 0 ++ add32 0 ++ add32 0 ++ add32 0 ++ add32 0 ++
    add32 ROOT_PARENT ++ add16 0 ++ add32 0 ++ add32 0 ++
    addString s.currentObjectName ++ addString [] ++ addString [] ++ addString []

/-- The properties of an object. -/
def objectProps : List UInt16 :=
  [PROP_STORAGE_ID, PROP_OBJECT_FORMAT, PROP_OBJECT_SIZE, PROP_OBJECT_FILE_NAME, PROP_PARENT,
    PROP_PERSISTENT_ID]

def makeObjectPropsSupported : Bytes := addArray16 objectProps

/-- `makeObjectPropDesc`, `none` where it leaves `valid` at false. -/
def makeObjectPropDesc (prop : UInt16) : Option Bytes :=
  if prop = PROP_STORAGE_ID then
    some (add16 prop ++ add16 TYPE_UINT32 ++ [0] ++ add32 0 ++ add32 0 ++ [0])
  else if prop = PROP_OBJECT_FORMAT then
    some (add16 prop ++ add16 TYPE_UINT16 ++ [0] ++ add16 0 ++ add32 0 ++ [0])
  else if prop = PROP_OBJECT_SIZE then
    some (add16 prop ++ add16 TYPE_UINT64 ++ [0] ++ add64 0 ++ add32 0 ++ [0])
  else if prop = PROP_OBJECT_FILE_NAME then
    some (add16 prop ++ add16 TYPE_STRING ++ [1] ++ addString [] ++ add32 0 ++ [0])
  else if prop = PROP_PARENT then
    some (add16 prop ++ add16 TYPE_UINT32 ++ [0] ++ add32 0 ++ add32 0 ++ [0])
  else if prop = PROP_PERSISTENT_ID then
    some (add16 prop ++ add16 TYPE_UINT128 ++ [0] ++ add128 0 0 ++ add32 0 ++ [0])
  else none

/-- The type and value of a property, as `makeObjectPropValue` and `makeObjectPropList` have
them. -/
def Server.propValue (s : Server) (prop : UInt16) : Option (UInt16 × Bytes) :=
  if prop = PROP_STORAGE_ID then some (TYPE_UINT32, add32 STORAGE_ID)
  else if prop = PROP_OBJECT_FORMAT then some (TYPE_UINT16, add16 FORMAT_UNDEFINED)
  else if prop = PROP_OBJECT_SIZE then some (TYPE_UINT64, add64 (.ofNat s.currentObjectSize))
  else if prop = PROP_OBJECT_FILE_NAME then some (TYPE_STRING, addString s.currentObjectName)
  else if prop = PROP_PARENT then some (TYPE_UINT32, add32 ROOT_PARENT)
  else if prop = PROP_PERSISTENT_ID then
    some (TYPE_UINT128, add128 s.currentObjectHandle.toUInt64 0)
  else none

/-- `makeObjectPropValue`, `none` where it leaves `valid` at false. -/
def Server.makeObjectPropValue (s : Server) (prop : UInt16) : Option Bytes :=
  (s.propValue prop).map Prod.snd

/-- `makeObjectPropList`, `none` where it leaves `valid` at false. -/
def Server.makeObjectPropList (s : Server) (handle : UInt32) (requested : UInt16) : Option Bytes :=
  if ¬s.currentObjectExists then some (add32 0)
  else if handle ≠ s.currentObjectHandle ∧ handle ≠ 0xFFFFFFFF then none
  else
    let list (selected : List UInt16) : Bytes :=
      add32 (.ofNat selected.length) ++ selected.flatMap fun prop =>
        match s.propValue prop with
        | some (type, value) => add32 s.currentObjectHandle ++ add16 prop ++ add16 type ++ value
        | none => []
    if requested = 0xFFFF ∨ requested = 0 then some (list objectProps)
    else if requested ∈ objectProps then some (list [requested])
    else none

/-! ## Operations with a data phase -/

/-- The data container of `handleSendObjectInfo`, `handleSendObjectPropList` and
`handleSetObjectPropValue`: its payload of `least` to `most` bytes, or `none` where the
handler returns. -/
def Server.readDataset (s : Server) (op : Operation) (trans : UInt32) (least most : ℕ) :
    Option Bytes × Server :=
  match s.readExact headerSize with
  | (none, s) => (none, s)
  | (some bytes, s) =>
    let dataHeader := ContainerHeader.decode bytes
    let length := dataHeader.length.toNat
    if dataHeader.type ≠ CONTAINER_DATA ∨ dataHeader.code ≠ op.code ∨
        dataHeader.transaction ≠ trans ∨ length < headerSize + least ∨ headerSize + most < length then
      let s := if headerSize < length ∧ length < 1024 * 1024 then (s.drainExact (length - headerSize)).2
        else s
      (none, s.sendResponse RES_INVALID_OBJECT_INFO trans)
    else s.readExact (length - headerSize)

def Server.handleSendObjectInfo (s : Server) (trans : UInt32) (params : List UInt32) : Server :=
  if s.installerBusy then s.sendResponse RES_DEVICE_BUSY trans
  else if params[0]?.any fun storage => storage ≠ 0 ∧ storage ≠ STORAGE_ID then
    s.sendResponse RES_INVALID_STORAGE_ID trans
  else if params[1]?.any fun parent => parent ≠ 0 ∧ parent ≠ 0xFFFFFFFF then
    s.sendResponse RES_INVALID_PARENT trans
  else
    match s.readDataset .sendObjectInfo trans 53 (64 * 1024) with
    | (none, s) => s
    | (some data, s) =>
      let storageId := read32 data 0
      let format := read16 data 4
      let size32 := read32 data 8
      let parent := read32 data 38
      let name := utf16Name (data.drop 52)
      if (storageId ≠ 0 ∧ storageId ≠ STORAGE_ID) ∨ (parent ≠ 0 ∧ parent ≠ 0xFFFFFFFF) ∨
          name = none then
        s.sendResponse (if format = FORMAT_ASSOCIATION then RES_INVALID_OBJECT_FORMAT
          else RES_INVALID_OBJECT_INFO) trans
      else
        s.preparePendingObject (name.getD []) (if size32 = 0xFFFFFFFF then 0 else size32.toNat)
          (size32 ≠ 0xFFFFFFFF) format trans

def Server.handleSendObjectPropList (s : Server) (trans : UInt32) (params : List UInt32) : Server :=
  if s.installerBusy then s.sendResponse RES_DEVICE_BUSY trans
  else
    match params with
    | storage :: parent :: format :: sizeHigh :: sizeLow :: _ =>
      let objectSize : UInt64 := sizeHigh.toUInt64 <<< 32 ||| sizeLow.toUInt64
      if (storage ≠ 0 ∧ storage ≠ STORAGE_ID) ∨ (parent ≠ 0 ∧ parent ≠ 0xFFFFFFFF) then
        s.sendResponse (if storage ≠ 0 ∧ storage ≠ STORAGE_ID then RES_INVALID_STORAGE_ID
          else RES_INVALID_PARENT) trans
      else
        match s.readDataset .sendObjectPropList trans 4 (256 * 1024) with
        | (none, s) => s
        | (some data, s) =>
          match parsePropList data objectSize with
          | none => s.sendResponse RES_INVALID_OBJECT_INFO trans
          | some name =>
            s.preparePendingObject name objectSize.toNat true format.toUInt16 trans
    | _ => s.sendResponse RES_INVALID_PARAMETER trans

/-- The guard of operations on the current object. -/
def Server.isCurrentObject (s : Server) (handle : UInt32) : Bool :=
  handle = s.currentObjectHandle ∧ s.currentObjectExists

def Server.handleSetObjectPropValue (s : Server) (trans : UInt32) (params : List UInt32) : Server :=
  match params with
  | handle :: prop :: _ =>
    if ¬s.isCurrentObject handle then s.sendResponse RES_INVALID_OBJECT_HANDLE trans
    else if prop.toUInt16 ≠ PROP_OBJECT_FILE_NAME then s.sendResponse RES_INVALID_OBJECT_PROP trans
    else if s.installerBusy ∨ s.state = .Receiving ∨ s.state = .Installing then
      s.sendResponse RES_DEVICE_BUSY trans
    else
      match s.readDataset .setObjectPropValue trans 1 4096 with
      | (none, s) => s
      | (some data, s) =>
        match utf16Name data with
        | none => s.sendResponse RES_INVALID_OBJECT_INFO trans
        | some renamed =>
          if isSafeNspName renamed then
            { s with pendingName := renamed, currentFile := renamed }.sendResponse RES_OK trans
          else s.sendResponse RES_INVALID_OBJECT_INFO trans
  | _ => s.sendResponse RES_INVALID_OBJECT_HANDLE trans

/-- How the loop of `handleSendObject` ends: whether no read failed, and the bytes pushed. -/
structure Received where
  ok : Bool
  pushed : Bytes
  deriving DecidableEq

/-- The loop of `handleSendObject`; `size` is `pendingSize` when it is known.  As in `readLoop`
a round ends with the receive.  The installer's end of the stream never makes a push fail. -/
def receiveLoop (size : Option ℕ) : List Completion → Rx → Bytes → Received × List Completion × Rx
  | usb, rx, pushed =>
    let chunk := match size with
      | some n => min rx.rest.length (n - pushed.length)
      | none => rx.rest.length
    let pushed := pushed ++ rx.rest.take chunk
    let rx := rx.advance chunk
    let ended := match size with
      | some n => decide (n ≤ pushed.length)
      | none => rx.rxShortPacket && decide (rx.rxBuffer ≠ [])
    if ended then (⟨true, pushed⟩, usb, rx)
    else
      match usb with
      | [] => (⟨false, pushed⟩, [], rx.failed)
      | none :: usb => (⟨false, pushed⟩, usb, rx.failed)
      -- a zero-length packet ends an object of unknown size
      | some [] :: usb => (⟨size.isNone, pushed⟩, usb, .received [])
      | some bs :: usb => receiveLoop size usb (.received bs) pushed

/-- The response to an installation that failed. -/
def installResponse : Nsp.ErrorCode → UInt16
  | .NotEnoughSpace => RES_STORE_FULL
  | .UnsupportedFormat => RES_INVALID_OBJECT_INFO
  | .InvalidPfs0 => RES_INVALID_OBJECT_INFO
  | .InvalidNca => RES_INVALID_OBJECT_INFO
  | .PackageTruncated => RES_INCOMPLETE_TRANSFER
  | .UsbDisconnected => RES_INCOMPLETE_TRANSFER
  | _ => RES_GENERAL_ERROR

/-- `pendingSize` when it is known. -/
def Server.knownSize (s : Server) : Option ℕ := if s.pendingSizeKnown then some s.pendingSize else none

/-- `handleSendObject` once the header is accepted: the transfer, and what is made of the
installer's result. -/
def Server.receiveObject (s : Server) (p : Platform) (trans : UInt32) : Server :=
  let r := receiveLoop s.knownSize s.usb s.rx []
  let installed := s.installed ++ [⟨s.pendingName, s.knownSize.getD 0, r.1.pushed⟩]
  -- the worker's state; it has ended when the loop's result is looked at
  let s := { s with usb := r.2.1, rx := r.2.2, installed, state := .Installing, installerBusy := false }
  if ¬r.1.ok ∨ s.knownSize.any (r.1.pushed.length ≠ ·) then
    s.failTransfer RES_INCOMPLETE_TRANSFER trans
  else
    let handle := s.currentObjectHandle
    let name := s.pendingName
    match p.install installed with
    | some code =>
      let s := { s with state := .Error }
      let s := s.sendResponse (installResponse code) trans
      let s := s.resetPendingObject
      let s := { s with
        currentFile := name, lastFailedFile := name
        sessionFailedCount := s.sessionFailedCount + 1 }
      s.sendRemoved handle
    | none =>
      let s := { s with
        currentFile := name, lastCompletedFile := name
        sessionInstalledCount := s.sessionInstalledCount + 1 }
      let s := s.resetPendingObject
      let s := { s with state := .Connected }
      let s := s.sendResponse RES_OK trans
      s.sendRemoved handle

/-- The object is too large for the length field of a container. -/
def Server.knownLargeObject (s : Server) : Bool :=
  s.pendingSizeKnown && 0xFFFFFFFF < s.pendingSize

def Server.handleSendObject (s : Server) (p : Platform) (trans : UInt32) : Server :=
  if s.installerBusy then s.sendResponse RES_DEVICE_BUSY trans
  else if ¬s.pendingValid then s.sendResponse RES_INVALID_OBJECT_INFO trans
  else
    match s.readExact headerSize with
    | (none, s) => s
    | (some bytes, s) =>
      let dataHeader := ContainerHeader.decode bytes
      let length := dataHeader.length.toNat
      let extendedLength := decide (length = 0xFFFFFFFF)
      if dataHeader.type ≠ CONTAINER_DATA ∨ dataHeader.code ≠ Operation.sendObject.code ∨
          dataHeader.transaction ≠ trans ∨
          (¬s.knownLargeObject ∧ ¬extendedLength ∧ length < headerSize) then
        s.sendResponse RES_INVALID_OBJECT_INFO trans
      else
        let headerPayloadSize :=
          if ¬extendedLength ∧ headerSize ≤ length then length - headerSize else 0
        if s.pendingSizeKnown ∧ ¬s.knownLargeObject ∧ ¬extendedLength ∧
            headerPayloadSize ≠ s.pendingSize then
          let s := if headerPayloadSize ≠ 0 then (s.drainExact headerPayloadSize).2 else s
          s.failTransfer RES_INCOMPLETE_TRANSFER trans
        else if ¬s.pendingSizeKnown ∧ ¬extendedLength then
          { s with pendingSize := headerPayloadSize, pendingSizeKnown := true }.receiveObject p trans
        else s.receiveObject p trans

/-! ## Operations without a data phase -/

def Server.handleDeleteObject (s : Server) (trans : UInt32) (params : List UInt32) : Server :=
  if s.installerBusy ∨ s.state = .Receiving ∨ s.state = .Installing then
    s.sendResponse RES_DEVICE_BUSY trans
  else if ¬params[0]?.any s.isCurrentObject then s.sendResponse RES_INVALID_OBJECT_HANDLE trans
  else
    let removedHandle := s.currentObjectHandle
    let s := s.resetPendingObject
    let s := { s with currentFile := [] }
    let s := s.sendResponse RES_OK trans
    s.sendRemoved removedHandle

/-- A dataset and `RES_OK`, or the response that says why there is none. -/
def Server.answer (s : Server) (op : Operation) (trans : UInt32) (data : Except UInt16 Bytes) : Server :=
  match data with
  | .error code => s.sendResponse code trans
  | .ok payload => (s.sendData op.code trans payload).sendResponse RES_OK trans

def Server.handleGetObjectPropList (s : Server) (trans : UInt32) (params : List UInt32) : Server :=
  match params with
  | handle :: format :: property :: group :: depth :: _ =>
    let format := format.toUInt16
    let property := property.toUInt16
    if format ≠ 0 ∧ format ≠ FORMAT_UNDEFINED then s.sendResponse RES_INVALID_OBJECT_FORMAT trans
    else if group ≠ 0 ∨ depth ≠ 0 then s.sendResponse RES_INVALID_PARAMETER trans
    else if handle ≠ s.currentObjectHandle ∧ handle ≠ 0xFFFFFFFF then
      s.sendResponse RES_INVALID_OBJECT_HANDLE trans
    else
      s.answer .getObjectPropList trans <|
        match s.makeObjectPropList handle property with
        | some data => .ok data
        | none => .error (if property ≠ 0 ∧ property ≠ 0xFFFF then RES_INVALID_OBJECT_PROP
            else RES_INVALID_OBJECT_HANDLE)
  | _ => s.sendResponse RES_INVALID_PARAMETER trans

/-- `OP_OPEN_SESSION` -/
def Server.openSession (s : Server) (trans : UInt32) (params : List UInt32) : Server :=
  match params with
  | [] => s.sendResponse RES_INVALID_PARAMETER trans
  | id :: _ =>
    if id = 0 then s.sendResponse RES_INVALID_PARAMETER trans
    else if s.sessionId ≠ 0 then s.sendResponse RES_SESSION_ALREADY_OPEN trans [s.sessionId]
    else
      { s with
        sessionId := id, currentFile := [], lastCompletedFile := [], lastFailedFile := []
        sessionInstalledCount := 0, sessionFailedCount := 0 }.sendResponse RES_OK trans

/-- The operation `op`, once the session is checked. -/
def Server.dispatchOperation (s : Server) (p : Platform) (op : Operation) (trans : UInt32)
    (params : List UInt32) : Server :=
  match op with
  | .getDeviceInfo => s.answer op trans (.ok makeDeviceInfo)
  | .openSession => s.openSession trans params
  | .closeSession => { s with sessionId := 0 }.sendResponse RES_OK trans
  | .getStorageIds => s.answer op trans (.ok makeStorageIds)
  | .getStorageInfo =>
    s.answer op trans <|
      if params[0]?.any fun storage => storage ≠ STORAGE_ID ∧ storage ≠ 0xFFFFFFFF then
        .error RES_INVALID_STORAGE_ID
      else .ok (makeStorageInfo p)
  | .getNumObjects => s.sendResponse RES_OK trans [if s.currentObjectExists then 1 else 0]
  | .getObjectHandles => s.answer op trans (.ok s.makeObjectHandles)
  | .getObjectInfo =>
    s.answer op trans <|
      if params[0]?.any s.isCurrentObject then .ok s.makeObjectInfo
      else .error RES_INVALID_OBJECT_HANDLE
  | .deleteObject => s.handleDeleteObject trans params
  | .sendObjectInfo => s.handleSendObjectInfo trans params
  | .sendObjectPropList => s.handleSendObjectPropList trans params
  | .sendObject => s.handleSendObject p trans
  | .getObjectPropsSupported =>
    s.answer op trans <|
      if params[0]?.any fun format =>
          format ≠ FORMAT_UNDEFINED.toUInt32 ∧ format ≠ FORMAT_ASSOCIATION.toUInt32 then
        .error RES_INVALID_OBJECT_FORMAT
      else .ok makeObjectPropsSupported
  | .getObjectPropDesc =>
    s.answer op trans <|
      match params with
      | [] => .error RES_INVALID_PARAMETER
      | prop :: _ =>
        match makeObjectPropDesc prop.toUInt16 with
        | some data => .ok data
        | none => .error RES_INVALID_OBJECT_PROP
  | .getObjectPropValue =>
    s.answer op trans <|
      match params with
      | handle :: prop :: _ =>
        if s.isCurrentObject handle then
          match s.makeObjectPropValue prop.toUInt16 with
          | some data => .ok data
          | none => .error RES_INVALID_OBJECT_PROP
        else .error RES_INVALID_OBJECT_HANDLE
      | _ => .error RES_INVALID_OBJECT_HANDLE
  | .setObjectPropValue => s.handleSetObjectPropValue trans params
  | .getObjectPropList => s.handleGetObjectPropList trans params

def Server.dispatchCommand (s : Server) (p : Platform) (op : UInt16) (trans : UInt32)
    (params : List UInt32) : Server :=
  if op ≠ Operation.getDeviceInfo.code ∧ op ≠ Operation.openSession.code ∧ s.sessionId = 0 then
    s.sendResponse RES_SESSION_NOT_OPEN trans
  else
    match Operation.ofCode op with
    | some op => s.dispatchOperation p op trans params
    | none => s.sendResponse RES_OPERATION_NOT_SUPPORTED trans

/-! ## The command loop -/

/-- What `processOneCommand` makes of the next bytes. -/
inductive Command where
  /-- A read failed, or this is no command container. -/
  | none
  /-- The length of the parameters is wrong. -/
  | oddLength (transaction : UInt32)
  | command (op : UInt16) (transaction : UInt32) (params : List UInt32)
  deriving DecidableEq

/-- The parameters in the payload of a command. -/
def readParams : Bytes → List UInt32
  | a :: b :: c :: d :: rest => read32 [a, b, c, d] 0 :: readParams rest
  | _ => []

/-- `processOneCommand` up to the call of `dispatchCommand`. -/
def Server.readCommand (s : Server) : Command × Server :=
  match s.readExact headerSize with
  | (none, s) => (.none, s)
  | (some bytes, s) =>
    let header := ContainerHeader.decode bytes
    let length := header.length.toNat
    if length < headerSize ∨ headerSize + 5 * 4 < length ∨ header.type ≠ CONTAINER_COMMAND then
      (.none, s)
    else if (length - headerSize) % 4 ≠ 0 then (.oddLength header.transaction, s)
    else
      match s.readExact (length - headerSize) with
      | (none, s) => (.none, s)
      | (some payload, s) => (.command header.code header.transaction (readParams payload), s)

def Server.processOneCommand (s : Server) (p : Platform) : Bool × Server :=
  match s.readCommand with
  | (.none, s) => (false, s)
  | (.oddLength transaction, s) => (true, s.sendResponse RES_INVALID_PARAMETER transaction)
  | (.command op transaction params, s) => (true, s.dispatchCommand p op transaction params)

/-- From a command that failed to the next one, the device still configured. -/
def Server.restart (s : Server) : Server :=
  let s := s.resetPendingObject
  let s := if s.state = .Error then s else { s with state := .Connected }
  let s := { s with sessionId := 0, rx := s.rx.failed }
  s.resetPendingObject

/-- A round of `commandLoop`. -/
def Server.commandRound (s : Server) (p : Platform) : Server :=
  let r := s.processOneCommand p
  if r.1 then r.2 else r.2.restart

end MtpNativeServer
