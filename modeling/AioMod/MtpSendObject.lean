/-
# A `SendObject` with its threads

`handleSendObject` of the native MTP responder with the installer thread it starts, the stream
between them, and requests to stop the server or to cancel the transfer, which may come at any
time.  Each step is one load or store of a flag, one receive, one step of the stream, or one of
the installer.

The installer reads what it likes and in the end commits its transaction or rolls it back; after a
read that failed it does not commit.  Its result is ok exactly when it has committed.  An answer
is a call of `sendResponse`.  The thread of the installer can be created.
-/
import AioMod.MtpInstallStreamSpec
import AioMod.MtpNativeServer

namespace MtpSendObject

open MtpNativeServer Traces

/-- The size `handleSendObject` gives its stream. -/
def streamCapacity : ℕ := 4 * 1024 * 1024

/-- What has become of the transaction. -/
inductive Transaction where
  | untouched
  | committed
  | rolledBack
  | leftBehind
  deriving DecidableEq

/-- The installer thread. -/
inductive Worker where
  | absent
  | launched
  | running
  | reading
  /-- A read has failed. -/
  | cutOff
  | returned (result : Option Nsp.ErrorCode)
  | ending (result : Option Nsp.ErrorCode)
  | exited (result : Option Nsp.ErrorCode)
  deriving DecidableEq

/-- The place where `handleSendObject` returned. -/
inductive Return where
  | busy
  | noObject
  | headerLost (gone : Bool)
  | rejected
  | failed (answered : Bool)
  | refused
  | installed
  deriving DecidableEq

/-- Where the USB thread stands. -/
inductive Loc where
  | entry
  | header
  | drain (size : ℕ)
  | start
  /-- The two loads of the loop. -/
  | whileStop
  | whileCancel
  | body
  | receive
  | push (chunk : ℕ)
  /-- The two loads behind the loop. -/
  | endStop
  | endCancel
  | ending (cancel : Bool)
  | notify
  | join
  | release
  /-- The two loads behind the join. -/
  | lookStop
  | lookCancel
  | judge
  /-- In `failTransfer`. -/
  | failing (mtpResponse : UInt16)
  | returned (r : Return)
  deriving DecidableEq

/-- The locals of the loop. -/
structure Transfer where
  totalReceived : ℕ := 0
  readFailed : Bool := false
  pushFailed : Bool := false
  deriving DecidableEq

/-- The responder, its flags, the stream and the threads. -/
structure Conf where
  server : Server
  stopRequested : Bool
  transferCancelRequested : Bool
  homeBlocked : Bool := false
  stream : MtpInstallStream.Conf := { stream := .new streamCapacity }
  transfer : Transfer := {}
  worker : Worker := .absent
  transaction : Transaction := .untouched
  usb : Loc := .entry
  deriving DecidableEq

/-- What a step shows. -/
inductive Event where
  | stop
  | cancel
  | headerLost (gone : Bool)
  | headerRejected
  | started
  | receiveFailed
  | committed
  | rolledBack (complete : Bool)
  | lookStop
  | lookCancel
  /-- The device is not configured when a transfer fails. -/
  | detached
  | tau
  deriving DecidableEq

/-- What the USB thread gets from outside in a step. -/
inductive Input where
  | none
  /-- The receives of a `readExact`, and whether the device is gone when one failed. -/
  | completions (usb : List Completion) (gone : Bool)
  /-- Whether the home button could be blocked. -/
  | home (blocked : Bool)
  | receive (r : Completion)
  | configured (b : Bool)
  deriving DecidableEq

/-- What the installer does next. -/
inductive Work where
  | go
  | read (size : ℕ)
  | commit
  | rollBack (complete : Bool) (code : Nsp.ErrorCode)
  deriving DecidableEq

/-- What may happen next. -/
inductive Action where
  | stop
  | cancel (reset : Bool)
  | usb (i : Input)
  | usbSpurious
  | worker (w : Work)
  | workerSpurious
  deriving DecidableEq

/-! ## The USB thread -/

/-- `handleSendObject` once the header is read. -/
def acceptHeader (s : Server) (bytes : Bytes) (trans : UInt32) : Event × Server × Loc :=
  let dataHeader := ContainerHeader.decode bytes
  let length := dataHeader.length.toNat
  let extendedLength := decide (length = 0xFFFFFFFF)
  if dataHeader.type ≠ CONTAINER_DATA ∨ dataHeader.code ≠ Operation.sendObject.code ∨
      dataHeader.transaction ≠ trans ∨
      (¬s.knownLargeObject ∧ ¬extendedLength ∧ length < headerSize) then
    (.headerRejected, s.sendResponse RES_INVALID_OBJECT_INFO trans, .returned .rejected)
  else
    let headerPayloadSize :=
      if ¬extendedLength ∧ headerSize ≤ length then length - headerSize else 0
    if s.pendingSizeKnown ∧ ¬s.knownLargeObject ∧ ¬extendedLength ∧
        headerPayloadSize ≠ s.pendingSize then
      (.tau, s, .drain headerPayloadSize)
    else if ¬s.pendingSizeKnown ∧ ¬extendedLength then
      (.tau, { s with pendingSize := headerPayloadSize, pendingSizeKnown := true }, .start)
    else (.tau, s, .start)

/-- `failTransfer`, which answers while the device is configured. -/
def failTransfer (s : Server) (mtpResponse : UInt16) (trans : UInt32) (configured : Bool) : Server :=
  if configured then s.failTransfer mtpResponse trans
  else
    let failedName := s.pendingName
    let s := { s with state := .Error }
    let s := s.resetPendingObject
    { s with
      currentFile := failedName, lastFailedFile := failedName
      sessionFailedCount := s.sessionFailedCount + 1 }

/-- The answer to an installation that failed. -/
def refuse (s : Server) (code : Nsp.ErrorCode) (trans : UInt32) : Server :=
  let handle := s.currentObjectHandle
  let name := s.pendingName
  let s := { s with state := .Error }
  let s := s.sendResponse (installResponse code) trans
  let s := s.resetPendingObject
  let s := { s with
    currentFile := name, lastFailedFile := name
    sessionFailedCount := s.sessionFailedCount + 1 }
  s.sendRemoved handle

/-- The answer to an installation. -/
def succeed (s : Server) (trans : UInt32) : Server :=
  let handle := s.currentObjectHandle
  let name := s.pendingName
  let s := { s with
    currentFile := name, lastCompletedFile := name
    sessionInstalledCount := s.sessionInstalledCount + 1 }
  let s := s.resetPendingObject
  let s := { s with state := .Connected }
  let s := s.sendResponse RES_OK trans
  s.sendRemoved handle

/-- The bytes of the buffer that belong to the object. -/
def Conf.chunk (c : Conf) : ℕ :=
  match c.server.knownSize with
  | some n => min c.server.rx.rest.length (n - c.transfer.totalReceived)
  | none => c.server.rx.rest.length

/-- An object of unknown size ends with a short transfer. -/
def Conf.shortEnd (c : Conf) : Bool :=
  c.server.knownSize.isNone && c.server.rx.rxShortPacket

/-- The body of the loop up to its receive or its push. -/
def body (c : Conf) : Option Conf :=
  if c.server.knownSize.any (· ≤ c.transfer.totalReceived) then some { c with usb := .endStop }
  else if c.server.rx.rest = [] then
    if c.shortEnd ∧ c.server.rx.rxBuffer ≠ [] then some { c with usb := .endStop }
    else some { c with usb := .receive }
  else
    (MtpInstallStream.step c.stream (.callPush (c.server.rx.rest.take c.chunk))).map fun r =>
      { c with stream := r.2, usb := .push c.chunk }

/-- A receive of the loop. -/
def receive (c : Conf) : Completion → Event × Conf
  | none =>
    (.receiveFailed, { c with
      server := { c.server with rx := c.server.rx.failed }
      transfer := { c.transfer with readFailed := true }
      usb := .endStop })
  | some [] =>
    let c := { c with server := { c.server with rx := .received [] }, usb := .endStop }
    if c.shortEnd then (.tau, c)
    else (.receiveFailed, { c with transfer := { c.transfer with readFailed := true } })
  | some bs => (.tau, { c with server := { c.server with rx := .received bs }, usb := .body })

/-- What the loop makes of a step of its push. -/
def pushed (c : Conf) (chunk : ℕ) : MtpInstallStream.Event → Conf
  | .pushReturn true =>
    let c := { c with
      server := { c.server with rx := c.server.rx.advance chunk }
      transfer := { c.transfer with totalReceived := c.transfer.totalReceived + chunk }
      usb := .whileStop }
    if c.shortEnd ∧ c.server.rx.rest = [] then { c with usb := .endStop } else c
  | .pushReturn false =>
    { c with transfer := { c.transfer with pushFailed := true }, usb := .endStop }
  | _ => c

/-- From the look at the flags to the answer. -/
def judge (c : Conf) (trans : UInt32) (result : Option Nsp.ErrorCode) : Conf :=
  if c.transfer.readFailed ∨ c.transfer.pushFailed ∨
      c.server.knownSize.any (c.transfer.totalReceived ≠ ·) then
    { c with usb := .failing RES_INCOMPLETE_TRANSFER }
  else
    match result with
    | some code =>
      { c with
        server := refuse c.server code trans
        transferCancelRequested := false
        usb := .returned .refused }
    | none =>
      { c with
        server := succeed c.server trans
        transferCancelRequested := false
        usb := .returned .installed }

/-- The next step of the USB thread in `handleSendObject` of a transaction. -/
def usbStep (trans : UInt32) (c : Conf) : Loc → Input → Option (Event × Conf)
  | .entry, .none =>
    if c.server.installerBusy then
      some (.tau, { c with
        server := c.server.sendResponse RES_DEVICE_BUSY trans, usb := .returned .busy })
    else if ¬c.server.pendingValid then
      some (.tau, { c with
        server := c.server.sendResponse RES_INVALID_OBJECT_INFO trans, usb := .returned .noObject })
    else some (.tau, { c with usb := .header })
  | .header, .completions usb gone =>
    match { c.server with usb }.readExact headerSize with
    | (none, s) =>
      if s.usb = [] then
        some (.headerLost gone, { c with server := s, usb := .returned (.headerLost gone) })
      else none
    | (some bytes, s) =>
      if s.usb = [] then
        let r := acceptHeader s bytes trans
        some (r.1, { c with server := r.2.1, usb := r.2.2 })
      else none
  | .drain size, .completions usb _ =>
    let s := if size ≠ 0 then ({ c.server with usb }.drainExact size).2 else { c.server with usb }
    if s.usb = [] then
      some (.tau, { c with server := s, usb := .failing RES_INCOMPLETE_TRANSFER })
    else none
  | .start, .home blocked =>
    some (.started, { c with
      server := { c.server with installerBusy := true, state := .Receiving }
      transferCancelRequested := false
      homeBlocked := c.homeBlocked || blocked
      stream := { stream := .new streamCapacity }
      transfer := {}
      worker := .launched
      usb := .whileStop })
  | .whileStop, .none =>
    some (.tau, { c with usb := if c.stopRequested then .endStop else .whileCancel })
  | .whileCancel, .none =>
    some (.tau, { c with usb := if c.transferCancelRequested then .endStop else .body })
  | .body, .none => (body c).map fun c => (.tau, c)
  | .receive, .receive r => some (receive c r)
  | .push chunk, .none =>
    (MtpInstallStream.step c.stream .producer).map fun r =>
      (.tau, pushed { c with stream := r.2 } chunk r.1)
  | .endStop, .none =>
    some (.tau, { c with usb := if c.stopRequested then .ending true else .endCancel })
  | .endCancel, .none =>
    some (.tau, { c with usb := .ending (c.transferCancelRequested || c.transfer.pushFailed) })
  | .ending cancel, .none =>
    (MtpInstallStream.step c.stream (if cancel then .cancelProducer else .callClose)).map fun r =>
      (.tau, { c with stream := r.2, usb := .notify })
  | .notify, .none =>
    (MtpInstallStream.step c.stream .producer).map fun r =>
      (.tau, { c with stream := r.2, usb := if r.2.producer = .idle then .join else .notify })
  | .join, .none =>
    match c.worker with
    | .exited _ => some (.tau, { c with usb := .release })
    | _ => none
  | .release, .none =>
    some (.tau, { c with
      server := { c.server with installerBusy := false }, homeBlocked := false, usb := .lookStop })
  | .lookStop, .none =>
    some (.lookStop, { c with
      usb := if c.stopRequested then .failing RES_INCOMPLETE_TRANSFER else .lookCancel })
  | .lookCancel, .none =>
    some (.lookCancel, { c with
      usb := if c.transferCancelRequested then .failing RES_INCOMPLETE_TRANSFER else .judge })
  | .judge, .none =>
    match c.worker with
    | .exited result => some (.tau, judge c trans result)
    | _ => none
  | .failing mtpResponse, .configured b =>
    some (if b then .tau else .detached, { c with
      server := failTransfer c.server mtpResponse trans b
      homeBlocked := false
      transferCancelRequested := false
      usb := .returned (.failed b) })
  | _, _ => none

/-! ## The installer thread -/

/-- The next step of the installer thread. -/
def workerStep (c : Conf) : Worker → Work → Option (Event × Conf)
  | .launched, .go =>
    some (.tau, { c with server := { c.server with state := .Installing }, worker := .running })
  | .running, .read size =>
    (MtpInstallStream.step c.stream (.callRead size)).map fun r =>
      (.tau, { c with stream := r.2, worker := .reading })
  | .reading, .go =>
    (MtpInstallStream.step c.stream .consumer).map fun r =>
      (.tau, { c with
        stream := r.2
        worker := match r.1 with
          | .readReturn (some _) => .running
          | .readReturn none => .cutOff
          | _ => .reading })
  | .running, .commit =>
    some (.committed, { c with transaction := .committed, worker := .returned none })
  | .running, .rollBack complete code =>
    some (.rolledBack complete, { c with
      transaction := if complete then .rolledBack else .leftBehind
      worker := .returned (some code) })
  | .cutOff, .rollBack complete code =>
    some (.rolledBack complete, { c with
      transaction := if complete then .rolledBack else .leftBehind
      worker := .returned (some code) })
  | .returned result, .go =>
    (MtpInstallStream.step c.stream .callFinish).map fun r =>
      (.tau, { c with stream := r.2, worker := .ending result })
  | .ending result, .go =>
    (MtpInstallStream.step c.stream .consumer).map fun r =>
      (.tau, { c with
        stream := r.2
        worker := if r.2.consumer = .idle then .exited result else .ending result })
  | _, _ => none

/-- The next step under an action, when it is enabled. -/
def step (trans : UInt32) (c : Conf) : Action → Option (Event × Conf)
  | .stop => some (.stop, { c with stopRequested := true })
  | .cancel reset =>
    some (.cancel, { c with
      server := if reset then { c.server with sessionId := 0 } else c.server
      transferCancelRequested := true })
  | .usb i => usbStep trans c c.usb i
  | .usbSpurious =>
    (MtpInstallStream.step c.stream .producerSpurious).map fun r =>
      (.tau, { c with stream := r.2 })
  | .worker w => workerStep c c.worker w
  | .workerSpurious =>
    (MtpInstallStream.step c.stream .consumerSpurious).map fun r =>
      (.tau, { c with stream := r.2 })

/-- A `SendObject` begins: the server is between two commands. -/
def Start (s₀ : Server) (stop₀ : Bool) (c : Conf) : Prop :=
  ∃ cancel₀, c = { server := s₀, stopRequested := stop₀, transferCancelRequested := cancel₀ }

/-- The runs of a `SendObject` that begins with the server `s₀`. -/
abbrev Runs (trans : UInt32) (s₀ : Server) (stop₀ : Bool) (t : List Event) (c : Conf) : Prop :=
  Trace (step trans) (Start s₀ stop₀) t c

end MtpSendObject
