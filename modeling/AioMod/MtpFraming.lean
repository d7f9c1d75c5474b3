/-
# Host and responder in step

A host sends a command container in one transfer, and after it, for an operation that has
data from the host, a data container cut into transfers.  When the responder reads the whole
data container, the next container it interprets is that of the host's next command.
-/
import AioMod.MtpNativeServerSpec

namespace MtpNativeServer

open ByteImage

/-! ## The host -/

/-- A data container and its transfers; `length` is the field of its header. -/
structure DataPhase where
  length : UInt32
  payload : Bytes
  transfers : List Bytes
  deriving DecidableEq

/-- A command of the host. -/
structure HostCommand where
  op : UInt16
  transaction : UInt32
  params : List UInt32
  data : Option DataPhase := none
  deriving DecidableEq

namespace HostCommand

def header (c : HostCommand) : ContainerHeader :=
  ⟨.ofNat (headerSize + 4 * c.params.length), CONTAINER_COMMAND, c.op, c.transaction⟩

def container (c : HostCommand) : Bytes := c.header.encode ++ c.params.flatMap add32

def dataHeader (c : HostCommand) (d : DataPhase) : ContainerHeader :=
  ⟨d.length, CONTAINER_DATA, c.op, c.transaction⟩

def dataBytes (c : HostCommand) (d : DataPhase) : Bytes := (c.dataHeader d).encode ++ d.payload

/-- The receives of the data phase. -/
def dataCompletions (c : HostCommand) : List Completion :=
  match c.data with
  | some d => d.transfers.map some
  | none => []

/-- The receives of the command. -/
def completions (c : HostCommand) : List Completion := some c.container :: c.dataCompletions

end HostCommand

/-- `wMaxPacketSize` of the bulk endpoints at high speed -/
def PACKET_SIZE : ℕ := 512

/-- The transfers of a data phase: none is longer than the responder's buffer, only the last
may be empty, and it is short or empty when the bytes are a multiple of the packet size. -/
structure LegalPartition (bytes : Bytes) (transfers : List Bytes) : Prop where
  flatten : transfers.flatten = bytes
  size : ∀ t ∈ transfers, t.length ≤ IO_BUFFER_SIZE
  nonempty : ∀ t ∈ transfers.dropLast, t ≠ []
  ended : bytes.length % PACKET_SIZE = 0 →
    ∀ t ∈ transfers.getLast?, t.length < IO_BUFFER_SIZE

/-- A command as the protocol has it.  An operation the responder does not know may have data. -/
structure HostCommand.Legal (c : HostCommand) : Prop where
  params : c.params.length ≤ 5
  data : ∀ op ∈ Operation.ofCode c.op, op.hasData = c.data.isSome
  partition : ∀ d ∈ c.data, LegalPartition (c.dataBytes d) d.transfers
  length : ∀ d ∈ c.data, d.length.toNat = 0xFFFFFFFF ∨
    d.length.toNat = (headerSize + d.payload.length) % 2 ^ 32

/-- The transfers that are not empty, and the zero-length packet after them if there is one. -/
theorem LegalPartition.split {bytes : Bytes} {ts : List Bytes} (h : LegalPartition bytes ts) :
    ∃ body z : List Bytes, ts = body ++ z ∧ (∀ t ∈ body, t ≠ []) ∧ body.flatten = bytes ∧
      ([] ∉ ts ∧ z = [] ∨ [] ∈ ts ∧ z = [[]]) := by
  rcases List.eq_nil_or_concat ts with rfl | ⟨body, t, rfl⟩
  · exact ⟨[], [], rfl, by simp, h.flatten, .inl ⟨by simp, rfl⟩⟩
  · have hne : ∀ u ∈ body, u ≠ [] := by
      simpa using h.nonempty
    by_cases ht : t = []
    · subst ht
      refine ⟨body, [[]], by simp, hne, ?_, .inr ⟨by simp, rfl⟩⟩
      simpa using h.flatten
    · have hall : ∀ u ∈ body.concat t, u ≠ [] := by
        intro u hu
        rw [List.concat_eq_append, List.mem_append, List.mem_singleton] at hu
        rcases hu with hu | rfl
        · exact hne u hu
        · exact ht
      refine ⟨body.concat t, [], by simp, hall, h.flatten, .inl ⟨?_, rfl⟩⟩
      intro hmem
      exact hall [] hmem rfl

/-! ## Two ways to cut the data container of an object -/

/-- `SendObject` with its data phase. -/
def sendObject (d : DataPhase) : HostCommand := ⟨Operation.sendObject.code, 2, [], some d⟩

/-- `GetDeviceInfo` -/
def getDeviceInfo : HostCommand := ⟨Operation.getDeviceInfo.code, 3, [], none⟩

/-- A server with a pending object, and a host that sends the object and asks for the device. -/
def pendingServer (size : Option ℕ) (d : DataPhase) : Server where
  usb := (sendObject d).completions ++ getDeviceInfo.completions
  sessionId := 1
  pendingObjectHandle := 1
  nextObjectHandle := 2
  pendingSize := size.getD 0
  pendingSizeKnown := size.isSome
  pendingValid := true

/-- The header of a data phase. -/
def objectHeader (length : UInt32) : Bytes :=
  ContainerHeader.encode ⟨length, CONTAINER_DATA, Operation.sendObject.code, 2⟩

/-- The header in a transfer of its own. -/
def headerApart (length : UInt32) (payload : Bytes) : DataPhase :=
  ⟨length, payload, [objectHeader length, payload]⟩

/-- Header and payload in one transfer, and a zero-length packet. -/
def withZeroLengthPacket (length : UInt32) (payload : Bytes) : DataPhase :=
  ⟨length, payload, [objectHeader length ++ payload, []]⟩

theorem length_objectHeader (length : UInt32) : (objectHeader length).length = headerSize :=
  ContainerHeader.length_encode _

theorem legalPartition_headerApart (length : UInt32) {payload : Bytes}
    (hl : payload.length < IO_BUFFER_SIZE) :
    LegalPartition (objectHeader length ++ payload) (headerApart length payload).transfers where
  flatten := by
    show objectHeader length ++ (payload ++ []) = _
    rw [List.append_nil]
  size := by
    intro t ht
    rcases List.mem_cons.mp ht with rfl | ht
    · rw [length_objectHeader]
      decide
    · rw [List.mem_singleton.mp ht]
      exact hl.le
  nonempty := by
    intro t ht
    have : t = objectHeader length := List.mem_singleton.mp ht
    rw [this, ← List.length_pos_iff, length_objectHeader]
    decide
  ended := by
    intro _ t ht
    have : payload = t := Option.mem_some.mp ht
    rw [← this]
    exact hl

theorem legalPartition_withZeroLengthPacket (length : UInt32) {payload : Bytes}
    (hl : headerSize + payload.length ≤ IO_BUFFER_SIZE) :
    LegalPartition (objectHeader length ++ payload)
      (withZeroLengthPacket length payload).transfers where
  flatten := by
    show objectHeader length ++ payload ++ ([] ++ []) = _
    rw [List.append_nil, List.append_nil]
  size := by
    intro t ht
    rcases List.mem_cons.mp ht with rfl | ht
    · rw [List.length_append, length_objectHeader]
      exact hl
    · rw [List.mem_singleton.mp ht]
      exact Nat.zero_le _
  nonempty := by
    intro t ht
    have : t = objectHeader length ++ payload := List.mem_singleton.mp ht
    rw [this, ← List.length_pos_iff, List.length_append, length_objectHeader]
    exact Nat.add_pos_left (by decide) _
  ended := by
    intro _ t ht
    have : [] = t := Option.mem_some.mp ht
    rw [← this]
    decide

theorem legal_sendObject {d : DataPhase}
    (hp : LegalPartition (objectHeader d.length ++ d.payload) d.transfers)
    (hl : d.length.toNat = 0xFFFFFFFF ∨ d.length.toNat = (headerSize + d.payload.length) % 2 ^ 32) :
    (sendObject d).Legal where
  params := Nat.zero_le _
  data := by
    intro op hop
    have : some Operation.sendObject = some op := hop
    cases this
    rfl
  partition := by
    intro d' hd
    cases Option.mem_some.mp hd
    exact hp
  length := by
    intro d' hd
    cases Option.mem_some.mp hd
    exact hl

theorem legal_noData {op : Operation} (hop : op.hasData = false) (trans : UInt32)
    {params : List UInt32} (hp : params.length ≤ 5) :
    HostCommand.Legal ⟨op.code, trans, params, none⟩ where
  params := hp
  data := by
    intro op' hop'
    rw [Operation.ofCode_code] at hop'
    cases Option.mem_some.mp hop'
    exact hop
  partition := fun d hd => nomatch hd
  length := fun d hd => nomatch hd

/-! ## Reading a command -/

theorem readParams_flatMap (params : List UInt32) : readParams (params.flatMap add32) = params := by
  induction params with
  | nil => rfl
  | cons v params ih =>
    have hv : read32 (add32 v) 0 = v := by
      simpa using read32_append [] [] v rfl
    rw [List.flatMap_cons]
    show read32 (add32 v) 0 :: readParams (params.flatMap add32) = v :: params
    rw [hv, ih]

theorem length_flatMap_add32 (params : List UInt32) :
    (params.flatMap add32).length = 4 * params.length := by
  induction params with
  | nil => rfl
  | cons v params ih =>
    rw [List.flatMap_cons, List.length_append, length_add32, ih, List.length_cons]
    omega

/-- The bytes that the responder takes for the header of the next container. -/
def Server.interpreted (s : Server) : Option Bytes := (s.readExact headerSize).1

/-- The responder interprets the container of the command. -/
def Server.Interprets (s : Server) (c : HostCommand) : Prop :=
  s.interpreted = some c.header.encode ∧ s.readCommand.1 = .command c.op c.transaction c.params

/-- With an empty buffer the responder reads the container that the host sends next. -/
theorem Server.readCommand_container {s : Server} {c : HostCommand} {later : List Completion}
    (hc : c.params.length ≤ 5) (hw : s.wire = (some c.container :: later, [])) :
    s.Interprets c ∧ ∃ usb rx, s.readCommand.2 = s.reading usb rx ∧
      (s.reading usb rx).wire = (later, []) := by
  obtain ⟨husb, hrest⟩ := Prod.mk.inj hw
  have hl : c.header.encode.length = headerSize := ContainerHeader.length_encode _
  have ha : s.Ahead c.container later := by
    refine ⟨[c.container], ?_, husb, ?_⟩
    · intro t ht
      rw [List.mem_singleton.mp ht, ← List.length_pos_iff, HostCommand.container, List.length_append,
        hl]
      exact Nat.add_pos_left (by decide) _
    · rw [hrest]
      simp
  obtain ⟨usb, rx, hread, ha⟩ := readExact_ahead ha (n := headerSize)
    (by rw [HostCommand.container, List.length_append]; omega)
  rw [HostCommand.container, List.take_left' hl] at hread
  rw [HostCommand.container, List.drop_left' hl] at ha
  have hdec : ContainerHeader.decode c.header.encode = c.header := by
    simpa using ContainerHeader.decode_encode c.header []
  have hlen : c.header.length.toNat = headerSize + 4 * c.params.length := by
    show (UInt32.ofNat (headerSize + 4 * c.params.length)).toNat = _
    rw [UInt32.toNat_ofNat', headerSize]
    omega
  obtain ⟨usb', rx', hread', ha'⟩ := readExact_ahead ha (n := 4 * c.params.length)
    (length_flatMap_add32 c.params).ge
  rw [List.take_of_length_le (length_flatMap_add32 c.params).le] at hread'
  rw [List.drop_eq_nil_of_le (length_flatMap_add32 c.params).le] at ha'
  have hcmd : s.readCommand =
      (.command c.op c.transaction c.params, s.reading usb' rx') := by
    unfold readCommand
    rw [hread]
    dsimp only
    rw [hdec, hlen, if_neg, if_neg, Nat.add_sub_cancel_left, hread']
    · dsimp only
      rw [readParams_flatMap]
      rfl
    · omega
    · rintro (h | h | h)
      · omega
      · omega
      · exact h rfl
  refine ⟨⟨?_, ?_⟩, usb', rx', ?_, ha'.wire⟩
  · unfold interpreted
    rw [hread]
  · rw [hcmd]
  · rw [hcmd]

/-- A zero-length packet is no container. -/
theorem Server.readCommand_empty {s : Server} {later : List Completion}
    (hw : s.wire = (some [] :: later, [])) :
    s.interpreted = none ∧ s.readCommand.1 = .none ∧ s.readCommand.2.wire = (later, []) := by
  obtain ⟨husb, hrest⟩ := Prod.mk.inj hw
  have hlt : s.rx.rest.length < headerSize - ([] : Bytes).length := by
    rw [hrest]
    decide
  obtain ⟨h1, h2, h3⟩ : (readLoop headerSize (some [] :: later) s.rx []).1 = none ∧
      (readLoop headerSize (some [] :: later) s.rx []).2.1 = later ∧
      (readLoop headerSize (some [] :: later) s.rx []).2.2.rest = [] := readLoop_empty hlt
  have hread : s.readExact headerSize = (none, (s.readExact headerSize).2) := by
    refine Prod.ext ?_ rfl
    show (readLoop headerSize s.usb s.rx []).1 = none
    rw [husb, h1]
  have hwire : (s.readExact headerSize).2.wire = (later, []) := by
    show ((readLoop headerSize s.usb s.rx []).2.1, (readLoop headerSize s.usb s.rx []).2.2.rest) = _
    rw [husb, h2, h3]
  have hcmd : s.readCommand = (.none, (s.readExact headerSize).2) := by
    unfold readCommand
    rw [hread]
  rw [hcmd]
  refine ⟨?_, rfl, hwire⟩
  unfold interpreted
  rw [hread]

/-- Without a transfer nothing is interpreted. -/
theorem Server.interpreted_nil {s : Server} (hw : s.wire = ([], [])) : s.interpreted = none := by
  obtain ⟨husb, hrest⟩ := Prod.mk.inj hw
  show (readLoop headerSize s.usb s.rx []).1 = none
  rw [husb]
  apply readLoop_nil
  rw [hrest]
  decide

/-! ## Which data phases are read -/

/-- The first parameter names another storage. -/
def wrongStorage (params : List UInt32) : Prop :=
  params[0]?.any fun storage => storage ≠ 0 ∧ storage ≠ STORAGE_ID

/-- The second parameter names a parent that is not the root. -/
def wrongParent (params : List UInt32) : Prop :=
  params[1]?.any fun parent => parent ≠ 0 ∧ parent ≠ 0xFFFFFFFF

/-- `handleSendObject` takes the length in a header for wrong. -/
def Server.headerRejected (s : Server) (length : ℕ) : Prop :=
  s.knownLargeObject = false ∧ length ≠ 0xFFFFFFFF ∧ length < headerSize

/-- The payload size that the length in a header announces. -/
def headerPayloadSize (length : ℕ) : ℕ :=
  if length ≠ 0xFFFFFFFF ∧ headerSize ≤ length then length - headerSize else 0

/-- The length in a header contradicts the size of the pending object. -/
def Server.lengthMismatch (s : Server) (length : ℕ) : Prop :=
  s.pendingSizeKnown = true ∧ s.knownLargeObject = false ∧ length ≠ 0xFFFFFFFF ∧
    headerPayloadSize length ≠ s.pendingSize

/-- The size up to which `handleSendObject` receives, `none` if no size is known. -/
def Server.expectedSize (s : Server) (length : ℕ) : Option ℕ :=
  if s.pendingSizeKnown then some s.pendingSize
  else if length ≠ 0xFFFFFFFF then some (headerPayloadSize length)
  else none

/-- `handleSendObject` reads exactly this data phase. -/
def Server.TakesObject (s : Server) (d : DataPhase) : Prop :=
  let length := d.length.toNat
  (s.headerRejected length → d.payload = []) ∧
  (¬s.headerRejected length → s.lengthMismatch length →
    headerPayloadSize length = d.payload.length) ∧
  (¬s.headerRejected length → ¬s.lengthMismatch length →
    match s.expectedSize length with
    -- a zero-length packet also ends an object of which bytes are missing
    | some n => n = d.payload.length ∨ (d.payload.length < n ∧ [] ∈ d.transfers)
    | none => ShortEnded (fromByte headerSize d.transfers))

/-- The operation reads the whole data phase. -/
def Server.ReadsData (s : Server) (op : Operation) (params : List UInt32) (d : DataPhase) : Prop :=
  match op with
  | .sendObjectInfo =>
    s.installerBusy = false ∧ ¬wrongStorage params ∧ ¬wrongParent params ∧
      datasetTaken d.length.toNat = d.payload.length
  | .sendObjectPropList =>
    s.installerBusy = false ∧ 5 ≤ params.length ∧ ¬wrongStorage params ∧ ¬wrongParent params ∧
      datasetTaken d.length.toNat = d.payload.length
  | .setObjectPropValue =>
    params[0]?.any s.isCurrentObject ∧
      params[1]?.any (fun prop => prop.toUInt16 = PROP_OBJECT_FILE_NAME) ∧
      ¬(s.installerBusy ∨ s.state = .Receiving ∨ s.state = .Installing) ∧
      datasetTaken d.length.toNat = d.payload.length
  | .sendObject => s.installerBusy = false ∧ s.pendingValid = true ∧ s.TakesObject d
  | _ => False

/-- The responder reads the whole data phase of the command, if there is one. -/
def Server.Framed (s : Server) (c : HostCommand) : Prop :=
  ∀ d ∈ c.data, s.sessionId ≠ 0 ∧ ∃ op ∈ Operation.ofCode c.op, s.ReadsData op c.params d

/-- The data phase is read but for a zero-length packet. -/
def Server.Done (s : Server) (later : List Completion) : Prop :=
  s.wire = (later, []) ∨ s.wire = (some [] :: later, [])

theorem ofCode_eq_some {code : UInt16} {op : Operation} (h : Operation.ofCode code = some op) :
    code = op.code := by
  have := List.find?_some h
  exact (beq_iff_eq.mp this).symm

section handlers

variable {s : Server} {c : HostCommand} {d : DataPhase} {later : List Completion} {trans : UInt32}
  {params : List UInt32}

theorem wire_handleSendObjectInfo (ha : s.Ahead (c.dataBytes d) later)
    (hr : s.ReadsData .sendObjectInfo params d) :
    (s.handleSendObjectInfo trans params).wire = (later, []) := by
  obtain ⟨hbusy, hstorage, hparent, htaken⟩ := hr
  unfold wrongStorage at hstorage
  unfold wrongParent at hparent
  have hw := Server.wire_readDataset ha htaken .sendObjectInfo trans 53
    (by decide : headerSize + 64 * 1024 < 1024 * 1024)
  unfold Server.handleSendObjectInfo
  rw [hbusy, if_neg Bool.false_ne_true, if_neg hstorage, if_neg hparent]
  rcases hread : s.readDataset .sendObjectInfo trans 53 (64 * 1024) with ⟨_ | data, s'⟩
  · rw [hread] at hw
    exact hw
  · rw [hread] at hw
    dsimp only
    split
    · rw [Server.wire_sendResponse]
      exact hw
    · rw [Server.wire_preparePendingObject]
      exact hw

theorem wire_handleSendObjectPropList (ha : s.Ahead (c.dataBytes d) later)
    (hr : s.ReadsData .sendObjectPropList params d) :
    (s.handleSendObjectPropList trans params).wire = (later, []) := by
  obtain ⟨hbusy, hlen, hstorage, hparent, htaken⟩ := hr
  have hw := Server.wire_readDataset ha htaken .sendObjectPropList trans 4
    (by decide : headerSize + 256 * 1024 < 1024 * 1024)
  rcases params with _ | ⟨storage, _ | ⟨parent, _ | ⟨format, _ | ⟨high, _ | ⟨low, rest⟩⟩⟩⟩⟩
  · simp at hlen
  · simp at hlen
  · simp at hlen
  · simp at hlen
  · simp at hlen
  · have hok : ¬((storage ≠ 0 ∧ storage ≠ STORAGE_ID) ∨ (parent ≠ 0 ∧ parent ≠ 0xFFFFFFFF)) := by
      rintro (h | h)
      · exact hstorage (by simpa [wrongStorage] using h)
      · exact hparent (by simpa [wrongParent] using h)
    unfold Server.handleSendObjectPropList
    rw [hbusy, if_neg Bool.false_ne_true]
    dsimp only
    rw [if_neg hok]
    rcases hread : s.readDataset .sendObjectPropList trans 4 (256 * 1024) with ⟨_ | data, s'⟩
    · rw [hread] at hw
      exact hw
    · rw [hread] at hw
      dsimp only
      split
      · rw [Server.wire_sendResponse]
        exact hw
      · rw [Server.wire_preparePendingObject]
        exact hw

theorem wire_handleSetObjectPropValue (ha : s.Ahead (c.dataBytes d) later)
    (hr : s.ReadsData .setObjectPropValue params d) :
    (s.handleSetObjectPropValue trans params).wire = (later, []) := by
  obtain ⟨hhandle, hprop, hidle, htaken⟩ := hr
  have hw := Server.wire_readDataset ha htaken .setObjectPropValue trans 1
    (by decide : headerSize + 4096 < 1024 * 1024)
  rcases params with _ | ⟨handle, _ | ⟨prop, rest⟩⟩
  · simp at hhandle
  · simp at hprop
  · have hobj : s.isCurrentObject handle = true := by simpa using hhandle
    have hname : prop.toUInt16 = PROP_OBJECT_FILE_NAME := by simpa using hprop
    unfold Server.handleSetObjectPropValue
    dsimp only
    rw [hobj, if_neg (not_not_intro rfl), if_neg (not_not_intro hname), if_neg hidle]
    rcases hread : s.readDataset .setObjectPropValue trans 1 4096 with ⟨_ | data, s'⟩
    · rw [hread] at hw
      exact hw
    · rw [hread] at hw
      dsimp only
      split
      · rw [Server.wire_sendResponse]
        exact hw
      · split
        · exact hw
        · rw [Server.wire_sendResponse]
          exact hw

end handlers

section sendObject

variable {s : Server} {h : ContainerHeader} {usb : List Completion} {rx : Rx}

/-- `handleSendObject` from a data header of the right type, operation and transaction on. -/
theorem handleSendObject_header (p : Platform) (trans : UInt32)
    (hbusy : s.installerBusy = false) (hpend : s.pendingValid = true)
    (hread : s.readExact headerSize = (some h.encode, s.reading usb rx))
    (htype : h.type = CONTAINER_DATA) (hcode : h.code = Operation.sendObject.code)
    (htrans : h.transaction = trans) :
    (s.headerRejected h.length.toNat → s.handleSendObject p trans =
      (s.reading usb rx).sendResponse RES_INVALID_OBJECT_INFO trans) ∧
    (¬s.headerRejected h.length.toNat → s.lengthMismatch h.length.toNat →
      s.handleSendObject p trans =
        (if headerPayloadSize h.length.toNat ≠ 0 then
          ((s.reading usb rx).drainExact (headerPayloadSize h.length.toNat)).2
        else s.reading usb rx).failTransfer RES_INCOMPLETE_TRANSFER trans) ∧
    (¬s.headerRejected h.length.toNat → ¬s.lengthMismatch h.length.toNat →
      ∃ s' : Server, s.handleSendObject p trans = s'.receiveObject p trans ∧ s'.usb = usb ∧
        s'.rx = rx ∧ s'.knownSize = s.expectedSize h.length.toNat ∧
        s'.installed = s.installed) := by
  have hdec : ContainerHeader.decode h.encode = h := by
    simpa using ContainerHeader.decode_encode h []
  have hguard : (h.type ≠ CONTAINER_DATA ∨ h.code ≠ Operation.sendObject.code ∨
      h.transaction ≠ trans ∨ (¬(s.reading usb rx).knownLargeObject = true ∧
        ¬decide (h.length.toNat = 0xFFFFFFFF) = true ∧ h.length.toNat < headerSize)) ↔
      s.headerRejected h.length.toNat := by
    have hlarge : (s.reading usb rx).knownLargeObject = s.knownLargeObject := rfl
    rw [htype, hcode, htrans, hlarge]
    simp [Server.headerRejected]
  have hsize : (if ¬decide (h.length.toNat = 0xFFFFFFFF) = true ∧ headerSize ≤ h.length.toNat then
      h.length.toNat - headerSize else 0) = headerPayloadSize h.length.toNat := by
    unfold headerPayloadSize
    simp
  have hmismatch : ((s.reading usb rx).pendingSizeKnown = true ∧
      ¬(s.reading usb rx).knownLargeObject = true ∧ ¬decide (h.length.toNat = 0xFFFFFFFF) = true ∧
      headerPayloadSize h.length.toNat ≠ (s.reading usb rx).pendingSize) ↔
      s.lengthMismatch h.length.toNat := by
    have hlarge : (s.reading usb rx).knownLargeObject = s.knownLargeObject := rfl
    have hknown : (s.reading usb rx).pendingSizeKnown = s.pendingSizeKnown := rfl
    have hpending : (s.reading usb rx).pendingSize = s.pendingSize := rfl
    rw [hlarge, hknown, hpending]
    simp [Server.lengthMismatch]
  unfold Server.handleSendObject
  rw [hbusy, hpend, if_neg Bool.false_ne_true, if_neg (not_not_intro rfl), hread]
  dsimp only
  rw [hdec, hsize]
  refine ⟨?_, ?_, ?_⟩
  · intro hrej
    rw [if_pos (hguard.mpr hrej)]
  · intro hrej hmis
    rw [if_neg (fun h => hrej (hguard.mp h)), if_pos (hmismatch.mpr hmis)]
  -- the payload is received, of the known size or of that in the header
  · intro hrej hmis
    rw [if_neg (fun h => hrej (hguard.mp h)), if_neg (fun h => hmis (hmismatch.mp h))]
    by_cases hk : s.pendingSizeKnown = true
    · refine ⟨s.reading usb rx, ?_, rfl, rfl, ?_, rfl⟩
      · rw [if_neg]
        exact fun h => h.1 hk
      · unfold Server.knownSize Server.expectedSize
        rw [if_pos hk]
        exact if_pos hk
    · by_cases hext : h.length.toNat = 0xFFFFFFFF
      · refine ⟨s.reading usb rx, ?_, rfl, rfl, ?_, rfl⟩
        · rw [if_neg]
          exact fun h => h.2 (decide_eq_true hext)
        · unfold Server.knownSize Server.expectedSize
          rw [if_neg hk, if_neg (not_not_intro hext)]
          exact if_neg hk
      · refine ⟨{ s.reading usb rx with
          pendingSize := headerPayloadSize h.length.toNat, pendingSizeKnown := true },
          ?_, rfl, rfl, ?_, rfl⟩
        · rw [if_pos]
          exact ⟨hk, fun h => hext (of_decide_eq_true h)⟩
        · unfold Server.expectedSize
          rw [if_neg hk, if_pos hext]
          rfl

end sendObject

theorem fromByte_append {n : ℕ} {t : Bytes} {post more : List Bytes} {ts : List Bytes}
    (h : fromByte n ts = t :: post) : fromByte n (ts ++ more) = t :: (post ++ more) := by
  induction ts generalizing n with
  | nil => cases h
  | cons u ts ih =>
    rw [List.cons_append]
    unfold fromByte at h ⊢
    split
    · rename_i hn
      rw [if_pos hn] at h
      cases h
      rfl
    · rename_i hn
      rw [if_neg hn] at h
      exact ih h

/-- The transfers after a data header, and where the header ends. -/
theorem readHeader_transfers {s : Server} {c : HostCommand} {d : DataPhase}
    {later : List Completion} (hp : LegalPartition (c.dataBytes d) d.transfers)
    (hw : s.wire = (d.transfers.map some ++ later, [])) :
    ∃ (t : Bytes) (post : List Bytes) (k : ℕ), fromByte headerSize d.transfers = t :: post ∧
      t ≠ [] ∧ (∀ u ∈ t :: post, u.length ≤ IO_BUFFER_SIZE) ∧ (∀ u ∈ post.dropLast, u ≠ []) ∧
      t.drop k ++ post.flatten = d.payload ∧
      s.readExact headerSize = (some (c.dataHeader d).encode,
        s.reading (post.map some ++ later) ((Rx.received t).advance k)) := by
  obtain ⟨husb, hrest⟩ := Prod.mk.inj hw
  obtain ⟨body, z, hts, hne, hflat, hz⟩ := hp.split
  have hl : (c.dataHeader d).encode.length = headerSize := ContainerHeader.length_encode _
  have hlen : (c.dataBytes d).length = headerSize + d.payload.length := by
    rw [HostCommand.dataBytes, List.length_append, hl]
  obtain ⟨t, post, k, hfrom, hmem, hsub, hread, hleft⟩ :=
    readLoop_transfers headerSize (z.map some ++ later) body s.rx [] hne
      (by rw [hrest]; decide) (by rw [hrest, List.nil_append, hflat, hlen]; exact Nat.le_add_right _ _)
  rw [hrest, List.nil_append, hflat] at hread hleft
  have hmemts : ∀ u ∈ t :: (post ++ z), u ∈ d.transfers := by
    intro u hu
    rw [hts, List.mem_append]
    rcases List.mem_cons.mp hu with rfl | hu
    · exact .inl hmem
    · rcases List.mem_append.mp hu with hu | hu
      · exact .inl (hsub u hu)
      · exact .inr hu
  refine ⟨t, post ++ z, k, ?_, hne t hmem, fun u hu => hp.size u (hmemts u hu), ?_, ?_, ?_⟩
  · rw [hts]
    apply fromByte_append
    rw [hrest] at hfrom
    exact hfrom
  · intro u hu
    apply hne
    apply hsub
    rcases hz with ⟨-, rfl⟩ | ⟨-, rfl⟩
    · rw [List.append_nil] at hu
      exact List.dropLast_subset _ hu
    · rw [List.dropLast_concat] at hu
      exact hu
  · have hzf : z.flatten = [] := by
      rcases hz with ⟨-, rfl⟩ | ⟨-, rfl⟩ <;> rfl
    rw [List.flatten_append, hzf, List.append_nil, hleft]
    exact List.drop_left' hl
  · unfold Server.readExact
    rw [husb, hts, List.map_append, List.append_assoc, hread, List.map_append, List.append_assoc]
    refine Prod.ext ?_ rfl
    exact congrArg some (List.take_left' hl)

/-- A data phase is ahead, but for its zero-length packet. -/
theorem LegalPartition.ahead {s : Server} {bytes : Bytes} {ts : List Bytes}
    {later : List Completion} (hp : LegalPartition bytes ts)
    (hw : s.wire = (ts.map some ++ later, [])) :
    ∃ z : List Bytes, s.Ahead bytes (z.map some ++ later) ∧
      ([] ∉ ts ∧ z = [] ∨ [] ∈ ts ∧ z = [[]]) := by
  obtain ⟨husb, hrest⟩ := Prod.mk.inj hw
  obtain ⟨body, z, hts, hne, hflat, hz⟩ := hp.split
  refine ⟨z, ⟨body, hne, ?_, ?_⟩, hz⟩
  · rw [husb, hts, List.map_append, List.append_assoc]
  · rw [hrest, List.nil_append, hflat]

/-- The zero-length packet is all that is left. -/
theorem Server.done_of_wire {s : Server} {z : List Bytes} {later : List Completion} {p : Prop}
    (hw : s.wire = (z.map some ++ later, [])) (hz : ¬p ∧ z = [] ∨ p ∧ z = [[]]) : s.Done later := by
  rcases hz with ⟨-, rfl⟩ | ⟨-, rfl⟩
  · exact .inl hw
  · exact .inr hw

/-- `handleSendObject` reads the data phase of an object that it takes. -/
theorem done_handleSendObject {s : Server} {c : HostCommand} {d : DataPhase} {p : Platform}
    {later : List Completion} (hop : c.op = Operation.sendObject.code)
    (hp : LegalPartition (c.dataBytes d) d.transfers)
    (hw : s.wire = (d.transfers.map some ++ later, []))
    (hr : s.ReadsData .sendObject c.params d) :
    (s.handleSendObject p c.transaction).Done later := by
  obtain ⟨hbusy, hpend, hrej, hmis, hsize⟩ := hr
  obtain ⟨z, ha, hz⟩ := hp.ahead hw
  have hl : (c.dataHeader d).encode.length = headerSize := ContainerHeader.length_encode _
  obtain ⟨usb, rx, hread, hahead⟩ := Server.readExact_ahead ha (n := headerSize)
    (by rw [HostCommand.dataBytes, List.length_append]; omega)
  rw [HostCommand.dataBytes, List.take_left' hl] at hread
  rw [HostCommand.dataBytes, List.drop_left' hl] at hahead
  obtain ⟨hrejected, hmismatch, hreceive⟩ := handleSendObject_header p c.transaction hbusy hpend
    hread rfl hop rfl
  have hlength : (c.dataHeader d).length.toNat = d.length.toNat := rfl
  rw [hlength] at hrejected hmismatch hreceive
  -- a rejected header has nothing behind it, and a wrong length is drained
  by_cases h1 : s.headerRejected d.length.toNat
  · rw [hrejected h1]
    rw [hrej h1] at hahead
    exact Server.done_of_wire hahead.wire hz
  by_cases h2 : s.lengthMismatch d.length.toNat
  · rw [hmismatch h1 h2]
    refine Server.done_of_wire (z := z) ?_ hz
    rw [Server.wire_failTransfer]
    have hpay := hmis h1 h2
    split
    · obtain ⟨usb', rx', hd, ha'⟩ := Server.drainExact_ahead _ hahead hpay.le
      rw [hd]
      rw [hpay, List.drop_length] at ha'
      exact ha'.wire
    · rename_i h0
      have hnil : d.payload = [] := by
        rw [← List.length_eq_zero_iff]
        omega
      rw [hnil] at hahead
      exact hahead.wire
  · obtain ⟨s', hs', husb, hrx, hknown, -⟩ := hreceive h1 h2
    rw [hs']
    have hs := hsize h1 h2
    change s'.knownSize = s.expectedSize d.length.toNat at hknown
    unfold Server.Done
    rw [Server.wire_receiveObject, husb, hrx, hknown]
    obtain ⟨ts, hne, husb', hflat⟩ := hahead
    change usb = ts.map some ++ (z.map some ++ later) at husb'
    change rx.rest ++ ts.flatten = d.payload at hflat
    rcases hexp : s.expectedSize d.length.toNat with _ | n
    · -- an object of unknown size: the header as it came
      rw [hexp] at hs
      obtain ⟨t, post, k, hfrom, ht, -, hpost, -, hread'⟩ := readHeader_transfers hp hw
      rw [hread] at hread'
      have hst : s.reading usb rx = s.reading (post.map some ++ later) ((Rx.received t).advance k) :=
        (Prod.mk.inj hread').2
      have husbeq : usb = post.map some ++ later := congrArg Server.usb hst
      have hrxeq : rx = (Rx.received t).advance k := congrArg Server.rx hst
      change ShortEnded (fromByte headerSize d.transfers) at hs
      rw [hfrom] at hs
      obtain ⟨rx', hrest', hloop⟩ := receiveLoop_unknown later post t k [] ht hpost hs
      rw [husbeq, hrxeq, hloop]
      left
      rw [hrest']
    · rw [hexp] at hs
      -- all the bytes come, and the zero-length packet stays for the next read
      rcases hs with rfl | ⟨hlt, hzlp⟩
      · obtain ⟨rx', hrest', hloop⟩ := receiveLoop_known (z.map some ++ later) ts rx [] hne
          (by rw [hflat]; rfl)
        rw [husb', hloop]
        rcases hz with ⟨-, rfl⟩ | ⟨-, rfl⟩
        · left
          rw [hrest']
          rfl
        · right
          rw [hrest']
          rfl
      · -- the zero-length packet is received where more was expected
        rcases hz with ⟨hno, -⟩ | ⟨-, rfl⟩
        · exact absurd hzlp hno
        · left
          rw [husb']
          have hloop := receiveLoop_known_short (n := n) later ts rx [] hne
            (by rw [hflat]; exact hlt)
          rw [List.map_singleton, List.singleton_append, hloop]
          rfl

/-- The responder answers a command whose data it reads, and the whole command is read. -/
theorem Server.Framed.done {s : Server} {p : Platform} {c : HostCommand} {later : List Completion}
    (h : s.Framed c) (hc : c.Legal) (hw : s.wire = (c.dataCompletions ++ later, [])) :
    (s.dispatchCommand p c.op c.transaction c.params).Done later := by
  rcases hd : c.data with _ | d
  · -- no data phase: nothing is received
    have hw' : s.wire = (later, []) := by
      rw [hw, HostCommand.dataCompletions, hd]
      rfl
    left
    unfold dispatchCommand
    split
    · rw [wire_sendResponse, hw']
    · rcases hop : Operation.ofCode c.op with _ | op
      · rw [wire_sendResponse, hw']
      · have hno : op.hasData = false := by
          have := hc.data op hop
          rw [hd] at this
          exact this
        rw [← hw']
        exact wire_dispatchOperation s p hno c.transaction c.params
  · have hw' : s.wire = (d.transfers.map some ++ later, []) := by
      rw [hw, HostCommand.dataCompletions, hd]
    obtain ⟨hsession, op, hop, hr⟩ := h d hd
    have hp := hc.partition d hd
    obtain ⟨z, ha, hz⟩ := hp.ahead hw'
    unfold dispatchCommand
    rw [if_neg (fun h => hsession h.2.2), Option.mem_def.mp hop]
    show (s.dispatchOperation p op c.transaction c.params).Done later
    unfold dispatchOperation
    cases op with
    | sendObjectInfo => exact done_of_wire (wire_handleSendObjectInfo ha hr) hz
    | sendObjectPropList => exact done_of_wire (wire_handleSendObjectPropList ha hr) hz
    | setObjectPropValue => exact done_of_wire (wire_handleSetObjectPropValue ha hr) hz
    | sendObject => exact done_handleSendObject (ofCode_eq_some hop) hp hw' hr
    | _ => exact hr.elim

/-! ## Runs -/

/-- A server and the commands of which the host has not seen the container read. -/
structure Conf where
  server : Server
  host : List HostCommand
  deriving DecidableEq

/-- A round of the command loop. -/
def Conf.round (p : Platform) (c : Conf) : Conf where
  server := c.server.commandRound p
  host := if c.server.interpreted.isSome then c.host.tail else c.host

/-- The next container that is interpreted is that of the next command; a round that only
finds a zero-length packet may come before. -/
def Conf.NextContainer (p : Platform) (c : Conf) : Prop :=
  match c.host with
  | [] => c.server.interpreted = none
  | h :: _ => c.server.Interprets h ∨
      (c.server.interpreted = none ∧ (c.server.commandRound p).Interprets h)

/-- The host is about to send its commands, and nothing is in the buffer. -/
structure Conf.Start (c : Conf) : Prop where
  legal : ∀ h ∈ c.host, h.Legal
  wire : c.server.wire = (c.host.flatMap HostCommand.completions, [])

/-- Host and responder are in step. -/
structure Conf.InStep (c : Conf) : Prop where
  legal : ∀ h ∈ c.host, h.Legal
  done : c.server.Done (c.host.flatMap HostCommand.completions)

/-- A round that interprets a container of which the whole data phase is read. -/
def FramedStep (p : Platform) (c c' : Conf) : Prop :=
  c' = c.round p ∧
    (c.server.interpreted.isSome → ∀ h ∈ c.host.head?, c.server.Framed h)

theorem Server.wire_restart (s : Server) : s.restart.wire = (s.usb, []) := by
  unfold restart
  rw [wire_resetPendingObject]
  split <;> rfl

/-- A round that interprets nothing leaves the rest of the transfers. -/
theorem Server.wire_commandRound_none {s : Server} (p : Platform) {later : List Completion}
    (hr : s.readCommand.1 = .none) (hw : s.readCommand.2.wire = (later, [])) :
    (s.commandRound p).wire = (later, []) := by
  have hp : s.processOneCommand p = (false, s.readCommand.2) := by
    unfold processOneCommand
    rcases h : s.readCommand with ⟨cmd, s'⟩
    rw [h] at hr
    subst hr
    rfl
  unfold commandRound
  rw [hp]
  show s.readCommand.2.restart.wire = _
  rw [wire_restart, ← (Prod.mk.inj hw).1]

/-- A round that interprets a command dispatches it. -/
theorem Server.processOneCommand_command {s s' : Server} (p : Platform) {c : HostCommand}
    (hr : s.readCommand.1 = .command c.op c.transaction c.params) (hs : s.readCommand.2 = s') :
    s.processOneCommand p = (true, s'.dispatchCommand p c.op c.transaction c.params) := by
  unfold processOneCommand
  rcases h : s.readCommand with ⟨cmd, s''⟩
  rw [h] at hr hs
  subst hr hs
  rfl

/-- Nothing to read: the cable is out. -/
theorem Server.readCommand_nil {s : Server} (hw : s.wire = ([], [])) :
    s.readCommand.1 = .none ∧ s.readCommand.2.wire = ([], []) := by
  obtain ⟨husb, hrest⟩ := Prod.mk.inj hw
  have hread : s.readExact headerSize = (none, s.reading [] (s.rx.advance 0).failed) := by
    unfold readExact readLoop
    rw [husb, hrest]
    rfl
  unfold readCommand
  rw [hread]
  exact ⟨rfl, rfl⟩

/-- A framed step keeps host and responder in step. -/
theorem Conf.InStep.step {p : Platform} {c c' : Conf} (h : c.InStep) (hs : FramedStep p c c') :
    c'.InStep := by
  obtain ⟨rfl, hframed⟩ := hs
  rcases h.done with hw | hw
  · rcases hhost : c.host with _ | ⟨cmd, host⟩
    · rw [hhost] at hw
      have hnone := Server.interpreted_nil hw
      obtain ⟨hr, hw'⟩ := Server.readCommand_nil hw
      refine ⟨?_, .inl ?_⟩
      · show ∀ h ∈ (if c.server.interpreted.isSome then c.host.tail else c.host), _
        rw [hnone, hhost]
        simp
      · show (c.server.commandRound p).wire = _
        rw [Server.wire_commandRound_none p hr hw', Conf.round, hnone, hhost]
        rfl
    -- the command of the host is read whole, and answered
    · rw [hhost] at hw
      have hlegal : cmd.Legal := h.legal cmd (by simp [hhost])
      obtain ⟨⟨hi, hr⟩, usb, rx, hst, hw'⟩ := Server.readCommand_container hlegal.params hw
      have hfr : (c.server.reading usb rx).Framed cmd := by
        apply hframed
        · rw [hi]
          rfl
        · rw [hhost]
          rfl
      have hround : (c.round p).host = host := by
        unfold Conf.round
        rw [hi, hhost]
        rfl
      refine ⟨?_, ?_⟩
      · intro h' hh'
        rw [hround] at hh'
        apply h.legal
        rw [hhost]
        exact List.mem_cons_of_mem _ hh'
      · rw [hround]
        show (c.server.commandRound p).Done _
        unfold Server.commandRound
        rw [Server.processOneCommand_command p hr hst]
        exact hfr.done hlegal hw'
  · -- the round takes the zero-length packet
    obtain ⟨hnone, hr, hw'⟩ := Server.readCommand_empty hw
    have hround : (c.round p).host = c.host := by
      unfold Conf.round
      rw [hnone]
      rfl
    refine ⟨?_, .inl ?_⟩
    · rw [hround]
      exact h.legal
    · rw [hround]
      exact Server.wire_commandRound_none p hr hw'

/-- In step, the next container is that of the next command. -/
theorem Conf.InStep.nextContainer {c : Conf} (h : c.InStep) (p : Platform) :
    c.NextContainer p := by
  unfold Conf.NextContainer
  rcases hhost : c.host with _ | ⟨cmd, host⟩
  · dsimp only
    have hdone := h.done
    rw [hhost] at hdone
    rcases hdone with hw | hw
    · exact Server.interpreted_nil hw
    · exact (Server.readCommand_empty hw).1
  · dsimp only
    have hlegal : cmd.Legal := h.legal cmd (by simp [hhost])
    have hdone := h.done
    rw [hhost] at hdone
    rcases hdone with hw | hw
    · exact .inl (Server.readCommand_container hlegal.params hw).1
    · obtain ⟨hnone, hr, hw'⟩ := Server.readCommand_empty hw
      refine .inr ⟨hnone, ?_⟩
      exact (Server.readCommand_container hlegal.params (Server.wire_commandRound_none p hr hw')).1

/-- In every run of which each command has its data phase read, the next container that the
responder interprets is always that of the host's next command. -/
theorem framing_kept (p : Platform) {c c' : Conf} (h : c.Start)
    (hrun : Relation.ReflTransGen (FramedStep p) c c') : c'.NextContainer p := by
  suffices hin : c'.InStep from hin.nextContainer p
  induction hrun with
  | refl => exact ⟨h.legal, .inl h.wire⟩
  | tail _ hs ih => exact ih.step hs

/-- The data container of a pending object keeps them in step. -/
theorem framing_kept_headerApart :
    (Conf.round platform ⟨pendingServer (some 3) (headerApart 15 [1, 2, 3]),
      [sendObject (headerApart 15 [1, 2, 3]), getDeviceInfo]⟩).NextContainer platform := by
  refine framing_kept platform (c := ⟨pendingServer (some 3) (headerApart 15 [1, 2, 3]),
    [sendObject (headerApart 15 [1, 2, 3]), getDeviceInfo]⟩) ⟨?_, rfl⟩ (.single ⟨rfl, ?_⟩)
  · intro h hh
    rcases List.mem_cons.mp hh with rfl | hh
    · exact legal_sendObject (legalPartition_headerApart 15 (by decide)) (.inr rfl)
    · rw [List.mem_singleton.mp hh]
      exact @legal_noData .getDeviceInfo rfl 3 [] (by decide)
  · intro _ h hh
    cases Option.mem_some.mp hh
    intro d hd
    cases Option.mem_some.mp hd
    refine ⟨by decide, .sendObject, rfl, rfl, rfl, ?_, ?_, ?_⟩
    · rintro ⟨-, -, hlt⟩
      exact absurd hlt (by decide)
    · exact fun _ _ => rfl
    · exact fun _ _ => .inl rfl

/-- Host and server before a session, and an object that was not announced. -/
def unannounced : Conf where
  server := { usb := [⟨Operation.openSession.code, 1, [7], none⟩, sendObject (headerApart 15 [1, 2, 3]),
    getDeviceInfo].flatMap HostCommand.completions }
  host := [⟨Operation.openSession.code, 1, [7], none⟩, sendObject (headerApart 15 [1, 2, 3]),
    getDeviceInfo]

theorem unannounced_start : unannounced.Start where
  legal := by
    intro h hh
    rcases List.mem_cons.mp hh with rfl | hh
    · exact @legal_noData .openSession rfl 1 [7] (by decide)
    rcases List.mem_cons.mp hh with rfl | hh
    · exact legal_sendObject (legalPartition_headerApart 15 (by decide)) (.inr rfl)
    · rw [List.mem_singleton.mp hh]
      exact @legal_noData .getDeviceInfo rfl 3 [] (by decide)
  wire := rfl

/-- The data container of an object that is refused is taken for a command container. -/
theorem data_taken_for_command : unannounced.Start ∧
    Relation.ReflTransGen (fun c c' => c' = c.round platform) unannounced
      ((unannounced.round platform).round platform) ∧
    ((unannounced.round platform).round platform).server.interpreted = some (objectHeader 15) ∧
    ¬((unannounced.round platform).round platform).NextContainer platform := by
  have hi : ((unannounced.round platform).round platform).server.interpreted =
      some (objectHeader 15) := by decide
  refine ⟨unannounced_start, ?_, hi, ?_⟩
  · apply Relation.ReflTransGen.tail (b := unannounced.round platform)
    · exact .single rfl
    · rfl
  · have hhost : ((unannounced.round platform).round platform).host = [getDeviceInfo] := by decide
    unfold Conf.NextContainer
    rw [hhost]
    rintro (⟨h, -⟩ | ⟨h, -⟩)
    · rw [hi] at h
      exact absurd h (by decide)
    · rw [hi] at h
      cases h

/-! ## Objects -/

/-- When the first short transfer is not the last one, the installer gets other bytes than the
payload, or a zero-length packet is left. -/
theorem receiveLoop_not_shortEnded {b : Bytes} (hb : b ≠ []) (later : List Completion) :
    ∀ (post : List Bytes) (t : Bytes) (k : ℕ) (pushed : Bytes), t ≠ [] →
      (∀ u ∈ post.dropLast, u ≠ []) → ¬ShortEnded (t :: post) →
      (receiveLoop none (post.map some ++ some b :: later) ((Rx.received t).advance k)
        pushed).1.pushed ≠ pushed ++ (t.drop k ++ post.flatten) ∨
      ∃ usb, (receiveLoop none (post.map some ++ some b :: later) ((Rx.received t).advance k)
          pushed).2.1 = some [] :: usb ∧
        (receiveLoop none (post.map some ++ some b :: later) ((Rx.received t).advance k)
          pushed).2.2.rest = [] := by
  intro post
  induction post with
  | nil =>
    intro t k pushed ht _ hs
    -- the last transfer is full: the next command is taken for a part of the object
    have hfull : ((Rx.received t).advance k).rxShortPacket = false := decide_eq_false hs
    left
    rw [List.map_nil, List.nil_append, receiveLoop_unknown_receive hb hfull, Rx.rest_advance,
      Rx.rest_received, List.flatten_nil, List.append_nil]
    intro heq
    have hpre := prefix_receiveLoop_unknown later (.received b) (pushed ++ t.drop k)
    rw [heq, Rx.rest_received] at hpre
    have hlen := hpre.length_le
    rw [List.length_append] at hlen
    have := List.length_pos_iff.mpr hb
    omega
  | cons u post ih =>
    intro t k pushed ht hne hs
    by_cases hshort : t.length < IO_BUFFER_SIZE
    · -- the loop ends before the last transfer
      have hsp : ((Rx.received t).advance k).rxShortPacket = true := decide_eq_true hshort
      rw [receiveLoop_unknown_short hsp ht, Rx.rest_advance, Rx.rest_received]
      by_cases hu : u = []
      · right
        subst hu
        refine ⟨post.map some ++ some b :: later, rfl, ?_⟩
        rw [Rx.rest_advance, Rx.rest_advance, Rx.rest_received, List.drop_length]
      · left
        intro heq
        have hlen := congrArg List.length heq
        have := List.length_pos_iff.mpr hu
        rw [List.flatten_cons] at hlen
        simp only [List.length_append] at hlen
        omega
    · have hfull : ((Rx.received t).advance k).rxShortPacket = false := decide_eq_false hshort
      have hu : u ≠ [] := by
        rintro rfl
        have hpost : post = [] := by
          by_contra hpost
          exact hne [] (by rw [List.dropLast_cons_of_ne_nil hpost]; simp) rfl
        subst hpost
        exact hs ⟨Nat.le_of_not_lt hshort, (by decide : 0 < IO_BUFFER_SIZE)⟩
      have hs' : ¬ShortEnded (u :: post) := fun h => hs ⟨Nat.le_of_not_lt hshort, h⟩
      have hne' : ∀ v ∈ post.dropLast, v ≠ [] := by
        intro v hv
        have hpost : post ≠ [] := by
          rintro rfl
          simp at hv
        exact hne v (by rw [List.dropLast_cons_of_ne_nil hpost]; exact List.mem_cons_of_mem _ hv)
      have hnext := ih u 0 (pushed ++ t.drop k) hu hne' hs'
      have hstep : receiveLoop none ((u :: post).map some ++ some b :: later)
          ((Rx.received t).advance k) pushed =
          receiveLoop none (post.map some ++ some b :: later) ((Rx.received u).advance 0)
            (pushed ++ t.drop k) := by
        rw [List.map_cons, List.cons_append, receiveLoop_unknown_receive hu hfull, Rx.rest_advance,
          Rx.rest_received]
        rfl
      rw [hstep]
      rw [List.drop_zero, List.append_assoc] at hnext
      exact hnext

/-- The installer gets the payload, and the command after it is read. -/
def Server.Delivers (s : Server) (p : Platform) (payload : Bytes) (next : HostCommand) : Prop :=
  (∃ i : Install, (s.processOneCommand p).2.installed = s.installed ++ [i] ∧ i.stream = payload) ∧
    (s.processOneCommand p).2.readCommand.1 = .command next.op next.transaction next.params

section object

variable {s : Server} {c next : HostCommand} {d : DataPhase} {later : List Completion}

/-- The hypotheses about a `SendObject` with its data phase and the command after it. -/
structure SendsObject (s : Server) (c : HostCommand) (d : DataPhase) (next : HostCommand)
    (later : List Completion) : Prop where
  op : c.op = Operation.sendObject.code
  data : c.data = some d
  params : c.params.length ≤ 5
  nextParams : next.params.length ≤ 5
  session : s.sessionId ≠ 0
  idle : s.installerBusy = false
  pending : s.pendingValid = true
  /-- a size that the host announced is that of the payload -/
  size : s.pendingSizeKnown = true → s.pendingSize = d.payload.length
  /-- the length in the header is right, if it can be -/
  length : d.length.toNat = 0xFFFFFFFF ∨ d.length.toNat = headerSize + d.payload.length ∨
    s.knownLargeObject = true
  partition : LegalPartition (c.dataBytes d) d.transfers
  wire : s.wire = (c.completions ++ next.completions ++ later, [])

/-- The command and its header are read, and the object is received. -/
theorem SendsObject.receive (h : SendsObject s c d next later) (p : Platform) :
    ∃ (s' : Server) (usb : List Completion) (rx : Rx),
      (s.processOneCommand p).2 = s'.receiveObject p c.transaction ∧ s'.usb = usb ∧
      s'.rx = rx ∧ s'.knownSize = s.expectedSize d.length.toNat ∧ s'.installed = s.installed ∧
      ∃ s₀ : Server, s₀.wire = (d.transfers.map some ++ (next.completions ++ later), []) ∧
        s₀.readExact headerSize = (some (c.dataHeader d).encode, s₀.reading usb rx) := by
  have hw := h.wire
  rw [HostCommand.completions, HostCommand.dataCompletions, h.data, List.append_assoc,
    List.cons_append] at hw
  obtain ⟨⟨-, hr⟩, usb₀, rx₀, hst, hw₀⟩ := Server.readCommand_container h.params hw
  have hw₀' : (s.reading usb₀ rx₀).wire =
      (d.transfers.map some ++ (next.completions ++ later), []) := hw₀
  obtain ⟨t, post, k, -, -, -, -, -, hread⟩ := readHeader_transfers h.partition hw₀'
  obtain ⟨-, -, hreceive⟩ := handleSendObject_header (s := s.reading usb₀ rx₀) p c.transaction
    h.idle h.pending hread rfl h.op rfl
  have hrej : ¬(s.reading usb₀ rx₀).headerRejected d.length.toNat := by
    rintro ⟨hlarge, hext, hlt⟩
    rcases h.length with hl | hl | hl
    · exact hext hl
    · omega
    · change s.knownLargeObject = false at hlarge
      rw [hl] at hlarge
      cases hlarge
  have hmis : ¬(s.reading usb₀ rx₀).lengthMismatch d.length.toNat := by
    rintro ⟨hknown, hlarge, hext, hne⟩
    rcases h.length with hl | hl | hl
    · exact hext hl
    · apply hne
      unfold headerPayloadSize
      rw [if_pos ⟨hext, by omega⟩, hl, Nat.add_sub_cancel_left]
      exact (h.size hknown).symm
    · change s.knownLargeObject = false at hlarge
      rw [hl] at hlarge
      cases hlarge
  obtain ⟨s', hs', husb, hrx, hknown, hinst⟩ := hreceive hrej hmis
  refine ⟨s', _, _, ?_, husb, hrx, hknown, hinst, s.reading usb₀ rx₀, hw₀', hread⟩
  rw [Server.processOneCommand_command p hr hst, ← hs']
  show (s.reading usb₀ rx₀).dispatchCommand p c.op c.transaction c.params = _
  unfold Server.dispatchCommand
  rw [if_neg (fun h' => h.session h'.2.2), h.op, Operation.ofCode_code]
  rfl

/-- A server with the next command on the wire, after a zero-length packet or not, reads it
exactly when there is none. -/
theorem readCommand_next {z : List Bytes} {q : Prop} (hz : ¬q ∧ z = [] ∨ q ∧ z = [[]])
    (hnext : next.params.length ≤ 5)
    (hw : s.wire = (z.map some ++ (next.completions ++ later), [])) :
    s.readCommand.1 = .command next.op next.transaction next.params ↔ ¬q := by
  rcases hz with ⟨hq, rfl⟩ | ⟨hq, rfl⟩
  · exact iff_of_true (Server.readCommand_container hnext hw).1.2 hq
  · refine iff_of_false ?_ (not_not_intro hq)
    rw [(Server.readCommand_empty hw).2.1]
    exact fun h => nomatch h

/-- An object of known size is received, with the next command after it, exactly when no
zero-length packet ends it. -/
theorem delivers_known_iff (h : SendsObject s c d next later) (p : Platform)
    (hexp : s.expectedSize d.length.toNat = some d.payload.length) :
    s.Delivers p d.payload next ↔ [] ∉ d.transfers := by
  obtain ⟨s', usb, rx, hs', husb, hrx, hknown, hinst, s₀, hw₀, hread₀⟩ := h.receive p
  obtain ⟨z, ha, hz⟩ := h.partition.ahead hw₀
  have hl : (c.dataHeader d).encode.length = headerSize := ContainerHeader.length_encode _
  obtain ⟨usb', rx', hread, ts, hne, husb', hflat⟩ := Server.readExact_ahead ha (n := headerSize)
    (by rw [HostCommand.dataBytes, List.length_append]; omega)
  rw [HostCommand.dataBytes, List.drop_left' hl] at hflat
  rw [hread₀] at hread
  have hst : s₀.reading usb rx = s₀.reading usb' rx' := (Prod.mk.inj hread).2
  have husbeq : usb = usb' := congrArg Server.usb hst
  have hrxeq : rx = rx' := congrArg Server.rx hst
  change usb' = ts.map some ++ (z.map some ++ (next.completions ++ later)) at husb'
  obtain ⟨rx'', hrest, hloop⟩ := receiveLoop_known (n := d.payload.length)
    (z.map some ++ (next.completions ++ later)) ts rx' [] hne
    (by show (rx'.rest ++ ts.flatten).length = _; rw [show rx'.rest ++ ts.flatten = _ from hflat]; rfl)
  rw [show rx'.rest ++ ts.flatten = d.payload from hflat, List.nil_append] at hloop
  have hr : receiveLoop s'.knownSize s'.usb s'.rx [] =
      (⟨true, d.payload⟩, z.map some ++ (next.completions ++ later), rx'') := by
    rw [hknown, hexp, husb, hrx, husbeq, hrxeq, husb', hloop]
  have hw : (s.processOneCommand p).2.wire = (z.map some ++ (next.completions ++ later), []) := by
    rw [hs', Server.wire_receiveObject, hr, hrest]
  unfold Server.Delivers
  rw [readCommand_next hz h.nextParams hw, and_iff_right]
  refine ⟨⟨s'.pendingName, s'.knownSize.getD 0, d.payload⟩, ?_, rfl⟩
  rw [hs', Server.installed_receiveObject, hinst, hr]

/-- An object of unknown size is received, with the next command after it, exactly when from
the end of its header on only the last transfer is short. -/
theorem delivers_unknown_iff (h : SendsObject s c d next later) (p : Platform)
    (hexp : s.expectedSize d.length.toNat = none) :
    s.Delivers p d.payload next ↔ ShortEnded (fromByte headerSize d.transfers) := by
  obtain ⟨s', usb, rx, hs', husb, hrx, hknown, hinst, s₀, hw₀, hread₀⟩ := h.receive p
  obtain ⟨t, post, k, hfrom, ht, -, hpost, hpay, hread⟩ := readHeader_transfers h.partition hw₀
  rw [hread₀] at hread
  have hst : s₀.reading usb rx =
      s₀.reading (post.map some ++ (next.completions ++ later)) ((Rx.received t).advance k) :=
    (Prod.mk.inj hread).2
  have husbeq : usb = post.map some ++ (next.completions ++ later) := congrArg Server.usb hst
  have hrxeq : rx = (Rx.received t).advance k := congrArg Server.rx hst
  have hnexteq : next.completions ++ later =
      some next.container :: (next.dataCompletions ++ later) := rfl
  have hcontainer : next.container ≠ [] := by
    intro hnil
    have := congrArg List.length hnil
    rw [HostCommand.container, List.length_append, ContainerHeader.length_encode] at this
    simp [headerSize] at this
  have hr : receiveLoop s'.knownSize s'.usb s'.rx [] = receiveLoop none
      (post.map some ++ (next.completions ++ later)) ((Rx.received t).advance k) [] := by
    rw [hknown, hexp, husb, hrx, husbeq, hrxeq]
  have hw : (s.processOneCommand p).2.wire =
      ((receiveLoop none (post.map some ++ (next.completions ++ later)) ((Rx.received t).advance k)
        []).2.1, (receiveLoop none (post.map some ++ (next.completions ++ later))
          ((Rx.received t).advance k) []).2.2.rest) := by
    rw [hs', Server.wire_receiveObject, hr]
  have hi : (s.processOneCommand p).2.installed = s.installed ++ [⟨s'.pendingName,
      s'.knownSize.getD 0, (receiveLoop none (post.map some ++ (next.completions ++ later))
        ((Rx.received t).advance k) []).1.pushed⟩] := by
    rw [hs', Server.installed_receiveObject, hinst, hr]
  rw [hfrom]
  constructor
  · rintro ⟨⟨i, hi', hstream⟩, hcmd⟩
    -- without a short transfer the next command is taken for a part of the object
    by_contra hshort
    have hlast := receiveLoop_not_shortEnded hcontainer (next.dataCompletions ++ later) post t k []
      ht hpost hshort
    rw [← hnexteq] at hlast
    rcases hlast with hne | ⟨usb'', husb'', hrest''⟩
    · rw [hi] at hi'
      have hlast := List.append_cancel_left hi'
      rw [List.cons.injEq] at hlast
      apply hne
      rw [List.nil_append, hpay, ← hstream, ← hlast.1]
    · rw [husb'', hrest''] at hw
      rw [(Server.readCommand_empty hw).2.1] at hcmd
      cases hcmd
  · intro hshort
    obtain ⟨rx', hrest, hloop⟩ := receiveLoop_unknown (next.completions ++ later) post t k [] ht hpost
      hshort
    rw [hloop, hrest] at hw
    rw [hloop] at hi
    refine ⟨⟨_, hi, ?_⟩, ?_⟩
    · rw [List.nil_append]
      exact hpay
    · exact (Server.readCommand_container h.nextParams hw).1.2

/-- Which partitions of a data phase an object survives. -/
theorem object_received_iff (p : Platform) (h : SendsObject s c d next later) :
    s.Delivers p d.payload next ↔
      if s.pendingSizeKnown = true ∨ d.length.toNat ≠ 0xFFFFFFFF then [] ∉ d.transfers
      else ShortEnded (fromByte headerSize d.transfers) := by
  by_cases hk : s.pendingSizeKnown = true
  · rw [if_pos (.inl hk)]
    apply delivers_known_iff h
    unfold Server.expectedSize
    rw [if_pos hk, h.size hk]
  · by_cases hext : d.length.toNat = 0xFFFFFFFF
    · rw [if_neg (not_or.mpr ⟨hk, not_not_intro hext⟩)]
      apply delivers_unknown_iff h
      unfold Server.expectedSize
      rw [if_neg hk, if_neg (not_not_intro hext)]
    · rw [if_pos (.inr hext)]
      apply delivers_known_iff h
      have hlen : d.length.toNat = headerSize + d.payload.length := by
        rcases h.length with hl | hl | hl
        · exact absurd hl hext
        · exact hl
        · unfold Server.knownLargeObject at hl
          rw [Bool.and_eq_true] at hl
          exact absurd hl.1 hk
      unfold Server.expectedSize headerPayloadSize
      rw [if_neg hk, if_pos hext, if_pos ⟨hext, by omega⟩, hlen, Nat.add_sub_cancel_left]

end object

/-- The server with a pending object of the right size, if one is known, and an honest header. -/
theorem sendsObject_pending {size : Option ℕ} {d : DataPhase}
    (hsize : ∀ n ∈ size, n = d.payload.length)
    (hlength : d.length.toNat = 0xFFFFFFFF ∨ d.length.toNat = headerSize + d.payload.length)
    (hp : LegalPartition (objectHeader d.length ++ d.payload) d.transfers) :
    SendsObject (pendingServer size d) (sendObject d) d getDeviceInfo [] where
  op := rfl
  data := rfl
  params := Nat.zero_le _
  nextParams := Nat.zero_le _
  session := by
    show (1 : UInt32) ≠ 0
    decide
  idle := rfl
  pending := rfl
  size := by
    rcases size with _ | n
    · exact fun h => nomatch h
    · intro _
      exact hsize n rfl
  length := by
    rcases hlength with h | h
    · exact .inl h
    · exact .inr (.inl h)
  partition := hp
  wire := by
    unfold Server.wire
    rw [List.append_nil]
    rfl

/-- Header and payload fill the responder's buffer, and a zero-length packet follows. -/
theorem sendsObject_zeroLengthPacket {payload : Bytes}
    (h : headerSize + payload.length = IO_BUFFER_SIZE) : SendsObject
    (pendingServer (some payload.length) (withZeroLengthPacket 0x400000 payload))
    (sendObject (withZeroLengthPacket 0x400000 payload)) (withZeroLengthPacket 0x400000 payload)
    getDeviceInfo [] := by
  apply sendsObject_pending
  · intro n hn
    exact (Option.mem_some.mp hn).symm
  · right
    show (0x400000 : UInt32).toNat = headerSize + payload.length
    rw [h]
    decide
  · exact legalPartition_withZeroLengthPacket 0x400000 h.le

theorem sendsObject_headerApart (size : Option ℕ) (length : UInt32) (hsize : ∀ n ∈ size, n = 3)
    (hlength : length.toNat = 0xFFFFFFFF ∨ length.toNat = 15) : SendsObject
    (pendingServer size (headerApart length [1, 2, 3])) (sendObject (headerApart length [1, 2, 3]))
    (headerApart length [1, 2, 3]) getDeviceInfo [] := by
  apply sendsObject_pending hsize hlength
  apply legalPartition_headerApart length
  show [1, 2, 3].length < IO_BUFFER_SIZE
  decide

/-- An object is received although its header comes in a transfer of its own. -/
theorem object_received_headerApart :
    (pendingServer (some 3) (headerApart 15 [1, 2, 3])).Delivers platform [1, 2, 3] getDeviceInfo :=
  (object_received_iff platform (sendsObject_headerApart (some 3) 15 (by simp) (.inr rfl))).mpr
    (by rw [if_pos (.inl rfl)]; decide)

/-- A payload that fills the responder's buffer together with the header. -/
def bufferPayload : Bytes := List.replicate (IO_BUFFER_SIZE - headerSize) 0

theorem length_bufferPayload : headerSize + bufferPayload.length = IO_BUFFER_SIZE := by
  have hle : headerSize ≤ IO_BUFFER_SIZE := by decide
  have hlen : bufferPayload.length = IO_BUFFER_SIZE - headerSize := List.length_replicate
  omega

/-- The zero-length packet is taken for the next command. -/
theorem not_delivers_zeroLengthPacket {payload : Bytes}
    (h : headerSize + payload.length = IO_BUFFER_SIZE) :
    ¬(pendingServer (some payload.length) (withZeroLengthPacket 0x400000 payload)).Delivers platform
      payload getDeviceInfo := by
  intro hd
  have := (delivers_known_iff (sendsObject_zeroLengthPacket h) platform rfl).mp hd
  apply this
  simp [withZeroLengthPacket]

/-- The short transfer of the header is taken for the end of the object. -/
theorem not_delivers_headerApart :
    ¬(pendingServer none (headerApart 0xFFFFFFFF [1, 2, 3])).Delivers platform [1, 2, 3]
      getDeviceInfo := by
  intro hd
  have hs := (delivers_unknown_iff
    (sendsObject_headerApart none 0xFFFFFFFF (by simp) (.inl rfl)) platform rfl).mp hd
  have hfrom : fromByte headerSize (headerApart 0xFFFFFFFF [1, 2, 3]).transfers =
      [objectHeader 0xFFFFFFFF, [1, 2, 3]] := rfl
  rw [hfrom] at hs
  have hfull := hs.1
  rw [length_objectHeader] at hfull
  exact absurd hfull (by decide)

/-- A known size and a zero-length packet; an unknown size and the header apart. -/
theorem object_lost :
    (SendsObject
      (pendingServer (some bufferPayload.length) (withZeroLengthPacket 0x400000 bufferPayload))
      (sendObject (withZeroLengthPacket 0x400000 bufferPayload))
      (withZeroLengthPacket 0x400000 bufferPayload) getDeviceInfo [] ∧
    ¬(pendingServer (some bufferPayload.length)
      (withZeroLengthPacket 0x400000 bufferPayload)).Delivers platform bufferPayload
        getDeviceInfo) ∧
    SendsObject (pendingServer none (headerApart 0xFFFFFFFF [1, 2, 3]))
      (sendObject (headerApart 0xFFFFFFFF [1, 2, 3])) (headerApart 0xFFFFFFFF [1, 2, 3])
      getDeviceInfo [] ∧
    ¬(pendingServer none (headerApart 0xFFFFFFFF [1, 2, 3])).Delivers platform [1, 2, 3]
      getDeviceInfo :=
  ⟨⟨sendsObject_zeroLengthPacket length_bufferPayload,
      not_delivers_zeroLengthPacket length_bufferPayload⟩,
    sendsObject_headerApart none 0xFFFFFFFF (by simp) (.inl rfl), not_delivers_headerApart⟩

end MtpNativeServer
