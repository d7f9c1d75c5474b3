/-
# The names and sizes that are reported

An object keeps the name that the host gave it, as bytes.  `GetObjectInfo` and the property of the
file name report it as a string again, and what the reader of `SendObjectInfo` makes of such a
dataset is what was reported.
-/
import AioMod.MtpStrings
import AioMod.MtpFraming
import AioMod.MtpPending

namespace MtpNativeServer

open ByteImage

/-! ## Where a name comes from -/

/-- A name that is accepted from a string of the host. -/
structure AcceptedName (wire name : Bytes) : Prop where
  read : utf16Name wire = some name
  safe : isSafeNspName name = true

/-- The object of the server has the name that was accepted from this string. -/
structure Server.Announced (s : Server) (wire : Bytes) : Prop where
  valid : s.pendingValid = true
  accepted : AcceptedName wire s.pendingName

/-- The name of the pending object. -/
def Server.object (s : Server) : Option Bytes := if s.pendingValid then some s.pendingName else none

/-- What a command does to the name of the object: nothing, or it drops the object, or it accepts
a name. -/
def NameStep (o o' : Option Bytes) : Prop :=
  o' = o ∨ o' = none ∨ ∃ wire name, AcceptedName wire name ∧ o' = some name

/-- The name of a property list stands in a string of it. -/
theorem propLoop_name {data : Bytes} : ∀ {n : ℕ} {found found' : PropScan} {rest : Bytes},
    propLoop n data found = some (found', rest) →
      found'.name = found.name ∨ ∃ wire, utf16Name wire = some found'.name := by
  intro n
  induction n generalizing data with
  | zero =>
    intro found found' rest h
    cases h
    exact .inl rfl
  | succ n ih =>
    intro found found' rest h
    rw [propLoop] at h
    dsimp only at h
    split at h
    · cases h
    split at h
    · cases h
    rename_i valueSize hsize
    split at h
    · cases h
    rcases ih h with hname | hwire
    · rw [hname]
      split_ifs
      · split
        · rename_i candidate hcandidate
          split
          · exact .inl rfl
          · exact .inr ⟨_, hcandidate⟩
        · exact .inl rfl
      · exact .inl rfl
      · exact .inl rfl
    · exact .inr hwire

theorem parsePropList_name {data name : Bytes} {objectSize : UInt64}
    (h : parsePropList data objectSize = some name) : ∃ wire, utf16Name wire = some name := by
  unfold parsePropList at h
  dsimp only at h
  split_ifs at h with hshort hcount
  split at h
  · cases h
  rename_i found rest hloop
  split_ifs at h with hrest hsize
  cases h
  rcases propLoop_name hloop with hname | hwire
  · exact absurd (.inr hname) hrest
  · exact hwire

section object

variable {s : Server} {trans : UInt32} (p : Platform) (params : List UInt32)

@[simp] theorem Server.object_sendResponse (code : UInt16) (answer : List UInt32) :
    (s.sendResponse code trans answer).object = s.object := rfl

@[simp] theorem Server.object_sendRemoved (handle : UInt32) :
    (s.sendRemoved handle).object = s.object := by
  unfold sendRemoved
  split
  · rfl
  · rfl

@[simp] theorem Server.object_answer (op : Operation) (data : Except UInt16 Bytes) :
    (s.answer op trans data).object = s.object := by
  unfold answer
  split
  · rfl
  · rfl

@[simp] theorem Server.object_readExact (n : ℕ) : (s.readExact n).2.object = s.object := rfl

@[simp] theorem Server.object_drainExact (n : ℕ) :
    ∀ s : Server, (s.drainExact n).2.object = s.object := by
  induction n using Nat.strong_induction_on with
  | _ n ih =>
    intro s
    unfold drainExact
    split
    · rfl
    · rcases hr : s.readExact (min n 4096) with ⟨_ | bs, s₁⟩
      · exact congrArg (fun r => Server.object r.2) hr.symm
      · exact (ih _ (by omega) s₁).trans (congrArg (fun r => Server.object r.2) hr.symm)

theorem Server.object_readDataset {op : Operation} {least most : ℕ} {data : Option Bytes}
    {s₁ : Server} (h : s.readDataset op trans least most = (data, s₁)) : s₁.object = s.object := by
  have hobject : (s.readDataset op trans least most).2.object = s.object := by
    unfold readDataset
    rcases hr : s.readExact headerSize with ⟨_ | bytes, s₂⟩
    · exact congrArg (fun r => Server.object r.2) hr.symm
    · have hread : s₂.object = s.object := congrArg (fun r => Server.object r.2) hr.symm
      dsimp only
      split
      · rw [object_sendResponse]
        split
        · rw [object_drainExact, hread]
        · exact hread
      · exact hread
  rw [h] at hobject
  exact hobject

theorem Server.object_failTransfer (code : UInt16) : (s.failTransfer code trans).object = none := by
  unfold failTransfer
  rw [object_sendRemoved]
  rfl

/-- A name is refused, or it becomes that of the object. -/
theorem Server.object_preparePendingObject {wire name : Bytes} (hwire : utf16Name wire = some name)
    (size : ℕ) (known : Bool) (format : UInt16) :
    NameStep s.object (s.preparePendingObject name size known format trans).object := by
  unfold preparePendingObject
  split
  · exact .inl rfl
  split
  · exact .inl rfl
  · rename_i hsafe
    exact .inr (.inr ⟨wire, name, ⟨hwire, not_not.mp (not_or.mp hsafe).2⟩, rfl⟩)

theorem Server.object_handleSendObjectInfo :
    NameStep s.object (s.handleSendObjectInfo trans params).object := by
  unfold handleSendObjectInfo
  split
  · exact .inl rfl
  split
  · exact .inl rfl
  split
  · exact .inl rfl
  rcases hr : s.readDataset .sendObjectInfo trans 53 (64 * 1024) with ⟨_ | data, s₁⟩
  · exact .inl (object_readDataset hr)
  dsimp only
  rw [← object_readDataset hr]
  split
  · exact .inl rfl
  · rename_i hname
    obtain ⟨name, hname⟩ := Option.ne_none_iff_exists'.mp (not_or.mp (not_or.mp hname).2).2
    rw [hname]
    exact object_preparePendingObject hname _ _ _

theorem Server.object_handleSendObjectPropList :
    NameStep s.object (s.handleSendObjectPropList trans params).object := by
  unfold handleSendObjectPropList
  split
  · exact .inl rfl
  split
  · dsimp only
    split
    · exact .inl rfl
    rcases hr : s.readDataset .sendObjectPropList trans 4 (256 * 1024) with ⟨_ | data, s₁⟩
    · exact .inl (object_readDataset hr)
    dsimp only
    rw [← object_readDataset hr]
    split
    · exact .inl rfl
    · rename_i name hname
      obtain ⟨wire, hwire⟩ := parsePropList_name hname
      exact object_preparePendingObject hwire _ _ _
  · exact .inl rfl

theorem Server.object_handleSetObjectPropValue :
    NameStep s.object (s.handleSetObjectPropValue trans params).object := by
  unfold handleSetObjectPropValue
  split
  swap
  · exact .inl rfl
  split
  · exact .inl rfl
  split
  · exact .inl rfl
  split
  · exact .inl rfl
  rcases hr : s.readDataset .setObjectPropValue trans 1 4096 with ⟨_ | data, s₁⟩
  · exact .inl (object_readDataset hr)
  dsimp only
  rw [← object_readDataset hr]
  split
  · exact .inl rfl
  rename_i renamed hrenamed
  split
  · rename_i hsafe
    by_cases hvalid : s₁.pendingValid = true
    · refine .inr (.inr ⟨data, renamed, ⟨hrenamed, hsafe⟩, ?_⟩)
      exact if_pos hvalid
    · exact .inr (.inl (if_neg hvalid))
  · exact .inl rfl

/-- However a transfer goes, no object is left. -/
theorem Server.object_receiveObject : (s.receiveObject p trans).object = none := by
  unfold receiveObject
  dsimp only
  split
  · exact object_failTransfer _
  split
  · rw [object_sendRemoved]
    rfl
  · rw [object_sendRemoved]
    rfl

theorem Server.object_handleSendObject :
    NameStep s.object (s.handleSendObject p trans).object := by
  unfold handleSendObject
  split
  · exact .inl rfl
  split
  · exact .inl rfl
  rcases hr : s.readExact headerSize with ⟨_ | bytes, s₁⟩
  · exact .inl (congrArg (fun r => Server.object r.2) hr.symm)
  have hread : s₁.object = s.object := congrArg (fun r => Server.object r.2) hr.symm
  dsimp only
  generalize ContainerHeader.decode bytes = h
  generalize (if ¬decide (h.length.toNat = 4294967295) = true ∧ headerSize ≤ h.length.toNat then
    h.length.toNat - headerSize else 0) = size
  split
  · exact .inl hread
  right
  left
  split
  · exact object_failTransfer _
  split
  · exact object_receiveObject p
  · exact object_receiveObject p

theorem Server.object_handleDeleteObject :
    NameStep s.object (s.handleDeleteObject trans params).object := by
  unfold handleDeleteObject
  split
  · exact .inl rfl
  split
  · exact .inl rfl
  · right
    left
    dsimp only
    rw [object_sendRemoved]
    rfl

theorem Server.object_openSession : (s.openSession trans params).object = s.object := by
  unfold openSession
  split
  · rfl
  split
  · rfl
  split
  · rfl
  · rfl

theorem Server.object_handleGetObjectPropList :
    (s.handleGetObjectPropList trans params).object = s.object := by
  unfold handleGetObjectPropList
  split
  · dsimp only
    split
    · rfl
    split
    · rfl
    split
    · rfl
    · exact object_answer _ _
  · rfl

theorem Server.object_dispatchOperation (op : Operation) :
    NameStep s.object (s.dispatchOperation p op trans params).object := by
  cases op with
  | getDeviceInfo | getStorageIds | getStorageInfo | getObjectHandles | getObjectInfo
  | getObjectPropsSupported | getObjectPropDesc | getObjectPropValue =>
    exact .inl (object_answer _ _)
  | getNumObjects => exact .inl rfl
  | getObjectPropList => exact .inl (object_handleGetObjectPropList params)
  | openSession => exact .inl (object_openSession params)
  | closeSession => exact .inl rfl
  | deleteObject => exact object_handleDeleteObject params
  | sendObjectInfo => exact object_handleSendObjectInfo params
  | sendObjectPropList => exact object_handleSendObjectPropList params
  | sendObject => exact object_handleSendObject p
  | setObjectPropValue => exact object_handleSetObjectPropValue params

end object

/-! ## Runs -/

theorem Server.object_readCommand (s : Server) : s.readCommand.2.object = s.object := by
  unfold readCommand
  rcases hr : s.readExact headerSize with ⟨_ | bytes, s₁⟩
  · exact congrArg (fun r => Server.object r.2) hr.symm
  have hread : s₁.object = s.object := congrArg (fun r => Server.object r.2) hr.symm
  dsimp only
  split
  · exact hread
  split
  · exact hread
  rcases hr₂ : s₁.readExact ((ContainerHeader.decode bytes).length.toNat - headerSize) with
    ⟨_ | payload, s₂⟩
  · exact (congrArg (fun r => Server.object r.2) hr₂.symm).trans hread
  · exact (congrArg (fun r => Server.object r.2) hr₂.symm).trans hread

theorem Server.object_restart (s : Server) : s.restart.object = none := rfl

theorem Server.object_commandRound (s : Server) (p : Platform) :
    NameStep s.object (s.commandRound p).object := by
  have hread := s.object_readCommand
  unfold commandRound processOneCommand
  rcases hr : s.readCommand with ⟨_ | trans | ⟨op, trans, params⟩, s₁⟩
  · exact .inr (.inl s₁.object_restart)
  · rw [hr] at hread
    exact .inl hread
  · rw [hr] at hread
    rw [← hread]
    show NameStep s₁.object (s₁.dispatchCommand p op trans params).object
    unfold dispatchCommand
    split
    · exact .inl rfl
    split
    · exact object_dispatchOperation p params _
    · exact .inl rfl

theorem Server.object_eq_some {s : Server} {name : Bytes} :
    s.object = some name ↔ s.pendingValid = true ∧ s.pendingName = name := by
  unfold object
  split
  · rename_i h
    rw [Option.some.injEq]
    exact (and_iff_right h).symm
  · rename_i h
    constructor
    · intro hnone
      cases hnone
    · intro hvalid
      exact absurd hvalid.1 h

/-- Whatever commands a responder has carried out, the name of its object came from the host. -/
theorem Server.announced_of_run {s₀ s : Server} (h₀ : s₀.Start)
    (hrun : Relation.ReflTransGen (fun s s' : Server => ∃ p, s' = s.commandRound p) s₀ s)
    (hvalid : s.pendingValid = true) : ∃ wire, s.Announced wire := by
  have hname : ∀ name, s.object = some name → ∃ wire, AcceptedName wire name := by
    clear hvalid
    induction hrun with
    | refl =>
      obtain ⟨usb, rfl⟩ := h₀
      intro name hname
      cases hname
    | tail _ hround ih =>
      obtain ⟨p, rfl⟩ := hround
      intro name hname
      rcases Server.object_commandRound _ p with hsame | hnone | ⟨wire, name', haccepted, hnew⟩
      · exact ih name (hsame.symm.trans hname)
      · cases hnone.symm.trans hname
      · cases hnew.symm.trans hname
        exact ⟨wire, haccepted⟩
  obtain ⟨wire, haccepted⟩ := hname _ (object_eq_some.mpr ⟨hvalid, rfl⟩)
  exact ⟨wire, hvalid, haccepted⟩

/-! ## The datasets -/

theorem AcceptedName.bounds {wire name : Bytes} (h : AcceptedName wire name) :
    name ≠ [] ∧ name.length ≤ 220 := by
  have hsafe := h.safe
  simp only [isSafeNspName, Bool.and_eq_true, Bool.not_eq_true', Bool.or_eq_false_iff,
    decide_eq_false_iff_not] at hsafe
  obtain ⟨⟨⟨⟨hne, hle⟩, -⟩, -⟩, -⟩ := hsafe
  constructor
  · rintro rfl
    cases hne
  · exact not_lt.mp hle

/-- The code units of an accepted name. -/
theorem AcceptedName.units {wire name : Bytes} (h : AcceptedName wire name) :
    name = nameOf (wireUnits wire) ∧ wireUnits wire ≠ [] ∧ (wireUnits wire).length ≤ 220 := by
  obtain ⟨hne, hle⟩ := h.bounds
  have hname := utf16Name_eq h.read
  refine ⟨hname, ?_, ?_⟩
  · intro hnil
    rw [hnil] at hname
    exact hne hname
  · rw [hname] at hle
    exact (length_le_nameOf _).trans hle

theorem shown_ne_zero {u : UInt16} (h : u ≠ 0) : shown u ≠ 0 := by
  unfold shown
  split_ifs
  · decide
  · exact h

/-- No NUL is among the code units that are reported. -/
theorem takeWhile_shown (wire : Bytes) :
    ((wireUnits wire).map shown).takeWhile (· ≠ 0) = (wireUnits wire).map shown := by
  rw [List.takeWhile_eq_self_iff]
  intro v hv
  obtain ⟨u, hu, rfl⟩ := List.mem_map.mp hv
  simpa using shown_ne_zero (wireUnits_ne_zero hu)

section dataset

variable {s : Server} {wire : Bytes}

/-- The string that is reported. -/
theorem Server.Announced.addString_name (h : s.Announced wire) :
    addString s.currentObjectName = mtpString ((wireUnits wire).map shown) := by
  obtain ⟨hname, hne, hle⟩ := h.accepted.units
  unfold currentObjectName
  rw [if_pos h.valid, hname]
  exact addString_nameOf hne (by omega)

/-- A dataset up to the name. -/
def infoFront (size32 : UInt32) : Bytes :=
  add32 STORAGE_ID ++ add16 FORMAT_UNDEFINED ++ add16 0 ++ add32 size32 ++
    add16 0 ++ add32 0 ++ add32 0 ++ add32 0 ++ add32 0 ++ add32 0 ++ add32 0 ++
    add32 ROOT_PARENT ++ add16 0 ++ add32 0 ++ add32 0

/-- The size field of a dataset. -/
def Server.size32 (s : Server) : UInt32 :=
  if 0xFFFFFFFF < s.currentObjectSize then 0xFFFFFFFF else .ofNat s.currentObjectSize

theorem Server.makeObjectInfo_eq (s : Server) : s.makeObjectInfo =
    infoFront s.size32 ++
      (addString s.currentObjectName ++ (addString [] ++ addString [] ++ addString [])) := by
  unfold makeObjectInfo infoFront size32
  dsimp only
  simp only [List.append_assoc]

theorem length_infoFront (size32 : UInt32) : (infoFront size32).length = 52 := by
  simp [infoFront]

/-- Where the fields are. -/
theorem read_infoFront (size32 : UInt32) (post : Bytes) :
    read32 (infoFront size32 ++ post) 0 = STORAGE_ID ∧
      read16 (infoFront size32 ++ post) 4 = FORMAT_UNDEFINED ∧
      read32 (infoFront size32 ++ post) 8 = size32 ∧
      read32 (infoFront size32 ++ post) 38 = ROOT_PARENT := by
  refine ⟨?_, ?_, ?_, ?_⟩
  · simpa [infoFront] using read32_append [] (add16 FORMAT_UNDEFINED ++ add16 0 ++ add32 size32 ++
      add16 0 ++ add32 0 ++ add32 0 ++ add32 0 ++ add32 0 ++ add32 0 ++ add32 0 ++
      add32 ROOT_PARENT ++ add16 0 ++ add32 0 ++ add32 0 ++ post) STORAGE_ID rfl
  · simpa [infoFront] using read16_append (add32 STORAGE_ID) (add16 0 ++ add32 size32 ++
      add16 0 ++ add32 0 ++ add32 0 ++ add32 0 ++ add32 0 ++ add32 0 ++ add32 0 ++
      add32 ROOT_PARENT ++ add16 0 ++ add32 0 ++ add32 0 ++ post) FORMAT_UNDEFINED rfl
  · simpa [infoFront] using read32_append (add32 STORAGE_ID ++ add16 FORMAT_UNDEFINED ++ add16 0)
      (add16 0 ++ add32 0 ++ add32 0 ++ add32 0 ++ add32 0 ++ add32 0 ++ add32 0 ++
      add32 ROOT_PARENT ++ add16 0 ++ add32 0 ++ add32 0 ++ post) size32 rfl
  · simpa [infoFront] using read32_append (add32 STORAGE_ID ++ add16 FORMAT_UNDEFINED ++ add16 0 ++
      add32 size32 ++ add16 0 ++ add32 0 ++ add32 0 ++ add32 0 ++ add32 0 ++ add32 0 ++ add32 0)
      (add16 0 ++ add32 0 ++ add32 0 ++ post) ROOT_PARENT rfl

/-- The size field tells every size that fits into it, apart from the one that stands for an
unknown size. -/
theorem Server.size32_eq (s : Server) :
    ((s.size32 ≠ 0xFFFFFFFF) ↔ s.currentObjectSize < 0xFFFFFFFF) ∧
      (s.currentObjectSize < 0xFFFFFFFF → s.size32.toNat = s.currentObjectSize) := by
  have hmax : (0xFFFFFFFF : UInt32).toNat = 0xFFFFFFFF := rfl
  unfold size32
  split_ifs with hlarge
  · have hnot : ¬s.currentObjectSize < 0xFFFFFFFF := hlarge.not_gt
    exact ⟨⟨fun h => absurd rfl h, fun h => absurd h hnot⟩, fun h => absurd h hnot⟩
  · have hnat : (UInt32.ofNat s.currentObjectSize).toNat = s.currentObjectSize :=
      UInt32.toNat_ofNat_of_lt' (by unfold UInt32.size; omega)
    refine ⟨?_, fun _ => hnat⟩
    rw [ne_eq, ← UInt32.toNat_inj, hnat, hmax]
    omega

/-- What the reader of `SendObjectInfo` makes of the dataset of an object. -/
theorem Server.handleSendObjectInfo_makeObjectInfo (h : s.Announced wire) {t t' : Server}
    {trans : UInt32} {params : List UInt32} (hbusy : t.installerBusy = false)
    (hstorage : ¬wrongStorage params) (hparent : ¬wrongParent params)
    (hread : t.readDataset .sendObjectInfo trans 53 (64 * 1024) = (some s.makeObjectInfo, t')) :
    t.handleSendObjectInfo trans params =
      t'.preparePendingObject (nameOf ((wireUnits wire).map shown))
        (if s.currentObjectSize < 0xFFFFFFFF then s.currentObjectSize else 0)
        (decide (s.currentObjectSize < 0xFFFFFFFF)) FORMAT_UNDEFINED trans := by
  obtain ⟨hknown, hsize⟩ := s.size32_eq
  obtain ⟨hstorageId, hformat, hsize32, hroot⟩ := read_infoFront s.size32
    (addString s.currentObjectName ++ (addString [] ++ addString [] ++ addString []))
  have hname : utf16Name (s.makeObjectInfo.drop 52)
      = some (nameOf ((wireUnits wire).map shown)) := by
    obtain ⟨-, -, hle⟩ := h.accepted.units
    rw [makeObjectInfo_eq, ← length_infoFront s.size32, List.drop_left, h.addString_name,
      utf16Name_mtpString (by rw [List.length_map]; omega), takeWhile_shown]
  rw [← makeObjectInfo_eq] at hstorageId hformat hsize32 hroot
  have hfine : ¬((STORAGE_ID ≠ 0 ∧ STORAGE_ID ≠ STORAGE_ID) ∨
      (ROOT_PARENT ≠ 0 ∧ ROOT_PARENT ≠ 0xFFFFFFFF) ∨
        some (nameOf ((wireUnits wire).map shown)) = none) := by
    simp [ROOT_PARENT]
  unfold wrongStorage at hstorage
  unfold wrongParent at hparent
  unfold handleSendObjectInfo
  rw [if_neg (by rw [hbusy]; exact Bool.false_ne_true), if_neg hstorage, if_neg hparent, hread]
  dsimp only
  rw [hstorageId, hformat, hsize32, hroot, hname, if_neg hfine]
  have hfield : (if s.size32 = 0xFFFFFFFF then 0 else s.size32.toNat) =
      if s.currentObjectSize < 0xFFFFFFFF then s.currentObjectSize else 0 := by
    split_ifs with hmax hlt hlt
    · exact absurd hmax (hknown.mpr hlt)
    · rfl
    · exact hsize hlt
    · exact absurd (hknown.mp hmax) hlt
  rw [hfield, decide_eq_decide.mpr hknown]
  rfl

/-- What the property of the file name tells. -/
theorem Server.makeObjectPropValue_fileName (h : s.Announced wire) :
    s.makeObjectPropValue PROP_OBJECT_FILE_NAME
      = some (mtpString ((wireUnits wire).map shown)) := by
  rw [← h.addString_name]
  rfl

end dataset

/-- Every object of a responder has a name that came from the host in some string.  The dataset of
the object and the property of its file name report that string, with a question mark for each
surrogate.  The reader of `SendObjectInfo` takes from the dataset this name, the undefined format,
and the size that is reported, or that it is unknown where it does not fit. -/
theorem Server.names_reported :
    (∀ s₀ s : Server, s₀.Start →
      Relation.ReflTransGen (fun s s' : Server => ∃ p, s' = s.commandRound p) s₀ s →
        s.pendingValid = true → ∃ wire, s.Announced wire) ∧
    ∀ (s : Server) (wire : Bytes), s.Announced wire →
      wireUnits (s.makeObjectInfo.drop 52) = (wireUnits wire).map shown ∧
      (∃ value, s.makeObjectPropValue PROP_OBJECT_FILE_NAME = some value ∧
        wireUnits value = (wireUnits wire).map shown) ∧
      ∀ (t t' : Server) (trans : UInt32) (params : List UInt32), t.installerBusy = false →
        ¬wrongStorage params → ¬wrongParent params →
        t.readDataset .sendObjectInfo trans 53 (64 * 1024) = (some s.makeObjectInfo, t') →
          t.handleSendObjectInfo trans params =
            t'.preparePendingObject (nameOf ((wireUnits wire).map shown))
              (if s.currentObjectSize < 0xFFFFFFFF then s.currentObjectSize else 0)
              (decide (s.currentObjectSize < 0xFFFFFFFF)) FORMAT_UNDEFINED trans := by
  constructor
  · intro s₀ s h₀ hrun hvalid
    exact announced_of_run h₀ hrun hvalid
  · intro s wire h
    obtain ⟨-, -, hle⟩ := h.accepted.units
    have hlt : ((wireUnits wire).map shown).length < 255 := by
      rw [List.length_map]
      omega
    refine ⟨?_, ⟨_, makeObjectPropValue_fileName h, ?_⟩, ?_⟩
    · rw [makeObjectInfo_eq, ← length_infoFront s.size32, List.drop_left, h.addString_name,
        wireUnits_mtpString hlt, takeWhile_shown]
    · rw [← List.append_nil (mtpString _), wireUnits_mtpString hlt, takeWhile_shown]
    · intro t t' trans params hbusy hstorage hparent hread
      exact handleSendObjectInfo_makeObjectInfo h hbusy hstorage hparent hread

/-- A surrogate pair, and the extension. -/
def pairName : List UInt16 := [0xD83D, 0xDE00, 46, 110, 115, 112]

/-- A responder that has accepted an object of that name and of another format. -/
def pairServer : Server :=
  ({ usb := [], sessionId := 1 } : Server).preparePendingObject (nameOf pairName) 3 true 0xB982 1

theorem pairServer_announced : pairServer.Announced (mtpString pairName) := by
  constructor
  · decide
  · constructor
    · decide
    · decide

/-- A responder to which the dataset of that object is sent. -/
def pairReader : Server where
  usb := [some (ContainerHeader.encode ⟨.ofNat (headerSize + pairServer.makeObjectInfo.length),
    CONTAINER_DATA, Operation.sendObjectInfo.code, 2⟩ ++ pairServer.makeObjectInfo)]

/-- An object that is announced in a run, and a name that is sent back. -/
theorem Server.names_reported_pair :
    (∃ wire, ((abandoned.commandRound platform).commandRound platform).Announced wire) ∧
      wireUnits (pairServer.makeObjectInfo.drop 52) = [63, 63, 46, 110, 115, 112] ∧
      pairReader.handleSendObjectInfo 2 [] =
        (pairReader.readDataset .sendObjectInfo 2 53 (64 * 1024)).2.preparePendingObject
          (Nsp.text "??.nsp") 3 true FORMAT_UNDEFINED 2 := by
  have hwire : (wireUnits (mtpString pairName)).map shown = [63, 63, 46, 110, 115, 112] := by decide
  have hname : nameOf [63, 63, 46, 110, 115, 112] = Nsp.text "??.nsp" := by decide
  have hread : pairReader.readDataset .sendObjectInfo 2 53 (64 * 1024) =
      (some pairServer.makeObjectInfo,
        (pairReader.readDataset .sendObjectInfo 2 53 (64 * 1024)).2) :=
    Prod.ext (by decide) rfl
  obtain ⟨hruns, hstates⟩ := names_reported
  obtain ⟨hinfo, -, hdecoded⟩ := hstates pairServer _ pairServer_announced
  rw [hwire] at hinfo hdecoded
  rw [hname] at hdecoded
  have hrun : Relation.ReflTransGen (fun s s' : Server => ∃ p, s' = s.commandRound p) abandoned
      ((abandoned.commandRound platform).commandRound platform) :=
    (Relation.ReflTransGen.single ⟨_, rfl⟩).tail ⟨_, rfl⟩
  exact ⟨hruns _ _ ⟨_, rfl⟩ hrun (by decide), hinfo,
    hdecoded pairReader _ 2 [] rfl Bool.false_ne_true Bool.false_ne_true hread⟩

/-- The dataset of that object has another name, and another format. -/
theorem Server.surrogates_not_reported : ¬∀ (s : Server) (wire : Bytes), s.Announced wire →
    wireUnits (s.makeObjectInfo.drop 52) = wireUnits wire ∧
      read16 s.makeObjectInfo 4 = s.pendingFormat := by
  intro h
  have hname := (h pairServer _ pairServer_announced).1
  revert hname
  decide

end MtpNativeServer
