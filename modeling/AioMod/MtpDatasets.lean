/-
# Containers and datasets of the native MTP responder

Numbers are little-endian.  A `std::string` is a list of bytes, MTP strings are UTF-16 with
a count that includes the final NUL.
-/
import AioMod.FatFs
import AioMod.ByteImage
import AioMod.NspManifest

namespace MtpNativeServer

open ByteImage

def read16 (bs : Bytes) (off : ℕ) : UInt16 := u16 bs off

def read32 (bs : Bytes) (off : ℕ) : UInt32 := u32 bs off

def read64 (bs : Bytes) (off : ℕ) : UInt64 := u64 bs off

def add16 (v : UInt16) : Bytes := le 2 v.toNat

def add32 (v : UInt32) : Bytes := le 4 v.toNat

def add64 (v : UInt64) : Bytes := le 8 v.toNat

def add128 (lo hi : UInt64) : Bytes := add64 lo ++ add64 hi

/-! ## Containers -/

def CONTAINER_COMMAND : UInt16 := 1

def CONTAINER_DATA : UInt16 := 2

/-- `ContainerHeader` -/
structure ContainerHeader where
  length : UInt32
  type : UInt16
  code : UInt16
  transaction : UInt32
  deriving DecidableEq

/-- `sizeof(ContainerHeader)` -/
def headerSize : ℕ := 12

def ContainerHeader.decode (bs : Bytes) : ContainerHeader where
  length := read32 bs 0
  type := read16 bs 4
  code := read16 bs 6
  transaction := read32 bs 8

def ContainerHeader.encode (h : ContainerHeader) : Bytes :=
  add32 h.length ++ add16 h.type ++ add16 h.code ++ add32 h.transaction

/-- The operations that `dispatchCommand` knows. -/
inductive Operation where
  | getDeviceInfo
  | openSession
  | closeSession
  | getStorageIds
  | getStorageInfo
  | getNumObjects
  | getObjectHandles
  | getObjectInfo
  | deleteObject
  | sendObjectInfo
  | sendObject
  | sendObjectPropList
  | getObjectPropsSupported
  | getObjectPropDesc
  | getObjectPropValue
  | setObjectPropValue
  | getObjectPropList
  deriving DecidableEq

/-- The operations in the order of `makeDeviceInfo`. -/
def Operation.all : List Operation :=
  [getDeviceInfo, openSession, closeSession, getStorageIds, getStorageInfo, getNumObjects,
    getObjectHandles, getObjectInfo, deleteObject, sendObjectInfo, sendObject, sendObjectPropList,
    getObjectPropsSupported, getObjectPropDesc, getObjectPropValue, setObjectPropValue,
    getObjectPropList]

/-- The constants `OP_…`. -/
def Operation.code : Operation → UInt16
  | getDeviceInfo => 0x1001
  | openSession => 0x1002
  | closeSession => 0x1003
  | getStorageIds => 0x1004
  | getStorageInfo => 0x1005
  | getNumObjects => 0x1006
  | getObjectHandles => 0x1007
  | getObjectInfo => 0x1008
  | deleteObject => 0x100B
  | sendObjectInfo => 0x100C
  | sendObject => 0x100D
  | getObjectPropsSupported => 0x9801
  | getObjectPropDesc => 0x9802
  | getObjectPropValue => 0x9803
  | setObjectPropValue => 0x9804
  | getObjectPropList => 0x9805
  | sendObjectPropList => 0x9808

/-- The case of `dispatchCommand` that a code selects, `none` for its default. -/
def Operation.ofCode (code : UInt16) : Option Operation := all.find? fun op => op.code == code

@[simp] theorem Operation.ofCode_code (op : Operation) : ofCode op.code = some op := by
  cases op <;> rfl

/-! ## Response codes, formats, properties and types -/

def RES_OK : UInt16 := 0x2001
def RES_GENERAL_ERROR : UInt16 := 0x2002
def RES_SESSION_NOT_OPEN : UInt16 := 0x2003
def RES_OPERATION_NOT_SUPPORTED : UInt16 := 0x2005
def RES_INCOMPLETE_TRANSFER : UInt16 := 0x2007
def RES_INVALID_STORAGE_ID : UInt16 := 0x2008
def RES_INVALID_OBJECT_HANDLE : UInt16 := 0x2009
def RES_INVALID_OBJECT_FORMAT : UInt16 := 0x200B
def RES_STORE_FULL : UInt16 := 0x200C
def RES_INVALID_OBJECT_INFO : UInt16 := 0x2015
def RES_INVALID_PARENT : UInt16 := 0x201A
def RES_INVALID_PARAMETER : UInt16 := 0x201D
def RES_SESSION_ALREADY_OPEN : UInt16 := 0x201E
def RES_DEVICE_BUSY : UInt16 := 0x2019
def RES_INVALID_OBJECT_PROP : UInt16 := 0xA801

def EVENT_OBJECT_REMOVED : UInt16 := 0x4003

def STORAGE_ID : UInt32 := 0x00010001
def ROOT_PARENT : UInt32 := 0

def FORMAT_UNDEFINED : UInt16 := 0x3000
def FORMAT_ASSOCIATION : UInt16 := 0x3001

def PROP_STORAGE_ID : UInt16 := 0xDC01
def PROP_OBJECT_FORMAT : UInt16 := 0xDC02
def PROP_OBJECT_SIZE : UInt16 := 0xDC04
def PROP_OBJECT_FILE_NAME : UInt16 := 0xDC07
def PROP_PARENT : UInt16 := 0xDC0B
def PROP_PERSISTENT_ID : UInt16 := 0xDC41

def TYPE_UINT16 : UInt16 := 0x0004
def TYPE_UINT32 : UInt16 := 0x0006
def TYPE_UINT64 : UInt16 := 0x0008
def TYPE_UINT128 : UInt16 := 0x000A
def TYPE_STRING : UInt16 := 0xFFFF

/-! ## Strings and arrays -/

/-- The code units of `addString`, at most `n`: what is no short UTF-8 sequence, or decodes
to a surrogate, becomes a question mark. -/
def stringUnits : ℕ → Bytes → List UInt16
  | 0, _ => []
  | _ + 1, [] => []
  | n + 1, c :: rest =>
    let unit (cp : UInt16) : UInt16 := if 0xD800 ≤ cp ∧ cp ≤ 0xDFFF then 63 else cp
    if c < 0x80 then c.toUInt16 :: stringUnits n rest
    else
      match rest with
      | b :: tail =>
        if c &&& 0xE0 = 0xC0 then
          unit ((c &&& 0x1F).toUInt16 <<< 6 ||| (b &&& 0x3F).toUInt16) :: stringUnits n tail
        else
          match tail with
          | b' :: tail' =>
            if c &&& 0xF0 = 0xE0 then
              unit ((c &&& 0x0F).toUInt16 <<< 12 ||| (b &&& 0x3F).toUInt16 <<< 6 |||
                (b' &&& 0x3F).toUInt16) :: stringUnits n tail'
            else 63 :: stringUnits n rest
          | [] => 63 :: stringUnits n rest
      | [] => 63 :: stringUnits n rest

def addString (value : Bytes) : Bytes :=
  if value = [] then [0]
  else
    let chars := stringUnits 253 value
    UInt8.ofNat (chars.length + 1) :: chars.flatMap add16 ++ add16 0

/-- `addArray<uint16_t>` -/
def addArray16 (values : List UInt16) : Bytes :=
  add32 (.ofNat values.length) ++ values.flatMap add16

/-- `addArray<uint32_t>` -/
def addArray32 (values : List UInt32) : Bytes :=
  add32 (.ofNat values.length) ++ values.flatMap add32

/-- The bytes that `utf16Name` makes of a code unit. -/
def unitBytes (ch : UInt16) : Bytes :=
  if ch < 0x80 then [ch.toUInt8]
  else
    let low := (ch &&& 0x3F).toUInt8 ||| 0x80
    if ch < 0x800 then [(ch >>> 6).toUInt8 ||| 0xC0, low]
    else [(ch >>> 12).toUInt8 ||| 0xE0, (ch >>> 6 &&& 0x3F).toUInt8 ||| 0x80, low]

/-- The loop of `utf16Name` over at most `n` code units, up to the first NUL. -/
def nameUnits : ℕ → Bytes → Bytes
  | n + 1, lo :: hi :: rest =>
    let ch := read16 [lo, hi] 0
    if ch = 0 then [] else unitBytes ch ++ nameUnits n rest
  | _, _ => []

/-- `utf16Name`, `none` where it leaves `ok` at false. -/
def utf16Name (p : Bytes) : Option Bytes :=
  match p with
  | [] => none
  | count :: units =>
    if count = 0 then some []
    else if p.length < 1 + count.toNat * 2 then none
    else some (nameUnits (count.toNat - 1) units)

def isSafeNspName (name : Bytes) : Bool :=
  let lower := name.map Nsp.tolower
  !(name.isEmpty || 220 < name.length) &&
    !(name == Nsp.text "." || name == Nsp.text ".." || name.contains 47 || name.contains 92 ||
      decide ([46, 46] <:+: name)) &&
    name.all (fun c => !(c < 0x20)) &&
    (4 ≤ lower.length && lower.drop (lower.length - 4) == Nsp.text ".nsp")

/-- The size of a scalar type, 0 where there is none. -/
def scalarSize (type : UInt16) : ℕ :=
  if type = 0x0001 ∨ type = 0x0002 then 1
  else if type = 0x0003 ∨ type = 0x0004 then 2
  else if type = 0x0005 ∨ type = 0x0006 then 4
  else if type = 0x0007 ∨ type = 0x0008 then 8
  else if type = 0x0009 ∨ type = 0x000A then 16
  else 0

/-- `mtpValueSize`, `none` where it leaves `ok` at false. -/
def mtpValueSize (type : UInt16) (data : Bytes) : Option ℕ :=
  if type = TYPE_STRING then
    match data with
    | [] => none
    | count :: _ => if data.length < 1 + count.toNat * 2 then none else some (1 + count.toNat * 2)
  else if scalarSize type ≠ 0 then
    if data.length < scalarSize type then none else some (scalarSize type)
  else if type &&& 0x4000 ≠ 0 ∧ 4 ≤ data.length then
    let elem := scalarSize (type &&& ~~~0x4000)
    let count := (read32 data 0).toNat
    if elem = 0 ∨ (data.length - 4) / elem < count then none else some (4 + count * elem)
  else none

/-! ## The property list of a new object -/

/-- What the loop of `handleSendObjectPropList` has found. -/
structure PropScan where
  name : Bytes := []
  sizeFromProp : Option UInt64 := none
  deriving DecidableEq

/-- The loop over the properties, from the bytes at `offset`; it returns the bytes left. -/
def propLoop : ℕ → Bytes → PropScan → Option (PropScan × Bytes)
  | 0, data, found => some (found, data)
  | count + 1, data, found =>
    if data.length < 8 then none
    else
      let prop := read16 data 4
      let type := read16 data 6
      let value := data.drop 8
      match mtpValueSize type value with
      | none => none
      | some valueSize =>
        if valueSize = 0 ∨ value.length < valueSize then none
        else
          let found :=
            if prop = PROP_OBJECT_FILE_NAME ∧ type = TYPE_STRING then
              match utf16Name (value.take valueSize) with
              | some candidate => if candidate = [] then found else { found with name := candidate }
              | none => found
            else if prop = PROP_OBJECT_SIZE ∧ type = TYPE_UINT64 ∧ valueSize = 8 then
              { found with sizeFromProp := some (read64 value 0) }
            else found
          propLoop count (value.drop valueSize) found

/-- The name in the property list, unless the list or its size is rejected. -/
def parsePropList (data : Bytes) (objectSize : UInt64) : Option Bytes :=
  if data.length < 4 then none
  else
    let count := (read32 data 0).toNat
    if 256 < count then none
    else
      match propLoop count (data.drop 4) {} with
      | none => none
      | some (found, rest) =>
        if rest ≠ [] ∨ found.name = [] then none
        else if found.sizeFromProp ≠ none ∧ found.sizeFromProp ≠ some objectSize then none
        else some found.name

/-! ## Lemmas -/

@[simp] theorem length_add16 (v : UInt16) : (add16 v).length = 2 := length_le 2 _

@[simp] theorem length_add32 (v : UInt32) : (add32 v).length = 4 := length_le 4 _

@[simp] theorem ContainerHeader.length_encode (h : ContainerHeader) :
    h.encode.length = headerSize := by
  simp [encode, headerSize]

theorem read32_append (pre post : Bytes) {off : ℕ} (v : UInt32) (h : off = pre.length) :
    read32 (pre ++ add32 v ++ post) off = v := by
  apply u32_of
  rw [slice_middle h (length_add32 v).symm, add32]

theorem read16_append (pre post : Bytes) {off : ℕ} (v : UInt16) (h : off = pre.length) :
    read16 (pre ++ add16 v ++ post) off = v := by
  apply u16_of
  rw [slice_middle h (length_add16 v).symm, add16]

/-- A header comes back from its bytes. -/
theorem ContainerHeader.decode_encode (h : ContainerHeader) (post : Bytes) :
    decode (h.encode ++ post) = h := by
  have hl : read32 (h.encode ++ post) 0 = h.length := by
    simpa [encode] using read32_append []
      (add16 h.type ++ add16 h.code ++ add32 h.transaction ++ post) h.length rfl
  have ht : read16 (h.encode ++ post) 4 = h.type := by
    simpa [encode] using read16_append (add32 h.length)
      (add16 h.code ++ add32 h.transaction ++ post) h.type rfl
  have hc : read16 (h.encode ++ post) 6 = h.code := by
    simpa [encode] using read16_append (add32 h.length ++ add16 h.type)
      (add32 h.transaction ++ post) h.code rfl
  have hx : read32 (h.encode ++ post) 8 = h.transaction := by
    simpa [encode] using read32_append (add32 h.length ++ add16 h.type ++ add16 h.code) post
      h.transaction rfl
  unfold decode
  rw [hl, ht, hc, hx]

end MtpNativeServer
