/-
# The colours of the controllers

`color_swapper.cpp`: the colours that a pair of Joy-Cons or a Pro Controller has are written down as
one profile among those that are stored.  An entry of the stored list is taken as it is parsed: an
object with its members in their order, or a value of another type.  Of a member it matters only
whether it is a string; of any other value its text is kept.  The profiles that are offered, and the
calls that set a colour, are left out.
-/
import AioMod.FatFs

namespace ColorSwapper

/-! ## Entries -/

/-- A value in an object. -/
inductive Value where
  | string (s : Bytes)
  | other (text : Bytes)
  deriving DecidableEq

/-- An entry of the stored list. -/
inductive Entry where
  | object (members : List (Bytes × Value))
  | null
  | other (type_name : String) (text : Bytes)
  deriving DecidableEq

/-- How a backup ends that does not come to its end. -/
inductive Fault where
  | type_error (what : String)
  | undefined

def BACKUP : Bytes := ascii "_backup"

def nullValue : Value := .other (ascii "null")

/-- `operator[]` with a key, and the entry it leaves: a key that is missing is put in. -/
def Entry.subscript (key : Bytes) : Entry → Except Fault (Value × Entry)
  | .object members =>
    match members.find? (·.1 = key) with
    | some member => .ok (member.2, .object members)
    | none => .ok (nullValue, .object (members ++ [(key, nullValue)]))
  | .null => .ok (nullValue, .object [(key, nullValue)])
  | .other type_name _ =>
    .error (.type_error ("cannot use operator[] with a string argument with " ++ type_name))

/-! ## Colours as text -/

/-- A number of 32 bits in hexadecimal digits, at least six of them. -/
def hexText (n : ℕ) : Bytes :=
  let width := if n < 16 ^ 6 then 6 else if n < 16 ^ 7 then 7 else 8
  (List.range width).reverse.map fun i => hexDigit (n / 16 ^ i % 16)

/-- `BGRToHex`, of an `int`. -/
def BGRToHex (v : BitVec 32) : Bytes :=
  hexText (((v &&& 0xFF) <<< 16) + (v &&& 0xFF00) + v.sshiftRight 16 + 256).toNat

/-- `isxdigit` in the C locale. -/
def isxdigit (c : UInt8) : Prop := 48 ≤ c ∧ c ≤ 57 ∨ 65 ≤ c ∧ c ≤ 70 ∨ 97 ≤ c ∧ c ≤ 102

instance (c : UInt8) : Decidable (isxdigit c) := inferInstanceAs (Decidable (_ ∨ _ ∨ _))

/-- The value of a hexadecimal digit. -/
def digitValue (c : UInt8) : ℕ :=
  if c ≤ 57 then c.toNat - 48 else if c ≤ 70 then c.toNat - 55 else c.toNat - 87

/-- `isHexaAnd3Bytes` -/
def isHexaAnd3Bytes (str : Bytes) : Prop := str.length = 6 ∧ ∀ c ∈ str, isxdigit c

/-- `hexToBGR`, of six hexadecimal digits. -/
def hexToBGR (hex : Bytes) : ℕ :=
  ((hex.drop 4).take 2 ++ (hex.drop 2).take 2 ++ hex.take 2).foldl
    (fun n c => n * 16 + digitValue c) 0

/-! ## The backup -/

/-- Where the old backups are, and what the search leaves of the entries. -/
def findBackups : List Entry → ℕ → Except Fault (List ℕ × List Entry)
  | [], _ => .ok ([], [])
  | x :: profiles, i => do
    let (name, x) ← x.subscript (ascii "name")
    let (oldBackups, profiles) ← findBackups profiles (i + 1)
    .ok (if name = .string BACKUP then i :: oldBackups else oldBackups, x :: profiles)

/-- The erasing loop; there is nothing to erase at the end of an array. -/
def eraseAll {α : Type} : List ℕ → List α → Except Fault (List α)
  | [], profiles => .ok profiles
  | k :: oldBackups, profiles =>
    if k < profiles.length then eraseAll oldBackups (profiles.eraseIdx k) else .error .undefined

/-- The two loops that both controllers have. -/
def removeBackups (profiles : List Entry) : Except Fault (List Entry) := do
  let (oldBackups, profiles) ← findBackups profiles 0
  eraseAll oldBackups profiles

/-- `backupToJSON`: what it returns, and the profiles it leaves. -/
def backupToJSON (profiles : List Entry) (newBackup : Option Entry) :
    Except Fault (ℤ × List Entry) :=
  match newBackup with
  | none => .ok (-1, profiles)
  | some newBackup => do
    let profiles ← removeBackups profiles
    .ok (0, profiles ++ [newBackup])

/-- `backupJCColor` and `backupPCColor`: the stored list afterwards.  The colours are asked for until
they are there; as long as they are not, nothing is stored. -/
def backupColor (stored : Option (List Entry)) (backupProfile : List (Option Entry)) :
    Option (Except Fault (List Entry)) :=
  match removeBackups (stored.getD []) with
  | .error fault => some (.error fault)
  | .ok profiles => (backupProfile.findSome? id).map fun backup => .ok (profiles ++ [backup])

/-- `HidNpadControllerColor` -/
structure HidNpadControllerColor where
  main : BitVec 32
  sub : BitVec 32

namespace JC

/-- The profile of a pair. -/
def newBackup (color : HidNpadControllerColor × HidNpadControllerColor) : Entry :=
  .object [(ascii "name", .string BACKUP),
    (ascii "L_JC", .string (BGRToHex color.1.main)), (ascii "L_BTN", .string (BGRToHex color.1.sub)),
    (ascii "R_JC", .string (BGRToHex color.2.main)), (ascii "R_BTN", .string (BGRToHex color.2.sub))]

/-- `JC::backupToJSON` -/
def backupToJSON (profiles : List Entry)
    (res : Option (HidNpadControllerColor × HidNpadControllerColor)) :
    Except Fault (ℤ × List Entry) :=
  ColorSwapper.backupToJSON profiles (res.map newBackup)

/-- `JC::backupJCColor` -/
def backupJCColor (stored : Option (List Entry))
    (res : List (Option (HidNpadControllerColor × HidNpadControllerColor))) :
    Option (Except Fault (List Entry)) :=
  backupColor stored (res.map (Option.map newBackup))

end JC

namespace PC

/-- The profile of a Pro Controller. -/
def newBackup (color : HidNpadControllerColor) : Entry :=
  .object [(ascii "name", .string BACKUP), (ascii "BODY", .string (BGRToHex color.main)),
    (ascii "BTN", .string (BGRToHex color.sub))]

/-- `PC::backupToJSON` -/
def backupToJSON (profiles : List Entry) (res : Option HidNpadControllerColor) :
    Except Fault (ℤ × List Entry) :=
  ColorSwapper.backupToJSON profiles (res.map newBackup)

/-- `PC::backupPCColor` -/
def backupPCColor (stored : Option (List Entry)) (res : List (Option HidNpadControllerColor)) :
    Option (Except Fault (List Entry)) :=
  backupColor stored (res.map (Option.map newBackup))

end PC

end ColorSwapper
