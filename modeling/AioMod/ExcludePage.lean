/-
# The page of the titles without cheats

`exclude_page.cpp`, with `excludeTitles` and `writeTitlesToFile` of `extract.cpp`: the titles for
which no cheats are wanted stand in a text file, one in a line.  The page shows the installed
titles up to the first one of which a query fails.  Names and icons of the titles are left out.
-/
import AioMod.Extract

namespace ExcludePage

open TextLines IniEditor Extract

/-! ## The order of texts -/

/-- The order of `std::string`. -/
def before (a b : Bytes) : Prop := a.map UInt8.toNat < b.map UInt8.toNat

instance (a b : Bytes) : Decidable (before a b) := inferInstanceAs (Decidable (_ < _))

def notAfter (a b : Bytes) : Prop := ¬before b a

instance (a b : Bytes) : Decidable (notAfter a b) := inferInstanceAs (Decidable (¬_))

theorem notAfter_iff {a b : Bytes} : notAfter a b ↔ a.map UInt8.toNat ≤ b.map UInt8.toNat := not_lt

theorem map_toNat_injective : Function.Injective (List.map UInt8.toNat) :=
  List.map_injective_iff.mpr fun _ _ => UInt8.toNat_inj.mp

instance : IsTrans Bytes notAfter where
  trans a b c hab hbc := by
    rw [notAfter_iff] at hab hbc ⊢
    exact hab.trans hbc

instance : Std.Antisymm notAfter where
  antisymm a b hab hba := by
    rw [notAfter_iff] at hab hba
    exact map_toNat_injective (le_antisymm hab hba)

instance : Std.Total notAfter where
  total a b := by
    rw [notAfter_iff, notAfter_iff]
    exact le_total _ _

/-- `std::sort` -/
def sort (titles : List Bytes) : List Bytes := titles.mergeSort fun a b => notAfter a b

/-- `std::set_difference`, of sorted lists. -/
def set_difference : List Bytes → List Bytes → List Bytes
  | [], _ => []
  | x :: xs, ys =>
    match ys.dropWhile fun y => before y x with
    | [] => x :: set_difference xs []
    | y :: ys => if before x y then x :: set_difference xs (y :: ys) else set_difference xs ys

/-! ## The file -/

/-- `::toupper` in the C locale -/
def toupper (c : UInt8) : UInt8 := if 97 ≤ c ∧ c ≤ 122 then c - 32 else c

/-- `excludeTitles`, of what is in the file. -/
def excludeTitles (contents : Option Bytes) (listedTitles : List Bytes) : List Bytes :=
  let lines := (getlines LF (contents.getD [])).map (List.map toupper)
  set_difference listedTitles (sort (lines.filter (· ∈ listedTitles)))

/-- `writeTitlesToFile`: what is in the file afterwards. -/
def writeTitlesToFile (titles : Finset Bytes) : Bytes :=
  (titles.sort notAfter).flatMap fun title => title ++ [LF]

/-- `formatApplicationId` -/
def formatApplicationId (id : UInt64) : Bytes := Forwarder.hex16 id.toNat

/-! ## The page -/

/-- An installed application, and which queries about it succeed. -/
structure Application where
  application_id : UInt64
  listed : Bool
  controlData : Bool
  languageEntry : Bool

/-- The installed applications; each has one record. -/
structure Installed where
  records : List Application
  nodup : (records.map Application.application_id).Nodup

/-- The titles of all installed applications, as they are given to `excludeTitles`. -/
def Installed.titles (installed : Installed) : List Bytes :=
  sort (installed.records.map fun a => formatApplicationId a.application_id)

/-- A title on the page; one that is toggled off is excluded. -/
structure ToggleListItem where
  title : Bytes
  toggleState : Bool

/-- The loop of the constructor. -/
def addItems (titles : Finset Bytes) : List Application → List ToggleListItem
  | [] => []
  | a :: records =>
    if a.listed ∧ a.controlData ∧ a.languageEntry then
      let title := formatApplicationId a.application_id
      { title, toggleState := decide (title ∉ titles) } :: addItems titles records
    else []

/-- The constructor of `ExcludePage`: the items of the page. -/
def opened (contents : Option Bytes) (installed : Installed) : List ToggleListItem :=
  addItems (readLineByLine contents) installed.records

/-- The page is left by saving: what is in the file afterwards. -/
def save (items : List ToggleListItem) : Bytes :=
  writeTitlesToFile ((items.filter fun item => !item.toggleState).map ToggleListItem.title).toFinset

end ExcludePage
