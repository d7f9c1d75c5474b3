/-
# The cheats of titles that are not installed

`getInstalledTitlesNs`, `removeOrphanedCheats` and `removeCheatsDirectory` of `extract.cpp`.  The
list of installed titles has those whose control data can be read, in the first records; the folder
of every other entry of the contents folder is taken for an orphan.
-/
import AioMod.ExcludePage
import AioMod.ExplorerFs

namespace OrphanedCheats

open Explorer (Volume key lower filename Reorders)
open ExcludePage (formatApplicationId sort)

/-! ## The installed titles -/

def MaxTitleCount : ℕ := 64000

/-- `sizeof(controlData->nacp)` -/
def nacpSize : ℕ := 0x4000

/-- A record, whether the buffer for its control data is there, and the size of these where the
query succeeds. -/
structure ApplicationRecord where
  application_id : UInt64
  allocated : Bool
  controlSize : Option ℕ

/-- The loop of `getInstalledTitlesNs`. -/
def queryTitles : List ApplicationRecord → List Bytes
  | [] => []
  | record :: records =>
    if record.allocated = false then []
    else
      match record.controlSize with
      | none => queryTitles records
      | some controlSize =>
        if controlSize < nacpSize then queryTitles records
        else formatApplicationId record.application_id :: queryTitles records

/-- `getInstalledTitlesNs`; `listed` is whether `nsListApplicationRecord` succeeds. -/
def getInstalledTitlesNs (listed : Bool) (records : List ApplicationRecord) : List Bytes :=
  if listed then sort (queryTitles (records.take MaxTitleCount)) else []

/-! ## The calls -/

/-- The calls: those of `std::filesystem`, `fs::removeDir`, and `getInterupt`. -/
inductive Fn where
  | exists_ (p : FsPath)
  | is_empty (p : FsPath)
  | directory_iterator (p : FsPath)
  | removeDir (p : FsPath)
  | remove (p : FsPath)
  | getInterupt

/-- What a call returns; `none` is an exception. -/
@[reducible] def Fn.Res : Fn → Type
  | .exists_ _ => Option Bool
  | .is_empty _ => Option Bool
  | .directory_iterator _ => List FsPath × Bool
  | .remove _ => Option Bool
  | _ => Bool

/-- The interface. -/
@[reducible] def CheatsI : Interface := ⟨Fn, Fn.Res⟩

/-- A program; of its exceptions only that they are there is kept. -/
abbrev Op (α : Type) : Type := Throws CheatsI Unit α

/-- Make a call. -/
def fs (fn : Fn) : Op fn.Res := Throws.call (I := CheatsI) fn

/-- The result of a call that may throw. -/
def value {α : Type} : Option α → Op α
  | some a => pure a
  | none => throw ()

/-- What stands at and below a directory is deleted. -/
def deleteTree (v : Volume lower) (p : FsPath) : Volume lower := ((v.clear (key lower p)).remove p).2

/-- The answer of `std::filesystem::is_empty`. -/
def emptiness (v : Volume lower) (p : FsPath) : Option Bool :=
  match v.tree.get (key lower p) with
  | some .dir => some (v.tree.childless (key lower p))
  | some (.file b) => some b.isEmpty
  | none => none

/-- The result and the effect of a call that works.  `fsFsDeleteDirectoryRecursively` deletes
directories, not files. -/
def answer (v : Volume lower) : (fn : Fn) → fn.Res × Volume lower
  | .exists_ p => (some (v.tree.get (key lower p)).isSome, v)
  | .is_empty p => (emptiness v p, v)
  | .directory_iterator p => (v.iterate p (v.children p), v)
  | .removeDir p =>
    if v.kind p = some true ∧ key lower p ≠ [] then (true, deleteTree v p) else (false, v)
  | .remove p => v.remove p
  | .getInterupt => (false, v)

/-- An iteration may come to the entries in any order. -/
def SameResult : (fn : Fn) → fn.Res → fn.Res → Prop
  | .directory_iterator _, r, r' => r.1.Perm r'.1 ∧ r.2 = r'.2
  | _, r, r' => r = r'

/-- What may come of a call that fails; a deletion may stop part way. -/
def Stops (v : Volume lower) : (fn : Fn) → fn.Res → Volume lower → Prop
  | .exists_ _, r, v' => r = none ∧ v' = v
  | .is_empty _, r, v' => r = none ∧ v' = v
  | .directory_iterator p, r, v' => r.2 = false ∧ r.1.Subperm (v.children p) ∧ v' = v
  | .removeDir p, r, v' => r = false ∧ v.kind p = some true ∧
    ∃ gone : FsPath → Prop, (∀ q, gone q → key lower p <+: q) ∧ v.Removed v' gone
  | .remove _, r, v' => r = none ∧ v' = v
  | .getInterupt, r, v' => r = true ∧ v' = v

/-- The card.  Calls fail, and the user interrupts, only if `F`. -/
def card (F : Prop) : Machine CheatsI (Volume lower) := fun v fn r v' =>
  (∃ r₀, (r₀, v') = answer v fn ∧ SameResult fn r r₀) ∨ F ∧ Stops v fn r v'

/-! ## The removal -/

/-- The folder of the contents. -/
def getContentsPath : Extract.CFW → FsPath
  | .ams => ["atmosphere", "contents", ""]
  | .rnx => ["ReiNX", "contents", ""]
  | .sxos => ["sxos", "titles", ""]

/-- `CHEATS_VERSION` -/
def CHEATS_VERSION : FsPath := ["config", "aio-switch-updater-mod", "cheats_version.dat"]

/-- `caselessCompare` of a name and a title. -/
def caselessCompare (name : Name) (title : Bytes) : Prop := lower name = lower (Extract.name title)

instance (name : Name) (title : Bytes) : Decidable (caselessCompare name title) :=
  inferInstanceAs (Decidable (_ = _))

/-- Whether the `find_if` of `removeOrphanedCheats` finds a title. -/
def found (titles : List Bytes) (name : Name) : Prop := ∃ title ∈ titles, caselessCompare name title

instance (titles : List Bytes) (name : Name) : Decidable (found titles name) :=
  inferInstanceAs (Decidable (∃ title ∈ titles, _))

/-- `removeCheatsDirectory` -/
def removeCheatsDirectory (entry : FsPath) : Op Bool := do
  let cheatsPath := entry ++ ["cheats"]
  let present ← value (← fs (.exists_ cheatsPath))
  let res ← if present then fs (.removeDir cheatsPath) else pure true
  let empty ← value (← fs (.is_empty entry))
  if empty then
    let removed ← fs (.removeDir entry)
    pure (res && removed)
  else pure res

/-- The loop of `removeOrphanedCheats`; `complete` is whether the iteration comes to its end. -/
def loop (titles : List Bytes) (complete : Bool) : List FsPath → Op Unit
  | [] => Throws.require (complete = true) ()
  | entry :: entries => do
    if ← fs .getInterupt then pure ()
    else
      if found titles (filename entry) then pure ()
      else
        let _ ← removeCheatsDirectory entry
      loop titles complete entries

/-- `removeOrphanedCheats` -/
def removeOrphanedCheats (cfw : Extract.CFW) (titles : List Bytes) : Op Unit := do
  let path := getContentsPath cfw
  let (_, counted) ← fs (.directory_iterator path)
  Throws.require (counted = true) ()
  let (entries, complete) ← fs (.directory_iterator path)
  loop titles complete entries
  let _ ← value (← fs (.remove CHEATS_VERSION))

end OrphanedCheats
