/-
# The phases of a CFW update

What the journal of the CFW updater promises, told without paths and calls.  A snapshot
of the card keeps what the transaction is about: the staged tree, the ready marker, and
for each managed path its trees at the root, in the backup and at the place of the
original.  `Phase` says what a snapshot can be under each journal token.
-/
import AioMod.CfwUpdater
import AioMod.JournalSpec

namespace CfwUpdater

/-! ## Trees and snapshots -/

/-- What stands at and below a path. -/
abbrev Tree : Type := FsPath → Option (Entry Bytes)

namespace Tree

/-- Nothing. -/
def empty : Tree := fun _ => none

/-- A single file. -/
def single (b : Bytes) : Tree := fun r => if r = [] then some (.file b) else none

/-- The tree below a name. -/
def below (t : Tree) (k : Name) : Tree := fun r => t (k :: r)

/-- Every entry is a part of the entry of `n` at the same place. -/
def Parts (t n : Tree) : Prop :=
  ∀ r, t r = none ∨ ∃ e e', n r = some e ∧ t r = some e' ∧ e'.PartOf e

theorem parts_empty (n : Tree) : Tree.empty.Parts n := fun _ => .inl rfl

theorem Parts.refl (n : Tree) : n.Parts n := by
  intro r
  cases h : n r with
  | none => exact .inl rfl
  | some e => exact .inr ⟨e, e, rfl, rfl, .refl e⟩

theorem Parts.eq_empty {t : Tree} (h : t.Parts Tree.empty) : t = Tree.empty := by
  funext r
  exact (h r).resolve_right fun ⟨_, _, hn, _⟩ => by cases hn

end Tree

theorem SD.sub_eq_empty {σ : SD} {p : FsPath} : σ.sub p = Tree.empty ↔ σ.get p = none :=
  FileTree.sub_eq_none

theorem SD.sub_eq_single {σ : SD} {p : FsPath} {b : Bytes} :
    σ.sub p = Tree.single b ↔ σ.get p = some (.file b) := by
  constructor
  · intro h
    rw [FileTree.get_eq_sub, h]
    rfl
  · intro h
    funext r
    rw [FileTree.sub_apply, Tree.single]
    split
    · next hr => rw [hr, List.append_nil, h]
    · next hr => exact FileTree.get_append_of_not_dir (by simp [h]) hr

/-- A managed path on the card: the trees at the root, in the backup and at the place
of the original, and whether its absence is marked. -/
structure Item where
  root : Tree
  backup : Tree
  original : Tree
  marked : Bool

/-- What the transaction is about.  `backup` tells whether the backup folder is there,
and whether it is a folder. -/
structure Snapshot where
  staged : Tree
  ready : Bool
  backup : Option Bool
  item : Managed → Item

/-- A snapshot with another item at `i`. -/
def Snapshot.set (S : Snapshot) (i : Managed) (x : Item) : Snapshot :=
  { S with item := Function.update S.item i x }

@[simp] theorem Snapshot.set_staged (S : Snapshot) (i : Managed) (x : Item) :
    (S.set i x).staged = S.staged := rfl

@[simp] theorem Snapshot.set_ready (S : Snapshot) (i : Managed) (x : Item) :
    (S.set i x).ready = S.ready := rfl

@[simp] theorem Snapshot.set_backup (S : Snapshot) (i : Managed) (x : Item) :
    (S.set i x).backup = S.backup := rfl

theorem Snapshot.set_item (S : Snapshot) (i j : Managed) (x : Item) :
    (S.set i x).item j = if j = i then x else S.item j := by
  simp only [Snapshot.set, Function.update_apply]

/-- A property of all items survives the change of one. -/
theorem Snapshot.forall_set {S : Snapshot} {i : Managed} {x : Item} {P : Managed → Item → Prop}
    (h : ∀ j, j ≠ i → P j (S.item j)) (hx : P i x) : ∀ j, P j ((S.set i x).item j) := by
  intro j
  rw [Snapshot.set_item]
  split
  · next hj => exact hj ▸ hx
  · next hj => exact h j hj

/-- The item of a managed path. -/
def item (patched : Bool) (σ : SD) (i : Managed) : Item where
  root := σ.sub (rootPath i.name)
  backup := σ.sub (backupPath i.name)
  original := σ.sub (originalPath patched i.name)
  marked := (σ.get (absent_marker_path i)).isSome

/-- The snapshot of a card. -/
def snapshot (patched : Bool) (σ : SD) : Snapshot where
  staged := σ.sub UPDATE_NEW
  ready := (σ.get UPDATE_READY).isSome
  backup := (σ.get UPDATE_BACKUP).map Entry.isDir
  item := item patched σ

/-! ## Updates and phases -/

/-- An update: the hardware, the bytes of the updater, the original trees of the managed
paths and the staged tree. -/
structure Update where
  patched : Bool
  updater : Bytes
  original : Managed → Tree
  staged : Tree

namespace Update

variable (u : Update)

/-- The boot payload on patched and Mariko hardware: its original stands apart from the
root path, which holds the running updater. -/
def special (i : Managed) : Bool := u.patched && i.name = "payload.bin"

/-- What the pack holds for a managed path. -/
def pack (i : Managed) : Tree := u.staged.below (fold i.name)

/-- What the complete pack installs: the legacy folder is removed. -/
def target (i : Managed) : Tree := if i.name = "Next" then Tree.empty else u.pack i

/-- What the root path may hold while the pack is copied. -/
def MayHold (i : Managed) (t : Tree) : Prop :=
  t.Parts (u.pack i) ∨ u.special i = true ∧ t = Tree.single u.updater

/-- The original is where it was before the update. -/
structure Raw (i : Managed) (x : Item) : Prop where
  original : x.original = u.original i
  backup : x.backup = Tree.empty
  marked : x.marked = false
  root : u.special i = true → u.MayHold i x.root

/-- The original is in the backup, or its absence is marked. -/
structure Kept (i : Managed) (x : Item) : Prop where
  kept : u.original i ≠ Tree.empty ∧ x.backup = u.original i ∧ x.marked = false ∨
    u.original i = Tree.empty ∧ x.backup = Tree.empty ∧ x.marked = true
  original : u.special i = true → x.original = Tree.empty

/-- Backed up, with nothing at the root path that the pack does not bring. -/
structure Done (i : Managed) (x : Item) : Prop where
  kept : u.Kept i x
  root : u.MayHold i x.root

/-- The original is back at the root path. -/
structure Restored (i : Managed) (x : Item) : Prop where
  root : x.root = u.original i
  backup : x.backup = Tree.empty
  marked : u.original i ≠ Tree.empty → x.marked = false
  original : u.special i = true → x.original = Tree.empty

/-- The saved boot payload still stands apart. -/
structure Apart (i : Managed) (x : Item) : Prop where
  special : u.special i = true
  present : u.original i ≠ Tree.empty
  original : x.original = u.original i
  backup : x.backup = Tree.empty
  marked : x.marked = false

/-- A rollback puts the original back. -/
def Undoable (i : Managed) (x : Item) : Prop := u.Kept i x ∨ u.Restored i x ∨ u.Apart i x

/-- The transaction is whole: the staged tree and the ready marker are there, and either
nothing was copied yet, each original being at its place or backed up, or everything is
backed up. -/
structure Whole (S : Snapshot) : Prop where
  staged : S.staged = u.staged
  ready : S.ready = true
  backup : S.backup ≠ some false
  items : (∀ i, u.Raw i (S.item i) ∨
      u.Done i (S.item i) ∧ (u.special i = false → (S.item i).root = Tree.empty)) ∨
    ∀ i, u.Done i (S.item i)

/-- Everything is backed up. -/
structure BackedUp (S : Snapshot) : Prop where
  staged : S.staged = u.staged
  ready : S.ready = true
  folder : S.backup = some true
  items : ∀ i, u.Done i (S.item i)

/-- Everything but the boot payload is installed. -/
structure Copied (S : Snapshot) : Prop where
  backedUp : u.BackedUp S
  installed : ∀ i, u.special i = false → (S.item i).root = u.target i

/-- Everything is installed. -/
def Installed (S : Snapshot) : Prop := ∀ i, (S.item i).root = u.target i

/-- What the card holds while the journal reads as `s`. -/
def Phase (S : Snapshot) : Option State → Prop
  | none => S.ready = false → S.backup ≠ none → ∀ i, u.Undoable i (S.item i)
  | some .STAGED => u.Whole S
  | some .BACKUP_IN_PROGRESS => u.Whole S
  | some .BACKUP_COMPLETE => u.BackedUp S
  | some .COPY_IN_PROGRESS => u.BackedUp S
  | some .COPY_COMPLETE => u.Copied S
  | some .FINALIZE_PAYLOAD => u.Copied S
  | some .PENDING_BOOT => False
  | some .ROLLBACK_IN_PROGRESS => ∀ i, u.Undoable i (S.item i)
  | some .ROLLBACK_FAILED => ∀ i, u.Undoable i (S.item i)
  | some .COMMIT_IN_PROGRESS => u.Installed S ∧ (S.ready = false → S.backup = none)

variable {u}

theorem Whole.not_unready {S : Snapshot} (h : u.Whole S) : u.Phase S none := fun hr => by
  rw [h.ready] at hr
  cases hr

theorem BackedUp.not_unready {S : Snapshot} (h : u.BackedUp S) : u.Phase S none := fun hr => by
  rw [h.ready] at hr
  cases hr

theorem BackedUp.undoable {S : Snapshot} (h : u.BackedUp S) (i : Managed) :
    u.Undoable i (S.item i) := .inl (h.items i).kept

end Update

end CfwUpdater
