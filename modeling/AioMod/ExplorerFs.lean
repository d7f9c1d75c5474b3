/-
# The calls of the file explorer and the card they act on

The card tells names apart by their fold only and keeps the spelling a name was created with.  A
path of the program is a list of components, of which empty ones (a trailing separator) mean
nothing.  A call works as documented or, where failures are let in, fails; a failing call leaves
the card as it is, but for a write, an opening or a creation of several directories, which may
stop part way.
-/
import AioMod.FatFs
import AioMod.ThrowProg

namespace Explorer

/-! ## Names -/

/-- `std::tolower` on every character -/
def lower (name : Name) : Name := String.ofList (name.toList.map Char.toLower)

/-! ## The card -/

/-- The names the card allows, as far as it matters: not empty, and without a separator. -/
def Legal (name : Name) : Prop := name ≠ "" ∧ '/' ∉ name.toList ∧ ':' ∉ name.toList

instance (name : Name) : Decidable (Legal name) := inferInstanceAs (Decidable (_ ∧ _ ∧ _))

/-- A name that is spelled so and folds to `k`. -/
def Spells (fold : Name → Name) (name k : Name) : Prop := Legal name ∧ fold name = k

/-- A file tree by folded names, with the spelling of each entry. -/
structure Volume (fold : Name → Name) where
  tree : FileTree Name Bytes
  spelling : FsPath → Name
  spells : ∀ p k, tree.get (p ++ [k]) ≠ none → Spells fold (spelling (p ++ [k])) k

variable {fold : Name → Name}

/-- Where a path leads: its components, folded. -/
def key (fold : Name → Name) (p : FsPath) : FsPath := (p.filter (· ≠ "")).map fold

namespace Volume

/-- What stands at a place: an entry and its spelling. -/
def at_ (v : Volume fold) (q : FsPath) : Option (Name × Entry Bytes) :=
  (v.tree.get q).map fun e => (v.spelling q, e)

/-- Whether a directory or a file stands at a path. -/
def kind (v : Volume fold) (p : FsPath) : Option Bool := (v.tree.get (key fold p)).map Entry.isDir

theorem at_eq_none {v : Volume fold} {q : FsPath} : v.at_ q = none ↔ v.tree.get q = none :=
  Option.map_eq_none_iff

theorem get_of_at {v v' : Volume fold} {q : FsPath} (h : v'.at_ q = v.at_ q) :
    v'.tree.get q = v.tree.get q := by
  have h' := congrArg (Option.map Prod.snd) h
  simpa [at_, Function.comp_def] using h'

/-- What stood at the places in `gone` is gone, and nothing else has changed. -/
structure Removed (v v' : Volume fold) (gone : FsPath → Prop) : Prop where
  none_of : ∀ q, gone q → v'.at_ q = none
  kept : ∀ q, ¬ gone q → v'.at_ q = v.at_ q

theorem Removed.get {v v' : Volume fold} {gone : FsPath → Prop} (h : Removed v v' gone) {q : FsPath}
    (hq : ¬ gone q) : v'.tree.get q = v.tree.get q := get_of_at (h.kept q hq)

theorem Removed.get_ne_none {v v' : Volume fold} {gone : FsPath → Prop} (h : Removed v v' gone)
    {q : FsPath} (hq : v'.tree.get q ≠ none) : v.tree.get q ≠ none := by
  by_cases hg : gone q
  · exact absurd (at_eq_none.mp (h.none_of q hg)) hq
  · rwa [h.get hg] at hq

/-! ### What can be done to it -/

/-- An entry is put at `q`, which gets a spelling when it is new. -/
def put (v : Volume fold) (q : FsPath) (name : Name) (e : Entry Bytes) (h : v.tree.CanPut q)
    (hname : Spells fold name (q.getLast h.1)) : Volume fold where
  tree := v.tree.put q e h
  spelling r := if r = q ∧ v.tree.get q = none then name else v.spelling r
  spells p k hk := by
    by_cases hq : p ++ [k] = q
    · subst hq
      by_cases hnone : v.tree.get (p ++ [k]) = none
      · rw [if_pos ⟨rfl, hnone⟩]
        simpa using hname
      · rw [if_neg fun h => hnone h.2]
        exact v.spells p k hnone
    · rw [if_neg fun h => hq h.1]
      exact v.spells p k (by simpa [hq] using hk)

theorem at_put (v : Volume fold) (q : FsPath) (name : Name) (e : Entry Bytes)
    (h : v.tree.CanPut q) (hname : Spells fold name (q.getLast h.1)) (r : FsPath) :
    (v.put q name e h hname).at_ r
      = if r = q then some (if v.tree.get q = none then name else v.spelling q, e)
        else v.at_ r := by
  show ((v.tree.put q e h).get r).map (fun e => (if r = q ∧ v.tree.get q = none then name
    else v.spelling r, e)) = _
  rw [FileTree.get_put]
  by_cases hr : r = q
  · subst hr
    simp
  · simp [hr, at_]

/-- The entry at `q` is deleted. -/
def del (v : Volume fold) (q : FsPath) (h : v.tree.CanDel q) : Volume fold where
  tree := v.tree.del q h
  spelling := v.spelling
  spells p k hk := by
    apply v.spells p k
    rw [FileTree.get_del] at hk
    by_cases hq : p ++ [k] = q
    · rw [if_pos hq] at hk
      exact absurd rfl hk
    · rwa [if_neg hq] at hk

theorem at_del (v : Volume fold) (q : FsPath) (h : v.tree.CanDel q) (r : FsPath) :
    (v.del q h).at_ r = if r = q then none else v.at_ r := by
  show ((v.tree.del q h).get r).map (fun e => (v.spelling r, e)) = _
  rw [FileTree.get_del]
  by_cases hr : r = q
  · rw [if_pos hr, if_pos hr]
    rfl
  · rw [if_neg hr, if_neg hr]
    rfl

/-- What stands below `q` is deleted. -/
def clear (v : Volume fold) (q : FsPath) : Volume fold where
  tree := v.tree.clear q
  spelling := v.spelling
  spells p k hk := by
    apply v.spells p k
    rw [FileTree.get_clear] at hk
    by_cases hq : q <+: p ++ [k] ∧ p ++ [k] ≠ q
    · rw [if_pos hq] at hk
      exact absurd rfl hk
    · rwa [if_neg hq] at hk

/-- What stands at and below `src` is moved to `dst`, which gets a new spelling. -/
def move (v : Volume fold) (src dst : FsPath) (name : Name) (h : v.tree.CanMove src dst)
    (hname : Spells fold name (dst.getLast h.2.1)) : Volume fold where
  tree := v.tree.move src dst h
  spelling r := if r = dst then name
    else if dst <+: r then v.spelling (src ++ r.drop dst.length) else v.spelling r
  spells p k hk := by
    rw [FileTree.get_move] at hk
    by_cases hr : p ++ [k] = dst
    · subst hr
      rw [if_pos rfl]
      simpa using hname
    · rw [if_neg hr]
      by_cases hd : dst <+: p ++ [k]
      · rw [if_pos hd] at hk ⊢
        -- below the new place
        have hp : dst <+: p := (List.prefix_concat_iff.mp hd).resolve_left (Ne.symm hr)
        obtain ⟨r, rfl⟩ := hp
        rw [List.append_assoc, List.drop_left, ← List.append_assoc] at hk ⊢
        exact v.spells (src ++ r) k hk
      · rw [if_neg hd] at hk ⊢
        apply v.spells p k
        by_cases hsrc : src <+: p ++ [k]
        · rw [if_pos hsrc] at hk
          exact absurd rfl hk
        · rwa [if_neg hsrc] at hk

/-! ### What is on it -/

/-- The paths of what is in the directory `p`. -/
def children (v : Volume fold) (p : FsPath) : List FsPath :=
  (v.tree.names (key fold p)).map fun k => p ++ [v.spelling (key fold p ++ [k])]

/-- The path, below `p`, of the place `q`. -/
def pathBelow (v : Volume fold) (p q : FsPath) : FsPath :=
  p ++ ((List.range' ((key fold p).length + 1) (q.length - (key fold p).length)).map
    fun n => v.spelling (q.take n))

/-- The paths of what is anywhere below the directory `p`, but for what is below `skip`. -/
def descendants (v : Volume fold) (p : FsPath) (skip : Option FsPath) : List FsPath :=
  ((v.tree.support.filter fun q =>
    key fold p <+: q ∧ q ≠ key fold p ∧ (v.tree.get q).isSome).dedup.map (v.pathBelow p)).filter
      fun r => ∀ s ∈ skip, ¬ (s <+: r ∧ r ≠ s)

section listing

variable {v : Volume fold} {p : FsPath}

theorem key_append (p : FsPath) (q : FsPath) : key fold (p ++ q) = key fold p ++ key fold q := by
  simp [key]

theorem key_singleton {name : Name} (h : name ≠ "") : key fold [name] = [fold name] := by
  simp [key, h]

theorem key_prefix {p q : FsPath} (h : p <+: q) : key fold p <+: key fold q := by
  obtain ⟨r, rfl⟩ := h
  rw [key_append]
  exact List.prefix_append _ _

/-- The path of an entry leads to it. -/
theorem key_child {k : Name} (h : v.tree.get (key fold p ++ [k]) ≠ none) :
    key fold (p ++ [v.spelling (key fold p ++ [k])]) = key fold p ++ [k] := by
  obtain ⟨hlegal, hfold⟩ := v.spells _ _ h
  rw [key_append, key_singleton hlegal.1, hfold]

theorem mem_children {c : FsPath} :
    c ∈ v.children p ↔ ∃ k, v.tree.get (key fold p ++ [k]) ≠ none ∧
      c = p ++ [v.spelling (key fold p ++ [k])] := by
  simp only [children, List.mem_map, FileTree.mem_names]
  constructor
  · rintro ⟨k, hk, rfl⟩
    exact ⟨k, hk, rfl⟩
  · rintro ⟨k, hk, rfl⟩
    exact ⟨k, hk, rfl⟩

/-- Different entries have different paths, which lead to different places. -/
theorem nodup_children : ((v.children p).map (key fold)).Nodup := by
  rw [children, List.map_map]
  apply (v.tree.nodup_names (key fold p)).map_on
  intro k hk l hl hkl
  rw [FileTree.mem_names] at hk hl
  simp only [Function.comp] at hkl
  rw [key_child hk, key_child hl] at hkl
  simpa using hkl

theorem pathBelow_self : v.pathBelow p (key fold p) = p := by
  simp [pathBelow]

theorem pathBelow_append (s : FsPath) (k : Name) :
    v.pathBelow p (key fold p ++ s ++ [k])
      = v.pathBelow p (key fold p ++ s) ++ [v.spelling (key fold p ++ s ++ [k])] := by
  have hlen : (key fold p ++ s ++ [k]).length - (key fold p).length = s.length + 1 := by
    simp only [List.length_append, List.length_singleton]
    omega
  have hlen' : (key fold p ++ s).length - (key fold p).length = s.length := by
    rw [List.length_append]
    omega
  rw [pathBelow, pathBelow, hlen, hlen', List.range'_concat, List.map_append, ← List.append_assoc]
  congr 1
  · congr 1
    apply List.map_congr_left
    intro n hn
    rw [List.mem_range'_1] at hn
    rw [List.take_append_of_le_length (by rw [List.length_append]; omega)]
  · have htake : (key fold p ++ s ++ [k]).take ((key fold p).length + 1 + 1 * s.length)
        = key fold p ++ s ++ [k] := by
      apply List.take_of_length_le
      simp only [List.length_append, List.length_singleton]
      omega
    rw [List.map_singleton, htake]

/-- The path of what is below a directory leads to it. -/
theorem key_pathBelow {q : FsPath} (hq : v.tree.get q ≠ none) (hp : key fold p <+: q) :
    key fold (v.pathBelow p q) = q := by
  obtain ⟨s, rfl⟩ := hp
  induction s using List.reverseRecOn with
  | nil => rw [List.append_nil, pathBelow_self]
  | append_singleton s k ih =>
    have hdir := v.tree.parent (key fold p ++ s ++ [k]) (by simp)
      (by rwa [List.append_assoc])
    rw [List.dropLast_concat] at hdir
    obtain ⟨hlegal, hfold⟩ := v.spells (key fold p ++ s) k (by rwa [List.append_assoc])
    rw [← List.append_assoc, pathBelow_append, key_append, ih (by rw [hdir]; simp),
      key_singleton hlegal.1, hfold]

theorem mem_descendants {r : FsPath} {skip : Option FsPath} :
    r ∈ v.descendants p skip ↔ (∃ q, key fold p <+: q ∧ q ≠ key fold p ∧ v.tree.get q ≠ none ∧
      r = v.pathBelow p q) ∧ ∀ s ∈ skip, ¬ (s <+: r ∧ r ≠ s) := by
  simp only [descendants, List.mem_filter, List.mem_map, List.mem_dedup, decide_eq_true_eq]
  constructor
  · rintro ⟨⟨q, ⟨-, hp, hne, hq⟩, rfl⟩, hskip⟩
    exact ⟨⟨q, hp, hne, Option.isSome_iff_ne_none.mp hq, rfl⟩, hskip⟩
  · rintro ⟨⟨q, hp, hne, hq, rfl⟩, hskip⟩
    exact ⟨⟨q, ⟨v.tree.mem_support q hq, hp, hne, Option.isSome_iff_ne_none.mpr hq⟩, rfl⟩, hskip⟩

end listing

end Volume

/-! ## The calls -/

/-- The calls: those of `std::filesystem`, of the streams, of minizip, and `cancel.load()`. -/
inductive Fn where
  | exists_ (p : FsPath)
  | status (p : FsPath)
  | directory_iterator (p : FsPath)
  | recursive_directory_iterator (p : FsPath) (skip : Option FsPath)
  | create_directory (p : FsPath)
  | create_directories (p : FsPath)
  | remove (p : FsPath)
  | removeInCleanUp (p : FsPath)
  | remove_all (p : FsPath)
  | rename (p q : FsPath)
  | file_size (p : FsPath)
  | space (p : FsPath)
  | ifstream (p : FsPath)
  | read (p : FsPath) (offset size : ℕ)
  | ofstream (p : FsPath)
  | write (p : FsPath) (data : Bytes)
  | flush (p : FsPath)
  | close (p : FsPath)
  | minizip
  | load
  deriving DecidableEq

/-- What a call returns.  An iteration returns what it came to and whether it came to the end. -/
@[reducible] def Fn.Res : Fn → Type
  | .exists_ _ => Option Bool
  | .status _ => Option Bool
  | .directory_iterator _ => List FsPath × Bool
  | .recursive_directory_iterator _ _ => List FsPath × Bool
  | .remove _ => Option Bool
  | .removeInCleanUp _ => Option Bool
  | .file_size _ => Option ℕ
  | .space _ => Option ℕ
  | .read _ _ _ => Option Bytes
  | _ => Bool

/-- The interface of the explorer. -/
@[reducible] def FsI : Interface := ⟨Fn, Fn.Res⟩

/-- The programs of the explorer; an exception is its message. -/
abbrev Op (α : Type) : Type := Throws FsI String α

/-- Make a call. -/
def fs (fn : Fn) : Op fn.Res := Throws.call (I := FsI) fn

/-! ## What a call does -/

/-- `std::filesystem::path::filename`, which is empty where a separator ends the path. -/
def filename (p : FsPath) : Name := p.getLastD ""

/-- The name a path gives to what is created there. -/
def lastName (p : FsPath) : Name := (p.filter (· ≠ "")).getLastD ""

theorem spells_last {p : FsPath} (hlegal : Legal (lastName p)) (h : key fold p ≠ []) :
    Spells fold (lastName p) ((key fold p).getLast h) := by
  have hne : p.filter (· ≠ "") ≠ [] := fun hnil => h (by rw [key, hnil]; rfl)
  have hlast : lastName p = (p.filter (· ≠ "")).getLast hne := by
    rw [lastName, List.getLastD_eq_getLast?, List.getLast?_eq_getLast_of_ne_nil hne]
    rfl
  refine ⟨hlegal, ?_⟩
  simp only [key, List.getLast_map, hlast]

namespace Volume

/-- The card with nothing on it. -/
def empty : Volume fold where
  tree := .empty
  spelling _ := ""
  spells p k hk := absurd (if_neg (by simp)) hk

variable (v : Volume fold)

/-- A directory is created where nothing stands; whether one stands there in the end. -/
def mkdir (p : FsPath) : Bool × Volume fold :=
  if h : v.tree.get (key fold p) = none ∧ v.tree.CanPut (key fold p) ∧ Legal (lastName p) then
    (true, v.put (key fold p) (lastName p) .dir h.2.1 (spells_last h.2.2 h.2.1.1))
  else (v.kind p = some true, v)

/-- Directories are created one after the other, as far as it goes. -/
def mkdirs (v : Volume fold) : List FsPath → Bool × Volume fold
  | [] => (true, v)
  | p :: ps => if (v.mkdir p).1 then (v.mkdir p).2.mkdirs ps else (false, v)

/-- An iteration over `l` in the directory `p`. -/
def iterate (p : FsPath) (l : List FsPath) : List FsPath × Bool :=
  if v.kind p = some true then (l, true) else ([], false)

/-- What is in a file. -/
def contents (p : FsPath) : Option Bytes :=
  match v.tree.get (key fold p) with
  | some (.file b) => some b
  | _ => none

/-- A file is given contents, where a file may stand. -/
def setFile (p : FsPath) (b : Bytes) : Option (Volume fold) :=
  if h : v.tree.CanPut (key fold p) ∧ Legal (lastName p) then
    some (v.put (key fold p) (lastName p) (.file b) h.1 (spells_last h.2 h.1.1))
  else none

/-- A file or an empty directory is deleted. -/
def remove (p : FsPath) : Option Bool × Volume fold :=
  if v.tree.get (key fold p) = none then (some false, v)
  else if h : v.tree.CanDel (key fold p) then (some true, v.del (key fold p) h)
  else (none, v)

/-- What stands at and below a path is deleted. -/
def removeAll (p : FsPath) : Volume fold := ((v.clear (key fold p)).remove p).2

end Volume

/-- The paths of the directories that lead to `p`, and `p`. -/
def prefixes (p : FsPath) : List FsPath := (List.range p.length).map fun i => p.take (i + 1)

/-- The result and the effect of a call that works. -/
def answer (v : Volume fold) : (fn : Fn) → fn.Res × Volume fold
  | .exists_ p => (some (v.tree.get (key fold p)).isSome, v)
  | .status p => (v.kind p, v)
  | .directory_iterator p => (v.iterate p (v.children p), v)
  | .recursive_directory_iterator p skip => (v.iterate p (v.descendants p skip), v)
  | .create_directory p =>
    if v.tree.get (key fold p) = none then v.mkdir p else (false, v)
  | .create_directories p => v.mkdirs (prefixes p)
  | .remove p => v.remove p
  | .removeInCleanUp p => v.remove p
  | .remove_all p => (true, v.removeAll p)
  | .rename p q =>
    if h : v.tree.CanMove (key fold p) (key fold q) ∧ Legal (lastName q) then
      (true, v.move (key fold p) (key fold q) (lastName q) h.1 (spells_last h.2 h.1.2.1))
    else (false, v)
  | .file_size p => ((v.contents p).map List.length, v)
  | .space _ => (some (2 ^ 64 - 1), v)
  | .ifstream p => ((v.contents p).isSome, v)
  | .read p offset size => ((v.contents p).map fun b => (b.drop offset).take size, v)
  | .ofstream p =>
    match v.setFile p [] with
    | some v' => (true, v')
    | none => (false, v)
  | .write p data =>
    match (v.contents p).bind fun b => v.setFile p (b ++ data) with
    | some v' => (true, v')
    | none => (false, v)
  | .flush _ => (true, v)
  | .close _ => (true, v)
  | .minizip => (true, v)
  | .load => (false, v)

/-- Two iterations over the same entries in another order. -/
def Reorders : (fn : Fn) → fn.Res → fn.Res → Prop
  | .directory_iterator _, r, r' => r.1.Perm r'.1 ∧ r.2 = r'.2
  | .recursive_directory_iterator _ _, r, r' => r.1.Perm r'.1 ∧ r.2 = r'.2
  | _, r, r' => r = r'

/-- What may come of a call that fails; the calls of a clean-up do not. -/
def Stops (v : Volume fold) : (fn : Fn) → fn.Res → Volume fold → Prop
  | .exists_ _, r, v' => r = none ∧ v' = v
  | .status _, r, v' => r = none ∧ v' = v
  | .directory_iterator p, r, v' => r.2 = false ∧ r.1.Subperm (v.children p) ∧ v' = v
  | .recursive_directory_iterator p skip, r, v' =>
    r.2 = false ∧ r.1.Subperm (v.descendants p skip) ∧ v' = v
  | .create_directory _, r, v' => r = false ∧ v' = v
  | .create_directories p, r, v' => r = false ∧ ∃ n, v' = (v.mkdirs ((prefixes p).take n)).2
  | .remove _, r, v' => r = none ∧ v' = v
  | .removeInCleanUp _, _, _ => False
  | .remove_all _, _, _ => False
  | .rename _ _, r, v' => r = false ∧ v' = v
  | .file_size _, r, v' => r = none ∧ v' = v
  | .space _, r, v' => v' = v ∧ (r = none ∨ ∃ n, r = some n)
  | .ifstream _, r, v' => r = false ∧ v' = v
  | .read _ _ _, r, v' => r = none ∧ v' = v
  | .ofstream p, r, v' => r = false ∧ (v' = v ∨ v.setFile p [] = some v')
  | .write p data, r, v' => r = false ∧ (v' = v ∨
    ∃ n b, v.contents p = some b ∧ v.setFile p (b ++ data.take n) = some v')
  | .flush _, r, v' => r = false ∧ v' = v
  | .close _, r, v' => r = false ∧ v' = v
  | .minizip, r, v' => r = false ∧ v' = v
  | .load, r, v' => r = true ∧ v' = v

/-- The machine of the explorer.  Calls fail, and the user cancels, only if `F`. -/
def card (F : Prop) : Machine FsI (Volume fold) := fun v fn r v' =>
  (∃ r₀, (r₀, v') = answer v fn ∧ Reorders fn r r₀) ∨ F ∧ Stops v fn r v'

/-! ## What a call can do -/

section effects

variable {F : Prop} {v v' : Volume fold} {p : FsPath}

theorem card_exists {r : Option Bool} (h : card F v (.exists_ p) r v') :
    v' = v ∧ (r = some (v.tree.get (key fold p)).isSome ∨ F ∧ r = none) := by
  rcases h with ⟨r₀, h, hr⟩ | ⟨hF, hr, hv⟩
  · obtain ⟨rfl, rfl⟩ := Prod.mk.inj h
    exact ⟨rfl, .inl hr⟩
  · exact ⟨hv, .inr ⟨hF, hr⟩⟩

theorem card_status {r : Option Bool} (h : card F v (.status p) r v') :
    v' = v ∧ (r = v.kind p ∨ F ∧ r = none) := by
  rcases h with ⟨r₀, h, hr⟩ | ⟨hF, hr, hv⟩
  · obtain ⟨rfl, rfl⟩ := Prod.mk.inj h
    exact ⟨rfl, .inl hr⟩
  · exact ⟨hv, .inr ⟨hF, hr⟩⟩

theorem card_load {r : Bool} (h : card F v .load r v') : v' = v ∧ (r = true → F) := by
  rcases h with ⟨r₀, h, hr⟩ | ⟨hF, hr, hv⟩
  · obtain ⟨rfl, rfl⟩ := Prod.mk.inj h
    refine ⟨rfl, fun ht => ?_⟩
    rw [show r = false from hr] at ht
    cases ht
  · exact ⟨hv, fun _ => hF⟩

theorem card_minizip {r : Bool} (h : card F v .minizip r v') : v' = v ∧ (r = false → F) := by
  rcases h with ⟨r₀, h, hr⟩ | ⟨hF, hr, hv⟩
  · obtain ⟨rfl, rfl⟩ := Prod.mk.inj h
    refine ⟨rfl, fun ht => ?_⟩
    rw [show r = true from hr] at ht
    cases ht
  · exact ⟨hv, fun _ => hF⟩

theorem card_read {offset size : ℕ} {r : Option Bytes} (h : card F v (.read p offset size) r v') :
    v' = v ∧ (r = ((v.contents p).map fun b => (b.drop offset).take size) ∨ F ∧ r = none) := by
  rcases h with ⟨r₀, h, hr⟩ | ⟨hF, hr, hv⟩
  · obtain ⟨rfl, rfl⟩ := Prod.mk.inj h
    exact ⟨rfl, .inl hr⟩
  · exact ⟨hv, .inr ⟨hF, hr⟩⟩

/-- An iteration that comes to its end has come to everything. -/
private theorem iteration_cases {l : List FsPath} {r : List FsPath × Bool}
    (h : (∃ r₀, (r₀, v') = (v.iterate p l, v) ∧ r.1.Perm r₀.1 ∧ r.2 = r₀.2) ∨
      F ∧ r.2 = false ∧ r.1.Subperm l ∧ v' = v) :
    v' = v ∧ r.1.Subperm l ∧ (r.2 = true → v.kind p = some true ∧ r.1.Perm l) ∧
      (r.2 = false → F ∨ v.kind p ≠ some true) := by
  rcases h with ⟨r₀, h, hperm, hend⟩ | ⟨hF, hr, hsub, hv⟩
  · obtain ⟨rfl, rfl⟩ := Prod.mk.inj h
    unfold Volume.iterate at hperm hend
    by_cases hp : v'.kind p = some true
    · rw [if_pos hp] at hperm hend
      refine ⟨rfl, hperm.subperm, fun _ => ⟨hp, hperm⟩, fun hf => ?_⟩
      rw [hend] at hf
      cases hf
    · rw [if_neg hp] at hperm hend
      refine ⟨rfl, hperm.subperm.trans List.nil_subperm, fun ht => ?_, fun _ => .inr hp⟩
      rw [hend] at ht
      cases ht
  · refine ⟨hv, hsub, fun ht => ?_, fun _ => .inl hF⟩
    rw [hr] at ht
    cases ht

theorem card_directory_iterator {r : List FsPath × Bool}
    (h : card F v (.directory_iterator p) r v') :
    v' = v ∧ r.1.Subperm (v.children p) ∧
      (r.2 = true → v.kind p = some true ∧ r.1.Perm (v.children p)) ∧
      (r.2 = false → F ∨ v.kind p ≠ some true) := iteration_cases h

theorem card_recursive_directory_iterator {skip : Option FsPath} {r : List FsPath × Bool}
    (h : card F v (.recursive_directory_iterator p skip) r v') :
    v' = v ∧ r.1.Subperm (v.descendants p skip) ∧
      (r.2 = true → v.kind p = some true ∧ r.1.Perm (v.descendants p skip)) ∧
      (r.2 = false → F ∨ v.kind p ≠ some true) := iteration_cases h

/-- What a deletion can do. -/
theorem Volume.remove_cases (v : Volume fold) (p : FsPath) :
    ((v.remove p).1 = some true ∧ v.tree.get (key fold p) ≠ none ∧
      ∀ q, (v.remove p).2.at_ q = if q = key fold p then none else v.at_ q) ∨
    ((v.remove p).1 = some false ∧ v.tree.get (key fold p) = none ∧ (v.remove p).2 = v) ∨
    ((v.remove p).1 = none ∧ (v.remove p).2 = v ∧ v.tree.get (key fold p) ≠ none ∧
      ¬ v.tree.CanDel (key fold p)) := by
  unfold Volume.remove
  by_cases hnone : v.tree.get (key fold p) = none
  · rw [if_pos hnone]
    exact .inr (.inl ⟨rfl, hnone, rfl⟩)
  · rw [if_neg hnone]
    by_cases hdel : v.tree.CanDel (key fold p)
    · rw [dif_pos hdel]
      exact .inl ⟨rfl, hnone, v.at_del _ hdel⟩
    · rw [dif_neg hdel]
      exact .inr (.inr ⟨rfl, rfl, hnone, hdel⟩)

theorem card_remove {r : Option Bool} (h : card F v (.remove p) r v') :
    (r = (v.remove p).1 ∧ v' = (v.remove p).2) ∨ F ∧ r = none ∧ v' = v := by
  rcases h with ⟨r₀, h, hr⟩ | ⟨hF, hr, hv⟩
  · obtain ⟨rfl, rfl⟩ := Prod.mk.inj h
    exact .inl ⟨hr, rfl⟩
  · exact .inr ⟨hF, hr, hv⟩

/-- Every call may work. -/
theorem card_answer (F : Prop) (v : Volume fold) (fn : Fn) :
    card F v fn (answer v fn).1 (answer v fn).2 := by
  refine .inl ⟨_, rfl, ?_⟩
  cases fn with
  | directory_iterator p => exact ⟨List.Perm.refl _, rfl⟩
  | recursive_directory_iterator p skip => exact ⟨List.Perm.refl _, rfl⟩
  | _ => rfl

/-- What can happen without failures can happen. -/
theorem card_of_false {fn : Fn} {r : fn.Res} (h : card False v fn r v') : card F v fn r v' := by
  rcases h with h | ⟨hF, -⟩
  · exact .inl h
  · exact hF.elim

end effects

end Explorer
