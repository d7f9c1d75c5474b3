/-
# The file-system calls of the application and the SD card they act on

The application runs under Horizon and reaches the card through the native file-system
service and through the C library.  A call works as documented or, where the fault model
lets it, fails; a recursive deletion and a write may also stop part way.  A new file of a
given size holds zero bytes.  Closing a handle returns nothing and is left out.
-/
import AioMod.FatFs

/-! ## The interface -/

/-- The calls. -/
inductive HFn : Type where
  | fsdevGetDeviceFileSystem
  | fsFsGetEntryType (p : FsPath)
  | fsFsOpenDirectory (p : FsPath)
  | fsDirRead (p : FsPath)
  | fsFsCreateDirectory (p : FsPath)
  | fsFsDeleteDirectory (p : FsPath)
  | fsFsCleanDirectoryRecursively (p : FsPath)
  | fsFsDeleteFile (p : FsPath)
  | fsFsCreateFile (p : FsPath) (size : ℕ)
  | fsFsOpenFile (p : FsPath)
  | fsFileGetSize (p : FsPath)
  | fsFileRead (p : FsPath) (n : ℕ)
  | fsFileWrite (p : FsPath) (ofs : ℕ) (data : Bytes)
  | fsFileFlush (p : FsPath)
  | fsFsRenameFile (old new : FsPath)
  | fsFsCommit
  | fopen (p : FsPath)
  | fread (p : FsPath) (n : ℕ)
  deriving DecidableEq

/-- What a call returns: a `Result` is a `Bool`, a value comes only with success. -/
@[reducible] def HFn.Res : HFn → Type
  | fsFsGetEntryType _ => Option Bool
  | fsDirRead _ => Option ℕ
  | fsFileGetSize _ => Option ℕ
  | fsFileRead _ _ => Option Bytes
  | fread _ _ => Bytes
  | _ => Bool

/-- The interface of the application. -/
@[reducible] def Horizon : Interface := ⟨HFn, HFn.Res⟩

/-- Make a call. -/
def hcall (fn : HFn) : Prog Horizon fn.Res := Prog.op (I := Horizon) fn

/-! ## What a call does -/

namespace SD

/-- A part of the file at `p` is written over. -/
def overwrite (σ : SD) (p : FsPath) (ofs : ℕ) (data : Bytes) : Option SD :=
  match σ.get p with
  | some (.file b) =>
    if h : σ.CanPut p ∧ ofs + data.length ≤ b.length then
      some (σ.put p (.file (b.take ofs ++ data ++ b.drop (ofs + data.length))) h.1)
    else none
  | _ => none

/-- Where something new can be created. -/
theorem canPut_of_free {σ : SD} {p : FsPath} (h : σ.get p = none ∧ σ.CanPut p) : σ.CanPut p := h.2

/-- The result and the effect of a call that works. -/
def hanswer (σ : SD) : (fn : HFn) → fn.Res × SD
  | .fsdevGetDeviceFileSystem => (true, σ)
  | .fsFsGetEntryType p => ((σ.get p).map Entry.isDir, σ)
  | .fsFsOpenDirectory p => (σ.get p = some .dir, σ)
  | .fsDirRead p => (if σ.get p = some .dir then some (min 1 (σ.names p).length) else none, σ)
  | .fsFsCreateDirectory p =>
    if h : σ.get p = none ∧ σ.CanPut p then (true, σ.put p .dir (canPut_of_free h)) else (false, σ)
  | .fsFsDeleteDirectory p =>
    if h : σ.get p = some .dir ∧ σ.CanDel p then (true, σ.del p h.2) else (false, σ)
  | .fsFsCleanDirectoryRecursively p =>
    if σ.get p = some .dir then (true, σ.clear p) else (false, σ)
  | .fsFsDeleteFile p =>
    if h : (σ.get p).map Entry.isDir = some false ∧ σ.CanDel p then (true, σ.del p h.2)
    else (false, σ)
  | .fsFsCreateFile p size =>
    if h : σ.get p = none ∧ σ.CanPut p then
      (true, σ.put p (.file (List.replicate size 0)) (canPut_of_free h))
    else (false, σ)
  | .fsFsOpenFile p => ((σ.get p).map Entry.isDir = some false, σ)
  | .fsFileGetSize p =>
    match σ.get p with
    | some (.file b) => (some b.length, σ)
    | _ => (none, σ)
  | .fsFileRead p n =>
    match σ.get p with
    | some (.file b) => (some (b.take n), σ)
    | _ => (none, σ)
  | .fsFileWrite p ofs data =>
    match σ.overwrite p ofs data with
    | some σ' => (true, σ')
    | none => (false, σ)
  | .fsFileFlush _ => (true, σ)
  | .fsFsRenameFile old new =>
    if h : (σ.get old).map Entry.isDir = some false ∧ σ.CanMove old new then
      (true, σ.move old new h.2)
    else (false, σ)
  | .fsFsCommit => (true, σ)
  | .fopen p => ((σ.get p).map Entry.isDir = some false, σ)
  | .fread p n =>
    match σ.get p with
    | some (.file b) => (b.take n, σ)
    | _ => ([], σ)

/-- The result of a call that fails. -/
def hfailed : (fn : HFn) → fn.Res
  | .fsFsGetEntryType _ => none
  | .fsDirRead _ => none
  | .fsFileGetSize _ => none
  | .fsFileRead _ _ => none
  | .fread _ _ => []
  | .fsdevGetDeviceFileSystem => false
  | .fsFsOpenDirectory _ => false
  | .fsFsCreateDirectory _ => false
  | .fsFsDeleteDirectory _ => false
  | .fsFsCleanDirectoryRecursively _ => false
  | .fsFsDeleteFile _ => false
  | .fsFsCreateFile _ _ => false
  | .fsFsOpenFile _ => false
  | .fsFileWrite _ _ _ => false
  | .fsFileFlush _ => false
  | .fsFsRenameFile _ _ => false
  | .fsFsCommit => false
  | .fopen _ => false

/-- What a call that fails part way may leave behind. -/
def HStops (σ : SD) : HFn → SD → Prop
  | .fsFsCleanDirectoryRecursively p, σ' =>
    ∀ q, σ'.get q = σ.get q ∨ p <+: q ∧ q ≠ p ∧ σ'.get q = none
  | .fsFileWrite p ofs data, σ' => ∃ n ≤ data.length, σ.overwrite p ofs (data.take n) = some σ'
  | _, _ => False

end SD

/-- The application's machine under a fault model. -/
def horizon (fails : SD → HFn → Prop) : Machine Horizon SD := fun σ fn r σ' =>
  (r, σ') = σ.hanswer fn ∨ fails σ fn ∧ r = SD.hfailed fn ∧ (σ' = σ ∨ σ.HStops fn σ')

/-- Every call works. -/
def allWork : SD → HFn → Prop := fun _ _ => False

/-- The power may go inside a recursive deletion, and every other call works. -/
def cleaningMayStop : SD → HFn → Prop := fun _ fn =>
  ∃ p, fn = .fsFsCleanDirectoryRecursively p

/-! ## What a call can do -/

section effects

variable {F : SD → HFn → Prop} {σ σ' : SD} {p q : FsPath}

/-- The rule of a single call. -/
theorem wp_hcall {fn : HFn} {C : SD → Prop} {Q : fn.Res → SD → Prop} (hC : C σ)
    (hQ : ∀ r σ', horizon F σ fn r σ' → C σ' ∧ Q r σ') :
    wp (horizon F) C Q (hcall fn) σ :=
  (wp_op (I := Horizon) _).mpr ⟨hC, hQ⟩

/-- The calls that leave the card as it is. -/
def HFn.readOnly : HFn → Bool
  | .fsdevGetDeviceFileSystem => true
  | .fsFsGetEntryType _ => true
  | .fsFsOpenDirectory _ => true
  | .fsDirRead _ => true
  | .fsFsOpenFile _ => true
  | .fsFileGetSize _ => true
  | .fsFileRead _ _ => true
  | .fsFileFlush _ => true
  | .fsFsCommit => true
  | .fopen _ => true
  | .fread _ _ => true
  | _ => false

/-- A call that only looks answers from the card, or fails. -/
theorem horizon_readOnly {fn : HFn} (hfn : fn.readOnly = true) {r : fn.Res}
    (h : horizon F σ fn r σ') :
    σ' = σ ∧ (r = (σ.hanswer fn).1 ∨ F σ fn ∧ r = SD.hfailed fn) := by
  have hsame : (σ.hanswer fn).2 = σ ∧ ¬ σ.HStops fn σ' := by
    cases fn with
    | fsFsCreateDirectory | fsFsDeleteDirectory | fsFsCleanDirectoryRecursively | fsFsDeleteFile
    | fsFsCreateFile | fsFileWrite | fsFsRenameFile => cases hfn
    | fsFileGetSize | fsFileRead | fread =>
      refine ⟨?_, id⟩
      simp only [SD.hanswer]
      split <;> rfl
    | fsdevGetDeviceFileSystem | fsFsGetEntryType | fsFsOpenDirectory | fsDirRead | fsFsOpenFile
    | fsFileFlush | fsFsCommit | fopen => exact ⟨rfl, id⟩
  rcases h with h | ⟨hF, hr, h | h⟩
  · obtain ⟨rfl, rfl⟩ := Prod.mk.inj h
    exact ⟨hsame.1, .inl rfl⟩
  · exact ⟨h, .inr ⟨hF, hr⟩⟩
  · exact absurd h hsame.2

/-- A deleted file is gone; nothing else changes. -/
theorem horizon_fsFsDeleteFile {r : Bool} (h : horizon F σ (.fsFsDeleteFile p) r σ') :
    (r = true ∧ (∃ b, σ.get p = some (.file b)) ∧
      ∀ q, σ'.get q = if q = p then none else σ.get q) ∨
    (r = false ∧ σ' = σ ∧ (F σ (.fsFsDeleteFile p) ∨ ∀ b, σ.get p ≠ some (.file b))) := by
  rcases h with h | ⟨hF, hr, h | h⟩
  · simp only [SD.hanswer] at h
    split at h
    · next hp =>
      cases h
      obtain ⟨e, he, hd⟩ := Option.map_eq_some_iff.mp hp.1
      cases e with
      | dir => cases hd
      | file b => exact .inl ⟨rfl, ⟨b, he⟩, fun q => rfl⟩
    · next hp =>
      cases h
      refine .inr ⟨rfl, rfl, .inr fun b hb => hp ⟨by simp [hb, Entry.isDir], ?_, ?_⟩⟩
      · rintro rfl
        rw [σ.root] at hb
        cases hb
      · refine FileTree.childless_iff.mpr fun k => ?_
        exact FileTree.get_append_of_not_dir (by simp [hb]) (by simp)
  · exact .inr ⟨hr, h, .inl hF⟩
  · exact h.elim

theorem horizon_fsFsCreateDirectory {r : Bool} (h : horizon F σ (.fsFsCreateDirectory p) r σ') :
    (r = true ∧ σ.get p = none ∧ σ.CanPut p ∧
      ∀ q, σ'.get q = if q = p then some .dir else σ.get q) ∨
    (r = false ∧ σ' = σ ∧
      (F σ (.fsFsCreateDirectory p) ∨ σ.get p ≠ none ∨ ¬ σ.CanPut p)) := by
  rcases h with h | ⟨hF, hr, h | h⟩
  · simp only [SD.hanswer] at h
    split at h
    · next hp => cases h; exact .inl ⟨rfl, hp.1, hp.2, fun q => rfl⟩
    · next hp =>
      cases h
      exact .inr ⟨rfl, rfl, .inr (not_and_or.mp hp)⟩
  · exact .inr ⟨hr, h, .inl hF⟩
  · exact h.elim

theorem horizon_fsFsDeleteDirectory {r : Bool} (h : horizon F σ (.fsFsDeleteDirectory p) r σ') :
    (r = true ∧ σ.get p = some .dir ∧ ∀ q, σ'.get q = if q = p then none else σ.get q) ∨
    (r = false ∧ σ' = σ ∧
      (F σ (.fsFsDeleteDirectory p) ∨ σ.get p ≠ some .dir ∨ ¬ σ.CanDel p)) := by
  rcases h with h | ⟨hF, hr, h | h⟩
  · simp only [SD.hanswer] at h
    split at h
    · next hp => cases h; exact .inl ⟨rfl, hp.1, fun q => rfl⟩
    · next hp =>
      cases h
      exact .inr ⟨rfl, rfl, .inr (not_and_or.mp hp)⟩
  · exact .inr ⟨hr, h, .inl hF⟩
  · exact h.elim

/-- A recursive cleaning deletes below its directory only; when it works it deletes
everything there. -/
theorem horizon_fsFsCleanDirectoryRecursively {r : Bool}
    (h : horizon F σ (.fsFsCleanDirectoryRecursively p) r σ') :
    (∀ q, σ'.get q = σ.get q ∨ p <+: q ∧ q ≠ p ∧ σ'.get q = none) ∧
      (r = true → σ.get p = some .dir ∧ ∀ q, p <+: q → q ≠ p → σ'.get q = none) ∧
      (r = false → F σ (.fsFsCleanDirectoryRecursively p) ∨ σ.get p ≠ some .dir) := by
  rcases h with h | ⟨hF, hr, h | h⟩
  · simp only [SD.hanswer] at h
    split at h
    · next hp =>
      cases h
      refine ⟨fun q => ?_, fun _ => ⟨hp, fun q hq hne => ?_⟩, by simp⟩
      · rw [FileTree.get_clear]
        split
        · next hq => exact .inr ⟨hq.1, hq.2, rfl⟩
        · exact .inl rfl
      · rw [FileTree.get_clear, if_pos ⟨hq, hne⟩]
    · next hp =>
      cases h
      exact ⟨fun q => .inl rfl, by simp, fun _ => .inr hp⟩
  · have hr : r = false := hr
    exact ⟨fun q => .inl (by rw [h]), by simp [hr], fun _ => .inl hF⟩
  · have hr : r = false := hr
    exact ⟨h, by simp [hr], fun _ => .inl hF⟩

theorem horizon_fsFsCreateFile {size : ℕ} {r : Bool}
    (h : horizon F σ (.fsFsCreateFile p size) r σ') :
    (r = true ∧ σ.get p = none ∧ σ.CanPut p ∧
      ∀ q, σ'.get q = if q = p then some (.file (List.replicate size 0)) else σ.get q) ∨
    (r = false ∧ σ' = σ ∧
      (F σ (.fsFsCreateFile p size) ∨ σ.get p ≠ none ∨ ¬ σ.CanPut p)) := by
  rcases h with h | ⟨hF, hr, h | h⟩
  · simp only [SD.hanswer] at h
    split at h
    · next hp => cases h; exact .inl ⟨rfl, hp.1, hp.2, fun q => rfl⟩
    · next hp =>
      cases h
      exact .inr ⟨rfl, rfl, .inr (not_and_or.mp hp)⟩
  · exact .inr ⟨hr, h, .inl hF⟩
  · exact h.elim

theorem horizon_fsFsRenameFile {old new : FsPath} {r : Bool}
    (h : horizon F σ (.fsFsRenameFile old new) r σ') :
    (r = true ∧ ∃ hm : σ.CanMove old new, σ' = σ.move old new hm) ∨
    (r = false ∧ σ' = σ ∧ (F σ (.fsFsRenameFile old new) ∨ (∀ b, σ.get old ≠ some (.file b)) ∨
      ¬ σ.CanMove old new)) := by
  rcases h with h | ⟨hF, hr, h | h⟩
  · simp only [SD.hanswer] at h
    split at h
    · next hp => cases h; exact .inl ⟨rfl, hp.2, rfl⟩
    · next hp =>
      cases h
      refine .inr ⟨rfl, rfl, .inr ?_⟩
      by_contra hcon
      push Not at hcon
      obtain ⟨⟨b, hb⟩, hm⟩ := hcon
      exact hp ⟨by simp [hb, Entry.isDir], hm⟩
  · exact .inr ⟨hr, h, .inl hF⟩
  · exact h.elim

theorem SD.overwrite_eq_some {ofs : ℕ} {data : Bytes} (h : σ.overwrite p ofs data = some σ') :
    ∃ b, σ.get p = some (.file b) ∧ ofs + data.length ≤ b.length ∧ ∀ q, σ'.get q =
      if q = p then some (.file (b.take ofs ++ data ++ b.drop (ofs + data.length)))
      else σ.get q := by
  unfold SD.overwrite at h
  split at h
  · next b hb =>
    split at h
    · next hp => cases h; exact ⟨b, hb, hp.2, fun q => rfl⟩
    · cases h
  · cases h

theorem SD.overwrite_isSome {ofs : ℕ} {data b : Bytes} (h : σ.get p = some (.file b))
    (hlen : ofs + data.length ≤ b.length) : ∃ σ', σ.overwrite p ofs data = some σ' := by
  have hc : σ.CanPut p := by
    have hp : p ≠ [] := by
      rintro rfl
      rw [σ.root] at h
      cases h
    exact ⟨hp, σ.parent p hp (by simp [h]), by simp [h]⟩
  simp [SD.overwrite, h, hc, hlen]

/-- A write into the space of a file. -/
theorem horizon_fsFileWrite {ofs : ℕ} {data b : Bytes} {r : Bool}
    (hb : σ.get p = some (.file b)) (hlen : ofs + data.length ≤ b.length)
    (h : horizon F σ (.fsFileWrite p ofs data) r σ') :
    ∃ n ≤ data.length, (∀ q, σ'.get q = if q = p then
        some (.file (b.take ofs ++ data.take n ++ b.drop (ofs + n))) else σ.get q) ∧
      (r = true ∧ n = data.length ∨ r = false ∧ F σ (.fsFileWrite p ofs data)) := by
  rcases h with h | ⟨hF, hr, h | ⟨n, hn, h⟩⟩
  · obtain ⟨τ, hτ⟩ := SD.overwrite_isSome hb hlen
    simp only [SD.hanswer, hτ] at h
    cases h
    obtain ⟨b', hb', -, hget⟩ := SD.overwrite_eq_some hτ
    rw [hb] at hb'
    cases hb'
    exact ⟨data.length, le_rfl, by simpa using hget, .inl ⟨rfl, rfl⟩⟩
  · subst h
    refine ⟨0, Nat.zero_le _, fun q => ?_, .inr ⟨hr, hF⟩⟩
    split
    · next hq => simp [hq, hb]
    · rfl
  · obtain ⟨b', hb', -, hget⟩ := SD.overwrite_eq_some h
    rw [hb] at hb'
    cases hb'
    refine ⟨n, hn, fun q => ?_, .inr ⟨hr, hF⟩⟩
    rw [hget q, List.length_take, min_eq_left hn]

end effects
