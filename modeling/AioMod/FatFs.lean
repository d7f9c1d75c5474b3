/-
# The FatFs calls of the payload and the SD card they act on

The SD card is a file tree.  A path is written in the folded spelling in which
FAT compares names; the spelling a directory listing reports is any spelling
that folds to the stored one.  Every call is one indivisible step.  A call works
as FatFs documents it, or, where the fault model lets it, fails without effect;
a write made inside a file copy may also stop part way.

A `FIL` is identified by its path: the payload never opens one file twice at a
time, and writes only files it has just created, front to back.
-/
import AioMod.CrashProg
import AioMod.FileTree

/-! ## Names, contents and result codes -/

abbrev Name := String

abbrev FsPath := List Name

abbrev Bytes := List UInt8

/-- The SD card. -/
abbrev SD := FileTree Name Bytes

/-- The bytes of an ASCII literal. -/
def ascii (s : String) : Bytes := s.toList.map fun c => c.toNat.toUInt8

/-- A hexadecimal digit, as a small letter from ten on. -/
def hexDigit (d : ℕ) : UInt8 := if d < 10 then UInt8.ofNat (48 + d) else UInt8.ofNat (87 + d)

/-- A file with content stands at a path. -/
def NonEmpty (σ : SD) (p : FsPath) : Prop := ∃ b, b ≠ [] ∧ σ.get p = some (.file b)

theorem NonEmpty.ne_none {σ : SD} {p : FsPath} (h : NonEmpty σ p) : σ.get p ≠ none := by
  obtain ⟨b, -, hget⟩ := h
  rw [hget]
  exact Option.some_ne_none _

theorem NonEmpty.touched {σ σ₁ : SD} {p : FsPath} {ps : List FsPath} (h : NonEmpty σ p)
    (ht : FileTree.Touch ps σ σ₁) (hp : ∀ m ∈ ps, ¬ m <+: p) : NonEmpty σ₁ p := by
  obtain ⟨b, hb, hget⟩ := h
  exact ⟨b, hb, (ht.get hp).trans hget⟩

/-- The spelling FAT compares names in. -/
def fold (s : String) : Name := String.ofList (s.toList.map Char.toLower)

/-- `FRESULT` of `ff.h`, and the codes of `err.h` that are cast to it. -/
inductive FRESULT : Type where
  | FR_OK | FR_DISK_ERR | FR_INT_ERR | FR_NOT_READY | FR_NO_FILE | FR_NO_PATH
  | FR_INVALID_NAME | FR_DENIED | FR_EXIST | FR_INVALID_OBJECT | FR_WRITE_PROTECTED
  | FR_INVALID_DRIVE | FR_NOT_ENABLED | FR_NO_FILESYSTEM | FR_MKFS_ABORTED | FR_TIMEOUT
  | FR_LOCKED | FR_NOT_ENOUGH_CORE | FR_TOO_MANY_OPEN_FILES | FR_INVALID_PARAMETER
  | TE_ERR_SAME_LOC
  deriving DecidableEq, Repr

/-- The fields of `FILINFO` the updaters read. -/
structure FILINFO where
  isDir : Bool
  fsize : ℕ
  deriving DecidableEq

/-- The fields of `FSEntry_t` the updaters read. -/
structure FSEntry_t where
  name : String
  isDir : Bool
  deriving DecidableEq

/-- `CombinePaths` of `fsutils.c`. -/
def CombinePaths (current : FsPath) (add : String) : FsPath := current ++ [fold add]

/-! ## The interface -/

/-- The calls. `hang` stands for a computation that does not come back. -/
inductive Fn : Type where
  | f_stat (p : FsPath)
  | f_mkdir (p : FsPath)
  | f_unlink (p : FsPath)
  | f_rename (old new : FsPath)
  | f_open (p : FsPath)
  | f_create (p : FsPath)
  | f_read (p : FsPath) (ofs btr : ℕ)
  | f_write (p : FsPath) (data : Bytes)
  | f_sync (p : FsPath)
  | f_close (p : FsPath)
  | f_chmod (p : FsPath)
  | ReadFolder (p : FsPath)
  | malloc (n : ℕ)
  | launch_payload (p : FsPath)
  | hang
  deriving DecidableEq

/-- What a call returns. -/
@[reducible] def Fn.Res : Fn → Type
  | f_stat _ => Except FRESULT FILINFO
  | f_open _ => Except FRESULT ℕ
  | f_read _ _ _ => Except FRESULT Bytes
  | f_write _ _ => FRESULT × ℕ
  | ReadFolder _ => Except FRESULT (List FSEntry_t)
  | malloc _ => Bool
  | launch_payload _ => Bool
  | hang => Empty
  | _ => FRESULT

/-- Where a call is made from: inside `path_exists`, inside the copy routines, or
anywhere else. -/
inductive Site : Type where
  | probe | copy | other
  deriving DecidableEq

/-- A call and the place it is made from. -/
structure Op where
  site : Site
  fn : Fn
  deriving DecidableEq

/-- The interface of the payload. -/
@[reducible] def FatFs : Interface := ⟨Op, fun o => o.fn.Res⟩

/-- Make a call. -/
def call (fn : Fn) : Prog FatFs fn.Res := Prog.op (I := FatFs) ⟨.other, fn⟩

/-- Make a call from inside the copy routines. -/
def copyCall (fn : Fn) : Prog FatFs fn.Res := Prog.op (I := FatFs) ⟨.copy, fn⟩

/-- Make a call from inside `path_exists`. -/
def probeCall (fn : Fn) : Prog FatFs fn.Res := Prog.op (I := FatFs) ⟨.probe, fn⟩

/-! ## What a call does when it works -/

namespace SD

/-- The code for a path where nothing stands. -/
def missing (σ : SD) (p : FsPath) : FRESULT :=
  if σ.get p.dropLast = some .dir then .FR_NO_FILE else .FR_NO_PATH

theorem missing_ne_ok (σ : SD) (p : FsPath) : σ.missing p ≠ .FR_OK := by
  unfold missing
  split <;> simp

/-- The result of `f_stat`. -/
def stat (σ : SD) (p : FsPath) : Except FRESULT FILINFO :=
  match σ.get p with
  | some .dir => .ok ⟨true, 0⟩
  | some (.file b) => .ok ⟨false, b.length⟩
  | none => .error (σ.missing p)

/-- `l` lists the directory `p`: each child once, in any order and any spelling. -/
def IsListing (σ : SD) (p : FsPath) (l : List FSEntry_t) : Prop :=
  (l.map fun e => fold e.name).Nodup ∧
    (∀ e ∈ l, (σ.get (CombinePaths p e.name)).map Entry.isDir = some e.isDir) ∧
      ∀ k ∈ σ.names p, k ∈ l.map fun e => fold e.name

instance (σ : SD) (p : FsPath) (l : List FSEntry_t) : Decidable (σ.IsListing p l) :=
  inferInstanceAs (Decidable (_ ∧ _ ∧ _))

/-- The tree after `f_write` of `data` to the file at `p`. -/
def append (σ : SD) (p : FsPath) (data : Bytes) : Option SD :=
  match σ.get p with
  | some (.file b) => if h : σ.CanPut p then some (σ.put p (.file (b ++ data)) h) else none
  | _ => none

/-- The children of `p` in the order and the spelling they are stored in. -/
def list (σ : SD) (p : FsPath) : List FSEntry_t :=
  (σ.names p).map fun k => ⟨k, ((σ.get (p ++ [k])).map Entry.isDir).getD false⟩

/-- The result and the effect of a call that works.  A listing is given in the
stored order here; `Works` lets it come in any order. -/
def answer (σ : SD) : (fn : Fn) → Option (fn.Res × SD)
  | .f_stat p => some (σ.stat p, σ)
  | .f_mkdir p =>
    if h : σ.get p = none ∧ σ.CanPut p then some (.FR_OK, σ.put p .dir h.2)
    else some (if σ.get p = none then .FR_NO_PATH else .FR_EXIST, σ)
  | .f_unlink p =>
    if h : σ.get p ≠ none ∧ σ.CanDel p then some (.FR_OK, σ.del p h.2)
    else some (if σ.get p = none then σ.missing p else .FR_DENIED, σ)
  | .f_rename old new =>
    if h : σ.CanMove old new then some (.FR_OK, σ.move old new h)
    else some (if σ.get old = none then σ.missing old
      else if σ.get new = none then .FR_NO_PATH else .FR_EXIST, σ)
  | .f_open p =>
    match σ.get p with
    | some (.file b) => some (.ok b.length, σ)
    | some .dir => some (.error .FR_NO_FILE, σ)
    | none => some (.error (σ.missing p), σ)
  | .f_create p =>
    if h : σ.CanPut p then some (.FR_OK, σ.put p (.file []) h)
    else some (if σ.get p = none then .FR_NO_PATH else .FR_DENIED, σ)
  | .f_read p ofs btr =>
    match σ.get p with
    | some (.file b) => some (.ok ((b.drop ofs).take btr), σ)
    | _ => some (.error .FR_INVALID_OBJECT, σ)
  | .f_write p data =>
    match σ.append p data with
    | some σ' => some ((.FR_OK, data.length), σ')
    | none => some ((.FR_INVALID_OBJECT, 0), σ)
  | .f_sync _ => some (.FR_OK, σ)
  | .f_close _ => some (.FR_OK, σ)
  | .f_chmod p => some (if σ.get p = none then σ.missing p else .FR_OK, σ)
  | .ReadFolder p =>
    some (if σ.get p = some .dir then .ok (σ.list p) else .error .FR_NO_PATH, σ)
  | .malloc _ => some (true, σ)
  | .launch_payload p => some ((σ.stat p).toOption.any fun i => !i.isDir, σ)
  | .hang => none

/-- `fn` works in `σ`, returning `r` and leaving `σ'`. -/
def Works (σ : SD) : (fn : Fn) → fn.Res → SD → Prop
  | .ReadFolder p, r, σ' =>
    σ' = σ ∧ if σ.get p = some .dir then ∃ l, r = .ok l ∧ σ.IsListing p l
      else r = .error .FR_NO_PATH
  | fn, r, σ' => σ.answer fn = some (r, σ')

/-- `fn` fails in `σ` without effect, returning `r`. -/
def Fails : (fn : Fn) → fn.Res → Prop
  | .f_stat _, r => ∃ e, e ≠ FRESULT.FR_OK ∧ r = .error e
  | .f_open _, r => ∃ e, e ≠ FRESULT.FR_OK ∧ r = .error e
  | .f_read _ _ _, r => ∃ e, e ≠ FRESULT.FR_OK ∧ r = .error e
  | .ReadFolder _, r => ∃ e, e ≠ FRESULT.FR_OK ∧ r = .error e
  | .f_write _ _, r => r.1 ≠ FRESULT.FR_OK ∧ r.2 = 0
  | .malloc _, r => r = false
  | .launch_payload _, r => r = false
  | .hang, _ => False
  | .f_mkdir _, r => r ≠ FRESULT.FR_OK
  | .f_unlink _, r => r ≠ FRESULT.FR_OK
  | .f_rename _ _, r => r ≠ FRESULT.FR_OK
  | .f_create _, r => r ≠ FRESULT.FR_OK
  | .f_sync _, r => r ≠ FRESULT.FR_OK
  | .f_close _, r => r ≠ FRESULT.FR_OK
  | .f_chmod _, r => r ≠ FRESULT.FR_OK

/-- A write stops part way: a prefix of the data reaches the file, and the call
returns an error or a short count. -/
def Stops (σ : SD) : (fn : Fn) → fn.Res → SD → Prop
  | .f_write p data, r, σ' =>
    r.2 ≤ data.length ∧ (r.1 ≠ FRESULT.FR_OK ∨ r.2 < data.length) ∧
      σ.append p (data.take r.2) = some σ'
  | _, _, _ => False

end SD

/-- The payload's machine under a fault model: `fails σ o` says that the call `o`
made in `σ` need not work. -/
def payload (fails : SD → Op → Prop) : Machine FatFs SD := fun σ o r σ' =>
  σ.Works o.fn r σ' ∨
    fails σ o ∧ (SD.Fails o.fn r ∧ σ' = σ ∨ o.site = .copy ∧ σ.Stops o.fn r σ')

/-- The fault model in which a file copy may stop part way and return an error,
and every other call works. -/
def copiesMayFail : SD → Op → Prop := fun _ o => o.site = .copy

/-! ## What a call can do -/

section effects

variable {F : SD → Op → Prop} {σ σ' : SD} {s : Site} {p q : FsPath}

/-- A call that stops part way is a write made inside the copy routines. -/
theorem payload_cases {fn : Fn} {r : fn.Res} (h : payload F σ ⟨s, fn⟩ r σ')
    (hfn : ∀ p data, fn ≠ .f_write p data) :
    σ.Works fn r σ' ∨ F σ ⟨s, fn⟩ ∧ SD.Fails fn r ∧ σ' = σ := by
  rcases h with h | ⟨hF, h | ⟨-, h⟩⟩
  · exact .inl h
  · exact .inr ⟨hF, h⟩
  · cases fn <;> first | exact h.elim | exact absurd rfl (hfn _ _)

theorem payload_f_stat {r : Except FRESULT FILINFO} (h : payload F σ ⟨s, .f_stat p⟩ r σ') :
    σ' = σ ∧ (r = σ.stat p ∨ F σ ⟨s, .f_stat p⟩ ∧ ∃ e, e ≠ .FR_OK ∧ r = .error e) := by
  rcases payload_cases h (by simp) with h | ⟨hF, hf, rfl⟩
  · cases h
    exact ⟨rfl, .inl rfl⟩
  · exact ⟨rfl, .inr ⟨hF, hf⟩⟩

theorem payload_f_open {r : Except FRESULT ℕ} (h : payload F σ ⟨s, .f_open p⟩ r σ') :
    σ' = σ ∧ ((∃ b, σ.get p = some (.file b) ∧ r = .ok b.length) ∨
      (∃ e, e ≠ .FR_OK ∧ r = .error e) ∧
        (F σ ⟨s, .f_open p⟩ ∨ ∀ b, σ.get p ≠ some (.file b))) := by
  rcases payload_cases h (by simp) with h | ⟨hF, ⟨e, hne, he⟩, rfl⟩
  · simp only [SD.Works, SD.answer] at h
    split at h
    · next b hb => cases h; exact ⟨rfl, .inl ⟨b, hb, rfl⟩⟩
    · next hb => cases h; exact ⟨rfl, .inr ⟨⟨_, by simp, rfl⟩, .inr (by simp [hb])⟩⟩
    · next hb => cases h; exact ⟨rfl, .inr ⟨⟨_, σ.missing_ne_ok p, rfl⟩, .inr (by simp [hb])⟩⟩
  · exact ⟨rfl, .inr ⟨⟨e, hne, he⟩, .inl hF⟩⟩

theorem payload_f_read {ofs btr : ℕ} {r : Except FRESULT Bytes}
    (h : payload F σ ⟨s, .f_read p ofs btr⟩ r σ') :
    σ' = σ ∧ ((∃ b, σ.get p = some (.file b) ∧ r = .ok ((b.drop ofs).take btr)) ∨
      (∃ e, e ≠ .FR_OK ∧ r = .error e) ∧
        (F σ ⟨s, .f_read p ofs btr⟩ ∨ ∀ b, σ.get p ≠ some (.file b))) := by
  rcases payload_cases h (by simp) with h | ⟨hF, ⟨e, hne, he⟩, rfl⟩
  · simp only [SD.Works, SD.answer] at h
    split at h
    · next b hb => cases h; exact ⟨rfl, .inl ⟨b, hb, rfl⟩⟩
    · next hb => cases h; exact ⟨rfl, .inr ⟨⟨_, by simp, rfl⟩, .inr hb⟩⟩
  · exact ⟨rfl, .inr ⟨⟨e, hne, he⟩, .inl hF⟩⟩

theorem payload_f_mkdir {r : FRESULT} (h : payload F σ ⟨s, .f_mkdir p⟩ r σ') :
    (r = .FR_OK ∧ σ.get p = none ∧ σ.CanPut p ∧
      ∀ q, σ'.get q = if q = p then some .dir else σ.get q) ∨
    (r ≠ .FR_OK ∧ σ' = σ ∧ (F σ ⟨s, .f_mkdir p⟩ ∨ r = .FR_EXIST ∧ σ.get p ≠ none ∨
      r = .FR_NO_PATH ∧ σ.get p = none ∧ ¬ σ.CanPut p)) := by
  rcases payload_cases h (by simp) with h | ⟨hF, hf, rfl⟩
  · simp only [SD.Works, SD.answer] at h
    split at h
    · next hp => cases h; exact .inl ⟨rfl, hp.1, hp.2, fun q => rfl⟩
    · next hp =>
      cases h
      right
      by_cases hn : σ.get p = none
      · rw [if_pos hn]
        exact ⟨by simp, rfl, .inr (.inr ⟨rfl, hn, fun hc => hp ⟨hn, hc⟩⟩)⟩
      · rw [if_neg hn]
        exact ⟨by simp, rfl, .inr (.inl ⟨rfl, hn⟩)⟩
  · exact .inr ⟨hf, rfl, .inl hF⟩

theorem payload_f_unlink {r : FRESULT} (h : payload F σ ⟨s, .f_unlink p⟩ r σ') :
    (r = .FR_OK ∧ σ.get p ≠ none ∧ σ.CanDel p ∧
      ∀ q, σ'.get q = if q = p then none else σ.get q) ∨
    (r ≠ .FR_OK ∧ σ' = σ ∧ (F σ ⟨s, .f_unlink p⟩ ∨ r = σ.missing p ∧ σ.get p = none ∨
      ¬ σ.CanDel p)) := by
  rcases payload_cases h (by simp) with h | ⟨hF, hf, rfl⟩
  · simp only [SD.Works, SD.answer] at h
    split at h
    · next hp => cases h; exact .inl ⟨rfl, hp.1, hp.2, fun q => rfl⟩
    · next hp =>
      cases h
      right
      by_cases hn : σ.get p = none
      · rw [if_pos hn]
        exact ⟨SD.missing_ne_ok _ p, rfl, .inr (.inl ⟨rfl, hn⟩)⟩
      · rw [if_neg hn]
        exact ⟨by simp, rfl, .inr (.inr fun hc => hp ⟨hn, hc⟩)⟩
  · exact .inr ⟨hf, rfl, .inl hF⟩

theorem payload_f_rename {old new : FsPath} {r : FRESULT}
    (h : payload F σ ⟨s, .f_rename old new⟩ r σ') :
    (r = .FR_OK ∧ ∃ hm : σ.CanMove old new, σ' = σ.move old new hm) ∨
    (r ≠ .FR_OK ∧ σ' = σ ∧ (F σ ⟨s, .f_rename old new⟩ ∨ ¬ σ.CanMove old new)) := by
  rcases payload_cases h (by simp) with h | ⟨hF, hf, rfl⟩
  · simp only [SD.Works, SD.answer] at h
    split at h
    · next hp => cases h; exact .inl ⟨rfl, hp, rfl⟩
    · next hp =>
      cases h
      refine .inr ⟨?_, rfl, .inr hp⟩
      split
      · exact SD.missing_ne_ok _ old
      · split <;> simp
  · exact .inr ⟨hf, rfl, .inl hF⟩

theorem payload_f_create {r : FRESULT} (h : payload F σ ⟨s, .f_create p⟩ r σ') :
    (r = .FR_OK ∧ σ.CanPut p ∧ ∀ q, σ'.get q = if q = p then some (.file []) else σ.get q) ∨
    (r ≠ .FR_OK ∧ σ' = σ ∧ (F σ ⟨s, .f_create p⟩ ∨ ¬ σ.CanPut p)) := by
  rcases payload_cases h (by simp) with h | ⟨hF, hf, rfl⟩
  · simp only [SD.Works, SD.answer] at h
    split at h
    · next hp => cases h; exact .inl ⟨rfl, hp, fun q => rfl⟩
    · next hp =>
      cases h
      refine .inr ⟨?_, rfl, .inr hp⟩
      split <;> simp
  · exact .inr ⟨hf, rfl, .inl hF⟩

theorem SD.append_eq_some {data : Bytes} (h : σ.append p data = some σ') :
    ∃ b, σ.get p = some (.file b) ∧
      ∀ q, σ'.get q = if q = p then some (.file (b ++ data)) else σ.get q := by
  unfold SD.append at h
  split at h
  · next b hb =>
    split at h
    · cases h; exact ⟨b, hb, fun q => rfl⟩
    · cases h
  · cases h

theorem SD.append_isSome {b : Bytes} (h : σ.get p = some (.file b)) (data : Bytes) :
    ∃ σ', σ.append p data = some σ' := by
  have hc : σ.CanPut p := by
    have hp : p ≠ [] := by
      rintro rfl
      rw [σ.root] at h
      cases h
    exact ⟨hp, σ.parent p hp (by simp [h]), by simp [h]⟩
  exact ⟨σ.put p (.file (b ++ data)) hc, by simp [SD.append, h, hc]⟩

/-- A write to an open file: it appends all the data, or reports that it did not. -/
theorem payload_f_write {data b : Bytes} {r : FRESULT × ℕ} (hb : σ.get p = some (.file b))
    (h : payload F σ ⟨s, .f_write p data⟩ r σ') :
    ∃ n, (∀ q, σ'.get q = if q = p then some (.file (b ++ data.take n)) else σ.get q) ∧
      (r = (.FR_OK, data.length) ∧ data.take n = data ∨
        F σ ⟨s, .f_write p data⟩ ∧ (r.1 ≠ .FR_OK ∨ r.2 ≠ data.length) ∧
          (r.1 ≠ .FR_OK ∧ n = 0 ∨ s = .copy)) := by
  rcases h with h | ⟨hF, ⟨h, rfl⟩ | ⟨hs, hn, hr, h⟩⟩
  · simp only [SD.Works, SD.answer] at h
    obtain ⟨τ, hτ⟩ := SD.append_isSome hb data
    rw [hτ] at h
    cases h
    obtain ⟨b', hb', hget⟩ := SD.append_eq_some hτ
    rw [hb] at hb'
    cases hb'
    exact ⟨data.length, by simpa using hget, .inl ⟨rfl, by simp⟩⟩
  · refine ⟨0, fun q => ?_, .inr ⟨hF, .inl h.1, .inl ⟨h.1, rfl⟩⟩⟩
    by_cases hq : q = p
    · simp [hq, hb]
    · simp [hq]
  · obtain ⟨b', hb', hget⟩ := SD.append_eq_some h
    rw [hb] at hb'
    cases hb'
    exact ⟨r.2, hget, .inr ⟨hF, hr.imp id (fun hlt => by omega), .inr hs⟩⟩

theorem payload_ReadFolder {r : Except FRESULT (List FSEntry_t)}
    (h : payload F σ ⟨s, .ReadFolder p⟩ r σ') :
    σ' = σ ∧ ((∃ l, σ.get p = some .dir ∧ σ.IsListing p l ∧ r = .ok l) ∨
      (∃ e, e ≠ .FR_OK ∧ r = .error e) ∧
        (F σ ⟨s, .ReadFolder p⟩ ∨ σ.get p ≠ some .dir)) := by
  rcases payload_cases h (by simp) with ⟨rfl, h⟩ | ⟨hF, hf, rfl⟩
  · refine ⟨rfl, ?_⟩
    split at h
    · next hd =>
      obtain ⟨l, hr, hl⟩ := h
      exact .inl ⟨l, hd, hl, hr⟩
    · next hd => exact .inr ⟨⟨_, by simp, h⟩, .inr hd⟩
  · exact ⟨rfl, .inr ⟨hf, .inl hF⟩⟩

theorem payload_f_chmod {r : FRESULT} (h : payload F σ ⟨s, .f_chmod p⟩ r σ') :
    σ' = σ ∧ (r = .FR_OK ∧ σ.get p ≠ none ∨
      r ≠ .FR_OK ∧ (F σ ⟨s, .f_chmod p⟩ ∨ σ.get p = none)) := by
  rcases payload_cases h (by simp) with h | ⟨hF, hf, rfl⟩
  · simp only [SD.Works, SD.answer, Option.some.injEq, Prod.mk.injEq] at h
    obtain ⟨rfl, rfl⟩ := h
    refine ⟨rfl, ?_⟩
    split
    · next hn => exact .inr ⟨σ.missing_ne_ok p, .inr hn⟩
    · next hn => exact .inl ⟨rfl, hn⟩
  · exact ⟨rfl, .inr ⟨hf, .inl hF⟩⟩

theorem payload_f_close {r : FRESULT} (h : payload F σ ⟨s, .f_close p⟩ r σ') :
    σ' = σ ∧ (r = .FR_OK ∨ F σ ⟨s, .f_close p⟩) := by
  rcases payload_cases h (by simp) with h | ⟨hF, -, rfl⟩
  · cases h
    exact ⟨rfl, .inl rfl⟩
  · exact ⟨rfl, .inr hF⟩

theorem payload_f_sync {r : FRESULT} (h : payload F σ ⟨s, .f_sync p⟩ r σ') :
    σ' = σ ∧ (r = .FR_OK ∨ F σ ⟨s, .f_sync p⟩) := by
  rcases payload_cases h (by simp) with h | ⟨hF, -, rfl⟩
  · cases h
    exact ⟨rfl, .inl rfl⟩
  · exact ⟨rfl, .inr hF⟩

/-- The calls that leave the card as it is. -/
def Fn.readOnly : Fn → Bool
  | .f_stat _ => true
  | .f_open _ => true
  | .f_read _ _ _ => true
  | .f_sync _ => true
  | .f_close _ => true
  | .f_chmod _ => true
  | .ReadFolder _ => true
  | .malloc _ => true
  | .launch_payload _ => true
  | .hang => true
  | _ => false

theorem payload_readOnly {fn : Fn} (hfn : fn.readOnly = true) {r : fn.Res}
    (h : payload F σ ⟨s, fn⟩ r σ') : σ' = σ := by
  cases fn with
  | f_mkdir | f_unlink | f_rename | f_create | f_write => cases hfn
  | f_stat => exact (payload_f_stat h).1
  | f_open => exact (payload_f_open h).1
  | f_read => exact (payload_f_read h).1
  | ReadFolder => exact (payload_ReadFolder h).1
  | hang => cases r
  | f_sync | f_close | f_chmod | malloc | launch_payload =>
    rcases payload_cases h (by simp) with h | ⟨-, -, rfl⟩
    · cases h; rfl
    · rfl

end effects

/-! ## Programs that only look -/

section looks

variable {F : SD → Op → Prop} {α : Type} {C : SD → Prop} {Q : α → SD → Prop} {σ : SD}

/-- A call that leaves the card as it is. -/
def Op.looks (o : Op) : Prop := o.fn.readOnly = true

/-- A program that only looks ends, and can only be cut, in the state it started in. -/
theorem wp_looks {p : Prog FatFs α} (hp : p.Calls (I := FatFs) Op.looks) (hC : C σ)
    (hQ : ∀ a, Q a σ) : wp (payload F) C Q p σ := by
  refine wp_conseq (wp_of_calls hp (J := fun σ' => σ' = σ) ?_ rfl)
    (fun σ' h => h ▸ hC) (fun a σ' _ h => h ▸ hQ a)
  intro s o r s' ho hs hm
  obtain ⟨site, fn⟩ := o
  exact (payload_readOnly ho hm).trans hs

/-- The rule of a single call. -/
theorem wp_at {s : Site} {fn : Fn} {Q : fn.Res → SD → Prop} (hC : C σ)
    (hQ : ∀ r σ', payload F σ ⟨s, fn⟩ r σ' → C σ' ∧ Q r σ') :
    wp (payload F) C Q (Prog.op (I := FatFs) ⟨s, fn⟩) σ :=
  (wp_op (I := FatFs) _).mpr ⟨hC, hQ⟩

end looks
