/-
# Saving in the text editor

Whatever fails and wherever the power is cut, the old or the new text is on the card as a whole,
at the file, at the backup or at the temporary file, provided that a temporary file left over from
before is seen when the editor looks for it.
-/
import AioMod.IniEditorSpec

namespace IniEditor

open Explorer Throws

/-- The card of the editor. -/
abbrev Card : Type := Volume fold

/-- The calls work, or fail where `may` lets them; the failures that are left are counted. -/
def limited (may : Card → Explorer.Fn → Prop) : Machine FsI (Card × ℕ) :=
  Machine.limited (card False) fun v fn r v' => may v fn ∧ Stops v fn r v'

/-! ## Three places in one directory -/

/-- The places that saving uses. -/
inductive Place where
  | file
  | tmp
  | bak
  deriving DecidableEq

/-- What stands there. -/
structure Slots where
  file : Option (Entry Bytes)
  tmp : Option (Entry Bytes)
  bak : Option (Entry Bytes)

def Slots.get (s : Slots) : Place → Option (Entry Bytes)
  | .file => s.file
  | .tmp => s.tmp
  | .bak => s.bak

def Slots.set (s : Slots) (x : Option (Entry Bytes)) : Place → Slots
  | .file => { s with file := x }
  | .tmp => { s with tmp := x }
  | .bak => { s with bak := x }

theorem Slots.get_set (s : Slots) (x : Option (Entry Bytes)) (p q : Place) :
    (s.set x p).get q = if q = p then x else s.get q := by
  cases p <;> cases q <;> rfl

/-- The suffix of a place. -/
def Place.suffix : Place → String
  | .file => ""
  | .tmp => ".aio-edit.tmp"
  | .bak => ".aio-edit.bak"

/-- A file by its directory and its name. -/
def place (directory : FsPath) (name : Name) (p : Place) : FsPath := directory ++ [name ++ p.suffix]

/-- The names are legal. -/
theorem legal_suffix {name : Name} (h : Legal name) (p : Place) : Legal (name ++ p.suffix) := by
  obtain ⟨hne, hslash, hcolon⟩ := h
  refine ⟨?_, ?_, ?_⟩
  · intro hnil
    have hlen := congrArg String.length hnil
    rw [String.length_append] at hlen
    have hzero : name.length = 0 := by
      simp only [String.length_empty] at hlen
      omega
    exact hne (String.length_eq_zero_iff.mp hzero)
  · rw [String.toList_append, List.mem_append, not_or]
    refine ⟨hslash, ?_⟩
    cases p <;> decide
  · rw [String.toList_append, List.mem_append, not_or]
    refine ⟨hcolon, ?_⟩
    cases p <;> decide

/-- Different places have different names on the card. -/
theorem fold_suffix_inj {name : Name} {p q : Place}
    (h : fold (name ++ p.suffix) = fold (name ++ q.suffix)) :
    p = q := by
  unfold fold at h
  rw [String.toList_append, String.toList_append, List.map_append, List.map_append] at h
  have hl := List.append_cancel_left (String.ofList_inj.mp h)
  revert hl
  cases p <;> cases q <;> first
    | exact fun _ => rfl
    | decide

section calls

variable {directory : FsPath} {name : Name} {v v' : Card} {s : Slots}

theorem key_place (hlegal : Legal name) (p : Place) :
    key fold (place directory name p) = key fold directory ++ [fold (name ++ p.suffix)] := by
  unfold place
  rw [Volume.key_append, Volume.key_singleton (legal_suffix hlegal p).1]

theorem lastName_place (hlegal : Legal name) (p : Place) :
    lastName (place directory name p) = name ++ p.suffix := by
  unfold lastName place
  rw [List.filter_append]
  simp [(legal_suffix hlegal p).1]

/-- What stands in the directory. -/
structure At (directory : FsPath) (name : Name) (v : Card) (s : Slots) : Prop where
  dir : v.tree.get (key fold directory) = some .dir
  get : ∀ p, v.tree.get (key fold (place directory name p)) = s.get p

theorem At.canPut (h : At directory name v s) (hlegal : Legal name) {p : Place}
    (hp : s.get p ≠ some .dir) : v.tree.CanPut (key fold (place directory name p)) := by
  refine ⟨?_, ?_, ?_⟩
  · rw [key_place hlegal]
    simp
  · rw [key_place hlegal, List.dropLast_concat]
    exact h.dir
  · rw [h.get]
    exact hp

/-- A file is put at a place. -/
theorem At.setFile (h : At directory name v s) (hlegal : Legal name) {p : Place}
    (hp : s.get p ≠ some .dir) (b : Bytes) :
    ∃ v', v.setFile (place directory name p) b = some v' ∧
      At directory name v' (s.set (some (.file b)) p) := by
  have hcan := h.canPut hlegal hp
  have hname : Legal (lastName (place directory name p)) := by
    rw [lastName_place hlegal]
    exact legal_suffix hlegal p
  refine ⟨_, dif_pos ⟨hcan, hname⟩, ?_, ?_⟩
  · show (v.tree.put _ _ hcan).get _ = _
    rw [FileTree.get_put, if_neg ?_]
    · exact h.dir
    · rw [key_place hlegal]
      exact fun heq => by simpa using congrArg List.length heq
  · intro q
    show (v.tree.put _ _ hcan).get _ = _
    rw [FileTree.get_put, Slots.get_set, h.get]
    refine if_congr ?_ rfl rfl
    rw [key_place hlegal, key_place hlegal]
    constructor
    · intro heq
      exact fold_suffix_inj (by simpa using heq)
    · rintro rfl
      rfl

theorem At.canMove (h : At directory name v s) (hlegal : Legal name) {p q : Place} (hpq : p ≠ q) :
    v.tree.CanMove (key fold (place directory name p)) (key fold (place directory name q)) ↔
      s.get p ≠ none ∧ s.get q = none := by
  have hne : fold (name ++ p.suffix) ≠ fold (name ++ q.suffix) :=
    fun heq => hpq (fold_suffix_inj heq)
  unfold FileTree.CanMove
  rw [h.get, h.get, key_place hlegal, key_place hlegal, List.dropLast_concat, h.dir]
  simp [hne]

/-- A file is moved from one place to another. -/
theorem At.move (h : At directory name v s) (hlegal : Legal name) {p q : Place} (hpq : p ≠ q)
    (hm : v.tree.CanMove (key fold (place directory name p)) (key fold (place directory name q)))
    (n : Name) (hn) :
    At directory name (v.move _ _ n hm hn) ((s.set (s.get p) q).set none p) := by
  have hsibling : ∀ a b : Name,
      key fold directory ++ [a] <+: key fold directory ++ [b] ↔ a = b := by
    simp
  have hbelow : ∀ a : Name, ¬key fold directory ++ [a] <+: key fold directory := by
    intro a hp
    have hlen := hp.length_le
    rw [List.length_append, List.length_singleton] at hlen
    omega
  refine ⟨?_, ?_⟩
  · show (v.tree.move _ _ hm).get _ = _
    rw [FileTree.get_move, key_place hlegal, key_place hlegal, if_neg (hbelow _), if_neg (hbelow _)]
    exact h.dir
  · intro r
    show (v.tree.move _ _ hm).get _ = _
    rw [FileTree.get_move, Slots.get_set, Slots.get_set, ← h.get p, ← h.get r,
      key_place hlegal, key_place hlegal, key_place hlegal]
    by_cases hrq : r = q
    · subst hrq
      rw [if_pos (List.prefix_refl _), if_neg (Ne.symm hpq), if_pos rfl]
      simp
    · rw [if_neg fun hp => hrq (fold_suffix_inj ((hsibling _ _).mp hp)).symm, if_neg hrq]
      by_cases hrp : r = p
      · subst hrp
        rw [if_pos (List.prefix_refl _), if_pos rfl]
      · rw [if_neg fun hp => hrp (fold_suffix_inj ((hsibling _ _).mp hp)).symm, if_neg hrp]

/-- A file is deleted. -/
theorem At.del (h : At directory name v s) (hlegal : Legal name) {p : Place} {b : Bytes}
    (hp : s.get p = some (.file b)) :
    ∃ v', v.remove (place directory name p) = (some true, v') ∧
      At directory name v' (s.set none p) := by
  have hget : v.tree.get (key fold (place directory name p)) = some (.file b) := (h.get p).trans hp
  have hdel : v.tree.CanDel (key fold (place directory name p)) := by
    refine ⟨?_, ?_⟩
    · rw [key_place hlegal]
      simp
    · rw [FileTree.childless_iff]
      intro k
      exact FileTree.get_append_of_not_dir (by rw [hget]; simp) (by simp)
  refine ⟨v.del _ hdel, ?_, ?_, ?_⟩
  · unfold Volume.remove
    rw [if_neg (by rw [hget]; simp), dif_pos hdel]
  · show (v.tree.del _ hdel).get _ = _
    rw [FileTree.get_del, if_neg ?_]
    · exact h.dir
    · rw [key_place hlegal]
      exact fun heq => by simpa using congrArg List.length heq
  · intro q
    show (v.tree.del _ hdel).get _ = _
    rw [FileTree.get_del, Slots.get_set, h.get]
    refine if_congr ?_ rfl rfl
    rw [key_place hlegal, key_place hlegal]
    constructor
    · intro heq
      exact fold_suffix_inj (by simpa using heq)
    · rintro rfl
      rfl

end calls

/-! ## The calls of a save -/

/-- A crash condition on what stands at the three places. -/
def safe (directory : FsPath) (name : Name) (S : Slots → Prop) (x : Card × ℕ) : Prop :=
  ∃ s, At directory name x.1 s ∧ S s

section rules

variable {directory : FsPath} {name : Name} {v : Card} {k : ℕ} {s : Slots} {S : Slots → Prop}
  {may : Card → Explorer.Fn → Prop} {E : String → Card × ℕ → Prop}

theorem wpc_probe {Q : Bool → Card × ℕ → Prop} (h : At directory name v s) (p : Place) (hS : S s)
    (hQ : Q (s.get p).isSome (v, k))
    (hfail : ∀ j, k = j + 1 → may v (.exists_ (place directory name p)) → Q false (v, j)) :
    wpc (limited may) (safe directory name S) Q E (IniEditorView.probe (place directory name p))
      (v, k) := by
  apply wpc_bind
  refine wpc_call ⟨s, h, hS⟩ ?_
  rintro r ⟨v', j⟩ (⟨hw, hj⟩ | ⟨⟨hmay, hr, hv⟩, hj⟩)
  · obtain ⟨hv, hr | ⟨hF, -⟩⟩ := card_exists hw
    · dsimp only at hv hj hr
      subst hv hj hr
      refine ⟨⟨s, h, hS⟩, ⟨s, h, hS⟩, ?_⟩
      rw [h.get]
      cases hs : s.get p
      · rw [hs] at hQ
        exact hQ
      · rw [hs] at hQ
        exact hQ
    · exact hF.elim
  · dsimp only at hv hj
    subst hv hr
    exact ⟨⟨s, h, hS⟩, ⟨s, h, hS⟩, hfail j hj hmay⟩

theorem wpc_ofstream {Q : Bool → Card × ℕ → Prop} (h : At directory name v s)
    (hlegal : Legal name) {p : Place} (hp : s.get p ≠ some .dir) (hS : S s)
    (hS' : S (s.set (some (.file [])) p))
    (hQ : ∀ v', At directory name v' (s.set (some (.file [])) p) → Q true (v', k))
    (hfail : ∀ v' j, k = j + 1 → At directory name v' s ∨
      At directory name v' (s.set (some (.file [])) p) → Q false (v', j)) :
    wpc (limited may) (safe directory name S) Q E (fs (.ofstream (place directory name p)))
      (v, k) := by
  obtain ⟨w, hset, hw'⟩ := h.setFile hlegal hp []
  refine wpc_call ⟨s, h, hS⟩ ?_
  rintro r ⟨v', j⟩ (⟨hw, hj⟩ | ⟨⟨-, hr, hv⟩, hj⟩)
  · rcases hw with ⟨r₀, ha, hr⟩ | ⟨hF, -⟩
    · simp only [answer, hset, Prod.mk.injEq] at ha
      obtain ⟨rfl, rfl⟩ := ha
      dsimp only at hj
      obtain rfl : r = true := hr
      subst hj
      exact ⟨⟨_, hw', hS'⟩, hQ _ hw'⟩
    · exact hF.elim
  · dsimp only at hv hj
    subst hr
    rcases hv with rfl | hv
    · exact ⟨⟨s, h, hS⟩, hfail _ j hj (.inl h)⟩
    · rw [hset] at hv
      cases hv
      exact ⟨⟨_, hw', hS'⟩, hfail _ j hj (.inr hw')⟩

theorem wpc_write {Q : Bool → Card × ℕ → Prop} (h : At directory name v s)
    (hlegal : Legal name) {p : Place} {b data : Bytes} (hp : s.get p = some (.file b)) (hS : S s)
    (hS' : ∀ b, S (s.set (some (.file b)) p))
    (hQ : ∀ v', At directory name v' (s.set (some (.file (b ++ data))) p) → Q true (v', k))
    (hfail : ∀ v' j b, k = j + 1 → At directory name v' (s.set (some (.file b)) p) →
      Q false (v', j)) :
    wpc (limited may) (safe directory name S) Q E (fs (.write (place directory name p) data))
      (v, k) := by
  have hnd : s.get p ≠ some .dir := by simp [hp]
  have hcontents : v.contents (place directory name p) = some b := by
    unfold Volume.contents
    rw [h.get, hp]
  have hself : At directory name v (s.set (some (.file b)) p) := by
    refine ⟨h.dir, ?_⟩
    intro q
    rw [h.get, Slots.get_set]
    split
    · rename_i hq
      rw [hq, hp]
    · rfl
  refine wpc_call ⟨s, h, hS⟩ ?_
  rintro r ⟨v', j⟩ (⟨hw, hj⟩ | ⟨⟨-, hr, hv⟩, hj⟩)
  · rcases hw with ⟨r₀, ha, hr⟩ | ⟨hF, -⟩
    · obtain ⟨w, hset, hw'⟩ := h.setFile hlegal hnd (b ++ data)
      simp only [answer, hcontents, Option.bind_some, hset, Prod.mk.injEq] at ha
      obtain ⟨rfl, rfl⟩ := ha
      dsimp only at hj
      obtain rfl : r = true := hr
      subst hj
      exact ⟨⟨_, hw', hS' _⟩, hQ _ hw'⟩
    · exact hF.elim
  · dsimp only at hv hj
    subst hr
    rcases hv with rfl | ⟨n, b', hb', hv⟩
    · exact ⟨⟨s, h, hS⟩, hfail _ j b hj hself⟩
    · obtain ⟨w, hset, hw'⟩ := h.setFile hlegal hnd (b' ++ data.take n)
      rw [hset] at hv
      cases hv
      exact ⟨⟨_, hw', hS' _⟩, hfail _ j _ hj hw'⟩

/-- A call that changes nothing on the card. -/
theorem wpc_quiet {Q : Bool → Card × ℕ → Prop} (h : At directory name v s) (p : FsPath) (hS : S s)
    (hQ : Q true (v, k)) (hfail : ∀ j, k = j + 1 → Q false (v, j)) :
    wpc (limited may) (safe directory name S) Q E (fs (.flush p)) (v, k) ∧
      wpc (limited may) (safe directory name S) Q E (fs (.close p)) (v, k) := by
  constructor
  · refine wpc_call ⟨s, h, hS⟩ ?_
    rintro r ⟨v', j⟩ (⟨⟨r₀, ha, hr⟩ | ⟨hF, -⟩, hj⟩ | ⟨⟨-, hr, hv⟩, hj⟩)
    · cases ha
      dsimp only at hj
      obtain rfl : r = true := hr
      subst hj
      exact ⟨⟨s, h, hS⟩, hQ⟩
    · exact hF.elim
    · dsimp only at hv hj
      subst hr hv
      exact ⟨⟨s, h, hS⟩, hfail j hj⟩
  · refine wpc_call ⟨s, h, hS⟩ ?_
    rintro r ⟨v', j⟩ (⟨⟨r₀, ha, hr⟩ | ⟨hF, -⟩, hj⟩ | ⟨⟨-, hr, hv⟩, hj⟩)
    · cases ha
      dsimp only at hj
      obtain rfl : r = true := hr
      subst hj
      exact ⟨⟨s, h, hS⟩, hQ⟩
    · exact hF.elim
    · dsimp only at hv hj
      subst hr hv
      exact ⟨⟨s, h, hS⟩, hfail j hj⟩

theorem wpc_rename {Q : Bool → Card × ℕ → Prop} (h : At directory name v s)
    (hlegal : Legal name) {p q : Place} (hpq : p ≠ q) (hS : S s)
    (hS' : s.get p ≠ none → s.get q = none → S ((s.set (s.get p) q).set none p))
    (hQ : s.get p ≠ none → s.get q = none →
      ∀ v', At directory name v' ((s.set (s.get p) q).set none p) → Q true (v', k))
    (hstay : s.get p = none ∨ s.get q ≠ none → Q false (v, k))
    (hfail : ∀ j, k = j + 1 → Q false (v, j)) :
    wpc (limited may) (safe directory name S) Q E
      (fs (.rename (place directory name p) (place directory name q))) (v, k) := by
  have hname : Legal (lastName (place directory name q)) := by
    rw [lastName_place hlegal]
    exact legal_suffix hlegal q
  refine wpc_call ⟨s, h, hS⟩ ?_
  rintro r ⟨v', j⟩ (⟨⟨r₀, ha, hr⟩ | ⟨hF, -⟩, hj⟩ | ⟨⟨-, hr, hv⟩, hj⟩)
  · dsimp only at ha hj
    obtain rfl : r = r₀ := hr
    subst hj
    by_cases hm : v.tree.CanMove (key fold (place directory name p))
        (key fold (place directory name q)) ∧ Legal (lastName (place directory name q))
    · obtain ⟨hget, hfree⟩ := (h.canMove hlegal hpq).mp hm.1
      have hat := h.move hlegal hpq hm.1 (lastName (place directory name q))
        (spells_last hm.2 hm.1.2.1)
      have ha := ha.trans (dif_pos hm)
      cases ha
      exact ⟨⟨_, hat, hS' hget hfree⟩, hQ hget hfree _ hat⟩
    · have ha := ha.trans (dif_neg hm)
      cases ha
      refine ⟨⟨s, h, hS⟩, hstay ?_⟩
      by_contra hno
      push Not at hno
      exact hm ⟨(h.canMove hlegal hpq).mpr hno, hname⟩
  · exact hF.elim
  · dsimp only at hv hj
    subst hr hv
    exact ⟨⟨s, h, hS⟩, hfail j hj⟩

theorem wpc_remove {Q : Option Bool → Card × ℕ → Prop} (h : At directory name v s)
    (hlegal : Legal name) {p : Place} (hp : ∀ x, s.get p = some x → ∃ b, x = .file b) (hS : S s)
    (hS' : S (s.set none p))
    (hQ : ∀ r v', At directory name v' (s.set none p) → Q r (v', k))
    (hfail : ∀ j, k = j + 1 → Q none (v, j)) :
    wpc (limited may) (safe directory name S) Q E (fs (.remove (place directory name p)))
      (v, k) := by
  refine wpc_call ⟨s, h, hS⟩ ?_
  rintro r ⟨v', j⟩ (⟨hw, hj⟩ | ⟨⟨-, hr, hv⟩, hj⟩)
  · rcases card_remove hw with ⟨hr, hv⟩ | ⟨hF, -⟩
    · dsimp only at hv hj hr
      subst hj
      have hat : At directory name v' (s.set none p) := by
        cases hget : s.get p with
        | none =>
          have hnone : v.tree.get (key fold (place directory name p)) = none := (h.get p).trans hget
          have hsame : v' = v := by
            rw [hv]
            unfold Volume.remove
            rw [if_pos hnone]
          rw [hsame]
          refine ⟨h.dir, ?_⟩
          intro q
          rw [h.get, Slots.get_set]
          split
          · rename_i hq
            rw [hq, hget]
          · rfl
        | some x =>
          obtain ⟨b, rfl⟩ := hp x hget
          obtain ⟨w, hrem, hat⟩ := h.del hlegal hget
          rw [hv, hrem]
          exact hat
      exact ⟨⟨_, hat, hS'⟩, hQ r v' hat⟩
    · exact hF.elim
  · dsimp only at hv hj
    subst hr hv
    exact ⟨⟨s, h, hS⟩, hfail j hj⟩

end rules

/-! ## The save -/

/-- What is never lost: the old or the new text as a whole, and what was left over from before. -/
structure Kept (old new : Bytes) (t b : Option (Entry Bytes)) (s : Slots) : Prop where
  complete : ∃ p, s.get p = some (.file old) ∨ s.get p = some (.file new)
  tmp : t ≠ none → s.tmp = t
  bak : b ≠ none → s.bak = b

section save

variable {directory : FsPath} {name : Name} {v : Card} {k : ℕ} {s : Slots} {old new : Bytes}
  {t b : Option (Entry Bytes)} {may : Card → Explorer.Fn → Prop} {e : IniEditorView}

/-- The file stands, and beside it at most a temporary file. -/
theorem Kept.of_file (ht : t = none) {x : Option (Entry Bytes)} :
    Kept old new t b ⟨some (.file old), x, b⟩ :=
  ⟨⟨.file, .inl rfl⟩, fun h => absurd ht h, fun _ => rfl⟩

/-- Between the renames the old text is at the backup. -/
theorem Kept.of_bak (ht : t = none) (hb : b = none) {x y : Option (Entry Bytes)} :
    Kept old new t b ⟨x, y, some (.file old)⟩ :=
  ⟨⟨.bak, .inl rfl⟩, fun h => absurd ht h, fun h => absurd hb h⟩

theorem Kept.of_new (ht : t = none) (hb : b = none) {x y : Option (Entry Bytes)} :
    Kept old new t b ⟨some (.file new), x, y⟩ :=
  ⟨⟨.file, .inr rfl⟩, fun h => absurd ht h, fun h => absurd hb h⟩

/-- How the body of the `try` returns. -/
def Written (directory : FsPath) (name : Name) (new : Bytes) (x : Card × ℕ) : Prop :=
  ∃ y, At directory name x.1 ⟨some (.file new), none, y⟩

/-- How it throws, when it began with `k` failures left: the file stands, or it stands nowhere but
in the backup, after two failures. -/
def Broken (directory : FsPath) (name : Name) (old new : Bytes) (b : Option (Entry Bytes)) (k : ℕ)
    (x : Card × ℕ) : Prop :=
  (∃ y, At directory name x.1 ⟨some (.file old), y, b⟩ ∧ (∀ z, y = some z → ∃ c, z = .file c) ∧
      (x.2 + 1 ≤ k ∨ b ≠ none ∧ x.2 ≤ k)) ∨
    At directory name x.1 ⟨none, some (.file new), some (.file old)⟩ ∧ b = none ∧ x.2 + 2 ≤ k

theorem isFile_none : ∀ z : Entry Bytes, none = some z → ∃ c, z = .file c := by
  rintro z ⟨⟩

theorem isFile_file (c : Bytes) :
    ∀ z : Entry Bytes, some (.file c) = some z → ∃ c, z = .file c := by
  rintro z ⟨⟩
  exact ⟨c, rfl⟩

theorem write_spec (hlegal : Legal name) (htmp : e.temporary = place directory name .tmp)
    (hfile : e.file = place directory name .file) (hbak : e.backup = place directory name .bak)
    (ht : t = none) (h : At directory name v ⟨some (.file old), none, b⟩) :
    wpc (limited may) (safe directory name (Kept old e.serialized t b))
      (fun _ => Written directory name e.serialized)
      (fun _ => Broken directory name old e.serialized b k) e.write (v, k) := by
  have hkept : ∀ x, Kept old e.serialized t b ⟨some (.file old), x, b⟩ := fun x => .of_file ht
  unfold IniEditorView.write
  rw [htmp, hfile, hbak]
  -- the temporary file is created
  apply wpc_bind
  refine wpc_ofstream h hlegal (p := .tmp) (by simp [Slots.get]) (hkept _) (hkept _) ?_ ?_
  on_goal 2 =>
    rintro v₁ j hj h₁
    apply wpc_bind
    refine wpc_require ?_ (by simp) fun _ => ?_
    · rcases h₁ with h₁ | h₁
      · exact ⟨_, h₁, hkept _⟩
      · exact ⟨_, h₁, hkept _⟩
    · rcases h₁ with h₁ | h₁
      · exact .inl ⟨_, h₁, isFile_none, .inl (by dsimp only; omega)⟩
      · exact .inl ⟨_, h₁, isFile_file _, .inl (by dsimp only; omega)⟩
  intro v₁ h₁
  apply wpc_bind
  refine wpc_require ⟨_, h₁, hkept _⟩ ?_ (by simp)
  intro _
  -- and written
  apply wpc_bind
  refine wpc_write h₁ hlegal (p := .tmp) (b := []) rfl (hkept _) (fun _ => hkept _) ?_ ?_
  on_goal 2 =>
    intro v₂ j c hj h₂
    apply wpc_bind
    refine (wpc_quiet h₂ _ (hkept _) ?_ ?_).1
    · apply wpc_bind
      refine wpc_require ⟨_, h₂, hkept _⟩ (by simp) fun _ => ?_
      exact .inl ⟨_, h₂, isFile_file _, .inl (by dsimp only; omega)⟩
    · intro i hi
      apply wpc_bind
      refine wpc_require ⟨_, h₂, hkept _⟩ (by simp) fun _ => ?_
      exact .inl ⟨_, h₂, isFile_file _, .inl (by dsimp only; omega)⟩
  intro v₂ h₂
  apply wpc_bind
  refine (wpc_quiet h₂ _ (hkept _) ?_ ?_).1
  on_goal 2 =>
    intro j hj
    apply wpc_bind
    refine wpc_require ⟨_, h₂, hkept _⟩ (by simp) fun _ => ?_
    exact .inl ⟨_, h₂, isFile_file _, .inl (by dsimp only; omega)⟩
  apply wpc_bind
  refine wpc_require ⟨_, h₂, hkept _⟩ ?_ (by simp)
  intro _
  apply wpc_bind
  refine (wpc_quiet h₂ _ (hkept _) ?_ ?_).2
  on_goal 2 =>
    intro j hj
    apply wpc_bind
    refine wpc_require ⟨_, h₂, hkept _⟩ (by simp) fun _ => ?_
    exact .inl ⟨_, h₂, isFile_file _, .inl (by dsimp only; omega)⟩
  apply wpc_bind
  refine wpc_require ⟨_, h₂, hkept _⟩ ?_ (by simp)
  intro _
  -- the file becomes the backup
  apply wpc_bind
  refine wpc_rename h₂ hlegal (p := .file) (q := .bak) (by simp) (hkept _) ?_ ?_ ?_ ?_
  · intro _ hb
    exact .of_bak ht hb
  on_goal 2 =>
    intro hstay
    apply wpc_bind
    refine wpc_require ⟨_, h₂, hkept _⟩ (by simp) fun _ => ?_
    refine .inl ⟨_, h₂, isFile_file _, .inr ⟨?_, le_rfl⟩⟩
    rcases hstay with hstay | hstay
    · cases hstay
    · exact hstay
  on_goal 2 =>
    intro j hj
    apply wpc_bind
    refine wpc_require ⟨_, h₂, hkept _⟩ (by simp) fun _ => ?_
    exact .inl ⟨_, h₂, isFile_file _, .inl (by dsimp only; omega)⟩
  intro _ hb v₃ h₃
  obtain rfl : b = none := hb
  apply wpc_bind
  refine wpc_require ⟨_, h₃, .of_bak ht rfl⟩ ?_ (by simp)
  intro _
  -- the temporary file becomes the file
  apply wpc_bind
  refine wpc_rename h₃ hlegal (p := .tmp) (q := .file) (by simp) (.of_bak ht rfl) ?_ ?_ ?_ ?_
  · intro _ _
    exact .of_new ht rfl
  on_goal 2 =>
    rintro (hstay | hstay)
    · cases hstay
    · exact absurd rfl hstay
  on_goal 2 =>
    intro j hj
    apply wpc_bind
    refine wpc_rename h₃ hlegal (p := .bak) (q := .file) (by simp) (.of_bak ht rfl) ?_ ?_ ?_ ?_
    · intro _ _
      exact hkept _
    · intro _ _ v₄ h₄
      exact ⟨⟨_, h₄, hkept _⟩, .inl ⟨_, h₄, isFile_file _, .inl (by dsimp only; omega)⟩⟩
    · rintro (hstay | hstay)
      · cases hstay
      · exact absurd rfl hstay
    · intro i hi
      exact ⟨⟨_, h₃, .of_bak ht rfl⟩, .inr ⟨h₃, rfl, by dsimp only; omega⟩⟩
  intro _ _ v₄ h₄
  -- the backup is deleted
  apply wpc_bind
  refine wpc_remove h₄ hlegal (p := .bak) (isFile_file _) (.of_new ht rfl) (.of_new ht rfl) ?_ ?_
  · intro r v₅ h₅
    exact (wpc_pure _).mpr ⟨⟨_, h₅, .of_new ht rfl⟩, _, h₅⟩
  · intro j hj
    exact (wpc_pure _).mpr ⟨⟨_, h₄, .of_new ht rfl⟩, _, h₄⟩

/-- How the handler ends, when the file stands: without a failure nothing is left beside it. -/
def Undone (directory : FsPath) (name : Name) (old : Bytes) (b : Option (Entry Bytes)) (k : ℕ)
    (x : Card × ℕ) : Prop :=
  ∃ y, At directory name x.1 ⟨some (.file old), y, b⟩ ∧ x.2 ≤ k ∧ (k ≤ x.2 → y = none)

/-- The end of the handler, where the file stands. -/
theorem removeTmp_spec (new : Bytes) (k : ℕ) (hlegal : Legal name) (ht : t = none)
    {y : Option (Entry Bytes)}
    (h : At directory name v ⟨some (.file old), y, b⟩) (hy : ∀ z, y = some z → ∃ c, z = .file c)
    {E : String → Card × ℕ → Prop} :
    wpc (limited may) (safe directory name (Kept old new t b))
      (fun _ => Undone directory name old b k) E
      (do
        let file ← IniEditorView.probe (place directory name .file)
        if file then
          let _ ← fs (.remove (place directory name .tmp))) (v, k) := by
  have hkept : ∀ x, Kept old new t b ⟨some (.file old), x, b⟩ := fun x => .of_file ht
  apply wpc_bind
  refine wpc_probe h .file (hkept _) ?_ ?_
  · show wpc _ _ _ _ (do
      let _ ← fs (.remove (place directory name .tmp))
      pure ()) _
    apply wpc_bind
    refine wpc_remove h hlegal (p := .tmp) hy (hkept _) (hkept _) ?_ ?_
    · intro r v₁ h₁
      exact (wpc_pure _).mpr ⟨⟨_, h₁, hkept _⟩, _, h₁, le_rfl, fun _ => rfl⟩
    · intro j hj
      refine (wpc_pure _).mpr ⟨⟨_, h, hkept _⟩, _, h, by dsimp only; omega, ?_⟩
      dsimp only
      intro hle
      omega
  · intro j hj _
    refine (wpc_pure _).mpr ⟨⟨_, h, hkept _⟩, _, h, by dsimp only; omega, ?_⟩
    dsimp only
    intro hle
    omega

/-- The handler, where the file stands. -/
theorem cleanUp_spec (hlegal : Legal name) (htmp : e.temporary = place directory name .tmp)
    (hfile : e.file = place directory name .file) (hbak : e.backup = place directory name .bak)
    (ht : t = none) {y : Option (Entry Bytes)}
    (h : At directory name v ⟨some (.file old), y, b⟩) (hy : ∀ z, y = some z → ∃ c, z = .file c)
    {E : String → Card × ℕ → Prop} :
    wpc (limited may) (safe directory name (Kept old new t b))
      (fun _ => Undone directory name old b k) E e.cleanUp (v, k) := by
  have hkept : ∀ x, Kept old new t b ⟨some (.file old), x, b⟩ := fun x => .of_file ht
  have rest : ∀ j ≤ k, wpc (limited may) (safe directory name (Kept old new t b))
      (fun _ => Undone directory name old b k) E
      (do
        let file ← IniEditorView.probe (place directory name .file)
        if file then
          let _ ← fs (.remove (place directory name .tmp))) (v, j) := by
    intro j hj
    refine wpc_conseq (removeTmp_spec new j hlegal ht h hy) ?_ fun _ _ _ h => h
    rintro _ x _ ⟨y', h', hle, hnone⟩
    exact ⟨y', h', hle.trans hj, fun hk => hnone (hj.trans hk)⟩
  unfold IniEditorView.cleanUp
  rw [htmp, hfile, hbak]
  apply wpc_bind
  refine wpc_probe h .file (hkept _) (rest k le_rfl) ?_
  intro j hj _
  show wpc _ _ _ _ (do
    let backup ← IniEditorView.probe (place directory name .bak)
    if backup then
      let _ ← fs (.rename (place directory name .bak) (place directory name .file))
    let file ← IniEditorView.probe (place directory name .file)
    if file then
      let _ ← fs (.remove (place directory name .tmp))) _
  have restore : ∀ i ≤ k, wpc (limited may) (safe directory name (Kept old new t b))
      (fun _ => Undone directory name old b k) E
      (do
        let _ ← fs (.rename (place directory name .bak) (place directory name .file))
        let file ← IniEditorView.probe (place directory name .file)
        if file then
          let _ ← fs (.remove (place directory name .tmp))) (v, i) := by
    intro i hi
    apply wpc_bind
    refine wpc_rename h hlegal (p := .bak) (q := .file) (by simp) (hkept _) ?_ ?_ ?_ ?_
    · rintro _ ⟨⟩
    · rintro _ ⟨⟩
    · intro _
      exact rest i hi
    · intro i' hi'
      exact rest i' (by omega)
  apply wpc_bind
  refine wpc_probe h .bak (hkept _) ?_ ?_
  · cases hb : (Slots.get ⟨some (.file old), y, b⟩ .bak).isSome with
    | true => exact restore j (by omega)
    | false => exact rest j (by omega)
  · intro i hi _
    exact rest i (by omega)

/-- The handler, where the file stands in the backup only. -/
theorem cleanUp_spec_bak (hlegal : Legal name) (htmp : e.temporary = place directory name .tmp)
    (hfile : e.file = place directory name .file) (hbak : e.backup = place directory name .bak)
    (ht : t = none) (h : At directory name v ⟨none, some (.file new), some (.file old)⟩)
    {E : String → Card × ℕ → Prop} :
    wpc (limited may) (safe directory name (Kept old new t none)) (fun _ x => x.2 ≤ k) E
      e.cleanUp (v, k) := by
  have hkept : ∀ x y, Kept old new t none ⟨x, y, some (.file old)⟩ := fun x y => .of_bak ht rfl
  -- once the backup is looked at, the temporary file may go
  have stay : ∀ j ≤ k, wpc (limited may) (safe directory name (Kept old new t none))
      (fun _ x => x.2 ≤ k) E
      (do
        let file ← IniEditorView.probe (place directory name .file)
        if file then
          let _ ← fs (.remove (place directory name .tmp))) (v, j) := by
    intro j hj
    apply wpc_bind
    refine wpc_probe h .file (hkept _ _) ?_ ?_
    · exact (wpc_pure _).mpr ⟨⟨_, h, hkept _ _⟩, hj⟩
    · intro i hi _
      exact (wpc_pure _).mpr ⟨⟨_, h, hkept _ _⟩, by dsimp only; omega⟩
  have look : ∀ j ≤ k, wpc (limited may) (safe directory name (Kept old new t none))
      (fun _ x => x.2 ≤ k) E
      (do
        let backup ← IniEditorView.probe (place directory name .bak)
        if backup then
          let _ ← fs (.rename (place directory name .bak) (place directory name .file))
        let file ← IniEditorView.probe (place directory name .file)
        if file then
          let _ ← fs (.remove (place directory name .tmp))) (v, j) := by
    intro j hj
    apply wpc_bind
    refine wpc_probe h .bak (hkept _ _) ?_ ?_
    · show wpc _ _ _ _ (do
        let _ ← fs (.rename (place directory name .bak) (place directory name .file))
        let file ← IniEditorView.probe (place directory name .file)
        if file then
          let _ ← fs (.remove (place directory name .tmp))) _
      apply wpc_bind
      refine wpc_rename h hlegal (p := .bak) (q := .file) (by simp) (hkept _ _) ?_ ?_ ?_ ?_
      · intro _ _
        exact .of_file ht
      · intro _ _ v₁ h₁
        refine wpc_conseq (removeTmp_spec new j hlegal ht h₁ (isFile_file _)) ?_
          fun _ _ _ h => h
        rintro _ x _ ⟨y', -, hle, -⟩
        exact hle.trans hj
      · rintro (hstay | hstay)
        · cases hstay
        · exact absurd rfl hstay
      · intro i hi
        exact stay i (by omega)
    · intro i hi _
      exact stay i (by omega)
  unfold IniEditorView.cleanUp
  rw [htmp, hfile, hbak]
  apply wpc_bind
  refine wpc_probe h .file (hkept _ _) (look k le_rfl) ?_
  intro j hj _
  exact look j (by omega)

/-- How a save that began with `k` failures left returns. -/
structure Ended (old new : Bytes) (t b : Option (Entry Bytes)) (k j : ℕ)
    (status : IniEditorView.Saved) (s : Slots) : Prop where
  saved : status = .saved → s.file = some (.file new)
  undone : status ≠ .saved → k ≤ j + 1 → s.file = some (.file old)
  tidy : (∃ m, status = .failed m) → k ≤ j + 1 → t = none → b = none → s.tmp = none ∧ s.bak = none

/-- A save that returns before it writes. -/
theorem Ended.early {status : IniEditorView.Saved} {j : ℕ} (h : status ≠ .saved)
    (h' : ∀ m, status ≠ .failed m) : Ended old new t b k j status ⟨some (.file old), t, b⟩ where
  saved := fun hs => absurd hs h
  undone := fun _ _ => rfl
  tidy := fun ⟨m, hm⟩ => absurd hm (h' m)

theorem save_spec (parses : Bytes → Bool) (hlegal : Legal name)
    (htmp : e.temporary = place directory name .tmp) (hfile : e.file = place directory name .file)
    (hbak : e.backup = place directory name .bak) (h : At directory name v ⟨some (.file old), t, b⟩)
    (hprobe : t ≠ none → ¬may v (.exists_ e.temporary)) :
    wpc (limited may) (safe directory name (Kept old e.serialized t b))
      (fun status x => ∃ s, At directory name x.1 s ∧ Ended old e.serialized t b k x.2 status s)
      (fun _ _ => False) (e.save parses) (v, k) := by
  have hkept : Kept old e.serialized t b ⟨some (.file old), t, b⟩ :=
    ⟨⟨.file, .inl rfl⟩, fun _ => rfl, fun _ => rfl⟩
  have early : ∀ (status : IniEditorView.Saved) (j : ℕ), status ≠ .saved →
      (∀ m, status ≠ .failed m) →
      wpc (limited may) (safe directory name (Kept old e.serialized t b))
        (fun status x => ∃ s, At directory name x.1 s ∧ Ended old e.serialized t b k x.2 status s)
        (fun _ _ => False) (pure status : Op IniEditorView.Saved) (v, j) := by
    intro status j hne hne'
    exact (wpc_pure _).mpr ⟨⟨_, h, hkept⟩, _, h, .early hne hne'⟩
  -- what follows the two looks, with the number of failures that are left
  have go : t = none → ∀ j, (j = k ∧ b = none ∨ j ≤ k ∧ (b ≠ none → j + 1 ≤ k)) →
      wpc (limited may) (safe directory name (Kept old e.serialized t b))
        (fun status x => ∃ s, At directory name x.1 s ∧ Ended old e.serialized t b k x.2 status s)
        (fun _ _ => False)
        (tryCatch (do
          e.write
          pure .saved) fun status => do
            e.cleanUp
            pure (.failed status) : Op IniEditorView.Saved) (v, j) := by
    intro ht j hj
    subst ht
    apply wpc_catch
    apply wpc_bind
    refine wpc_conseq (write_spec (k := j) hlegal htmp hfile hbak rfl h) ?_ ?_
    · rintro _ ⟨v₁, i⟩ hC ⟨y, h₁⟩
      refine (wpc_pure _).mpr ⟨hC, _, h₁, ?_, ?_, ?_⟩
      · intro _
        rfl
      · intro hne
        exact absurd rfl hne
      · rintro ⟨m, ⟨⟩⟩
    · rintro message ⟨v₁, i⟩ hC hbroken
      apply wpc_bind
      rcases hbroken with ⟨y, h₁, hy, hi⟩ | ⟨h₁, rfl, hi⟩
      · refine wpc_conseq (cleanUp_spec (k := i) hlegal htmp hfile hbak rfl h₁ hy) ?_
          fun _ _ _ h => h
        rintro _ ⟨v₂, i'⟩ hC₂ ⟨y', h₂, hle, hnone⟩
        dsimp only at hi hle hnone h₂
        have hused : i + 1 ≤ k := by
          rcases hi with hi | ⟨hb, hi⟩
          · omega
          · rcases hj with ⟨-, hb'⟩ | ⟨-, hb'⟩
            · exact absurd hb' hb
            · have := hb' hb
              omega
        refine (wpc_pure _).mpr ⟨hC₂, _, h₂, ?_, ?_, ?_⟩
        · rintro ⟨⟩
        · intro _ _
          rfl
        · intro _ hk _ hb
          exact ⟨hnone (by omega), hb⟩
      · refine wpc_conseq (cleanUp_spec_bak (k := i) hlegal htmp hfile hbak rfl h₁) ?_
          fun _ _ _ h => h
        rintro _ ⟨v₂, i'⟩ ⟨s, h₂, hs⟩ hle
        dsimp only at hi hle h₂
        have hused : ¬k ≤ i' + 1 := by omega
        refine (wpc_pure _).mpr ⟨⟨s, h₂, hs⟩, s, h₂, ?_, ?_, ?_⟩
        · rintro ⟨⟩
        · intro _ hk
          exact absurd hk hused
        · intro _ hk
          exact absurd hk hused
  unfold IniEditorView.save
  split
  · exact early _ _ (by simp) (by simp)
  split
  · exact early _ _ (by simp) (by simp)
  split
  · exact early _ _ (by simp) (by simp)
  rw [htmp, hbak]
  apply wpc_bind
  refine wpc_probe h .tmp hkept ?_ ?_
  · -- a leftover is seen
    show wpc _ _ _ _ (if t.isSome = true then _ else _) _
    split
    · exact early _ _ (by simp) (by simp)
    · rename_i ht
      rw [Option.not_isSome_iff_eq_none] at ht
      apply wpc_bind
      refine wpc_probe h .bak hkept ?_ ?_
      · show wpc _ _ _ _ (if b.isSome = true then _ else _) _
        split
        · exact early _ _ (by simp) (by simp)
        · rename_i hb
          rw [Option.not_isSome_iff_eq_none] at hb
          exact go ht k (.inl ⟨rfl, hb⟩)
      · intro j hj _
        exact go ht j (.inr ⟨by omega, fun _ => by omega⟩)
  · intro j hj hmay
    rw [← htmp] at hmay
    have ht : t = none := by
      by_contra ht
      exact hprobe ht hmay
    show wpc _ _ _ _ (if false = true then _ else _) _
    rw [if_neg Bool.false_ne_true]
    apply wpc_bind
    refine wpc_probe h .bak hkept ?_ ?_
    · show wpc _ _ _ _ (if b.isSome = true then _ else _) _
      split
      · exact early _ _ (by simp) (by simp)
      · exact go ht j (.inr ⟨by omega, fun _ => by omega⟩)
    · intro i hi _
      exact go ht i (.inr ⟨by omega, fun _ => by omega⟩)

end save

/-- The calls work, or fail where `may` lets them. -/
def faulty (may : Card → Explorer.Fn → Prop) : Machine FsI Card := fun v fn r v' =>
  card False v fn r v' ∨ may v fn ∧ Stops v fn r v'

/-- What stands at the three places of an editor. -/
theorem at_of_contents {directory : FsPath} {name : Name} (hlegal : Legal name) {v : Card}
    {old : Bytes} (h : v.contents (place directory name .file) = some old) :
    At directory name v ⟨some (.file old), v.tree.get (key fold (place directory name .tmp)),
      v.tree.get (key fold (place directory name .bak))⟩ := by
  have hget : v.tree.get (key fold (place directory name .file)) = some (.file old) := by
    unfold Volume.contents at h
    split at h
    · rename_i b hb
      cases h
      exact hb
    · cases h
  refine ⟨?_, ?_⟩
  · rw [key_place hlegal] at hget
    exact FileTree.get_prefix_of_ne_none (List.cons_ne_nil _ _) (by rw [hget]; simp)
  · rintro (_ | _ | _)
    · exact hget
    · rfl
    · rfl

theorem At.contents {directory : FsPath} {name : Name} {v : Card} {s : Slots} {p : Place}
    {b : Bytes} (h : At directory name v s) (hp : s.get p = some (.file b)) :
    v.contents (place directory name p) = some b := by
  unfold Volume.contents
  rw [h.get, hp]

/-- Wherever a save is cut and whatever fails, the old or the new text is on the card and what was
left over from before is still there; after at most one failure the file holds the new text if the
save says so and else the old one, and a save that failed leaves nothing behind.  A temporary file
left over from before must be seen. -/
theorem save_never_loses (parses : Bytes → Bool) (e : IniEditorView) (directory : FsPath)
    (name : Name) (hfile : e.file = directory ++ [name]) (hlegal : Legal name) (v : Card)
    (old : Bytes) (hold : v.contents e.file = some old) (may : Card → Explorer.Fn → Prop)
    (hprobe : v.tree.get (key fold e.temporary) ≠ none → ¬may v (.exists_ e.temporary)) :
    (∀ out v', Run (faulty may) (e.save parses).run v out v' →
      (∃ p ∈ [e.file, e.backup, e.temporary],
        v'.contents p = some old ∨ v'.contents p = some e.serialized) ∧
      ∀ p ∈ [e.temporary, e.backup], v.tree.get (key fold p) ≠ none →
        v'.tree.get (key fold p) = v.tree.get (key fold p)) ∧
    ∀ r v' j, Run (limited may) (e.save parses).run (v, 1) (some r) (v', j) →
      ∃ status, r = .ok status ∧
        (status = .saved → v'.contents e.file = some e.serialized) ∧
        (status ≠ .saved → v'.contents e.file = some old) ∧
        ((∃ m, status = .failed m) → v.tree.get (key fold e.temporary) = none →
          v.tree.get (key fold e.backup) = none →
          v'.tree.get (key fold e.temporary) = none ∧ v'.tree.get (key fold e.backup) = none) := by
  have hp : e.file = place directory name .file := by
    rw [hfile]
    simp [place, Place.suffix]
  have htmp : e.temporary = place directory name .tmp := by
    unfold IniEditorView.temporary IniEditorView.beside filename
    rw [hfile, List.dropLast_concat, List.getLastD_concat]
    rfl
  have hbak : e.backup = place directory name .bak := by
    unfold IniEditorView.backup IniEditorView.beside filename
    rw [hfile, List.dropLast_concat, List.getLastD_concat]
    rfl
  have hat : At directory name v ⟨some (.file old), v.tree.get (key fold e.temporary),
      v.tree.get (key fold e.backup)⟩ := by
    rw [htmp, hbak]
    rw [hp] at hold
    exact at_of_contents hlegal hold
  -- one statement for any number of failures, used without a limit and with one
  have hspec := fun k => save_spec (k := k) parses hlegal htmp hp hbak hat hprobe
  constructor
  · intro out v' hrun
    obtain ⟨k, hrun⟩ : ∃ k, Run (limited may) (e.save parses).run (v, k) out (v', 0) :=
      hrun.limited fun _ _ _ _ h => h
    obtain ⟨s, hs, ⟨p, hcomplete⟩, ht, hb⟩ := wp_end (hspec k) hrun
    refine ⟨⟨place directory name p, ?_, ?_⟩, ?_⟩
    · rw [hp, htmp, hbak]
      cases p <;> simp
    · rcases hcomplete with h | h
      · exact .inl (hs.contents h)
      · exact .inr (hs.contents h)
    · simp only [List.mem_cons, List.not_mem_nil, or_false, forall_eq_or_imp, forall_eq]
      refine ⟨?_, ?_⟩
      · intro hne
        rw [← ht hne, htmp]
        exact hs.get .tmp
      · intro hne
        rw [← hb hne, hbak]
        exact hs.get .bak
  · intro r v' j hrun
    have hend := wp_sound (hspec 1) hrun
    cases r with
    | error m => exact hend.elim
    | ok status =>
      obtain ⟨s, hs, hended⟩ := hend
      refine ⟨status, rfl, ?_, ?_, ?_⟩
      · intro h
        rw [hp]
        exact hs.contents (hended.saved h)
      · intro h
        rw [hp]
        exact hs.contents (hended.undone h (by omega))
      · intro h h₁ h₂
        obtain ⟨ht, hb⟩ := hended.tidy h (by omega) h₁ h₂
        rw [htmp, hbak]
        exact ⟨(hs.get .tmp).trans ht, (hs.get .bak).trans hb⟩

/-- A line of a file was changed. -/
def changedFile : IniEditorView where
  file := ["a.txt"]
  lines := [[98]]
  crlf := false
  trailingNewline := false
  jsonFile := false
  dirty := true
  status := "/a.txt"

/-- A card with one file. -/
def oneFile : Card := ((Volume.empty : Card).setFile ["a.txt"] [97]).getD .empty

set_option maxRecDepth 8000 in
theorem save_never_loses_one_file : ∃ r v',
    Ends (faulty fun _ _ => True) (changedFile.save fun _ => true) oneFile r v' ∧
    (∃ p ∈ [changedFile.file, changedFile.backup, changedFile.temporary],
      v'.contents p = some [97] ∨ v'.contents p = some [98]) ∧
    ∀ p ∈ [changedFile.temporary, changedFile.backup], oneFile.tree.get (key fold p) ≠ none →
      v'.tree.get (key fold p) = oneFile.tree.get (key fold p) := by
  have hrun : Ends (faulty fun _ _ => True) (changedFile.save fun _ => true) oneFile
      (exec answer (changedFile.save fun _ => true) oneFile).1
      (exec answer (changedFile.save fun _ => true) oneFile).2 :=
    exec_ends (fun v fn => Or.inl (card_answer False v fn)) _ _
  have hsaved := (save_never_loses (fun _ => true) changedFile [] "a.txt" rfl (by decide) oneFile
    [97] (by decide) (fun _ _ => True) (by decide)).1 _ _ hrun
  exact ⟨_, _, hrun, hsaved.1, hsaved.2⟩

/-- A card with the file and a temporary file left over from before. -/
def withLeftover : Card := (oneFile.setFile ["a.txt.aio-edit.tmp"] [1]).getD .empty

/-- The first call fails, and the others work. -/
def firstFails (i : ℕ) (x : Card × ℕ) : (fn : Explorer.Fn) → Option (fn.Res × (Card × ℕ))
  | .exists_ p =>
    if i = 0 then if x.2 = 1 then some (none, (x.1, 0)) else none
    else some ((answer x.1 (.exists_ p)).1, (x.1, x.2))
  | fn => some ((answer x.1 fn).1, ((answer x.1 fn).2, x.2))

theorem firstFails_limited (i : ℕ) (x : Card × ℕ) (fn : Explorer.Fn) (r : fn.Res) (x' : Card × ℕ)
    (h : firstFails i x fn = some (r, x')) : limited (fun _ _ => True) x fn r x' := by
  have works : ∀ r' : fn.Res × Card, r' = answer x.1 fn → limited (fun _ _ => True) x fn r'.1
      (r'.2, x.2) := by
    rintro r' rfl
    exact .inl ⟨card_answer False x.1 fn, rfl⟩
  cases fn with
  | exists_ p =>
    unfold firstFails at h
    split_ifs at h with h₁ h₂
    · cases h
      exact .inr ⟨⟨trivial, rfl, rfl⟩, h₂⟩
    · cases h
      exact works _ rfl
  | _ =>
    cases h
    exact works _ rfl

/-- A temporary file that is not seen is overwritten and lost, after one call that failed. -/
theorem leftover_lost : ∃ r v' j, withLeftover.contents changedFile.temporary = some [1] ∧
    Run (limited fun _ _ => True) (changedFile.save fun _ => true).run (withLeftover, 1) (some r)
      (v', j) ∧
    v'.tree.get (key fold changedFile.temporary) = none ∧
    ∀ p ∈ [changedFile.file, changedFile.backup, changedFile.temporary],
      v'.contents p ≠ some [1] := by
  have hrun : Run (limited fun _ _ => True) _ _ _ _ := Prog.follow_run firstFails_limited
    (changedFile.save fun _ => true).run 0 (withLeftover, 1)
  have hend : (Prog.follow (I := FsI) (fun i x fn => firstFails i x fn)
      (changedFile.save fun _ => true).run 0 (withLeftover, 1)).1 = some (.ok .saved) := by rfl
  rw [hend] at hrun
  refine ⟨_, _, _, by decide, hrun, by decide, by decide⟩

end IniEditor
