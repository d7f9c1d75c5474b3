/-
# What the copy and delete routines do to the card

One lemma for each routine.  Its crash condition says what the card can look like
at any moment of the routine, its postcondition what a result of `FR_OK` promises.
-/
import AioMod.FsCopy

section deletion

variable {F : SD → Op → Prop}

/-- `σ'` is `σ` with some entries at or below `p` removed. -/
def Pruned (p : FsPath) (σ σ' : SD) : Prop :=
  ∀ q, σ'.get q = σ.get q ∨ p <+: q ∧ σ'.get q = none

theorem Pruned.refl (p : FsPath) (σ : SD) : Pruned p σ σ := fun _ => .inl rfl

theorem Pruned.trans {p : FsPath} {σ₁ σ₂ σ₃ : SD} (h : Pruned p σ₁ σ₂) (h' : Pruned p σ₂ σ₃) :
    Pruned p σ₁ σ₃ := by
  intro q
  rcases h' q with h' | h'
  · rw [h']; exact h q
  · exact .inr h'

theorem Pruned.mono {p r : FsPath} {σ σ' : SD} (h : Pruned p σ σ') (hp : r <+: p) :
    Pruned r σ σ' :=
  fun q => (h q).imp id fun hq => ⟨hp.trans hq.1, hq.2⟩

theorem Pruned.get_other {p q : FsPath} {σ σ' : SD} (h : Pruned p σ σ') (hq : ¬ p <+: q) :
    σ'.get q = σ.get q :=
  (h q).resolve_right fun hp => hq hp.1

theorem Pruned.get_none {p q : FsPath} {σ σ' : SD} (h : Pruned p σ σ') (hq : σ.get q = none) :
    σ'.get q = none := by
  rcases h q with h | h
  · rw [h, hq]
  · exact h.2

theorem Pruned.touch {p : FsPath} {σ σ' : SD} (h : Pruned p σ σ') : FileTree.Touch [p] σ σ' :=
  fun _ hq => h.get_other (hq p (by simp))

/-- Removing one entry prunes. -/
theorem Pruned.of_get {p : FsPath} {σ σ' : SD}
    (h : ∀ q, σ'.get q = if q = p then none else σ.get q) : Pruned p σ σ' := by
  intro q
  rw [h q]
  split
  · next hq => exact .inr ⟨hq ▸ List.prefix_refl _, rfl⟩
  · exact .inl rfl

theorem FRESULT.stop_eq_none {r : FRESULT} : r.stop = none ↔ r = .FR_OK := by
  cases r <;> simp [FRESULT.stop]

theorem FRESULT.stop_eq_some {r e : FRESULT} : r.stop = some e ↔ r = e ∧ e ≠ .FR_OK := by
  cases r <;> cases e <;> simp [FRESULT.stop]

/-- Names folded to different keys stand at different paths. -/
theorem combinePaths_inj {p : FsPath} {a b : String} {r : FsPath}
    (h : CombinePaths p a <+: CombinePaths p b ++ r) : fold a = fold b := by
  obtain ⟨t, ht⟩ := h
  simp only [CombinePaths, List.append_assoc, List.append_cancel_left_eq,
    List.cons_append, List.nil_append, List.cons.injEq] at ht
  exact ht.1

theorem SD.IsListing.isDir {σ : SD} {p : FsPath} {l : List FSEntry_t} (h : σ.IsListing p l)
    {e : FSEntry_t} (he : e ∈ l) :
    ∃ x, σ.get (CombinePaths p e.name) = some x ∧ x.isDir = e.isDir := by
  simpa [Option.map_eq_some_iff] using h.2.1 e he

/-- What a listing leaves out is not there. -/
theorem SD.IsListing.get_none {σ : SD} {p : FsPath} {l : List FSEntry_t} (h : σ.IsListing p l)
    {k : Name} (hk : k ∉ l.map fun e => fold e.name) : σ.get (p ++ [k]) = none := by
  by_contra hne
  exact hk (h.2.2 k (FileTree.mem_names.mpr hne))

/-- The names before an element of a listing differ from its name. -/
theorem SD.IsListing.fold_ne {σ : SD} {p : FsPath} {pre post : List FSEntry_t} {b e : FSEntry_t}
    (h : σ.IsListing p (pre ++ b :: post)) (he : e ∈ pre) : fold e.name ≠ fold b.name := by
  have hnd := h.1
  rw [List.map_append, List.map_cons] at hnd
  exact (List.nodup_append.mp hnd).2.2 _ (List.mem_map_of_mem he) _ (by simp)

theorem wp_hang {α : Type} {C : SD → Prop} {Q : α → SD → Prop} {σ : SD} (hC : C σ) :
    wp (payload F) C Q hang σ :=
  wp_bind.mpr (wp_at hC fun e _ _ => nomatch e)

/-- The deletion routine prunes; with `FR_OK` the directory is gone.  When every call
outside the copy routines works, deleting a directory succeeds. -/
theorem wp_deleteTree (d : ℕ) (p : FsPath) (σ : SD) :
    wp (payload F) (Pruned p σ)
      (fun r σ' => (r = .FR_OK → σ'.get p = none) ∧
        (r ≠ .FR_OK → (∃ τ fn, F τ ⟨.other, fn⟩) ∨ σ.get p ≠ some .dir ∨ p = []))
      (deleteTree d p) σ := by
  induction d generalizing p σ with
  | zero => exact wp_hang (Pruned.refl p σ)
  | succ d ih =>
    rw [deleteTree]
    simp only [Prog.bind_eq, Prog.pure_eq]
    refine wp_bind.mpr (wp_at (Pruned.refl p σ) fun r σ' h => ?_)
    obtain ⟨rfl, ⟨l, hdir, hl, rfl⟩ | ⟨⟨e, he, rfl⟩, hF⟩⟩ := payload_ReadFolder h
    swap
    · exact ⟨Pruned.refl p _, ⟨Pruned.refl p _, by simp [he],
        fun _ => hF.elim (fun h => .inl ⟨_, _, h⟩) fun h => .inr (.inl h)⟩⟩
    refine ⟨Pruned.refl p _, wp_bind.mpr ?_⟩
    -- the children listed before the current one are gone, everything else is as it was
    let inv : List FSEntry_t → SD → Prop := fun pre τ =>
      (∀ q, τ.get q = σ'.get q ∨
        (∃ e ∈ pre, CombinePaths p e.name <+: q) ∧ τ.get q = none) ∧
      ∀ e ∈ pre, τ.get (CombinePaths p e.name) = none
    have hpruned : ∀ pre τ, inv pre τ → Pruned p σ' τ := fun pre τ hi q =>
      (hi.1 q).imp id fun ⟨⟨e, _, hq⟩, hn⟩ => ⟨(List.prefix_append p _).trans hq, hn⟩
    refine wp_untilSome inv l ?_ ?_ ⟨fun q => .inl rfl, by simp⟩
    · rintro pre e post τ rfl hi
      have hcur : τ.sub (CombinePaths p e.name) = σ'.sub (CombinePaths p e.name) := by
        funext r
        refine (hi.1 _).resolve_right ?_
        rintro ⟨⟨e', he', hq⟩, -⟩
        exact hl.fold_ne he' (combinePaths_inj hq)
      obtain ⟨x, hx, hxd⟩ := hl.isDir (e := e) (by simp)
      have hcur0 : τ.get (CombinePaths p e.name) = some x := by
        rw [FileTree.get_eq_sub, hcur, ← FileTree.get_eq_sub, hx]
      -- what the body leaves behind when the child is gone
      have hnext : ∀ τ', Pruned (CombinePaths p e.name) τ τ' →
          τ'.get (CombinePaths p e.name) = none → inv (pre ++ [e]) τ' := by
        intro τ' hp' hgone
        constructor
        · intro q
          rcases hp' q with hq | hq
          · rw [hq]
            exact (hi.1 q).imp id fun ⟨⟨e', he', hpre⟩, hn⟩ => ⟨⟨e', by simp [he'], hpre⟩, hn⟩
          · exact .inr ⟨⟨e, by simp, hq.1⟩, hq.2⟩
        · intro e' he'
          rcases List.mem_append.mp he' with he' | he'
          · exact hp'.get_none (hi.2 e' he')
          · rw [List.mem_singleton.mp he']
            exact hgone
      have hcrash : ∀ τ', Pruned (CombinePaths p e.name) τ τ' → Pruned p σ' τ' := fun τ' h' =>
        (hpruned pre τ hi).trans (h'.mono (List.prefix_append p _))
      by_cases hd : e.isDir = true
      · simp only [hd, if_true]
        refine wp_bind.mpr (wp_conseq (ih (CombinePaths p e.name) τ) hcrash ?_)
        rintro r τ' hp' ⟨hok, herr⟩
        refine ⟨hcrash τ' hp', ?_⟩
        cases hr : r.stop with
        | none => exact hnext τ' hp' (hok (FRESULT.stop_eq_none.mp hr))
        | some err =>
          obtain ⟨rfl, hne⟩ := FRESULT.stop_eq_some.mp hr
          refine ⟨hcrash τ' hp', by simp [hne], fun _ => ?_⟩
          refine (herr hne).imp id ?_
          rintro (h' | h')
          · rw [hd] at hxd
            cases x with
            | dir => exact absurd hcur0 h'
            | file b => cases hxd
          · simp [CombinePaths] at h'
      · simp only [hd, if_false, Bool.false_eq_true]
        refine wp_bind.mpr (wp_at (hcrash τ (Pruned.refl _ τ)) fun r τ' h' => ?_)
        rcases payload_f_unlink h' with ⟨rfl, -, -, hget⟩ | ⟨hne, rfl, hF⟩
        · have hp' := Pruned.of_get hget
          exact ⟨hcrash τ' hp', hcrash τ' hp', hnext τ' hp' (by simp [hget])⟩
        · refine ⟨hcrash _ (Pruned.refl _ _), hcrash _ (Pruned.refl _ _), ?_⟩
          rw [FRESULT.stop_eq_some.mpr ⟨rfl, hne⟩]
          refine ⟨hcrash _ (Pruned.refl _ _), by simp [hne], fun _ => ?_⟩
          rcases hF with hF | hF | hF
          · exact .inl ⟨_, _, hF⟩
          · rw [hF.2] at hcur0
            cases hcur0
          · refine absurd ⟨by simp [CombinePaths], FileTree.childless_iff.mpr fun k => ?_⟩ hF
            refine FileTree.get_append_of_not_dir ?_ (by simp)
            rw [hcur0]
            cases x with
            | dir => simp [Entry.isDir] at hxd; simp [← hxd] at hd
            | file b => simp
    · intro τ hi
      have hp := hpruned l τ hi
      refine ⟨hp, wp_at hp fun r τ' h' => ?_⟩
      rcases payload_f_unlink h' with ⟨rfl, -, -, hget⟩ | ⟨hne, rfl, hF⟩
      · exact ⟨hp.trans (Pruned.of_get hget), fun _ => by simp [hget], by simp⟩
      · refine ⟨hp, by simp [hne], fun _ => ?_⟩
        by_cases hp0 : p = []
        · exact .inr (.inr hp0)
        have hself : τ'.get p = some .dir := by
          rw [← hdir]
          refine (hi.1 p).resolve_right ?_
          rintro ⟨⟨e, -, hq⟩, -⟩
          have := hq.length_le
          simp only [CombinePaths, List.length_append, List.length_singleton] at this
          omega
        have hchildless : τ'.childless p = true := by
          refine FileTree.childless_iff.mpr fun k => ?_
          by_cases hk : k ∈ l.map fun e => fold e.name
          · obtain ⟨e, he, rfl⟩ := List.mem_map.mp hk
            exact hi.2 e he
          · rcases hi.1 (p ++ [k]) with h' | h'
            · rw [h', hl.get_none hk]
            · exact h'.2
        rcases hF with hF | hF | hF
        · exact .inl ⟨_, _, hF⟩
        · rw [hself] at hF
          exact absurd hF.2 (by simp)
        · exact absurd ⟨hp0, hchildless⟩ hF

end deletion

/-! ## Copies -/

section copying

variable {F : SD → Op → Prop}

/-- `e'` is `e`, or the beginning of the file `e`. -/
def Entry.PartOf : Entry Bytes → Entry Bytes → Prop
  | .dir, .dir => True
  | .file c, .file b => c <+: b
  | _, _ => False

theorem Entry.PartOf.refl (e : Entry Bytes) : e.PartOf e := by
  cases e with
  | dir => trivial
  | file b => exact List.prefix_refl b

theorem Entry.PartOf.isDir {e e' : Entry Bytes} (h : e'.PartOf e) : e'.isDir = e.isDir := by
  cases e <;> cases e' <;> first | rfl | exact h.elim

/-- From `σ` to `σ'` some entries at or below `dst` became parts of the entries at the
same places below `src`; none of them stood over a directory, and a new directory
stands where nothing was. -/
def Copied (src dst : FsPath) (σ σ' : SD) : Prop :=
  ∀ q, σ'.get q = σ.get q ∨
    ∃ r e e', q = dst ++ r ∧ σ.get (src ++ r) = some e ∧ σ'.get q = some e' ∧ e'.PartOf e ∧
      σ.get q ≠ some .dir ∧ (e = .dir → σ.get q = none)

/-- No entry below `dst` that a copy from `src` could make is itself part of the
source. -/
def Apart (src dst : FsPath) (σ : SD) : Prop :=
  ∀ r r', σ.get (src ++ r) ≠ none → dst ++ r ≠ src ++ r'

/-- Everything below `src` stands below `dst` as well, except that a path which was
occupied before may have kept its entry where the source has a directory. -/
def Complete (src dst : FsPath) (σ σ' : SD) : Prop :=
  ∀ r e, σ.get (src ++ r) = some e →
    σ'.get (dst ++ r) = some e ∨
      e = .dir ∧ σ.get (dst ++ r) ≠ none ∧ σ'.get (dst ++ r) = σ.get (dst ++ r)

theorem Copied.refl (src dst : FsPath) (σ : SD) : Copied src dst σ σ := fun _ => .inl rfl

theorem Copied.get_other {src dst q : FsPath} {σ σ' : SD} (h : Copied src dst σ σ')
    (hq : ¬ dst <+: q) : σ'.get q = σ.get q :=
  (h q).resolve_right fun ⟨r, _, _, hr, _⟩ => hq (hr ▸ List.prefix_append dst r)

theorem Copied.touch {src dst : FsPath} {σ σ' : SD} (h : Copied src dst σ σ') :
    FileTree.Touch [dst] σ σ' := fun _ hq => h.get_other (hq dst (by simp))

theorem Copied.get_src {src dst : FsPath} {σ σ' : SD} (h : Copied src dst σ σ')
    (ha : Apart src dst σ) (r : FsPath) : σ'.get (src ++ r) = σ.get (src ++ r) := by
  refine (h _).resolve_right ?_
  rintro ⟨r', e, e', hr, he, -⟩
  exact ha r' r (by simp [he]) hr.symm

/-- A copy of a part of the tree after another. -/
theorem Copied.trans {src dst : FsPath} {σ₁ σ₂ σ₃ : SD} (h : Copied src dst σ₁ σ₂)
    (ha : Apart src dst σ₁) {k : FsPath} (h' : Copied (src ++ k) (dst ++ k) σ₂ σ₃) :
    Copied src dst σ₁ σ₃ := by
  intro q
  rcases h' q with hq | ⟨r, e, e', rfl, he, he', hp, hd, hn⟩
  · rw [hq]; exact h q
  · rw [List.append_assoc, h.get_src ha] at he
    refine .inr ⟨k ++ r, e, e', by simp, he, he', hp, ?_, fun hdir => ?_⟩
    · rcases h (dst ++ k ++ r) with h₂ | ⟨_, _, _, -, -, -, -, h₂, -⟩
      · rwa [← h₂]
      · exact h₂
    · rcases h (dst ++ k ++ r) with h₂ | ⟨_, _, _, -, -, h₂, -⟩
      · rw [← h₂]; exact hn hdir
      · rw [hn hdir] at h₂
        cases h₂

theorem Apart.child {src dst : FsPath} {σ σ' : SD} (ha : Apart src dst σ)
    (h : Copied src dst σ σ') (k : FsPath) : Apart (src ++ k) (dst ++ k) σ' := by
  intro r r' hr hne
  rw [List.append_assoc, h.get_src ha] at hr
  exact ha (k ++ r) (k ++ r') hr (by simpa using hne)

theorem Apart.of_disjoint {src dst : FsPath} {σ : SD} (h : ¬ dst <+: src) (h' : ¬ src <+: dst) :
    Apart src dst σ := by
  intro r r' _ hr
  rcases List.prefix_or_prefix_of_prefix (List.prefix_append dst r)
    (hr ▸ List.prefix_append src r') with hp | hp
  · exact h hp
  · exact h' hp

/-- A single file written anew. -/
theorem Copied.of_file {src dst : FsPath} {σ σ' : SD} {b c : Bytes}
    (hsrc : σ.get src = some (.file b)) (hdst : σ.get dst ≠ some .dir) (hc : c <+: b)
    (h : ∀ q, σ'.get q = if q = dst then some (.file c) else σ.get q) : Copied src dst σ σ' := by
  intro q
  rw [h q]
  split
  · next hq =>
    subst hq
    exact .inr ⟨[], .file b, .file c, by simp, by simpa using hsrc, rfl, hc, hdst, by simp⟩
  · exact .inl rfl

/-- What `FileCopy` has done to the card once the destination is open: it holds the
first bytes of the source. -/
def FileCopy.Holds (locout : FsPath) (σ : SD) (b : Bytes) (n : ℕ) (τ : SD) : Prop :=
  ∀ q, τ.get q = if q = locout then some (.file (b.take n)) else σ.get q

theorem FileCopy.Holds.copied {locin locout : FsPath} {σ τ : SD} {b : Bytes} {n : ℕ}
    (hb : σ.get locin = some (.file b)) (hd : σ.get locout ≠ some .dir)
    (h : FileCopy.Holds locout σ b n τ) : Copied locin locout σ τ :=
  Copied.of_file hb hd (List.take_prefix n b) h

/-- The loop extends what the destination holds; with `FR_OK` it holds everything. -/
theorem FileCopy.wp_loop {size : ℕ} (hsize : 0 < size) {locin locout : FsPath} (hne : locin ≠ locout)
    {σ : SD} {b : Bytes} (hb : σ.get locin = some (.file b))
    (turns ofs rem : ℕ) (hrem : rem ≤ turns) (hlen : ofs + rem = b.length) {τ : SD}
    (hτ : FileCopy.Holds locout σ b ofs τ) :
    wp (payload F) (fun τ' => ∃ n, FileCopy.Holds locout σ b n τ')
      (fun r τ' => r = .FR_OK → FileCopy.Holds locout σ b b.length τ')
      (FileCopy.loop size locin locout turns ofs rem) τ := by
  induction turns generalizing ofs rem τ with
  | zero =>
    obtain rfl : rem = 0 := by omega
    exact ⟨⟨ofs, hτ⟩, fun _ => by rwa [← hlen, Nat.add_zero]⟩
  | succ turns ih =>
    rw [FileCopy.loop]
    simp only [Prog.bind_eq, Prog.pure_eq]
    by_cases h0 : rem = 0
    · rw [if_pos h0]
      subst h0
      exact ⟨⟨ofs, hτ⟩, fun _ => by rwa [← hlen, Nat.add_zero]⟩
    rw [if_neg h0]
    have hin : τ.get locin = some (.file b) := by rw [hτ, if_neg hne, hb]
    have hout : τ.get locout = some (.file (b.take ofs)) := by rw [hτ, if_pos rfl]
    refine wp_bind.mpr (wp_at ⟨ofs, hτ⟩ fun r τ' h => ?_)
    obtain ⟨rfl, ⟨b', hb', rfl⟩ | ⟨⟨e, he, rfl⟩, -⟩⟩ := payload_f_read h
    swap
    · exact ⟨⟨ofs, hτ⟩, ⟨ofs, hτ⟩, fun h => absurd h he⟩
    rw [hin] at hb'
    cases hb'
    refine ⟨⟨ofs, hτ⟩, ?_⟩
    by_cases hshort : ((b.drop ofs).take (min rem size)).length ≠ min rem size
    · simp only [hshort, if_true, ne_eq, not_false_eq_true]
      exact ⟨⟨ofs, hτ⟩, by simp⟩
    simp only [hshort, if_false]
    -- after a write of `n` bytes the destination holds the first `ofs + n` bytes
    have hwrite : ∀ n τ₁, (∀ q, τ₁.get q = if q = locout then
        some (.file (b.take ofs ++ ((b.drop ofs).take (min rem size)).take n)) else τ'.get q) →
        FileCopy.Holds locout σ b (ofs + min n (min rem size)) τ₁ := by
      intro n τ₁ hget q
      rw [hget q]
      split
      · rw [List.take_take, ← List.take_add]
      · next hq => rw [hτ, if_neg hq]
    refine wp_bind.mpr (wp_at ⟨ofs, hτ⟩ fun r τ₁ h => ?_)
    obtain ⟨n, hget, hr⟩ := payload_f_write hout h
    have h₁ := hwrite n τ₁ hget
    refine ⟨⟨_, h₁⟩, ?_⟩
    rcases hr with ⟨rfl, hn⟩ | ⟨-, hr, -⟩
    · simp only [ne_eq, not_true_eq_false, if_false]
      rw [hn] at hget
      have h₂ := hwrite (min rem size) τ₁ (by rwa [List.take_take, Nat.min_self])
      rw [Nat.min_self] at h₂
      exact ih (ofs + min rem size) (rem - min rem size) (by omega) (by omega) h₂
    · by_cases h1 : r.1 = .FR_OK
      · simp only [h1, ne_eq, not_true_eq_false, if_false]
        rw [if_pos (by simpa [h1] using hr)]
        exact ⟨⟨_, h₁⟩, by simp⟩
      · simp only [h1, ne_eq, not_false_eq_true, if_true]
        exact ⟨⟨_, h₁⟩, fun h => absurd h h1⟩

/-- `FileCopy` changes at most the destination, which holds a part of the source;
with `FR_OK` it holds all of it. -/
theorem wp_FileCopy (size : ℕ) (locin locout : FsPath) (σ : SD) :
    wp (payload F) (Copied locin locout σ)
      (fun r σ' => r = .FR_OK → ∃ b, σ.get locin = some (.file b) ∧ σ'.get locout = some (.file b))
      (FileCopy size locin locout) σ := by
  have h0 := Copied.refl locin locout σ
  rw [FileCopy]
  simp only [Prog.bind_eq, Prog.pure_eq]
  by_cases hsame : locin = locout
  · rw [if_pos hsame]
    exact ⟨h0, by simp⟩
  rw [if_neg hsame]
  refine wp_bind.mpr (wp_at h0 fun r τ h => ?_)
  obtain ⟨rfl, ⟨b, hb, rfl⟩ | ⟨⟨e, he, rfl⟩, -⟩⟩ := payload_f_open h
  swap
  · exact ⟨h0, h0, fun h => absurd h he⟩
  refine ⟨h0, wp_bind.mpr (wp_at h0 fun r τ' h => ?_)⟩
  obtain ⟨rfl, hr⟩ := payload_f_stat h
  refine ⟨h0, ?_⟩
  cases r with
  | error e =>
    have he : e ≠ .FR_OK := by
      rcases hr with hr | ⟨-, e', he', hr⟩
      · rw [SD.stat, hb] at hr
        cases hr
      · cases hr; exact he'
    refine wp_bind.mpr (wp_at h0 fun _ τ h => ?_)
    obtain ⟨rfl, -⟩ := payload_f_close h
    exact ⟨h0, h0, fun h => absurd h he⟩
  | ok info =>
    refine wp_bind.mpr (wp_at h0 fun r τ h => ?_)
    rcases payload_f_create h with ⟨rfl, hput, hget⟩ | ⟨hcr, rfl, -⟩
    swap
    · rw [if_pos hcr]
      refine ⟨h0, wp_bind.mpr (wp_at h0 fun _ τ h => ?_)⟩
      obtain ⟨rfl, -⟩ := payload_f_close h
      exact ⟨h0, h0, fun h => absurd h hcr⟩
    -- from here on the destination is a front of the source
    have hcop : ∀ n τ, FileCopy.Holds locout τ' b n τ → Copied locin locout τ' τ :=
      fun n τ => FileCopy.Holds.copied hb hput.2.2
    have hτ : FileCopy.Holds locout τ' b 0 τ := by simpa [FileCopy.Holds] using hget
    have h1 := hcop 0 τ hτ
    simp only [ne_eq, not_true_eq_false, if_false]
    refine ⟨h1, wp_bind.mpr (wp_at h1 fun buff τ₁ h => ?_)⟩
    obtain rfl := payload_readOnly rfl h
    refine ⟨h1, ?_⟩
    by_cases hbuf : (!buff || decide (size = 0)) = true
    · rw [if_pos hbuf]
      refine wp_bind.mpr (wp_at h1 fun _ τ₂ h => ?_)
      obtain ⟨rfl, -⟩ := payload_f_close h
      refine ⟨h1, wp_bind.mpr (wp_at h1 fun _ τ₃ h => ?_)⟩
      obtain ⟨rfl, -⟩ := payload_f_close h
      exact ⟨h1, h1, by simp⟩
    rw [if_neg hbuf]
    have hsize : 0 < size := by
      simp only [Bool.or_eq_true, decide_eq_true_eq, not_or] at hbuf
      omega
    refine wp_bind.mpr (wp_conseq (FileCopy.wp_loop hsize hsame hb b.length 0 b.length le_rfl
      (by omega) hτ) (fun τ ⟨n, hn⟩ => hcop n τ hn) ?_)
    rintro err τ₂ ⟨n, hn⟩ hok
    have h2 := hcop n τ₂ hn
    refine wp_bind.mpr (wp_at h2 fun r₁ τ₃ h => ?_)
    obtain ⟨rfl, -⟩ := payload_f_close h
    refine ⟨h2, wp_bind.mpr (wp_at h2 fun r₂ τ₄ h => ?_)⟩
    obtain ⟨rfl, -⟩ := payload_f_close h
    refine ⟨h2, ?_⟩
    by_cases herr : err = .FR_OK
    · have hdone : τ₄.get locout = some (.file b) := by
        rw [hok herr, if_pos rfl, List.take_length]
      -- only the attributes are left to be set
      have hlast : ∀ err : FRESULT, wp (payload F) (Copied locin locout τ')
          (fun r σ' => r = .FR_OK →
            ∃ b, τ'.get locin = some (.file b) ∧ σ'.get locout = some (.file b))
          (if err = .FR_OK then copyCall (.f_chmod locout) else .ret err) τ₄ := by
        intro err
        split
        · refine wp_at h2 fun r τ₅ h => ?_
          obtain ⟨rfl, -⟩ := payload_f_chmod h
          exact ⟨h2, fun _ => ⟨b, hb, hdone⟩⟩
        · next hne => exact ⟨h2, fun h => absurd h hne⟩
      exact hlast _
    · rw [if_neg herr, if_neg herr, if_neg herr]
      exact ⟨h2, fun h => absurd h herr⟩

/-- The place of an entry that a listing of `locin` reports. -/
theorem combinePaths_append (p : FsPath) (s : String) (r : FsPath) :
    CombinePaths p s ++ r = p ++ (fold s :: r) := by
  simp [CombinePaths]

theorem combinePaths_getLast? (p : FsPath) (s : String) :
    (CombinePaths p s).getLast?.toList = [fold s] := by
  simp [CombinePaths]

/-- `FolderCopy` copies the tree at `locin` to the same name in `locout`: at any moment
the entries below the destination are what they were or parts of the source, and with
`FR_OK` the copy is complete. -/
theorem wp_FolderCopy (size depth : ℕ) (locin locout : FsPath) (σ : SD)
    (ha : Apart locin (locout ++ locin.getLast?.toList) σ) :
    wp (payload F) (Copied locin (locout ++ locin.getLast?.toList) σ)
      (fun r σ' => r = .FR_OK → Complete locin (locout ++ locin.getLast?.toList) σ σ')
      (FolderCopy size depth locin locout) σ := by
  induction depth generalizing locin locout σ with
  | zero => exact wp_hang (Copied.refl _ _ σ)
  | succ depth ih =>
    rw [FolderCopy]
    simp only [Prog.bind_eq, Prog.pure_eq]
    generalize hdst : locout ++ locin.getLast?.toList = dst at ha ⊢
    have h0 := Copied.refl locin dst σ
    by_cases hsame : locin = locout
    · rw [if_pos hsame]
      exact ⟨h0, by simp⟩
    rw [if_neg hsame]
    refine wp_bind.mpr (wp_at h0 fun r τ h => ?_)
    obtain ⟨rfl, ⟨l, hdir, hl, rfl⟩ | ⟨⟨e, he, rfl⟩, -⟩⟩ := payload_ReadFolder h
    swap
    · exact ⟨h0, h0, fun h => absurd h he⟩
    refine ⟨h0, wp_bind.mpr (wp_at h0 fun r τ₁ h => ?_)⟩
    -- the folder itself: it is new, or what stood there stays
    have hmk : Copied locin dst τ τ₁ ∧ (τ₁.get dst = some .dir ∨ τ₁.get dst = τ.get dst) := by
      rcases payload_f_mkdir h with ⟨-, hnone, -, hget⟩ | ⟨-, rfl, -⟩
      · refine ⟨fun q => ?_, .inl (by rw [hget, if_pos rfl])⟩
        rw [hget q]
        split
        · next hq =>
          subst hq
          exact .inr ⟨[], .dir, .dir, by simp, by simpa using hdir, rfl, trivial,
            by simp [hnone], fun _ => hnone⟩
        · exact .inl rfl
      · exact ⟨h0, .inr rfl⟩
    refine ⟨hmk.1, wp_bind.mpr ?_⟩
    -- the entries listed before the current one are copied completely, the others are
    -- as they were
    let inv : List FSEntry_t → SD → Prop := fun pre τ' =>
      Copied locin dst τ τ' ∧ (τ'.get dst = some .dir ∨ τ'.get dst = τ.get dst) ∧
        (∀ q, τ'.get q = τ.get q ∨ q = dst ∨ ∃ e ∈ pre, CombinePaths dst e.name <+: q) ∧
        ∀ e ∈ pre, Complete (CombinePaths locin e.name) (CombinePaths dst e.name) τ τ'
    have hlong : ∀ s : String, ¬ CombinePaths dst s <+: dst := by
      intro s hp
      have := hp.length_le
      simp only [CombinePaths, List.length_append, List.length_singleton] at this
      omega
    have h1 : inv [] τ₁ := by
      refine ⟨hmk.1, hmk.2, fun q => ?_, by simp⟩
      rcases payload_f_mkdir h with ⟨-, -, -, hget⟩ | ⟨-, rfl, -⟩
      · rw [hget q]
        split
        · next hq => exact .inr (.inl hq)
        · exact .inl rfl
      · exact .inl rfl
    refine wp_untilSome inv l ?_ ?_ h1
    · rintro pre e post τ' rfl ⟨hc, hself, hrest, hdone⟩
      have hcur : ∀ r, τ'.get (CombinePaths dst e.name ++ r) =
          τ.get (CombinePaths dst e.name ++ r) := by
        intro r
        refine (hrest _).resolve_right ?_
        rintro (hq | ⟨e', he', hq⟩)
        · exact hlong e.name ⟨r, hq⟩
        · exact hl.fold_ne he' (combinePaths_inj hq)
      have hsrc : ∀ r, τ'.get (CombinePaths locin e.name ++ r) =
          τ.get (CombinePaths locin e.name ++ r) := fun r => by
        rw [combinePaths_append]
        exact hc.get_src ha _
      have hcrash : ∀ τ₂, Copied (CombinePaths locin e.name) (CombinePaths dst e.name) τ' τ₂ →
          Copied locin dst τ τ₂ := fun τ₂ h₂ => hc.trans ha h₂
      have hnext : ∀ τ₂, Copied (CombinePaths locin e.name) (CombinePaths dst e.name) τ' τ₂ →
          Complete (CombinePaths locin e.name) (CombinePaths dst e.name) τ' τ₂ →
          inv (pre ++ [e]) τ₂ := by
        intro τ₂ h₂ hcomp
        refine ⟨hcrash τ₂ h₂, by rwa [h₂.get_other (hlong e.name)], fun q => ?_, ?_⟩
        · by_cases hq : CombinePaths dst e.name <+: q
          · exact .inr (.inr ⟨e, by simp, hq⟩)
          · rw [h₂.get_other hq]
            exact (hrest q).imp id (Or.imp id fun ⟨e', he', hq⟩ => ⟨e', by simp [he'], hq⟩)
        · intro e' he'
          rcases List.mem_append.mp he' with he' | he'
          · intro r x hx
            rw [h₂.get_other fun hp => hl.fold_ne he' (combinePaths_inj hp).symm]
            exact hdone e' he' r x hx
          · obtain rfl := List.mem_singleton.mp he'
            intro r x hx
            rw [← hcur r]
            exact hcomp r x (by rw [hsrc, hx])
      have h0' := Copied.refl (CombinePaths locin e.name) (CombinePaths dst e.name) τ'
      by_cases hd : e.isDir = true
      · simp only [hd, if_true]
        have hplace : dst ++ (CombinePaths locin e.name).getLast?.toList =
            CombinePaths dst e.name := by
          rw [combinePaths_getLast?, CombinePaths]
        have ih' := ih (CombinePaths locin e.name) dst τ'
        rw [hplace] at ih'
        have hapart : Apart (CombinePaths locin e.name) (CombinePaths dst e.name) τ' :=
          ha.child hc [fold e.name]
        refine wp_bind.mpr (wp_conseq (ih' hapart) hcrash ?_)
        rintro r τ₂ h₂ hok
        refine ⟨hcrash τ₂ h₂, ?_⟩
        cases hr : r.stop with
        | none => exact hnext τ₂ h₂ (hok (FRESULT.stop_eq_none.mp hr))
        | some err => exact ⟨hcrash τ₂ h₂, fun h => absurd h (FRESULT.stop_eq_some.mp hr).2⟩
      · simp only [hd, if_false, Bool.false_eq_true]
        refine wp_bind.mpr (wp_conseq (wp_FileCopy size _ _ τ') hcrash ?_)
        rintro r τ₂ h₂ hok
        refine ⟨hcrash τ₂ h₂, ?_⟩
        cases hr : r.stop with
        | none =>
          obtain ⟨b, hb, hb'⟩ := hok (FRESULT.stop_eq_none.mp hr)
          refine hnext τ₂ h₂ fun r x hx => ?_
          by_cases hr0 : r = []
          · subst hr0
            rw [List.append_nil] at hx ⊢
            rw [hb] at hx
            cases hx
            exact .inl hb'
          · rw [FileTree.get_append_of_not_dir (by simp [hb]) hr0] at hx
            cases hx
        | some err => exact ⟨hcrash τ₂ h₂, fun h => absurd h (FRESULT.stop_eq_some.mp hr).2⟩
    · rintro τ' ⟨hc, hself, -, hdone⟩
      refine ⟨hc, wp_bind.mpr (wp_at hc fun r τ₂ h => ?_)⟩
      obtain ⟨rfl, hr⟩ := payload_f_stat h
      refine ⟨hc, ?_⟩
      cases r with
      | error e =>
        refine ⟨hc, fun he => ?_⟩
        rcases hr with hr | ⟨-, e', he', hr⟩
        · rw [SD.stat] at hr
          split at hr <;> cases hr
          exact absurd he (SD.missing_ne_ok _ _)
        · cases hr
          exact absurd he he'
      | ok info =>
        refine wp_at hc fun r τ₃ h => ?_
        obtain ⟨rfl, ⟨-, hne⟩ | ⟨hr, -⟩⟩ := payload_f_chmod h
        swap
        · exact ⟨hc, fun h => absurd h hr⟩
        refine ⟨hc, fun _ r x hx => ?_⟩
        cases r with
        | nil =>
          rw [List.append_nil] at hx ⊢
          rw [hdir] at hx
          cases hx
          rcases hself with hself | hself
          · exact .inl hself
          · exact .inr ⟨rfl, hself ▸ hne, hself⟩
        | cons k r =>
          have hk : τ.get (locin ++ [k]) ≠ none := by
            intro hn
            have := FileTree.get_append_of_none hn r
            rw [List.append_assoc, List.singleton_append, hx] at this
            cases this
          obtain ⟨e, he, rfl⟩ := List.mem_map.mp (hl.2.2 k (FileTree.mem_names.mpr hk))
          rw [← combinePaths_append] at hx ⊢
          exact hdone e he r x hx

end copying
