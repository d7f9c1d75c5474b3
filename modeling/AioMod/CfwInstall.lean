/-
# The installation by the CFW updater

The staged tree is copied over the root, entry by entry, and the copy is verified; on
patched and Mariko hardware the new boot payload takes the place of the updater; the
commit deletes the backup.  A pack that writes into the transaction's own folder, or over
the saved boot payload, is excluded by `Update.Tame`.
-/
import AioMod.CfwRollback

namespace CfwUpdater

open FileTree (Incomparable Touch)

/-! ## Tame packs -/

/-- The names at the root that the transaction uses. -/
def reserved (patched : Bool) : List Name :=
  (List.finRange managed_paths.length).map (fun i : Managed => fold i.name) ++
    "aio-mod-update" :: if patched then ["payload.bin.aio"] else []

theorem reserved_places : ∀ patched : Bool,
    (∀ i : Managed, ∀ w ∈ places patched i, ∃ k ∈ reserved patched, [k] <+: w) ∧
      ∀ w ∈ [UPDATE_NEW, UPDATE_READY, UPDATE_BACKUP, UPDATE_STATE, UPDATE_STATE_TMP, UPDATE_ROOT],
        ∃ k ∈ reserved patched, [k] <+: w := by
  decide +kernel

/-- A path under another name is spare. -/
theorem spare_of_not_reserved {patched : Bool} {k : Name} (hk : k ∉ reserved patched) (r : FsPath) :
    Spare patched (k :: r) := by
  have hinc : ∀ w, (∃ k' ∈ reserved patched, [k'] <+: w) → Incomparable (k :: r) w := by
    rintro w ⟨k', hk', t, rfl⟩
    have hne : k ≠ k' := fun h => hk (h ▸ hk')
    exact ⟨fun h => hne (List.cons_prefix_cons.mp h).1,
      fun h => hne (List.cons_prefix_cons.mp h).1.symm⟩
  obtain ⟨hp, hf⟩ := reserved_places patched
  have hfile : ∀ w ∈ [UPDATE_NEW, UPDATE_READY, UPDATE_BACKUP, UPDATE_STATE, UPDATE_STATE_TMP,
      UPDATE_ROOT], Incomparable (k :: r) w := fun w hw => hinc w (hf w hw)
  exact ⟨⟨hfile _ (by simp), hfile _ (by simp), (hfile _ (by simp)).1,
    fun i w hw => hinc w (hp i w hw)⟩, (hfile _ (by simp)).1, (hfile _ (by simp)).1,
    (hfile _ (by simp)).1⟩

/-- The pack leaves the transaction alone: it brings nothing that the updaters keep below
their folder, and no saved boot payload. -/
structure Update.Tame (u : Update) : Prop where
  own : ∀ r, u.staged ("aio-mod-update" :: r) ≠ none →
    "aio-mod-update" :: r ∈ [UPDATE_ROOT, UPDATE_NEW, UPDATE_BACKUP] ∨
      Spare u.patched ("aio-mod-update" :: r)
  saved : u.patched = true → ∀ r, u.staged ("payload.bin.aio" :: r) = none

/-- What a pack brings outside the managed paths. -/
theorem Update.Tame.spare {u : Update} (ht : u.Tame) {k : Name} {r : FsPath}
    (hk : ∀ i : Managed, fold i.name ≠ k) (hr : u.staged (k :: r) ≠ none) :
    k :: r ∈ [UPDATE_ROOT, UPDATE_NEW, UPDATE_BACKUP] ∨ Spare u.patched (k :: r) := by
  by_cases hown : k = "aio-mod-update"
  · subst hown
    exact ht.own r hr
  refine .inr (spare_of_not_reserved (fun hmem => ?_) r)
  rw [reserved, List.mem_append, List.mem_cons] at hmem
  rcases hmem with hmem | hmem | hmem
  · obtain ⟨i, -, hi⟩ := List.mem_map.mp hmem
    exact hk i hi
  · exact hown hmem
  · cases hp : u.patched with
    | false =>
      rw [hp] at hmem
      cases hmem
    | true =>
      rw [hp] at hmem
      obtain rfl : k = "payload.bin.aio" := by simpa using hmem
      exact hr (ht.saved hp r)

theorem fold_next : ∀ i : Managed, fold i.name = fold "Next" → i.name = "Next" := by
  decide +kernel

theorem fold_payload : ∀ i : Managed, fold i.name = fold "payload.bin" → i.name = "payload.bin" := by
  decide +kernel

/-- The managed names differ, also in the spelling in which names are compared. -/
theorem fold_ne : ∀ i j : Managed, i ≠ j → fold i.name ≠ fold j.name := by
  decide +kernel

/-! ## The copy of one entry -/

section copy

variable {u : Update} {σ σ' : SD} {depth FSBuffSize : ℕ}

theorem staged_sub (h : (snapshot u.patched σ).staged = u.staged) (r : FsPath) :
    σ.get (UPDATE_NEW ++ r) = u.staged r := by
  rw [← h]
  rfl

/-- The source and the destination of an entry stand apart. -/
theorem apart_staged (ht : u.Tame) (h : (snapshot u.patched σ).staged = u.staged) (k : Name) :
    Apart (UPDATE_NEW ++ [k]) [k] σ := by
  by_cases hk : k = "aio-mod-update"
  swap
  · refine .of_disjoint (fun hp => hk ?_) fun hp => ?_
    · exact (List.cons_prefix_cons.mp hp).1
    · have := hp.length_le
      simp [UPDATE_NEW] at this
  subst hk
  intro r r' hr hne
  rw [List.append_assoc, staged_sub h] at hr
  -- the copy would land in the staged tree again
  obtain rfl : r = "new" :: "aio-mod-update" :: r' := by
    simpa [UPDATE_NEW] using hne
  rcases ht.own _ hr with hmem | hs
  · simp [UPDATE_ROOT, UPDATE_NEW, UPDATE_BACKUP] at hmem
  · exact hs.1.1.2 ⟨"aio-mod-update" :: r', rfl⟩

/-- What the copy of an entry does, whatever it is. -/
theorem wp_copy_entry {e : FSEntry_t} (ha : Apart (stagedPath e.name) (rootPath e.name) σ) :
    wp (payload copiesMayFail) (Copied (stagedPath e.name) (rootPath e.name) σ)
      (fun r σ' => r = .FR_OK → Complete (stagedPath e.name) (rootPath e.name) σ σ')
      (copy_staged_entry depth FSBuffSize e) σ := by
  have hroot : [] ++ (stagedPath e.name).getLast?.toList = rootPath e.name := by
    rw [stagedPath, combinePaths_getLast?, rootPath, CombinePaths]
  rw [copy_staged_entry]
  split
  · rw [← hroot] at ha ⊢
    exact wp_FolderCopy FSBuffSize depth _ _ σ ha
  · next hfile =>
    refine wp_conseq (wp_FileCopy FSBuffSize _ _ σ) (fun _ h => h) fun r τ _ hok hr => ?_
    obtain ⟨b, hsrc, hdst⟩ := hok hr
    intro r' e' he'
    by_cases hr' : r' = []
    · subst hr'
      rw [List.append_nil] at he' ⊢
      rw [hsrc] at he'
      exact .inl (hdst.trans he')
    · rw [FileTree.get_append_of_not_dir (by simp [hsrc]) hr'] at he'
      cases he'

/-- A copied entry with a name of its own changes nothing the transaction keeps. -/
theorem Holds.copied_foreign {t : State} {R : Snapshot → Prop} (h : Holds u t R σ) (ht : u.Tame)
    (hb : u.BackedUp (snapshot u.patched σ)) {e : FSEntry_t}
    (hk : ∀ i : Managed, fold i.name ≠ fold e.name)
    (hc : Copied (stagedPath e.name) (rootPath e.name) σ σ') : Holds u t R σ' := by
  refine h.spare fun q => (hc q).imp id ?_
  rintro ⟨r, x, x', rfl, hx, -, -, hd, -⟩
  have hroot : rootPath e.name ++ r = fold e.name :: r := rfl
  have hst : stagedPath e.name ++ r = UPDATE_NEW ++ fold e.name :: r := combinePaths_append _ _ r
  rw [hst] at hx
  have hnew : σ.get UPDATE_NEW = some .dir :=
    FileTree.get_prefix_of_ne_none (r := fold e.name :: r) (by simp) (by rw [hx]; simp)
  rw [staged_sub hb.staged] at hx
  rw [hroot] at hd ⊢
  refine (ht.spare hk (by simp [hx])).resolve_left fun hmem => hd ?_
  -- the folders of the transaction are there already
  rcases List.mem_cons.mp hmem with hq | hmem
  · rw [hq]
    exact h.root
  rcases List.mem_pair.mp hmem with hq | hq
  · rw [hq]
    exact hnew
  · rw [hq]
    exact backup_dir hb.folder

theorem copied_parts {n : Tree} {src dst : FsPath} (hsrc : σ.sub src = n)
    (hp : Tree.Parts (σ.sub dst) n) (hc : Copied src dst σ σ') : Tree.Parts (σ'.sub dst) n := by
  intro r
  rcases hc (dst ++ r) with h | ⟨r', e, e', hr, he, he', hpart, -⟩
  · rw [FileTree.sub_apply, h]
    exact hp r
  · obtain rfl := List.append_cancel_left hr
    exact .inr ⟨e, e', by rw [← hsrc]; exact he, he', hpart⟩

/-- Over a single file a copy leaves the file or parts of the source. -/
theorem copied_single {n : Tree} {src dst : FsPath} {b : Bytes} (hsrc : σ.sub src = n)
    (hp : σ.sub dst = Tree.single b) (hc : Copied src dst σ σ') :
    Tree.Parts (σ'.sub dst) n ∨ σ'.sub dst = Tree.single b := by
  have hfile : σ.get dst = some (.file b) := SD.sub_eq_single.mp hp
  rcases hc dst with h | ⟨r, e, e', hr, he, he', hpart, -, hdir⟩
  · exact .inr (SD.sub_eq_single.mpr (h.trans hfile))
  · obtain rfl : r = [] := List.self_eq_append_right.mp hr
    have hfile' : σ'.get dst ≠ some .dir := by
      rw [he']
      rintro ⟨⟩
      cases e with
      | dir =>
        rw [hdir rfl] at hfile
        cases hfile
      | file c => exact hpart.elim
    refine .inl fun r => ?_
    by_cases hr : r = []
    · subst hr
      rw [List.append_nil] at he
      refine .inr ⟨e, e', ?_, by simpa using he', hpart⟩
      rw [← hsrc, FileTree.sub_apply, List.append_nil, he]
    · exact .inl (FileTree.get_append_of_not_dir hfile' hr)

/-- A complete copy over parts of its source is the source. -/
theorem complete_eq {n : Tree} {src dst : FsPath} (hsrc : σ.sub src = n)
    (hp : Tree.Parts (σ.sub dst) n) (hc : Copied src dst σ σ') (hd : Complete src dst σ σ') :
    σ'.sub dst = n := by
  funext r
  have hpart := copied_parts hsrc hp hc r
  cases hn : n r with
  | none =>
    refine hpart.resolve_right fun ⟨e, _, he, _⟩ => ?_
    rw [hn] at he
    cases he
  | some e =>
    rcases hd r e (by rw [← hn, ← hsrc]; rfl) with h | ⟨rfl, hne, h⟩
    · exact h
    · rw [FileTree.sub_apply, h]
      -- the directory that was there already
      rcases hp r with h₀ | ⟨e₁, e₂, h₁, h₂, h₃⟩
      · exact absurd h₀ hne
      · rw [hn] at h₁
        cases h₁
        cases e₂ with
        | dir => exact h₂
        | file b => exact h₃.elim

/-- A copied entry of a managed path. -/
theorem copied_managed {t : State} (h : Holds u t u.BackedUp σ) {e : FSEntry_t} {i : Managed}
    (hk : fold i.name = fold e.name)
    (hc : Copied (stagedPath e.name) (rootPath e.name) σ σ') :
    Holds u t u.BackedUp σ' ∧
      (∀ j, j ≠ i → (item u.patched σ' j) = item u.patched σ j) ∧
      (Complete (stagedPath e.name) (rootPath e.name) σ σ' → u.special i = false →
        (item u.patched σ' i).root = u.pack i) := by
  have hroot : rootPath e.name = rootPath i.name := by rw [rootPath, CombinePaths, ← hk]; rfl
  rw [hroot] at hc ⊢
  have hpack : σ.sub (stagedPath e.name) = u.pack i := by
    funext r
    rw [FileTree.sub_apply, stagedPath, combinePaths_append, staged_sub h.snap.staged, ← hk]
    rfl
  have hdone : u.Done i (item u.patched σ i) := h.snap.items i
  have hmay : u.MayHold i (item u.patched σ' i).root := by
    rcases hdone.root with hp | ⟨hs, hp⟩
    · exact .inl (copied_parts hpack hp hc)
    · exact (copied_single hpack hp hc).imp id fun h => ⟨hs, h⟩
  have ht : Touch (places u.patched i) σ σ' := touch_mem hc.touch (by simp [places])
  refine ⟨h.set ht ⟨h.snap.staged, h.snap.ready, h.snap.folder, ?_⟩, fun j hj => ?_, fun hd hs => ?_⟩
  · exact Snapshot.forall_set (fun j _ => h.snap.items j) ⟨hdone.kept.of_touch hc.touch (by simp), hmay⟩
  · refine item_congr fun w hw => ht.sub fun p hp => ?_
    exact places_apart u.patched i j hj p hp w hw
  · refine complete_eq hpack ?_ hc hd
    refine hdone.root.resolve_right fun hu => ?_
    rw [hs] at hu
    cases hu.1

/-- What the copy loop keeps: the managed paths among the first entries are installed. -/
structure Copying (u : Update) (pre : List FSEntry_t) (S : Snapshot) : Prop where
  backedUp : u.BackedUp S
  installed : ∀ e ∈ pre, ∀ i : Managed, fold i.name = fold e.name → u.special i = false →
    i.name ≠ "Next" → (S.item i).root = u.pack i

/-- An entry that is skipped, or one whose copy is complete. -/
theorem Copying.snoc {pre : List FSEntry_t} {e : FSEntry_t} {S : Snapshot} (h : Copying u pre S)
    (he : ∀ i : Managed, fold i.name = fold e.name → u.special i = false → i.name ≠ "Next" →
      (S.item i).root = u.pack i) : Copying u (pre ++ [e]) S := by
  refine ⟨h.backedUp, fun e' he' => ?_⟩
  rcases List.mem_append.mp he' with he' | he'
  · exact h.installed e' he'
  · rw [List.mem_singleton.mp he']
    exact he

/-- The copy of the next entry, at any moment and at its end. -/
theorem Copying.copied {t : State} {pre : List FSEntry_t} {e : FSEntry_t}
    (h : Holds u t (Copying u pre) σ) (ht : u.Tame)
    (hne : ∀ e' ∈ pre, fold e'.name ≠ fold e.name)
    (hc : Copied (stagedPath e.name) (rootPath e.name) σ σ') :
    Holds u t (Copying u pre) σ' ∧
      (Complete (stagedPath e.name) (rootPath e.name) σ σ' →
        Holds u t (Copying u (pre ++ [e])) σ') := by
  by_cases hk : ∃ i : Managed, fold i.name = fold e.name
  · obtain ⟨i, hk⟩ := hk
    obtain ⟨hb, hother, hfull⟩ := copied_managed (h.imp fun hS => hS.backedUp) hk hc
    have hpre : Holds u t (Copying u pre) σ' := by
      refine hb.imp fun hS => ⟨hS, fun e' he' j hj hs hn => ?_⟩
      have hji : j ≠ i := by
        rintro rfl
        exact hne e' he' (hj.symm.trans hk)
      exact (congrArg Item.root (hother j hji)).trans (h.snap.installed e' he' j hj hs hn)
    refine ⟨hpre, fun hd => hpre.imp fun hS => hS.snoc fun j hj hs _ => ?_⟩
    have hji : j = i := by
      by_contra hji
      exact fold_ne j i hji (hj.trans hk.symm)
    subst hji
    exact hfull hd hs
  · push Not at hk
    have hpre := h.copied_foreign ht h.snap.backedUp hk hc
    exact ⟨hpre, fun _ => hpre.imp fun hS => hS.snoc fun j hj => absurd hj (hk j)⟩

/-- `copy_staged_root` installs all managed paths but the boot payload and the legacy
folder, or stops with everything backed up. -/
theorem wp_copy_staged_root (ht : u.Tame) (h : Holds u .COPY_IN_PROGRESS u.BackedUp σ) :
    wp (payload copiesMayFail) (Inv u)
      (fun r σ' => Holds u .COPY_IN_PROGRESS u.BackedUp σ' ∧
        (r = .FR_OK → ∀ i : Managed, u.special i = false → i.name ≠ "Next" →
          (item u.patched σ' i).root = u.pack i))
      (copy_staged_root depth FSBuffSize u.patched) σ := by
  have hinv : ∀ {pre σ}, Holds u .COPY_IN_PROGRESS (Copying u pre) σ → Inv u σ :=
    fun h => h.inv h.snap.backedUp
  rw [copy_staged_root]
  simp only [Prog.bind_eq, Prog.pure_eq]
  refine wp_bind.mpr (wp_at (h.inv h.snap) fun r τ hread => ?_)
  obtain ⟨rfl, ⟨l, -, hl, rfl⟩ | ⟨⟨e, he, rfl⟩, -⟩⟩ := payload_ReadFolder hread
  swap
  · exact ⟨h.inv h.snap, h.inv h.snap, h, fun hr => absurd hr he⟩
  refine ⟨h.inv h.snap, ?_⟩
  have hkeys : ∀ k : Name, k ∉ l.map (fun e => fold e.name) → u.staged [k] = none := by
    intro k hk
    rw [← staged_sub h.snap.staged]
    exact hl.get_none hk
  refine wp_bind.mpr (wp_untilSome
    (fun pre σ' => Holds u .COPY_IN_PROGRESS (Copying u pre) σ') l ?_ ?_
    (h.imp fun hS => ⟨hS, by simp⟩))
  · rintro pre e post σ₁ rfl h₁
    have hc₁ := hinv h₁
    by_cases hhid : is_hidden_legacy_path e.name = true
    · rw [if_pos hhid]
      refine ⟨hc₁, h₁.imp fun hS => hS.snoc fun i hi _ hn => absurd ?_ hn⟩
      have : e.name = "Next" := by simpa [is_hidden_legacy_path] using hhid
      exact fold_next i (by rw [hi, this])
    rw [if_neg hhid]
    by_cases hpay : (u.patched && decide (e.name = "payload.bin")) = true
    · rw [if_pos hpay]
      refine ⟨hc₁, h₁.imp fun hS => hS.snoc fun i hi hs _ => absurd hs ?_⟩
      rw [Bool.and_eq_true, decide_eq_true_eq] at hpay
      simp [Update.special, hpay.1, fold_payload i (by rw [hi, hpay.2])]
    rw [if_neg hpay]
    -- no entry of the listing is copied over one before it
    have hne : ∀ e' ∈ pre, fold e'.name ≠ fold e.name := fun e' he' => hl.fold_ne he'
    have ha : Apart (stagedPath e.name) (rootPath e.name) σ₁ :=
      apart_staged ht h₁.snap.backedUp.staged (fold e.name)
    refine wp_bind.mpr (wp_conseq (wp_copy_entry ha)
      (fun σ₂ hc => hinv (Copying.copied h₁ ht hne hc).1) ?_)
    intro r σ₂ hc hok
    obtain ⟨hpre, hfull⟩ := Copying.copied h₁ ht hne hc
    refine ⟨hinv hpre, ?_⟩
    cases hr : r.stop with
    | none => exact hfull (hok (FRESULT.stop_eq_none.mp hr))
    | some e' =>
      refine ⟨hinv hpre, hpre.imp fun hS => hS.backedUp, ?_⟩
      rintro rfl
      exact absurd rfl (FRESULT.stop_eq_some.mp hr).2
  · intro σ₁ h₁
    refine ⟨hinv h₁, hinv h₁, h₁.imp fun hS => hS.backedUp, fun _ i hs hn => ?_⟩
    by_cases hk : fold i.name ∈ l.map fun e => fold e.name
    · obtain ⟨e, he, hi⟩ := List.mem_map.mp hk
      exact h₁.snap.installed e he i hi.symm hs hn
    · -- the pack has nothing for this path
      have hpack : u.pack i = Tree.empty := by
        have hget : σ₁.get (UPDATE_NEW ++ [fold i.name]) = none := by
          rw [staged_sub h₁.snap.backedUp.staged, hkeys _ hk]
        funext r
        have := FileTree.get_append_of_none hget r
        rwa [List.append_assoc, staged_sub h₁.snap.backedUp.staged] at this
      rcases (h₁.snap.backedUp.items i).root with hp | ⟨hs', -⟩
      · rw [hpack] at hp ⊢
        exact hp.eq_empty
      · rw [hs] at hs'
        cases hs'

end copy

/-! ## The boot payload -/

section payload

variable {u : Update} {σ σ' : SD} {depth FSBuffSize : ℕ}

/-- The sizes by which the new boot payload is recognized tell it from the updater. -/
def Update.Sized (u : Update) : Prop :=
  ∀ i b, u.special i = true → u.pack i = Tree.single b → u.updater.length = b.length →
    u.updater = b

theorem Update.Copied.all {S : Snapshot} (h : u.Copied S)
    (hs : ∀ i, u.special i = true → (S.item i).root = u.pack i) : u.Installed S := by
  intro i
  cases hi : u.special i with
  | false => exact h.installed i hi
  | true =>
    have hn : i.name ≠ "Next" := by
      rw [Update.special, Bool.and_eq_true, decide_eq_true_eq] at hi
      rw [hi.2]
      decide
    rw [Update.target, if_neg hn]
    exact hs i hi

/-- Only the boot payload is left to install. -/
theorem Update.Copied.set {S : Snapshot} {i : Managed} {x : Item} (h : u.Copied S)
    (hs : u.special i = true) (hx : u.Done i x) : u.Copied (S.set i x) := by
  refine ⟨⟨h.backedUp.staged, h.backedUp.ready, h.backedUp.folder, ?_⟩, fun j hj => ?_⟩
  · exact Snapshot.forall_set (fun j _ => h.backedUp.items j) hx
  · rw [Snapshot.set_item, if_neg]
    · exact h.installed j hj
    · rintro rfl
      rw [hs] at hj
      cases hj

/-- Where the new boot payload is staged. -/
theorem pack_payload {i : Managed} (hs : u.special i = true)
    (h : (snapshot u.patched σ).staged = u.staged) :
    σ.sub (UPDATE_NEW ++ ["payload.bin"]) = u.pack i := by
  have hname : fold i.name = "payload.bin" := by
    rw [Update.special, Bool.and_eq_true, decide_eq_true_eq] at hs
    rw [hs.2]
    decide
  funext r
  rw [FileTree.sub_apply, List.append_assoc, staged_sub h, Update.pack, hname]
  rfl

/-- A boot payload of the right size is the new one. -/
theorem installed_of_match (hsize : u.Sized) {t : State} (h : Holds u t u.Copied σ)
    (hm : SizesMatch σ (UPDATE_NEW ++ ["payload.bin"]) ROOT_PAYLOAD) :
    u.Installed (snapshot u.patched σ) := by
  refine h.snap.all fun i hs => ?_
  obtain ⟨x, y, hx, hy, hlen⟩ := hm
  have hpack : u.pack i = Tree.single x := by
    rw [← pack_payload hs h.snap.backedUp.staged]
    exact SD.sub_eq_single.mpr hx
  have hroot : (item u.patched σ i).root = Tree.single y := by
    rw [← (special_paths u.patched i hs).2] at hy
    exact SD.sub_eq_single.mpr hy
  refine hroot.trans (hpack ▸ congrArg Tree.single ?_)
  rcases (h.snap.backedUp.items i).root with hp | ⟨-, hu⟩
  · rcases hp [] with hn | ⟨e, e', he, he', hpart⟩
    · exact absurd (hroot ▸ hn : Tree.single y [] = none) (by simp [Tree.single])
    · have he₁ : e = .file x := by
        rw [hpack] at he
        simpa [Tree.single] using he.symm
      have he₂ : e' = .file y := by
        have : Tree.single y [] = some e' := hroot ▸ he'
        simpa [Tree.single] using this.symm
      subst he₁ he₂
      exact List.IsPrefix.eq_of_length hpart hlen.symm
  · have hyu : y = u.updater := by
      have : Tree.single y [] = Tree.single u.updater [] := congrFun (hroot.symm.trans hu) []
      simpa [Tree.single] using this
    rw [hyu]
    exact hsize i x hs hpack (by rw [← hyu, hlen])

/-- A step at the root payload that keeps everything else. -/
theorem Holds.payload_step {t : State} {i : Managed} (h : Holds u t u.Copied σ)
    (hs : u.special i = true) {l : List FsPath} (ht : Touch (ROOT_PAYLOAD :: l) σ σ')
    (hq : ∀ p ∈ l, Spare u.patched p) (hr : u.MayHold i (σ'.sub ROOT_PAYLOAD)) :
    Holds u t u.Copied σ' := by
  rw [← (special_paths u.patched i hs).2] at ht hr
  refine h.set_spare (i := i) (ht.mono fun p hp => ⟨p, ?_, List.prefix_refl p⟩) hq
    (h.snap.set hs ⟨?_, hr⟩)
  · rcases List.mem_cons.mp hp with rfl | hp
    · simp [places]
    · exact List.mem_append_right _ hp
  · exact (h.snap.backedUp.items i).kept.of_touch ht fun p hp => (hq p hp).1

/-- The last part of the finalization, from a verified copy of the new payload. -/
theorem wp_finalize_install (hsize : u.Sized) {i : Managed} (hs : u.special i = true)
    (h : Holds u .FINALIZE_PAYLOAD u.Copied σ)
    (hnext : σ.sub UPDATE_PAYLOAD_NEXT = u.pack i) :
    wp (payload copiesMayFail) (Inv u)
      (fun r σ' => Holds u .FINALIZE_PAYLOAD u.Copied σ' ∧
        (r = .FR_OK → u.Installed (snapshot u.patched σ')))
      (finalize_patched_payload.install depth (UPDATE_NEW ++ ["payload.bin"])) σ := by
  have hinv : ∀ {σ}, Holds u .FINALIZE_PAYLOAD u.Copied σ → Inv u σ := fun h => h.inv h.snap
  have hspare := spare_files u.patched
  rw [finalize_patched_payload.install]
  simp only [Prog.bind_eq, Prog.pure_eq]
  -- the check, from whatever stands at the root now
  have hcheck : ∀ τ, Holds u .FINALIZE_PAYLOAD u.Copied τ →
      wp (payload copiesMayFail) (Inv u)
        (fun r σ' => Holds u .FINALIZE_PAYLOAD u.Copied σ' ∧
          (r = FRESULT.FR_OK → u.Installed (snapshot u.patched σ')))
        ((file_sizes_match (UPDATE_NEW ++ ["payload.bin"]) ROOT_PAYLOAD).bind fun same =>
          if (!same) = true then .ret .FR_DISK_ERR
          else (remove_path_silent depth UPDATE_PAYLOAD_NEXT).bind fun _ => .ret .FR_OK) τ := by
    intro τ hτ
    refine wp_bind.mpr (wp_file_sizes_match (hinv hτ) (fun hm => ?_) ?_)
    swap
    · rw [if_pos (by simp)]
      exact ⟨hinv hτ, hτ, by simp⟩
    rw [if_neg (by simp)]
    have hrm : ∀ {τ'}, Pruned UPDATE_PAYLOAD_NEXT τ τ' →
        Holds u .FINALIZE_PAYLOAD u.Copied τ' := fun hp =>
      hτ.touch hp.touch (by simpa using hspare _ (by simp))
    refine wp_bind.mpr (wp_conseq (wp_remove_path_silent (by decide) τ)
      (fun τ' hp => hinv (hrm hp)) fun r τ' hp _ => ?_)
    refine ⟨hinv (hrm hp), hrm hp, fun _ => ?_⟩
    rw [snapshot_touch hp.touch (by simpa using (hspare UPDATE_PAYLOAD_NEXT (by simp)).1)]
    exact installed_of_match hsize hτ hm
  refine wp_bind.mpr (wp_probe (hinv h) fun there _ => ?_)
  cases there with
  | true => exact hcheck σ h
  | false =>
    rw [if_neg (by simp)]
    refine wp_bind.mpr (wp_at (hinv h) fun r τ hren => ?_)
    rcases payload_f_rename hren with ⟨rfl, hm, rfl⟩ | ⟨hne, rfl, -⟩
    · have hτ : Holds u .FINALIZE_PAYLOAD u.Copied (σ.move _ _ hm) := by
        refine h.payload_step hs (l := [UPDATE_PAYLOAD_NEXT]) ?_
          (by simpa using hspare _ (by simp)) ?_
        · exact touch_mem (FileTree.touch_move σ _ _ hm) (by simp)
        · rw [FileTree.sub_move_dst, hnext]
          exact .inl (Tree.Parts.refl _)
      exact ⟨hinv hτ, by rw [if_neg (by decide)]; exact hcheck _ hτ⟩
    · exact ⟨hinv h, by rw [if_pos hne]; exact ⟨hinv h, h, fun hr => absurd hr hne⟩⟩

/-- `finalize_patched_payload` installs the boot payload, or leaves it to a rollback. -/
theorem wp_finalize_patched_payload (hpatched : u.patched = true) (hsize : u.Sized)
    (h : Holds u .FINALIZE_PAYLOAD u.Copied σ) :
    wp (payload copiesMayFail) (Inv u)
      (fun r σ' => Holds u .FINALIZE_PAYLOAD u.Copied σ' ∧
        (r = .FR_OK → u.Installed (snapshot u.patched σ')))
      (finalize_patched_payload depth FSBuffSize) σ := by
  obtain ⟨i, hi⟩ := special_exists
  have hs : u.special i = true := by simp [Update.special, hpatched, hi]
  have hinv : ∀ {σ}, Holds u .FINALIZE_PAYLOAD u.Copied σ → Inv u σ := fun h => h.inv h.snap
  have hspare := spare_files u.patched
  have hfail : ∀ {r σ}, r ≠ FRESULT.FR_OK → Holds u .FINALIZE_PAYLOAD u.Copied σ →
      Inv u σ ∧ Holds u .FINALIZE_PAYLOAD u.Copied σ ∧
        (r = .FR_OK → u.Installed (snapshot u.patched σ)) := fun hr h =>
    ⟨hinv h, h, fun h => absurd h hr⟩
  have hrm : ∀ {τ τ'}, Holds u .FINALIZE_PAYLOAD u.Copied τ → Pruned UPDATE_PAYLOAD_NEXT τ τ' →
      Holds u .FINALIZE_PAYLOAD u.Copied τ' := fun hτ hp =>
    hτ.touch hp.touch (by simpa using hspare _ (by simp))
  rw [finalize_patched_payload]
  simp only [Prog.bind_eq, Prog.pure_eq]
  refine wp_bind.mpr (wp_probe (hinv h) fun there _ => ?_)
  cases there with
  | false => exact hfail (by simp) h
  | true =>
  rw [if_neg (by simp)]
  refine wp_bind.mpr (wp_file_sizes_match (hinv h) (fun hm => ?_) ?_)
  · -- the new payload is there already
    rw [if_pos rfl]
    refine wp_bind.mpr (wp_conseq (wp_remove_path_silent (by decide) σ)
      (fun τ hp => hinv (hrm h hp)) fun r τ hp _ => ?_)
    refine ⟨hinv (hrm h hp), hrm h hp, fun _ => ?_⟩
    rw [snapshot_touch hp.touch (by simpa using (hspare UPDATE_PAYLOAD_NEXT (by simp)).1)]
    exact installed_of_match hsize h hm
  rw [if_neg (by simp)]
  refine wp_bind.mpr (wp_conseq (wp_remove_path_silent (by decide) σ)
    (fun τ hp => hinv (hrm h hp)) ?_)
  rintro _ τ hp ⟨rfl, -⟩
  have hτ := hrm h hp
  rw [if_neg (by decide)]
  have hcp : ∀ {τ'}, Copied (UPDATE_NEW ++ ["payload.bin"]) UPDATE_PAYLOAD_NEXT τ τ' →
      Holds u .FINALIZE_PAYLOAD u.Copied τ' := fun hc =>
    hτ.touch hc.touch (by simpa using hspare _ (by simp))
  refine wp_bind.mpr (wp_conseq (wp_FileCopy FSBuffSize _ _ τ)
    (fun τ' hc => hinv (hcp hc)) fun r τ₂ hc hok => ?_)
  have hτ₂ := hcp hc
  by_cases hr : r = .FR_OK
  swap
  · rw [if_pos hr]
    exact hfail hr hτ₂
  rw [if_neg (not_not.mpr hr)]
  have hnext : τ₂.sub UPDATE_PAYLOAD_NEXT = u.pack i := by
    obtain ⟨b, hsrc, hdst⟩ := hok hr
    rw [← pack_payload hs hτ.snap.backedUp.staged, SD.sub_eq_single.mpr hsrc,
      SD.sub_eq_single.mpr hdst]
  refine wp_bind.mpr (wp_file_sizes_match (hinv hτ₂) (fun _ => ?_) ?_)
  swap
  · rw [if_pos (by simp)]
    exact hfail (by simp) hτ₂
  rw [if_neg (by simp)]
  refine wp_bind.mpr (wp_probe (hinv hτ₂) fun there _ => ?_)
  cases there with
  | false => exact wp_finalize_install hsize hs hτ₂ hnext
  | true =>
  rw [if_pos rfl]
  refine wp_bind.mpr (wp_probe (hinv hτ₂) fun saved _ => ?_)
  cases saved with
  | true => exact wp_finalize_install hsize hs hτ₂ hnext
  | false =>
  rw [if_pos (by simp)]
  -- the updater moves out of the way
  refine wp_bind.mpr (wp_at (hinv hτ₂) fun r τ₃ hren => ?_)
  rcases payload_f_rename hren with ⟨rfl, hm, rfl⟩ | ⟨hne, rfl, -⟩
  swap
  · exact ⟨hinv hτ₂, by rw [if_pos hne]; exact hfail hne hτ₂⟩
  have htouch := FileTree.touch_move τ₂ _ _ hm
  have hτ₃ : Holds u .FINALIZE_PAYLOAD u.Copied (τ₂.move _ _ hm) := by
    refine hτ₂.payload_step hs (l := [UPDATE_UPDATER_SAVED]) (touch_mem htouch (by simp))
      (by simpa using hspare _ (by simp)) (.inl ?_)
    rw [SD.sub_eq_empty.mpr (FileTree.get_move_src τ₂ _ _ hm)]
    exact Tree.parts_empty _
  refine ⟨hinv hτ₃, ?_⟩
  rw [if_neg (by decide)]
  refine wp_finalize_install hsize hs hτ₃ ?_
  rw [htouch.sub (by decide)]
  exact hnext

end payload

/-! ## The commit -/

section commit

variable {u : Update} {σ σ' : SD} {depth FSBuffSize : ℕ}

/-- Everything is installed, and the ready marker goes after the backup. -/
def Committed (u : Update) (S : Snapshot) : Prop := u.Phase S (some .COMMIT_IN_PROGRESS)

theorem Committed.phase_none {S : Snapshot} (h : Committed u S) : u.Phase S none :=
  fun hr hb => absurd (h.2 hr) hb

/-- A path that may go once everything is installed, the ready marker after the backup. -/
def Removable (p : FsPath) : Prop :=
  (∀ i : Managed, Incomparable p (rootPath i.name)) ∧ ¬ p <+: UPDATE_STATE ∧
    ¬ p <+: UPDATE_ROOT ∧ (p = UPDATE_READY ∨ ¬ p <+: UPDATE_READY)

instance (p : FsPath) : Decidable (Removable p) := inferInstanceAs (Decidable (_ ∧ _ ∧ _ ∧ _))

theorem commit_paths_removable : ∀ p ∈ commit_paths, p ≠ UPDATE_STATE → Removable p := by
  decide +kernel

/-- The backup goes before the ready marker and the journal, and the journal is last. -/
theorem commit_order {pre post : List FsPath} {p : FsPath} (h : commit_paths = pre ++ p :: post) :
    p ∈ commit_paths ∧ UPDATE_STATE ∉ pre ∧
      (p = UPDATE_READY ∨ p = UPDATE_STATE → UPDATE_BACKUP ∈ pre) := by
  have key : ∀ n : Fin commit_paths.length, UPDATE_STATE ∉ commit_paths.take n ∧
      (commit_paths[n.val]? = some UPDATE_READY ∨ commit_paths[n.val]? = some UPDATE_STATE →
        UPDATE_BACKUP ∈ commit_paths.take n) := by
    decide +kernel
  obtain ⟨h₁, h₂⟩ := key ⟨pre.length, by simp [h]⟩
  have htake : commit_paths.take pre.length = pre := by simp [h]
  have hget : commit_paths[pre.length]? = some p := by simp [h]
  rw [htake] at h₁ h₂
  rw [hget, Option.some_inj, Option.some_inj] at h₂
  exact ⟨by simp [h], h₁, h₂⟩

/-- Deleting a removable path leaves the installation alone. -/
theorem Committed.pruned (h : Committed u (snapshot u.patched σ)) {p : FsPath} (hp : Removable p)
    (hready : p = UPDATE_READY → σ.get UPDATE_BACKUP = none) (hpr : Pruned p σ σ') :
    Committed u (snapshot u.patched σ') := by
  obtain ⟨hroots, -, -, hr⟩ := hp
  refine ⟨fun i => ?_, fun hunready => ?_⟩
  · have : (item u.patched σ' i).root = (item u.patched σ i).root :=
      hpr.touch.sub (by simpa using hroots i)
    exact this.trans (h.1 i)
  · have hb : σ.get UPDATE_BACKUP = none := by
      rcases hr with hr | hr
      · exact hready hr
      · refine Option.map_eq_none_iff.mp (h.2 ?_)
        have := hpr.get_other hr
        simp only [snapshot] at hunready ⊢
        rwa [this] at hunready
    simp only [snapshot, hpr.get_none hb, Option.map_none]

theorem Holds.committed_pruned (h : Holds u .COMMIT_IN_PROGRESS (Committed u) σ) {p : FsPath}
    (hp : Removable p) (hready : p = UPDATE_READY → σ.get UPDATE_BACKUP = none)
    (hpr : Pruned p σ σ') : Holds u .COMMIT_IN_PROGRESS (Committed u) σ' := by
  have htok : journal.token σ' = journal.token σ := by
    refine (journal.token_congr (hpr.get_other hp.2.1) ?_).1
    have htmp : σ.get journal.tmp = none := h.tmp (.inr rfl)
    rw [htmp, hpr.get_none htmp]
  exact ⟨htok.trans h.token, (hpr.get_other hp.2.2.1).trans h.root,
    fun he => hpr.get_none (h.tmp he), h.snap.pruned hp hready hpr⟩

/-- Removing the empty folder of the transaction, or not, changes nothing it kept. -/
theorem snapshot_off_root {patched : Bool} (h : ∀ q, q ≠ UPDATE_ROOT → σ'.get q = σ.get q) :
    snapshot patched σ' = snapshot patched σ ∧ journal.token σ' = journal.token σ := by
  have hsub : ∀ w, ¬ w <+: UPDATE_ROOT → σ'.sub w = σ.sub w := fun w hw =>
    funext fun r => h _ fun hq => hw ⟨r, hq⟩
  have hitem : item patched σ' = item patched σ := funext fun i => item_congr fun w hw =>
    hsub w (places_journal patched i w hw).2.2.2.2.2
  refine ⟨?_, (journal.token_congr (h _ (by decide)) (h _ (by decide))).1⟩
  simp only [snapshot, hitem, hsub UPDATE_NEW (by decide), h UPDATE_READY (by decide),
    h UPDATE_BACKUP (by decide)]

/-- `commit_transaction` deletes the transaction and leaves the installation alone. -/
theorem wp_commit_transaction (hi : Inv u σ) (hroot : σ.get UPDATE_ROOT = some .dir)
    (h : Committed u (snapshot u.patched σ)) :
    wp (payload copiesMayFail) (Inv u) (fun _ σ' => u.Installed (snapshot u.patched σ'))
      (commit_transaction depth) σ := by
  rw [commit_transaction]
  simp only [Prog.bind_eq, Prog.pure_eq]
  refine wp_bind.mpr (wp_write_state hi hroot h h h.phase_none fun τ hτ => ?_)
  rw [if_neg (by decide)]
  -- up to the journal the phase is kept; after it only the installation counts
  refine wp_bind.mpr (wp_untilSome (fun pre σ' => Inv u σ' ∧
    u.Installed (snapshot u.patched σ') ∧
      (UPDATE_STATE ∉ pre → Holds u .COMMIT_IN_PROGRESS (Committed u) σ' ∧
        (UPDATE_BACKUP ∈ pre → σ'.get UPDATE_BACKUP = none))) commit_paths ?_ ?_
    ⟨hτ.inv hτ.snap, hτ.snap.1, fun _ => ⟨hτ, by simp⟩⟩)
  · rintro pre p post σ₁ hl ⟨hi₁, hin₁, h₁⟩
    obtain ⟨hp, hpre, hback⟩ := commit_order hl
    obtain ⟨hh, hb⟩ := h₁ hpre
    have hnil : p ≠ [] := by
      rintro rfl
      revert hp
      decide
    by_cases hs : p = UPDATE_STATE
    · subst hs
      have hstep : ∀ {τ'}, Pruned UPDATE_STATE σ₁ τ' →
          Inv u τ' ∧ u.Installed (snapshot u.patched τ') := by
        intro τ' hpr
        have hsnap : snapshot u.patched τ' = snapshot u.patched σ₁ :=
          snapshot_touch hpr.touch (by simpa using neutral_journal u.patched _ (by simp))
        rw [hsnap]
        refine ⟨?_, hin₁⟩
        rcases hh.token_pruned (.inr rfl) hpr with ht | ht
        · exact ⟨some .COMMIT_IN_PROGRESS, ht, by rw [hsnap]; exact hh.snap⟩
        · exact ⟨none, ht, by rw [hsnap]; exact hh.snap.phase_none⟩
      refine wp_bind.mpr (wp_conseq (wp_remove_path_silent hnil σ₁)
        (fun τ' hpr => (hstep hpr).1) fun r τ' hpr _ => ?_)
      obtain ⟨hi', hin'⟩ := hstep hpr
      refine ⟨hi', ?_⟩
      cases r.stop with
      | none => exact ⟨hi', hin', fun hmem => absurd (by simp) hmem⟩
      | some e => exact ⟨hi', hin'⟩
    · have hstep : ∀ {τ'}, Pruned p σ₁ τ' → Holds u .COMMIT_IN_PROGRESS (Committed u) τ' :=
        fun hpr => hh.committed_pruned (commit_paths_removable p hp hs)
          (fun hr => hb (hback (.inl hr))) hpr
      refine wp_bind.mpr (wp_conseq (wp_remove_path_silent hnil σ₁)
        (fun τ' hpr => (hstep hpr).inv (hstep hpr).snap) ?_)
      rintro r τ' hpr ⟨rfl, hgone⟩
      have hτ' := hstep hpr
      refine ⟨hτ'.inv hτ'.snap, hτ'.inv hτ'.snap, hτ'.snap.1, fun _ => ⟨hτ', fun hmem => ?_⟩⟩
      rcases List.mem_append.mp hmem with hmem | hmem
      · exact hpr.get_none (hb hmem)
      · rw [List.mem_singleton.mp hmem]
        exact hgone
  · rintro σ₁ ⟨hi₁, hin₁, -⟩
    refine ⟨hi₁, wp_bind.mpr (wp_at hi₁ fun r τ' hun => ?_)⟩
    have hget : ∀ q, q ≠ UPDATE_ROOT → τ'.get q = σ₁.get q := by
      intro q hq
      rcases payload_f_unlink hun with ⟨-, -, -, hget⟩ | ⟨-, rfl, -⟩
      · rw [hget, if_neg hq]
      · rfl
    have hsame : snapshot u.patched τ' = snapshot u.patched σ₁ ∧
        journal.token τ' = journal.token σ₁ := snapshot_off_root hget
    have hi' : Inv u τ' := by
      obtain ⟨s, hs, hp⟩ := hi₁
      exact ⟨s, by rw [hsame.2, hs], by rw [hsame.1]; exact hp⟩
    have hin' : u.Installed (snapshot u.patched τ') := by rw [hsame.1]; exact hin₁
    refine ⟨hi', ?_⟩
    split <;> exact ⟨hi', hin'⟩

end commit

end CfwUpdater
