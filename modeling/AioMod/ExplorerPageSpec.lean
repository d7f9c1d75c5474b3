/-
# The explorer acts on what it shows

Cursor, window and marks fit the entries that are listed, whatever fails.  A job gets the entries
that are marked or the one under the cursor, and what is on the clipboard was put there and has not
been moved, deleted or renamed since.  But a folder is changed before its listing is read: where
that fails, the entries of the old folder stay under the name of the new one.  The entries that are
listed belong to the folder that is shown exactly as long as no such listing fails.
-/
import AioMod.ExplorerPage

namespace ExplorerPage

open Explorer (isSdPath lower)

/-! ## A pane -/

namespace Pane

/-- The cursor, the window and the marks fit the entries. -/
structure Valid (p : Pane) : Prop where
  cursor_lt : p.cursor < p.entries.length ∨ p.cursor = 0
  first_le : p.first ≤ p.cursor
  cursor_lt_first : p.cursor < p.first + rows
  selected_listed : ∀ q ∈ p.selected, ∃ e ∈ p.entries, e.path = q

/-- The entries are children of the folder that is shown. -/
def OfFolder (p : Pane) : Prop := ∀ e ∈ p.entries, e.path = p.folder ++ [e.name]

/-- A listing of the folder succeeds. -/
def Lists (folder : FsPath) (reading : Reading) : Prop :=
  isSdPath folder ∧ reading.failed = none

/-- A listing of the pane's folder is taken over if it succeeds. -/
def relisted (p : Pane) (reading : Reading) : Pane :=
  match list p.folder reading with
  | .ok entries => p.listed entries
  | .error _ => p

variable {p : Pane}

/-- What a listing holds are children of the folder. -/
theorem of_list {folder : FsPath} {reading : Reading} {entries : List Entry}
    (h : list folder reading = .ok entries) : ∀ e ∈ entries, e.path = folder ++ [e.name] := by
  intro e he
  unfold list at h
  split at h
  · cases h
  · split at h
    · cases h
    · cases h
      rw [List.mem_insertionSort, List.mem_filterMap] at he
      obtain ⟨f, -, hf⟩ := he
      unfold Found.entry at hf
      split at hf
      · cases hf
        rfl
      · cases hf

theorem list_ok_iff {folder : FsPath} {reading : Reading} :
    (∃ entries, list folder reading = .ok entries) ↔ Lists folder reading := by
  unfold list Lists
  by_cases hsd : isSdPath folder
  · cases hf : reading.failed with
    | none => simp [hsd]
    | some message => simp [hsd]
  · simp [hsd]

/-! ### What keeps a pane valid -/

theorem valid_new : Valid {} where
  cursor_lt := Or.inr rfl
  first_le := le_rfl
  cursor_lt_first := by decide
  selected_listed q hq := absurd hq (Finset.notMem_empty q)

theorem valid_enter (p : Pane) (folder : FsPath) : (p.enter folder).Valid where
  cursor_lt := Or.inr rfl
  first_le := le_rfl
  cursor_lt_first := by
    show 0 < 0 + rows
    decide
  selected_listed q hq := absurd hq (Finset.notMem_empty q)

theorem Valid.listed (h : p.Valid) (entries : List Entry) : (p.listed entries).Valid := by
  have hfirst := h.first_le
  have hlt := h.cursor_lt_first
  have hpos : entries ≠ [] → 0 < entries.length := List.length_pos_iff.mpr
  constructor
  · unfold Pane.listed
    dsimp only
    split_ifs with hc he
    · exact Or.inr rfl
    · left
      have := hpos he
      omega
    · left
      omega
  · unfold Pane.listed
    dsimp only
    split_ifs <;> omega
  · unfold Pane.listed
    dsimp only
    unfold rows at hlt ⊢
    split_ifs <;> omega
  · intro q hq
    exact (Finset.mem_filter.mp hq).2

theorem Valid.relisted (h : p.Valid) (reading : Reading) : (p.relisted reading).Valid := by
  unfold Pane.relisted
  split
  · exact h.listed _
  · exact h

theorem Valid.unmarked (h : p.Valid) : Valid { p with selected := ∅ } where
  cursor_lt := h.cursor_lt
  first_le := h.first_le
  cursor_lt_first := h.cursor_lt_first
  selected_listed q hq := absurd hq (Finset.notMem_empty q)

theorem Valid.climb {exists_ : FsPath → Option Bool} (n : ℕ) :
    ∀ {p : Pane}, p.Valid → (p.climb exists_ n).Valid := by
  induction n with
  | zero => exact fun h => h
  | succ n ih =>
    intro p h
    unfold Pane.climb
    split
    · exact ih (valid_enter p _)
    · exact h

/-! ### What keeps the entries those of the folder -/

/-- After a listing the entries are those of the folder if it succeeds, or if they were before. -/
theorem ofFolder_relisted_iff (p : Pane) (reading : Reading) :
    (p.relisted reading).OfFolder ↔ Lists p.folder reading ∨ p.OfFolder := by
  unfold relisted
  rw [← list_ok_iff]
  cases hl : list p.folder reading with
  | ok entries =>
    have hof : (p.listed entries).OfFolder := of_list hl
    simp [hof]
  | error what => simp

/-- When another folder is shown, the old entries are not those of the folder. -/
theorem OfFolder.enter_iff (h : p.OfFolder) {folder : FsPath} (hne : folder ≠ p.folder) :
    (p.enter folder).OfFolder ↔ p.entries = [] := by
  constructor
  · intro hnew
    cases he : p.entries with
    | nil => rfl
    | cons e es =>
      have hmem : e ∈ p.entries := by
        rw [he]
        exact List.mem_cons_self
      have heq : p.folder ++ [e.name] = folder ++ [e.name] := (h e hmem).symm.trans (hnew e hmem)
      exact absurd (List.append_cancel_right heq).symm hne
  · intro he e hmem
    have hmem' : e ∈ p.entries := hmem
    rw [he] at hmem'
    cases hmem'

/-- The folder of the pane is known not to exist. -/
def Gone (p : Pane) (exists_ : FsPath → Option Bool) : Prop :=
  p.folder ≠ [] ∧ exists_ p.folder = some false

theorem climb_of_not_gone {exists_ : FsPath → Option Bool} (h : ¬p.Gone exists_) (n : ℕ) :
    p.climb exists_ n = p := by
  cases n with
  | zero => rfl
  | succ n => exact if_neg h

theorem climb_enter (exists_ : FsPath → Option Bool) (n : ℕ) (folder : FsPath) :
    ∃ folder', folder'.length ≤ folder.length ∧
      (p.enter folder).climb exists_ n = p.enter folder' := by
  induction n generalizing folder with
  | zero => exact ⟨folder, le_rfl, rfl⟩
  | succ n ih =>
    unfold climb
    split
    · obtain ⟨folder', hle, heq⟩ := ih folder.dropLast
      have hdrop : folder.dropLast.length = folder.length - 1 := List.length_dropLast
      refine ⟨folder', ?_, heq⟩
      omega
    · exact ⟨folder, le_rfl, rfl⟩

/-- A folder that does not exist gives way to one above it. -/
theorem climb_of_gone {exists_ : FsPath → Option Bool} (h : p.Gone exists_) :
    ∃ folder, folder ≠ p.folder ∧ p.climb exists_ p.folder.length = p.enter folder := by
  have hpos : 0 < p.folder.length := List.length_pos_iff.mpr h.1
  obtain ⟨n, hn⟩ : ∃ n, p.folder.length = n + 1 := ⟨p.folder.length - 1, by omega⟩
  obtain ⟨folder, hle, heq⟩ := climb_enter (p := p) exists_ n p.folder.dropLast
  refine ⟨folder, ?_, ?_⟩
  · intro heq'
    rw [heq', List.length_dropLast] at hle
    omega
  · rw [hn]
    exact (if_pos h).trans heq

end Pane

/-! ## The panes of the view -/

namespace FileExplorerView

open Pane

/-- The pane is on the screen. -/
def Shown (v : FileExplorerView) (which : Bool) : Prop := v.dualPane = true ∨ which = v.active

instance (v : FileExplorerView) (which : Bool) : Decidable (v.Shown which) :=
  inferInstanceAs (Decidable (_ ∨ _))

/-- Cursor, window and marks of both panes fit their entries. -/
def Consistent (v : FileExplorerView) : Prop := ∀ which, (v.panes which).Valid

/-- The entries that are shown are children of the folder that is shown over them. -/
def ShowsFolders (v : FileExplorerView) : Prop := ∀ which, v.Shown which → (v.panes which).OfFolder

/-- What no listing changes. -/
structure Same (v v' : FileExplorerView) : Prop where
  active : v'.active = v.active
  dualPane : v'.dualPane = v.dualPane
  busy : v'.busy = v.busy
  clipboard : v'.clipboard = v.clipboard

variable {v v' : FileExplorerView} {calls : Calls} {i18n : String → String}

theorem Same.refl (v : FileExplorerView) : Same v v := ⟨rfl, rfl, rfl, rfl⟩

theorem Same.trans {v'' : FileExplorerView} (h : Same v v') (h' : Same v' v'') : Same v v'' :=
  ⟨h'.active.trans h.active, h'.dualPane.trans h.dualPane, h'.busy.trans h.busy,
    h'.clipboard.trans h.clipboard⟩

theorem Same.shown_iff (h : Same v v') (which : Bool) : v'.Shown which ↔ v.Shown which := by
  unfold Shown
  rw [h.active, h.dualPane]

theorem same_setPane (which : Bool) (p : Pane) : Same v (v.setPane which p) := ⟨rfl, rfl, rfl, rfl⟩

theorem same_refresh (which : Bool) : Same v (v.refresh calls which) := by
  unfold refresh
  split
  · exact same_setPane _ _
  · exact ⟨rfl, rfl, rfl, rfl⟩

theorem same_refreshAll (calls : Calls) (v : FileExplorerView) : Same v (v.refreshAll calls) := by
  unfold refreshAll
  dsimp only
  split
  · exact (same_refresh _).trans (same_refresh _)
  · exact same_refresh _

theorem same_afterRename (calls : Calls) (v : FileExplorerView) : Same v (v.afterRename calls) :=
  (same_setPane _ _).trans (same_refreshAll calls _)

/-! ### What a listing does to the panes -/

theorem refresh_panes (which w : Bool) : (v.refresh calls which).panes w =
    if w = which then (v.panes w).relisted (calls.directory w) else v.panes w := by
  unfold refresh relisted
  by_cases hw : w = which
  · subst hw
    rw [if_pos rfl]
    cases list (v.panes w).folder (calls.directory w) with
    | ok entries => exact if_pos rfl
    | error what => rfl
  · rw [if_neg hw]
    cases list (v.panes which).folder (calls.directory which) with
    | ok entries => exact if_neg hw
    | error what => rfl

/-- The panes that are shown are listed anew. -/
theorem refreshAll_panes (w : Bool) : (v.refreshAll calls).panes w =
    if v.Shown w then (v.panes w).relisted (calls.directory w) else v.panes w := by
  have hsame : Same v (v.refresh calls v.active) := same_refresh _
  have hother : (!v.active) ≠ v.active := Bool.not_ne_self v.active
  unfold refreshAll
  dsimp only
  rw [hsame.dualPane, hsame.active]
  by_cases hd : v.dualPane = true
  · have hshown : v.Shown w := Or.inl hd
    rw [if_pos hd, refresh_panes, if_pos hshown]
    by_cases hw : w = v.active
    · rw [hw, if_neg hother.symm, refresh_panes, if_pos rfl]
    · rw [if_pos (Bool.eq_not_of_ne hw), refresh_panes, if_neg hw]
  · have hshown : v.Shown w ↔ w = v.active := or_iff_right hd
    rw [if_neg hd, refresh_panes]
    simp only [hshown]

theorem Consistent.setPane (h : v.Consistent) (which : Bool) {p : Pane} (hp : p.Valid) :
    (v.setPane which p).Consistent := by
  intro w
  show Valid (if w = which then p else v.panes w)
  split
  · exact hp
  · exact h w

theorem Consistent.refresh (h : v.Consistent) (which : Bool) :
    (v.refresh calls which).Consistent := by
  intro w
  rw [refresh_panes]
  split
  · exact (h w).relisted _
  · exact h w

theorem Consistent.refreshAll (h : v.Consistent) : (v.refreshAll calls).Consistent := by
  intro w
  rw [refreshAll_panes]
  split
  · exact (h w).relisted _
  · exact h w

theorem Consistent.afterRename (h : v.Consistent) : (v.afterRename calls).Consistent :=
  (h.setPane v.active (h v.active).unmarked).refreshAll

/-- After all listings the folders are shown if every listing succeeds that had to. -/
theorem showsFolders_refreshAll_iff : (v.refreshAll calls).ShowsFolders ↔
    ∀ w, v.Shown w → Lists (v.panes w).folder (calls.directory w) ∨ (v.panes w).OfFolder := by
  apply forall_congr'
  intro w
  have hsame : Same v (v.refreshAll calls) := same_refreshAll calls v
  rw [hsame.shown_iff]
  apply imp_congr_right
  intro hw
  rw [refreshAll_panes, if_pos hw, ofFolder_relisted_iff]

theorem ShowsFolders.refreshAll (h : v.ShowsFolders) : (v.refreshAll calls).ShowsFolders :=
  showsFolders_refreshAll_iff.mpr fun w hw => Or.inr (h w hw)

theorem ShowsFolders.setPane (h : v.ShowsFolders) (which : Bool) {p : Pane}
    (hp : v.Shown which → p.OfFolder) : (v.setPane which p).ShowsFolders := by
  intro w hw
  show OfFolder (if w = which then p else v.panes w)
  split
  · rename_i heq
    subst heq
    exact hp hw
  · exact h w hw

theorem shown_active (v : FileExplorerView) : v.Shown v.active := Or.inr rfl

theorem ShowsFolders.pane (h : v.ShowsFolders) : v.pane.OfFolder := h v.active v.shown_active

theorem ShowsFolders.afterRename (h : v.ShowsFolders) : (v.afterRename calls).ShowsFolders := by
  have hunmarked : OfFolder { v.pane with selected := ∅ } := h.pane
  exact (h.setPane v.active fun _ => hunmarked).refreshAll

/-- When the active pane is shown another folder and listed, its entries are those of the folder if
the listing succeeds, or if there are none. -/
theorem showsFolders_enter_iff (h : v.ShowsFolders) {folder : FsPath}
    (hne : folder ≠ v.pane.folder) :
    ((v.setPane v.active (v.pane.enter folder)).refresh calls v.active).ShowsFolders ↔
      Lists folder (calls.directory v.active) ∨ v.pane.entries = [] := by
  have hsame : Same v ((v.setPane v.active (v.pane.enter folder)).refresh calls v.active) :=
    (same_setPane _ _).trans (same_refresh _)
  have hactive : ((v.setPane v.active (v.pane.enter folder)).refresh calls v.active).panes v.active
      = (v.pane.enter folder).relisted (calls.directory v.active) := by
    rw [refresh_panes, if_pos rfl]
    exact congrArg (fun p => Pane.relisted p (calls.directory v.active)) (if_pos rfl)
  have hiff : ((v.pane.enter folder).relisted (calls.directory v.active)).OfFolder ↔
      Lists folder (calls.directory v.active) ∨ v.pane.entries = [] := by
    rw [ofFolder_relisted_iff, h.pane.enter_iff hne]
    rfl
  rw [← hiff, ← hactive]
  constructor
  · intro hs
    exact hs v.active ((hsame.shown_iff _).mpr v.shown_active)
  · intro hof w hw
    by_cases hwa : w = v.active
    · rw [hwa]
      exact hof
    · have hkept : ((v.setPane v.active (v.pane.enter folder)).refresh calls v.active).panes w
          = v.panes w := by
        rw [refresh_panes, if_neg hwa]
        exact if_neg hwa
      rw [hkept]
      exact h w ((hsame.shown_iff w).mp hw)

/-! ### What the options of the menus do to the panes -/

/-- The panes are the same, and so are those that are shown. -/
structure SamePanes (v v' : FileExplorerView) : Prop where
  panes : v'.panes = v.panes
  active : v'.active = v.active
  dualPane : v'.dualPane = v.dualPane

theorem SamePanes.shown_iff (h : SamePanes v v') (which : Bool) :
    v'.Shown which ↔ v.Shown which := by
  unfold Shown
  rw [h.active, h.dualPane]

theorem Consistent.samePanes (h : v.Consistent) (hs : SamePanes v v') : v'.Consistent := by
  intro w
  rw [hs.panes]
  exact h w

theorem ShowsFolders.samePanes (h : v.ShowsFolders) (hs : SamePanes v v') : v'.ShowsFolders := by
  intro w hw
  rw [hs.panes]
  exact h w ((hs.shown_iff w).mp hw)

/-- The panes are left alone, listed anew, or listed anew without the marks of the active one. -/
inductive Relists (calls : Calls) (v : FileExplorerView) : FileExplorerView → Prop where
  | same {v' : FileExplorerView} (h : SamePanes v v') : Relists calls v v'
  | listed {w : FileExplorerView} (h : SamePanes v w) : Relists calls v (w.refreshAll calls)
  | renamed {w : FileExplorerView} (h : SamePanes v w) : Relists calls v (w.afterRename calls)

theorem Relists.refl (v : FileExplorerView) : Relists calls v v := .same ⟨rfl, rfl, rfl⟩

theorem Relists.consistent (h : Relists calls v v') (hv : v.Consistent) : v'.Consistent := by
  cases h with
  | same h => exact hv.samePanes h
  | listed h => exact (hv.samePanes h).refreshAll
  | renamed h => exact (hv.samePanes h).afterRename

theorem Relists.showsFolders (h : Relists calls v v') (hv : v.ShowsFolders) : v'.ShowsFolders := by
  cases h with
  | same h => exact hv.samePanes h
  | listed h => exact (hv.samePanes h).refreshAll
  | renamed h => exact (hv.samePanes h).afterRename

theorem relists_stageClipboard (paths : List FsPath) (cut : Bool) :
    Relists calls v (v.stageClipboard i18n paths cut) := by
  apply Relists.same
  unfold stageClipboard
  split <;> exact ⟨rfl, rfl, rfl⟩

theorem relists_startJob (job : Job) : Relists calls v (v.startJob i18n job) := by
  apply Relists.same
  unfold startJob
  split <;> exact ⟨rfl, rfl, rfl⟩

theorem relists_paste (destination : FsPath) : Relists calls v (v.paste i18n destination) := by
  unfold paste
  split
  · exact .refl v
  split
  · exact .same ⟨rfl, rfl, rfl⟩
  split
  · exact relists_startJob _
  · exact relists_startJob _

theorem relists_createFolder (name : Option Name) :
    Relists calls v (v.createFolder i18n calls name) := by
  unfold createFolder
  split
  · exact .refl v
  split
  · exact .refl v
  split
  · exact .refl v
  split
  · exact .same ⟨rfl, rfl, rfl⟩
  split
  · exact .same ⟨rfl, rfl, rfl⟩
  · exact .same ⟨rfl, rfl, rfl⟩
  · exact .listed ⟨rfl, rfl, rfl⟩

/-- The rename is carried out. -/
def Renames (calls : Calls) (v : FileExplorerView) (entry : Entry) (name : Option Name) : Prop :=
  ∃ n, name = some n ∧ v.busy = false ∧ ¬v.renameRefused entry ∧ n ≠ "" ∧ n ≠ entry.name ∧
    ¬badNewName n ∧ isSdPath (renamed entry n) ∧ calls.exists_ (renamed entry n) = some false ∧
    calls.rename entry.path (renamed entry n) = .ok ()

/-- What `renameEntry` can do: show a message, list the panes anew after a rename that failed, or
rename and empty a clipboard on which something was renamed. -/
theorem renameEntry_cases (i18n : String → String) (calls : Calls) (v : FileExplorerView)
    (entry : Entry) (name : Option Name) :
    (∃ status, v.renameEntry i18n calls entry name = { v with status := status } ∧
      ¬Renames calls v entry name) ∨
    (∃ status, v.renameEntry i18n calls entry name =
        { v with status := status }.afterRename calls ∧ ¬Renames calls v entry name) ∨
    ∃ status, v.renameEntry i18n calls entry name =
      { v with
        status := status
        clipboard := if ∃ p ∈ v.clipboard, pathInside p entry.path then [] else v.clipboard
        }.afterRename calls := by
  unfold renameEntry
  -- each guard that stops the call is a part of the condition
  split
  · rename_i hbusy
    refine Or.inl ⟨v.status, rfl, ?_⟩
    rintro ⟨n, -, hidle, -⟩
    rw [hidle] at hbusy
    cases hbusy
  split
  · rename_i hrefused
    refine Or.inl ⟨_, rfl, ?_⟩
    rintro ⟨n, -, -, hn, -⟩
    exact hn hrefused
  split
  · refine Or.inl ⟨v.status, rfl, ?_⟩
    rintro ⟨n, hn, -⟩
    cases hn
  rename_i name
  split
  · rename_i hsame
    refine Or.inl ⟨v.status, rfl, ?_⟩
    rintro ⟨n, hn, -, -, hempty, hne, -⟩
    cases hn
    rcases hsame with h | h
    · exact hempty h
    · exact hne h
  split
  · rename_i hbad
    refine Or.inl ⟨_, rfl, ?_⟩
    rintro ⟨n, hn, -, -, -, -, hgood, -⟩
    cases hn
    exact hgood hbad
  split
  · rename_i htarget
    refine Or.inl ⟨_, rfl, ?_⟩
    rintro ⟨n, hn, -, -, -, -, -, hsd, hnone, -⟩
    cases hn
    rcases htarget with h | h
    · exact h hsd
    · exact h hnone
  split
  · rename_i message hfailed
    refine Or.inr (Or.inl ⟨_, rfl, ?_⟩)
    rintro ⟨n, hn, -, -, -, -, -, -, -, hok⟩
    cases hn
    rw [hok] at hfailed
    cases hfailed
  · exact Or.inr (Or.inr ⟨_, rfl⟩)

theorem relists_renameEntry (entry : Entry) (name : Option Name) :
    Relists calls v (v.renameEntry i18n calls entry name) := by
  obtain ⟨status, h, -⟩ | ⟨status, h, -⟩ | ⟨status, h⟩ :=
    renameEntry_cases i18n calls v entry name
  · rw [h]
    exact .same ⟨rfl, rfl, rfl⟩
  · rw [h]
    exact .renamed ⟨rfl, rfl, rfl⟩
  · rw [h]
    exact .renamed ⟨rfl, rfl, rfl⟩

theorem relists_actions (option : ActionsOption) :
    Relists calls v (v.actions i18n calls option) := by
  unfold actions
  split
  · exact .refl v
  cases option with
  | new_folder name => exact relists_createFolder name
  | paste =>
    dsimp only
    split
    · exact .refl v
    · exact relists_paste _
  | refresh => exact .listed ⟨rfl, rfl, rfl⟩
  | clipboard_copy => exact relists_stageClipboard _ _
  | clipboard_cut => exact relists_stageClipboard _ _
  | rename name =>
    dsimp only
    split
    · split
      · exact relists_renameEntry _ _
      · exact .refl v
    · exact .refl v
  | copy_other =>
    dsimp only
    split
    · exact relists_startJob _
    · exact .refl v
  | move_other =>
    dsimp only
    split
    · exact relists_startJob _
    · exact .refl v
  | delete =>
    dsimp only
    split
    · exact relists_startJob _
    · exact .refl v

theorem relists_entryMenu (option : EntryOption) :
    Relists calls v (v.entryMenu i18n calls option) := by
  unfold entryMenu
  split
  · exact .refl v
  split
  · exact .refl v
  cases option with
  | extract =>
    dsimp only
    split
    · exact relists_startJob _
    · exact .refl v
  | clipboard_copy => exact relists_stageClipboard _ _
  | clipboard_cut => exact relists_stageClipboard _ _
  | paste =>
    dsimp only
    split
    · exact .refl v
    · exact relists_paste _
  | rename name => exact relists_renameEntry _ _
  | delete => exact relists_startJob _

/-! ### One action -/

theorem Consistent.step (h : v.Consistent) (delta : ℤ) : (v.step delta).Consistent := by
  unfold FileExplorerView.step
  split
  · exact h
  split
  · exact h
  rename_i hne
  have hp := h v.active
  have hpos : 0 < v.pane.entries.length := List.length_pos_iff.mpr hne
  have hfirst := hp.first_le
  have hlt := hp.cursor_lt_first
  apply h.setPane
  generalize hcursor : (max 0 (min ((v.pane.cursor : ℤ) + delta)
    ((v.pane.entries.length - 1 : ℕ) : ℤ))).toNat = cursor
  have hlen : cursor < v.pane.entries.length := by omega
  constructor
  · exact Or.inl hlen
  · dsimp only
    unfold rows
    split_ifs <;> omega
  · dsimp only
    unfold rows
    split_ifs <;> omega
  · exact hp.selected_listed

theorem Consistent.toggleSelection (h : v.Consistent) : v.toggleSelection.Consistent := by
  unfold FileExplorerView.toggleSelection
  split
  · exact h
  split
  · exact h
  rename_i entry hcurrent
  have hp := h v.active
  have hmem : entry ∈ v.pane.entries := List.mem_of_getElem? hcurrent
  apply h.setPane
  constructor
  · exact hp.cursor_lt
  · exact hp.first_le
  · exact hp.cursor_lt_first
  · intro q hq
    dsimp only at hq
    split at hq
    · exact hp.selected_listed q (Finset.mem_of_mem_erase hq)
    · rcases Finset.mem_insert.mp hq with rfl | hq
      · exact ⟨entry, hmem, rfl⟩
      · exact hp.selected_listed q hq

theorem Consistent.finishJob (h : v.Consistent) : (v.finishJob i18n calls).Consistent := by
  unfold FileExplorerView.finishJob
  split
  · exact h
  · apply Consistent.refreshAll
    intro w
    exact (h w).climb _

/-- Whatever fails, cursor, window and marks fit the entries after every action. -/
theorem Consistent.act (h : v.Consistent) (a : Act) : (v.act i18n calls a).Consistent := by
  cases a with
  | open_ =>
    show (v.open_ calls).Consistent
    unfold open_
    split
    · exact h
    split
    · exact h
    split
    · exact (h.setPane _ (valid_enter _ _)).refresh _
    · exact h
  | back =>
    show (v.onBack calls).Consistent
    unfold onBack
    split
    · exact h
    split
    · exact (h.setPane _ (valid_enter _ _)).refresh _
    · exact h
  | step delta => exact h.step delta
  | toggleSelection => exact h.toggleSelection
  | togglePanels =>
    show (v.togglePanels calls).Consistent
    have hdual : Consistent { v with dualPane := !v.dualPane } := h
    unfold togglePanels
    split
    · exact h
    dsimp only
    split
    · exact hdual.refresh _
    · exact hdual
  | switchPane =>
    show v.switchPane.Consistent
    unfold switchPane
    split
    · exact h
    · exact h
  | createFolder name => exact (relists_createFolder name).consistent h
  | actions option => exact (relists_actions option).consistent h
  | entryMenu option => exact (relists_entryMenu option).consistent h
  | jobEnds ended =>
    show (v.jobEnds ended).Consistent
    unfold jobEnds
    split
    · exact h
    · exact h
  | finishJob => exact h.finishJob

/-- The listings succeed that are read after the folder of a pane has changed, or that show a pane
whose folder has changed while it was hidden; without entries nothing can be wrong. -/
def Meets (calls : Calls) (v : FileExplorerView) : Act → Prop
  | .open_ => v.busy = false → ∀ entry, v.current = some entry → entry.directory = true →
      Lists entry.path (calls.directory v.active)
  | .back => v.busy = false → v.pane.folder ≠ [] →
      Lists v.pane.folder.dropLast (calls.directory v.active) ∨ v.pane.entries = []
  | .togglePanels => v.busy = false → v.dualPane = false →
      Lists v.other.folder (calls.directory (!v.active)) ∨ v.other.OfFolder
  | .finishJob => v.busy = true → v.jobFinished = true → ∀ which, v.Shown which →
      (v.panes which).Gone (calls.above which) →
      Lists ((v.panes which).climb (calls.above which) (v.panes which).folder.length).folder
        (calls.directory which) ∨ (v.panes which).entries = []
  | _ => True

theorem ShowsFolders.open_iff (h : v.ShowsFolders) :
    (v.open_ calls).ShowsFolders ↔ Meets calls v .open_ := by
  unfold open_
  show _ ↔ (_ → _)
  split
  · rename_i hbusy
    simp [h, hbusy]
  rename_i hidle
  split
  · rename_i hnone
    simp [h, hnone]
  rename_i entry hcurrent
  have hmem : entry ∈ v.pane.entries := List.mem_of_getElem? hcurrent
  split
  · rename_i hdir
    have hpath := h.pane entry hmem
    have hne : entry.path ≠ v.pane.folder := by
      rw [hpath]
      simp
    have hentries : v.pane.entries ≠ [] := List.ne_nil_of_mem hmem
    rw [showsFolders_enter_iff h hne]
    simp [hidle, hcurrent, hdir, hentries]
  · rename_i hfile
    simp [h, hcurrent, hfile]

theorem ShowsFolders.onBack_iff (h : v.ShowsFolders) :
    (v.onBack calls).ShowsFolders ↔ Meets calls v .back := by
  unfold onBack
  show _ ↔ (_ → _)
  split
  · rename_i hbusy
    have hsame : ShowsFolders { v with jobCancel := true } := h
    constructor
    · intro _ hidle
      rw [hbusy] at hidle
      cases hidle
    · exact fun _ => hsame
  rename_i hidle
  split
  · rename_i hroot
    have hlen : 0 < v.pane.folder.length := List.length_pos_iff.mpr hroot
    have hne : v.pane.folder.dropLast ≠ v.pane.folder := by
      intro heq
      have hlen' := congrArg List.length heq
      rw [List.length_dropLast] at hlen'
      omega
    rw [showsFolders_enter_iff h hne]
    simp [hidle, hroot]
  · rename_i hroot
    simp [h, hroot]

theorem ShowsFolders.togglePanels_iff (h : v.ShowsFolders) :
    (v.togglePanels calls).ShowsFolders ↔ Meets calls v .togglePanels := by
  unfold togglePanels
  show _ ↔ (_ → _)
  split
  · rename_i hbusy
    simp [h, hbusy]
  rename_i hidle
  dsimp only
  split
  · rename_i hdual
    have hdual' : v.dualPane = false := by simpa using hdual
    have hother : (!v.active) ≠ v.active := Bool.not_ne_self v.active
    have hpanes : ∀ w, (refresh calls (!v.active) { v with dualPane := !v.dualPane }).panes w =
        if w = !v.active then (v.panes w).relisted (calls.directory w) else v.panes w :=
      fun w => refresh_panes _ w
    have hshown : ∀ w, (refresh calls (!v.active) { v with dualPane := !v.dualPane }).Shown w := by
      intro w
      exact ((same_refresh _).shown_iff w).mpr (Or.inl hdual)
    have hiff : (v.other.relisted (calls.directory (!v.active))).OfFolder ↔
        Lists v.other.folder (calls.directory (!v.active)) ∨ v.other.OfFolder :=
      ofFolder_relisted_iff _ _
    rw [← hiff]
    constructor
    · intro hs _ _
      have hs' := hs (!v.active) (hshown _)
      rw [hpanes, if_pos rfl] at hs'
      exact hs'
    · intro hof w _
      rw [hpanes]
      split
      · rename_i hw
        rw [hw]
        exact hof (by simpa using hidle) hdual'
      · rename_i hw
        have hactive : w = v.active := by
          rcases Bool.eq_or_eq_not w v.active with heq | heq
          · exact heq
          · exact absurd heq hw
        rw [hactive]
        exact h.pane
  · rename_i hsingle
    have hdual : v.dualPane = true := by simpa using hsingle
    have hsame : ShowsFolders { v with dualPane := !v.dualPane } := by
      intro w _
      exact h w (Or.inl hdual)
    constructor
    · intro _ _ hsingle
      rw [hdual] at hsingle
      cases hsingle
    · exact fun _ => hsame

theorem ShowsFolders.finishJob_iff (h : v.ShowsFolders) :
    (v.finishJob i18n calls).ShowsFolders ↔ Meets calls v .finishJob := by
  unfold finishJob
  show _ ↔ (_ → _)
  split
  · rename_i hwait
    constructor
    · intro _ hbusy hfinished
      exact absurd ⟨hbusy, hfinished⟩ hwait
    · exact fun _ => h
  rename_i hdone
  obtain ⟨hbusy, hfinished⟩ : v.busy = true ∧ v.jobFinished = true := not_not.mp hdone
  rw [showsFolders_refreshAll_iff]
  -- a pane whose folder exists keeps its entries
  have hpane : ∀ w, v.Shown w →
      ((Lists ((v.panes w).climb (calls.above w) (v.panes w).folder.length).folder
          (calls.directory w) ∨
        ((v.panes w).climb (calls.above w) (v.panes w).folder.length).OfFolder) ↔
      ((v.panes w).Gone (calls.above w) →
        Lists ((v.panes w).climb (calls.above w) (v.panes w).folder.length).folder
          (calls.directory w) ∨ (v.panes w).entries = [])) := by
    intro w hw
    by_cases hgone : (v.panes w).Gone (calls.above w)
    · obtain ⟨folder, hne, hclimb⟩ := climb_of_gone hgone
      rw [hclimb, (h w hw).enter_iff hne]
      simp [hgone]
    · rw [climb_of_not_gone hgone]
      simp [hgone, h w hw]
  constructor
  · intro hs _ _ w hw
    exact (hpane w hw).mp (hs w hw)
  · intro hm w hw
    exact (hpane w hw).mpr (hm hbusy hfinished w hw)

/-- After an action the entries that are shown are those of the folders that are shown, exactly when
the listings succeed that had to. -/
theorem ShowsFolders.act_iff (h : v.ShowsFolders) (a : Act) :
    (v.act i18n calls a).ShowsFolders ↔ Meets calls v a := by
  cases a with
  | open_ => exact h.open_iff
  | back => exact h.onBack_iff
  | step delta =>
    refine iff_of_true ?_ trivial
    show (v.step delta).ShowsFolders
    unfold step
    split
    · exact h
    split
    · exact h
    · have hp : v.pane.OfFolder := h.pane
      exact h.setPane _ fun _ => hp
  | toggleSelection =>
    refine iff_of_true ?_ trivial
    show v.toggleSelection.ShowsFolders
    unfold toggleSelection
    split
    · exact h
    split
    · exact h
    · have hp : v.pane.OfFolder := h.pane
      exact h.setPane _ fun _ => hp
  | togglePanels => exact h.togglePanels_iff
  | switchPane =>
    refine iff_of_true ?_ trivial
    show v.switchPane.ShowsFolders
    unfold switchPane
    split
    · rename_i hdual
      have hdual' : v.dualPane = true := (Bool.and_eq_true _ _ ▸ hdual).2
      intro w _
      exact h w (Or.inl hdual')
    · exact h
  | createFolder name => exact iff_of_true ((relists_createFolder name).showsFolders h) trivial
  | actions option => exact iff_of_true ((relists_actions option).showsFolders h) trivial
  | entryMenu option => exact iff_of_true ((relists_entryMenu option).showsFolders h) trivial
  | jobEnds ended =>
    refine iff_of_true ?_ trivial
    show (v.jobEnds ended).ShowsFolders
    unfold jobEnds
    split
    · exact h
    · exact h
  | finishJob => exact h.finishJob_iff

/-! ### Jobs and the clipboard -/

/-- The entry under the cursor. -/
def UnderCursor (v : FileExplorerView) (paths : List FsPath) : Prop :=
  ∃ e, v.current = some e ∧ paths = [e.path]

/-- The entries that are marked or, where none is, the one under the cursor. -/
def Chosen (v : FileExplorerView) (paths : List FsPath) : Prop :=
  (v.pane.selected ≠ ∅ → ∀ q, q ∈ paths ↔ q ∈ v.pane.selected) ∧
    (v.pane.selected = ∅ → v.UnderCursor paths)

/-- The sources of a job the action starts. -/
def Handed (v : FileExplorerView) (sources : List FsPath) : Act → Prop
  | .actions .paste => sources = v.clipboard
  | .entryMenu .paste => sources = v.clipboard
  | .actions _ => v.Chosen sources
  | _ => v.UnderCursor sources

/-- What the user puts on the clipboard. -/
def stagedBy (v : FileExplorerView) : Act → List FsPath
  | .actions .clipboard_copy => if v.busy then [] else v.sources
  | .actions .clipboard_cut => if v.busy then [] else v.sources
  | .entryMenu .clipboard_copy => if v.busy then [] else (v.current.map Entry.path).toList
  | .entryMenu .clipboard_cut => if v.busy then [] else (v.current.map Entry.path).toList
  | _ => []

/-- A move, a deletion or a rename that succeeds takes the path away. -/
def Removes (calls : Calls) (v : FileExplorerView) (p : FsPath) : Act → Prop
  | .actions (.rename name) => ∃ path entry, v.sources = [path] ∧
      v.pane.entries.find? (fun e => e.path = path) = some entry ∧ Renames calls v entry name ∧
      pathInside p entry.path
  | .entryMenu (.rename name) => ∃ entry, v.current = some entry ∧ Renames calls v entry name ∧
      pathInside p entry.path
  | .finishJob => v.busy = true ∧ v.jobFinished = true ∧ ¬IsError v.jobResult ∧ v.takesAway ∧
      ∃ source ∈ v.runningJob.sources, pathInside p source
  | _ => False

/-- The sources are chosen, when there are any. -/
theorem Consistent.chosen_sources (h : v.Consistent) (hne : v.sources ≠ []) :
    v.Chosen v.sources := by
  unfold sources at hne ⊢
  constructor
  · intro hmarked q
    rw [if_pos hmarked]
    simp only [List.mem_map, List.mem_filter, decide_eq_true_eq]
    constructor
    · rintro ⟨e, ⟨-, he⟩, rfl⟩
      exact he
    · intro hq
      obtain ⟨e, he, rfl⟩ := (h v.active).selected_listed q hq
      exact ⟨e, ⟨he, hq⟩, rfl⟩
  · intro hnone
    have hnone' : ¬v.pane.selected ≠ ∅ := not_not.mpr hnone
    rw [if_neg hnone'] at hne ⊢
    cases hcurrent : v.current with
    | none =>
      rw [hcurrent] at hne
      exact absurd rfl hne
    | some e => exact ⟨e, hcurrent, rfl⟩

/-- What an action does to the job and to the clipboard. -/
structure Keeps (calls : Calls) (v : FileExplorerView) (a : Act) (v' : FileExplorerView) :
    Prop where
  handed : v.busy = false → v'.busy = true → v.Handed v'.runningJob.sources a
  clipboard : ∀ p ∈ v'.clipboard,
    p ∈ v.stagedBy a ∨ (p ∈ v.clipboard ∧ ¬Removes calls v p a)

variable {a : Act}

theorem Keeps.of_eq (hbusy : v'.busy = v.busy) (hclipboard : v'.clipboard = v.clipboard)
    (hr : ∀ p, ¬Removes calls v p a) : Keeps calls v a v' where
  handed hidle hstarted := by
    rw [hbusy, hidle] at hstarted
    cases hstarted
  clipboard p hp := by
    rw [hclipboard] at hp
    exact Or.inr ⟨hp, hr p⟩

theorem Keeps.of_same (h : Same v v') (hr : ∀ p, ¬Removes calls v p a) : Keeps calls v a v' :=
  .of_eq h.busy h.clipboard hr

theorem Keeps.startJob {job : Job} (h : v.Handed job.sources a) (hr : ∀ p, ¬Removes calls v p a) :
    Keeps calls v a (v.startJob i18n job) := by
  unfold FileExplorerView.startJob
  split
  · exact .of_same (.refl v) hr
  · exact ⟨fun _ _ => h, fun p hp => Or.inr ⟨hp, hr p⟩⟩

theorem Keeps.paste {destination : FsPath} (h : v.Handed v.clipboard a)
    (hr : ∀ p, ¬Removes calls v p a) : Keeps calls v a (v.paste i18n destination) := by
  unfold FileExplorerView.paste
  split
  · exact .of_same (.refl v) hr
  split
  · exact .of_same ⟨rfl, rfl, rfl, rfl⟩ hr
  split
  · exact .startJob h hr
  · exact .startJob h hr

theorem Keeps.stageClipboard {paths : List FsPath} {cut : Bool} (h : ∀ p ∈ paths, p ∈ v.stagedBy a)
    (hr : ∀ p, ¬Removes calls v p a) : Keeps calls v a (v.stageClipboard i18n paths cut) := by
  unfold FileExplorerView.stageClipboard
  split
  · exact .of_same (.refl v) hr
  · refine ⟨?_, fun p hp => Or.inl (h p hp)⟩
    intro hidle hbusy
    rw [hidle] at hbusy
    cases hbusy

theorem same_createFolder (name : Option Name) : Same v (v.createFolder i18n calls name) := by
  unfold createFolder
  split
  · exact .refl v
  split
  · exact .refl v
  split
  · exact .refl v
  split
  · exact ⟨rfl, rfl, rfl, rfl⟩
  split
  · exact ⟨rfl, rfl, rfl, rfl⟩
  · exact ⟨rfl, rfl, rfl, rfl⟩
  · exact same_refreshAll calls v

/-- A rename empties the clipboard if it takes a path on it away. -/
theorem Keeps.renameEntry {entry : Entry} {name : Option Name}
    (hr : ∀ p, Removes calls v p a → Renames calls v entry name ∧ pathInside p entry.path) :
    Keeps calls v a (v.renameEntry i18n calls entry name) := by
  obtain ⟨status, h, hnot⟩ | ⟨status, h, hnot⟩ | ⟨status, h⟩ :=
    renameEntry_cases i18n calls v entry name
  · rw [h]
    exact .of_same ⟨rfl, rfl, rfl, rfl⟩ fun p hp => hnot (hr p hp).1
  · rw [h]
    have hstatus : Same v { v with status := status } := ⟨rfl, rfl, rfl, rfl⟩
    exact .of_same (hstatus.trans (same_afterRename calls _)) fun p hp => hnot (hr p hp).1
  · rw [h]
    have hsame := same_afterRename calls { v with
      status := status
      clipboard := if ∃ p ∈ v.clipboard, pathInside p entry.path then [] else v.clipboard }
    constructor
    · intro hidle hbusy
      rw [hsame.busy] at hbusy
      exact absurd (hbusy.symm.trans hidle) (by decide)
    · intro p hp
      rw [hsame.clipboard] at hp
      dsimp only at hp
      split at hp
      · cases hp
      · rename_i hnone
        exact Or.inr ⟨hp, fun hrem => hnone ⟨p, hp, (hr p hrem).2⟩⟩

/-- The end of a job drops what the job has taken away. -/
theorem keeps_finishJob : Keeps calls v .finishJob (v.finishJob i18n calls) := by
  unfold finishJob
  split
  · rename_i hwait
    exact .of_same (.refl v) fun p hp => hwait ⟨hp.1, hp.2.1⟩
  · have hsame := same_refreshAll calls { v with
      busy := false
      clipboard := v.keptClipboard calls
      clipboardCut := v.clipboardCut && v.keptClipboard calls ≠ []
      status := finishedStatus i18n v.jobResult
      panes := fun which =>
        (v.panes which).climb (calls.above which) (v.panes which).folder.length }
    constructor
    · intro _ hbusy
      rw [hsame.busy] at hbusy
      cases hbusy
    · intro p hp
      rw [hsame.clipboard] at hp
      have hkept : p ∈ v.keptClipboard calls := hp
      have hmem : p ∈ if ¬IsError v.jobResult ∧ v.takesAway ∧
          (∃ p ∈ v.clipboard, ∃ source ∈ v.runningJob.sources, pathInside p source) then []
          else v.clipboard := by
        unfold keptClipboard at hkept
        dsimp only at hkept
        split at hkept
        · exact List.mem_of_mem_filter hkept
        · exact hkept
      split at hmem
      · cases hmem
      · rename_i hnone
        refine Or.inr ⟨hmem, ?_⟩
        rintro ⟨-, -, hok, htakes, hsource⟩
        exact hnone ⟨hok, htakes, p, hmem, hsource⟩

theorem Consistent.keeps_actions (h : v.Consistent) (option : ActionsOption) :
    Keeps calls v (.actions option) (v.actions i18n calls option) := by
  have hchosen := h.chosen_sources
  unfold actions
  cases option with
  | rename name =>
    by_cases hbusy : v.busy = true
    · rw [if_pos hbusy]
      refine .of_same (.refl v) ?_
      rintro p ⟨-, -, -, -, ⟨-, -, hidle, -⟩, -⟩
      rw [hidle] at hbusy
      cases hbusy
    · rw [if_neg hbusy]
      dsimp only
      split
      · rename_i path hsources
        split
        · rename_i entry hfind
          apply Keeps.renameEntry
          rintro p ⟨path', entry', hsources', hfind', hrenames, hinside⟩
          obtain rfl : path = path' := by
            rw [hsources] at hsources'
            exact List.singleton_inj.mp hsources'
          obtain rfl : entry = entry' := Option.some_inj.mp (hfind.symm.trans hfind')
          exact ⟨hrenames, hinside⟩
        · rename_i hfind
          refine .of_same (.refl v) ?_
          rintro p ⟨path', entry', hsources', hfind', -⟩
          obtain rfl : path = path' := by
            rw [hsources] at hsources'
            exact List.singleton_inj.mp hsources'
          rw [hfind] at hfind'
          cases hfind'
      · rename_i hsources
        refine .of_same (.refl v) ?_
        rintro p ⟨path', entry', hsources', -⟩
        exact hsources path' hsources'
  | new_folder name =>
    split
    · exact .of_same (.refl v) fun _ => id
    · exact .of_same (same_createFolder name) fun _ => id
  | paste =>
    split
    · exact .of_same (.refl v) fun _ => id
    dsimp only
    split
    · exact .of_same (.refl v) fun _ => id
    · exact .paste rfl fun _ => id
  | refresh =>
    split
    · exact .of_same (.refl v) fun _ => id
    · exact .of_same (same_refreshAll calls v) fun _ => id
  -- the clipboard takes what is chosen, and nothing while a job runs
  | clipboard_copy =>
    split
    · exact .of_same (.refl v) fun _ => id
    · rename_i hidle
      refine .stageClipboard ?_ fun _ => id
      intro p hp
      show p ∈ if v.busy = true then [] else v.sources
      rwa [if_neg hidle]
  | clipboard_cut =>
    split
    · exact .of_same (.refl v) fun _ => id
    · rename_i hidle
      refine .stageClipboard ?_ fun _ => id
      intro p hp
      show p ∈ if v.busy = true then [] else v.sources
      rwa [if_neg hidle]
  -- a job starts with what is chosen
  | copy_other =>
    split
    · exact .of_same (.refl v) fun _ => id
    dsimp only
    split
    · rename_i hne
      exact .startJob (hchosen hne.1) fun _ => id
    · exact .of_same (.refl v) fun _ => id
  | move_other =>
    split
    · exact .of_same (.refl v) fun _ => id
    dsimp only
    split
    · rename_i hne
      exact .startJob (hchosen hne.1) fun _ => id
    · exact .of_same (.refl v) fun _ => id
  | delete =>
    split
    · exact .of_same (.refl v) fun _ => id
    dsimp only
    split
    · rename_i hne
      exact .startJob (hchosen hne) fun _ => id
    · exact .of_same (.refl v) fun _ => id

theorem keeps_entryMenu (option : EntryOption) :
    Keeps calls v (.entryMenu option) (v.entryMenu i18n calls option) := by
  unfold entryMenu
  split
  · rename_i hbusy
    refine .of_same (.refl v) ?_
    intro p hp
    cases option with
    | rename name =>
      obtain ⟨-, -, ⟨-, -, hidle, -⟩, -⟩ := hp
      rw [hidle] at hbusy
      cases hbusy
    | _ => exact hp
  rename_i hidle
  split
  · rename_i hnone
    refine .of_same (.refl v) ?_
    intro p hp
    cases option with
    | rename name =>
      obtain ⟨entry, hcurrent, -⟩ := hp
      rw [hnone] at hcurrent
      cases hcurrent
    | _ => exact hp
  rename_i entry hcurrent
  have hstaged : ∀ p ∈ [entry.path],
      p ∈ if v.busy = true then [] else (v.current.map Entry.path).toList := by
    intro p hp
    rw [if_neg hidle, hcurrent]
    exact hp
  cases option with
  | extract =>
    dsimp only
    split
    · exact .startJob ⟨entry, hcurrent, rfl⟩ fun _ => id
    · exact .of_same (.refl v) fun _ => id
  | clipboard_copy => exact .stageClipboard hstaged fun _ => id
  | clipboard_cut => exact .stageClipboard hstaged fun _ => id
  | paste =>
    dsimp only
    split
    · exact .of_same (.refl v) fun _ => id
    · exact .paste rfl fun _ => id
  | rename name =>
    apply Keeps.renameEntry
    rintro p ⟨entry', hcurrent', hrenames, hinside⟩
    obtain rfl : entry = entry' := Option.some_inj.mp (hcurrent.symm.trans hcurrent')
    exact ⟨hrenames, hinside⟩
  | delete => exact .startJob ⟨entry, hcurrent, rfl⟩ fun _ => id

/-- A job gets what is chosen, and the clipboard keeps only what is still there. -/
theorem Consistent.keeps_act (h : v.Consistent) (a : Act) :
    Keeps calls v a (v.act i18n calls a) := by
  cases a with
  | open_ =>
    refine .of_same ?_ fun _ => id
    show Same v (v.open_ calls)
    unfold open_
    split
    · exact .refl v
    split
    · exact .refl v
    split
    · exact (same_setPane _ _).trans (same_refresh _)
    · exact .refl v
  | back =>
    refine .of_same ?_ fun _ => id
    show Same v (v.onBack calls)
    unfold onBack
    split
    · exact ⟨rfl, rfl, rfl, rfl⟩
    split
    · exact (same_setPane _ _).trans (same_refresh _)
    · exact .refl v
  | step delta =>
    refine .of_same ?_ fun _ => id
    show Same v (v.step delta)
    unfold FileExplorerView.step
    split
    · exact .refl v
    split
    · exact .refl v
    · exact same_setPane _ _
  | toggleSelection =>
    refine .of_same ?_ fun _ => id
    show Same v v.toggleSelection
    unfold FileExplorerView.toggleSelection
    split
    · exact .refl v
    split
    · exact .refl v
    · exact same_setPane _ _
  | togglePanels =>
    show Keeps calls v .togglePanels (v.togglePanels calls)
    unfold togglePanels
    split
    · exact .of_same (.refl v) fun _ => id
    dsimp only
    split
    · have hsame : Same { v with dualPane := !v.dualPane }
          (FileExplorerView.refresh calls (!v.active) { v with dualPane := !v.dualPane }) :=
        same_refresh _
      exact .of_eq hsame.busy hsame.clipboard fun _ => id
    · exact .of_eq rfl rfl fun _ => id
  | switchPane =>
    show Keeps calls v .switchPane v.switchPane
    unfold switchPane
    split
    · exact .of_eq rfl rfl fun _ => id
    · exact .of_same (.refl v) fun _ => id
  | createFolder name => exact .of_same (same_createFolder name) fun _ => id
  | actions option => exact h.keeps_actions option
  | entryMenu option => exact keeps_entryMenu option
  | jobEnds ended =>
    refine .of_same ?_ fun _ => id
    show Same v (v.jobEnds ended)
    unfold jobEnds
    split
    · exact ⟨rfl, rfl, rfl, rfl⟩
    · exact .refl v
  | finishJob => exact keeps_finishJob

/-! ## Runs -/

/-- A path was put on the clipboard during the run, and nothing has taken it away since. -/
def Staged (i18n : String → String) (v : FileExplorerView) (acts : List (Act × Calls))
    (p : FsPath) : Prop :=
  ∃ k a, acts[k]? = some a ∧ p ∈ (v.run i18n (acts.take k)).stagedBy a.1 ∧
    ∀ j b, k < j → acts[j]? = some b → ¬Removes b.2 (v.run i18n (acts.take j)) p b.1

/-- The explorer acts on what it shows: the panes that are shown hold entries of their folders, and
their cursor, window and marks fit these; every job got what was chosen; and what is on the
clipboard was put there and is not known to be gone. -/
structure ActsOnShown (i18n : String → String) (v : FileExplorerView) (acts : List (Act × Calls)) :
    Prop where
  valid : ∀ which, (v.run i18n acts).Shown which → ((v.run i18n acts).panes which).Valid
  ofFolder : (v.run i18n acts).ShowsFolders
  handed : ∀ k a, acts[k]? = some a → (v.run i18n (acts.take k)).busy = false →
    (v.run i18n (acts.take (k + 1))).busy = true →
    (v.run i18n (acts.take k)).Handed (v.run i18n (acts.take (k + 1))).runningJob.sources a.1
  staged : ∀ p ∈ (v.run i18n acts).clipboard, Staged i18n v acts p

theorem run_append (v : FileExplorerView) (acts : List (Act × Calls)) (a : Act × Calls) :
    v.run i18n (acts ++ [a]) = (v.run i18n acts).act i18n a.2 a.1 := by
  unfold run
  rw [List.foldl_append]
  rfl

theorem run_take_succ (v : FileExplorerView) {acts : List (Act × Calls)} {k : ℕ}
    {a : Act × Calls} (h : acts[k]? = some a) :
    v.run i18n (acts.take (k + 1)) = (v.run i18n (acts.take k)).act i18n a.2 a.1 := by
  rw [List.take_add_one, h]
  exact run_append v (acts.take k) a

/-- Along every run cursor, window and marks fit the entries. -/
theorem Consistent.run (h : v.Consistent) (acts : List (Act × Calls)) :
    (v.run i18n acts).Consistent := by
  induction acts using List.reverseRecOn with
  | nil => exact h
  | append_singleton acts a ih =>
    rw [run_append]
    exact ih.act a.1

/-- Along every run a job gets what is chosen. -/
theorem Consistent.handed_run (h : v.Consistent) (acts : List (Act × Calls)) (k : ℕ)
    (a : Act × Calls) (ha : acts[k]? = some a) (hidle : (v.run i18n (acts.take k)).busy = false)
    (hbusy : (v.run i18n (acts.take (k + 1))).busy = true) :
    (v.run i18n (acts.take k)).Handed (v.run i18n (acts.take (k + 1))).runningJob.sources a.1 := by
  have hcons : (v.run i18n (acts.take k)).Consistent := h.run _
  rw [run_take_succ v ha] at hbusy ⊢
  exact (hcons.keeps_act a.1).handed hidle hbusy

/-- What was on the clipboard and is not taken away is still what was put there. -/
theorem Staged.append {acts : List (Act × Calls)} {p : FsPath} (h : Staged i18n v acts p)
    {a : Act × Calls} (hr : ¬Removes a.2 (v.run i18n acts) p a.1) :
    Staged i18n v (acts ++ [a]) p := by
  obtain ⟨k, b, hb, hp, hlater⟩ := h
  have hk : k < acts.length := (List.getElem?_eq_some_iff.mp hb).1
  refine ⟨k, b, ?_, ?_, ?_⟩
  · rwa [List.getElem?_append_left hk]
  · rwa [List.take_append_of_le_length hk.le]
  · intro j c hj hc
    rcases Nat.lt_or_ge j acts.length with hlt | hge
    · rw [List.getElem?_append_left hlt] at hc
      rw [List.take_append_of_le_length hlt.le]
      exact hlater j c hj hc
    · have hlen : j < (acts ++ [a]).length := (List.getElem?_eq_some_iff.mp hc).1
      rw [List.length_append, List.length_singleton] at hlen
      obtain rfl : j = acts.length := by omega
      rw [List.getElem?_concat_length] at hc
      cases hc
      rwa [List.take_left]

/-- Along every run the clipboard holds what was put there and not taken away since. -/
theorem Consistent.staged_run (h : v.Consistent) (hempty : v.clipboard = [])
    (acts : List (Act × Calls)) : ∀ p ∈ (v.run i18n acts).clipboard, Staged i18n v acts p := by
  induction acts using List.reverseRecOn with
  | nil =>
    intro p hp
    have hp' : p ∈ v.clipboard := hp
    rw [hempty] at hp'
    cases hp'
  | append_singleton acts a ih =>
    intro p hp
    have hcons : (v.run i18n acts).Consistent := h.run _
    rw [run_append] at hp
    rcases (hcons.keeps_act a.1).clipboard p hp with hstaged | ⟨hmem, hr⟩
    · refine ⟨acts.length, a, List.getElem?_concat_length, ?_, ?_⟩
      · rwa [List.take_left]
      · intro j b hj hb
        have hlen : j < (acts ++ [a]).length := (List.getElem?_eq_some_iff.mp hb).1
        rw [List.length_append, List.length_singleton] at hlen
        omega
    · exact (ih p hmem).append hr

/-- Along a run the folders are shown exactly when every listing succeeds that has to. -/
theorem ShowsFolders.run_iff (h : v.ShowsFolders) (acts : List (Act × Calls)) :
    (∀ n ≤ acts.length, (v.run i18n (acts.take n)).ShowsFolders) ↔
      ∀ n a, acts[n]? = some a → Meets a.2 (v.run i18n (acts.take n)) a.1 := by
  constructor
  · intro hs n a ha
    have hn : n < acts.length := (List.getElem?_eq_some_iff.mp ha).1
    have hnext := hs (n + 1) hn
    rw [run_take_succ v ha] at hnext
    exact ((hs n hn.le).act_iff a.1).mp hnext
  · intro hm n
    induction n with
    | zero => exact fun _ => h
    | succ n ih =>
      intro hn
      have ha : acts[n]? = some acts[n] := List.getElem?_eq_getElem hn
      rw [run_take_succ v ha]
      exact ((ih (Nat.le_of_succ_le hn)).act_iff _).mpr (hm n _ ha)

theorem opened_panes (w : Bool) : ((opened calls).panes w).Valid ∧
    ((opened calls).panes w).OfFolder := by
  have hnew : OfFolder {} := by
    intro e he
    cases he
  unfold opened
  rw [refresh_panes]
  split
  · exact ⟨valid_new.relisted _, (ofFolder_relisted_iff _ _).mpr (Or.inr hnew)⟩
  · exact ⟨valid_new, hnew⟩

theorem opened_clipboard : (opened calls).clipboard = [] := (same_refresh false).clipboard

/-- The explorer acts on what it shows throughout a run exactly when every listing succeeds that is
read after a folder has changed. -/
theorem acts_on_shown_iff (i18n : String → String) (calls : Calls) (acts : List (Act × Calls)) :
    (∀ n ≤ acts.length, ActsOnShown i18n (opened calls) (acts.take n)) ↔
      ∀ n a, acts[n]? = some a → Meets a.2 ((opened calls).run i18n (acts.take n)) a.1 := by
  have hcons : (opened calls).Consistent := fun w => (opened_panes w).1
  have hshows : (opened calls).ShowsFolders := fun w _ => (opened_panes w).2
  rw [← hshows.run_iff acts]
  constructor
  · intro h n hn
    exact (h n hn).ofFolder
  · intro h n hn
    exact ⟨fun which _ => hcons.run _ which, h n hn, hcons.handed_run _,
      hcons.staged_run opened_clipboard _⟩

/-- One folder `a` at the root. -/
def oneFolder : Calls where
  directory _ := { found := [⟨"a", some false, some true⟩] }

/-- The folder that is opened cannot be read. -/
def unreadable : Calls where
  directory _ := { failed := some "Input/output error" }

/-- The folder `a` is opened, which fails, and what is under the cursor is deleted. -/
def openAndDelete : List (Act × Calls) :=
  [(.open_, unreadable), (.entryMenu .delete, {})]

/-- `/a` is shown, and `/a` is what is listed there and what the job is to delete. -/
theorem folder_shown_inside_itself :
    ((opened oneFolder).run id openAndDelete).pane.folder = ["a"] ∧
    ((opened oneFolder).run id openAndDelete).pane.entries = [⟨["a"], "a", true⟩] ∧
    ((opened oneFolder).run id openAndDelete).runningJob.sources = [["a"]] ∧
    ¬∀ n ≤ openAndDelete.length, ActsOnShown id (opened oneFolder) (openAndDelete.take n) := by
  have hentries : ((opened oneFolder).run id openAndDelete).pane.entries = [⟨["a"], "a", true⟩] :=
    rfl
  refine ⟨rfl, hentries, rfl, ?_⟩
  intro h
  have hshown := (h openAndDelete.length le_rfl).ofFolder.pane
  rw [List.take_length] at hshown
  have hchild := hshown ⟨["a"], "a", true⟩ (by rw [hentries]; exact List.mem_singleton_self _)
  have hfolder : ((opened oneFolder).run id openAndDelete).pane.folder = ["a"] := rfl
  rw [hfolder] at hchild
  exact absurd hchild (by decide)

end FileExplorerView

end ExplorerPage
