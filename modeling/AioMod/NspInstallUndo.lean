/-
# How an install is undone

What the recovery makes of an interrupted install, where its own calls work: the contents and
placeholders that the plan in the journal lists are deleted, the key is removed, and the journal
goes last, so that a recovery that is cut can be repeated.  A plan covers a card if this takes it
back to what it was, up to a number of objects that are left.
-/
import AioMod.NspInstallCalls
import AioMod.NspJournalSpec

namespace NspInstall

open Nsp (text)
open NspJournal (NcmId NcmContentMetaKey Json PlannedContent listed)
open NspRecords (ContentStorageRecord)
open NspStream (Content Placeholder toNcmId)
open Throws (wpc wpc_bind wpc_call wpc_conseq wpc_require wpc_pure wpc_lift)

/-! ## Calls that work -/

/-- What the calls return that write, move, read and remove the journal.  A file is renamed where
there is none of the new name; every other call may fail. -/
def JournalAnswers (s : World) : (fn : Fn) → fn.Res → Prop
  | .openTmp, ok => ok = true
  | .writeTmp _, ok => ok = true
  | .renameTmp, rc => s.tmp ≠ none → s.journal = none → rc = 0
  | .removeTmp, rc => rc = 0
  | .removeActive, rc => rc = 0
  | .existsActive, r => r.1 = 0
  | .openJournal, r => s.journal ≠ none → r ≠ none
  | _, _ => True

/-- What the calls return that a rollback makes. -/
def UndoAnswers (s : World) : (fn : Fn) → fn.Res → Prop
  | .ncmInitialize, rc => rc = 0
  | .ncmOpenContentStorage, rc => rc = 0
  | .ncmOpenContentMetaDatabase, rc => rc = 0
  | .Has _, r => r.1 = 0
  | .Delete _, rc => rc = 0
  | .HasPlaceHolder _, r => r.1 = 0
  | .DeletePlaceHolder _, rc => rc = 0
  | .MetaRemove key, rc => (∃ m ∈ s.db, m.1 = key) → rc = 0
  | .MetaCommit, rc => rc = 0
  | _, _ => True

/-- The machine on which the files of the journal can be written, moved, read and removed. -/
def journaled (env : Env) : Machine FnI World := fun s fn r s' =>
  ncm env s fn r s' ∧ JournalAnswers s fn r

/-- The machine on which the calls of a rollback work as well. -/
def reliable (env : Env) : Machine FnI World := fun s fn r s' =>
  journaled env s fn r s' ∧ UndoAnswers s fn r

variable {env : Env} {k : ℕ} {old s s' : World} {t : Transaction}

theorem journaled_ncm (s : World) (fn : Fn) (r : fn.Res) (s' : World)
    (h : journaled env s fn r s') : ncm env s fn r s' := h.1

/-- A call that opens the journal to recover it. -/
def Fn.opens : Fn → Bool
  | .openJournal => true
  | _ => false

/-- The card, and whether the journal on it was opened to be recovered. -/
structure Console where
  card : World
  undoing : Bool

/-- An install makes many of the calls that its rollback makes.  On this machine they work once the
journal has been opened to be recovered, and before that they may fail. -/
def dependable (env : Env) : Machine FnI Console := fun s fn r s' =>
  journaled env s.card fn r s'.card ∧ (s.undoing = true → UndoAnswers s.card fn r) ∧
    s'.undoing = (s.undoing || fn.opens)

/-- The console on which the calls of a card are answered by `f`. -/
def Console.answer (c : Console) (f : World → (fn : Fn) → fn.Res × World) (fn : Fn) :
    fn.Res × Console :=
  ((f c.card fn).1, ⟨(f c.card fn).2, c.undoing || fn.opens⟩)

theorem dependable_answer {c : Console} {f : World → (fn : Fn) → fn.Res × World} {fn : Fn}
    (hjournal : journaled env c.card fn (f c.card fn).1 (f c.card fn).2)
    (hundo : c.undoing = true → UndoAnswers c.card fn (f c.card fn).1) :
    dependable env c fn (c.answer f fn).1 (c.answer f fn).2 :=
  ⟨hjournal, hundo, rfl⟩

/-- On a card whose calls all work, those of the journal and of a rollback do. -/
theorem reliable_answers (env : Env) (s : World) (fn : Fn) :
    reliable env s fn (answers env s fn).1 (answers env s fn).2 := by
  refine ⟨⟨ncm_answers env s fn, ?_⟩, ?_⟩
  · cases fn with
    | openTmp | writeTmp | removeTmp | removeActive | existsActive => rfl
    | renameTmp =>
      intro htmp _
      simp only [answers, if_pos htmp]
    | openJournal => exact id
    | _ => trivial
  · cases fn with
    | ncmInitialize | ncmOpenContentStorage | ncmOpenContentMetaDatabase | Has | Delete
    | HasPlaceHolder | DeletePlaceHolder | MetaCommit => rfl
    | MetaRemove key => exact fun _ => rfl
    | _ => trivial

/-- What holds where only the journal works. -/
theorem wp_dependable {α : Type} {C : World → Prop} {Q : α → World → Prop} {p : Prog FnI α}
    {c : Console} (h : wp (journaled env) C Q p c.card) :
    wp (dependable env) (fun c => C c.card) (fun a c => Q a c.card) p c :=
  wp_comap Console.card (fun _ _ _ _ hstep => hstep.1) h

theorem wpc_dependable {ε α : Type} {C : World → Prop} {Q : α → World → Prop}
    {E : ε → World → Prop} {p : Throws FnI ε α} {c : Console}
    (h : wpc (journaled env) C Q E p c.card) :
    wpc (dependable env) (fun c => C c.card) (fun a c => Q a c.card) (fun e c => E e c.card) p c := by
  refine wp_conseq (wp_dependable h) (fun _ h => h) fun r c' _ hr => ?_
  cases r with
  | ok a => exact hr
  | error e => exact hr

/-- What holds where the rollback works, once the journal was opened. -/
theorem wp_undoing {α : Type} {C : World → Prop} {Q : α → World → Prop} {p : Prog FnI α}
    {c : Console} (h : wp (reliable env) C Q p c.card) (hc : c.undoing = true) :
    wp (dependable env) (fun c => C c.card) (fun a c => Q a c.card) p c := by
  refine wp_comap_of (K := fun c : Console => c.undoing = true) Console.card ?_ h hc
  rintro c₁ fn r c₂ h₁ ⟨hjournal, hundo, hnext⟩
  refine ⟨⟨hjournal, hundo h₁⟩, ?_⟩
  rw [hnext, h₁, Bool.true_or]

/-- The recovery opens the journal before it makes its calls. -/
theorem recover_dependable {C : World → Prop} {Q : Bool × Option Bytes → World → Prop} {c : Console}
    (h : wp (reliable env) C Q recoverStaleRealInstall c.card) :
    wp (dependable env) (fun c => C c.card) (fun r c => Q r c.card) recoverStaleRealInstall c := by
  obtain ⟨hC, hfound⟩ := h
  refine ⟨hC, fun found c₁ hc₁ => ?_⟩
  have h₁ := hfound found c₁.card ⟨hc₁.1, trivial⟩
  cases found with
  | false => exact h₁
  | true =>
    obtain ⟨hC₁, hopened⟩ := h₁
    refine ⟨hC₁, fun r c₂ hc₂ => ?_⟩
    have h₂ := hopened r c₂.card ⟨hc₂.1, trivial⟩
    apply wp_undoing h₂
    rw [hc₂.2.2]
    exact Bool.or_true _

/-! ## What a plan deletes -/

def deletes (plan : List PlannedContent) (id : NcmId) : Bool :=
  plan.any fun p => p.newly && decide (p.content_id = id)

def deletesPlaceHolder (plan : List PlannedContent) (ph : NcmId) : Bool :=
  plan.any fun p => !p.newly && p.placeholderCreated && decide (p.placeholder = ph)

/-- What a rollback leaves of the storage. -/
def undone (plan : List PlannedContent) (st : NspStream.Storage) : NspStream.Storage where
  contents := st.contents.filter fun c => !deletes plan c.id
  placeholders := st.placeholders.filter fun p => !deletesPlaceHolder plan p.id

theorem undone_nil (st : NspStream.Storage) : undone [] st = st := by
  unfold undone deletes deletesPlaceHolder
  simp

theorem undone_append (plan plan' : List PlannedContent) (st : NspStream.Storage) :
    undone (plan ++ plan') st = undone plan' (undone plan st) := by
  unfold undone deletes deletesPlaceHolder
  simp only [List.filter_filter, List.any_append, Bool.not_or, Bool.and_comm]

theorem undone_reverse (plan : List PlannedContent) (st : NspStream.Storage) :
    undone plan.reverse st = undone plan st := by
  unfold undone deletes deletesPlaceHolder
  simp only [List.any_reverse]

/-- What was begun can be done again. -/
theorem undone_undone {part plan : List PlannedContent} (h : ∀ p ∈ part, p ∈ plan)
    (st : NspStream.Storage) : undone plan (undone part st) = undone plan st := by
  unfold undone
  simp only [List.filter_filter]
  congr 1
  · apply List.filter_congr
    intro c _
    cases hpart : deletes part c.id with
    | false => rw [Bool.not_false, Bool.and_true]
    | true =>
      obtain ⟨p, hp, hyes⟩ := List.any_eq_true.mp hpart
      rw [show deletes plan c.id = true from List.any_eq_true.mpr ⟨p, h p hp, hyes⟩]
      rfl
  · apply List.filter_congr
    intro c _
    cases hpart : deletesPlaceHolder part c.id with
    | false => rw [Bool.not_false, Bool.and_true]
    | true =>
      obtain ⟨p, hp, hyes⟩ := List.any_eq_true.mp hpart
      rw [show deletesPlaceHolder plan c.id = true from List.any_eq_true.mpr ⟨p, h p hp, hyes⟩]
      rfl

theorem undone_newly {p : PlannedContent} (h : p.newly = true) (st : NspStream.Storage) :
    undone [p] st = Storage.delete st p.content_id := by
  unfold undone deletes deletesPlaceHolder Storage.delete
  simp [h, eq_comm]

theorem undone_created {p : PlannedContent} (h : p.newly = false)
    (hcreated : p.placeholderCreated = true) (st : NspStream.Storage) :
    undone [p] st = Storage.deletePlaceHolder st p.placeholder := by
  unfold undone deletes deletesPlaceHolder Storage.deletePlaceHolder
  simp [h, hcreated, eq_comm]

theorem undone_nothing {p : PlannedContent} (h : p.newly = false)
    (hcreated : p.placeholderCreated = false) (st : NspStream.Storage) : undone [p] st = st := by
  unfold undone deletes deletesPlaceHolder
  simp [h, hcreated]

theorem delete_of_not_has {st : NspStream.Storage} {id : NcmId} (h : st.has id = false) :
    Storage.delete st id = st := by
  unfold Storage.delete
  rw [List.filter_eq_self.mpr]
  intro c hc
  have hne := List.any_eq_false.mp h c hc
  simpa using hne

theorem deletePlaceHolder_of_not_has {st : NspStream.Storage} {ph : NcmId}
    (h : Storage.hasPlaceHolder st ph = false) : Storage.deletePlaceHolder st ph = st := by
  unfold Storage.deletePlaceHolder
  rw [List.filter_eq_self.mpr]
  intro p hp
  have hne := List.any_eq_false.mp h p hp
  simpa using hne

theorem remove_remove (db : MetaDatabase) (key : NcmContentMetaKey) :
    remove (remove db key) key = remove db key := by
  unfold remove
  rw [List.filter_filter]
  simp only [Bool.and_self]

theorem remove_set (db : MetaDatabase) (key : NcmContentMetaKey) (blob : Bytes) :
    remove (set db key blob) key = remove db key := by
  unfold set
  rw [remove, List.filter_append, ← remove, remove_remove]
  simp

/-! ## What is accounted for -/

/-- What was there before is there, and at most so many objects more: contents, placeholders, and
the list of records counts as one. -/
def Left (k : ℕ) (old : World) (st : NspStream.Storage)
    (records : UInt64 → List ContentStorageRecord) : Prop :=
  ∃ (cs : List Content) (phs : List Placeholder) (n : ℕ),
    st.contents = old.storage.contents ++ cs ∧ st.placeholders = old.storage.placeholders ++ phs ∧
      (n = 0 → records = old.records) ∧ cs.length + phs.length + n ≤ k

/-- The card is what it was before, up to what is left. -/
structure Restored (k : ℕ) (old s : World) : Prop where
  left : Left k old s.storage s.records
  db : s.db = old.saved
  saved : s.saved = old.saved
  userDb : s.userDb = old.userDb

/-- A rollback of the plan and the key would restore the card. -/
structure Covered (k : ℕ) (old : World) (plan : List PlannedContent) (key : NcmContentMetaKey)
    (metaSet : Bool) (s : World) : Prop where
  left : Left k old (undone plan s.storage) s.records
  db : (if metaSet then remove s.db key else s.db) = old.saved
  saved : (if metaSet then remove s.saved key else s.saved) = old.saved
  userDb : s.userDb = old.userDb

/-- A stage at which there is nothing to be undone. -/
def Final (stage : String) : Prop :=
  text stage = ascii "application-record" ∨ text stage = ascii "complete"

instance (stage : String) : Decidable (Final stage) := inferInstanceAs (Decidable (_ ∨ _))

/-- The journal lists what is to be undone. -/
def Pending (k : ℕ) (old s : World) : Prop :=
  ∃ (t : Transaction) (metaSet recordPushed ticketImported : Bool) (stage : String),
    s.journal = some (some (t.json metaSet recordPushed ticketImported stage)) ∧ ¬Final stage ∧
      Covered k old t.plan (listed t.key) metaSet s

/-- The install is there: its contents, its key in the database, and its record. -/
structure Complete (old : World) (t : Transaction) (s : World) : Prop where
  contents : ∃ cs, s.storage.contents = old.storage.contents ++ cs ∧
    ∀ c ∈ cs, ∃ p ∈ t.plan, p.content_id = c.id
  placeholders : s.storage.placeholders = old.storage.placeholders
  there : ∀ p ∈ t.plan, s.storage.has p.content_id = true
  saved : ∃ blob, s.saved = old.saved ++ [(t.key, blob)]
  record : ∃ r ∈ s.records t.appId, r.key = t.key

/-- The journal says that the install is there. -/
def Done (old s : World) : Prop :=
  ∃ (t : Transaction) (recordPushed ticketImported : Bool) (stage : String),
    s.journal = some (some (t.json true recordPushed ticketImported stage)) ∧ Final stage ∧
      Complete old t s

/-- There is no journal: the card is as it was, or the install is there, or the program was cut
while one text took the place of another. -/
def Ended (k : ℕ) (old s : World) : Prop :=
  s.journal = none ∧
    (Restored k old s ∨ (∃ t, Complete old t s) ∨ ∃ j, s.tmp = some (some j))

/-- What holds wherever an install is cut. -/
def Accounted (k : ℕ) (old s : World) : Prop := Pending k old s ∨ Done old s ∨ Ended k old s

theorem Left.mono {k' : ℕ} {st : NspStream.Storage}
    {records : UInt64 → List ContentStorageRecord} (h : Left k old st records) (hk : k ≤ k') :
    Left k' old st records := by
  obtain ⟨cs, phs, n, hcs, hphs, hn, hle⟩ := h
  exact ⟨cs, phs, n, hcs, hphs, hn, hle.trans hk⟩

theorem Pending.mono {k' : ℕ} (h : Pending k old s) (hk : k ≤ k') : Pending k' old s := by
  obtain ⟨t, metaSet, rp, ti, stage, hj, hstage, hcovered⟩ := h
  exact ⟨t, metaSet, rp, ti, stage, hj, hstage, { hcovered with left := hcovered.left.mono hk }⟩

/-! ## The removal of the journal -/

/-- The journal goes, whatever was in it. -/
theorem removeJournal_journaled {C : World → Prop} {Q : Bool × Bytes → World → Prop}
    (hC : ∀ tmp recovered, C { s with tmp, recovered })
    (hnone : ∀ recovered, C { s with journal := none, tmp := none, recovered })
    (hQ : ∀ recovered detail, Q (true, detail) { s with journal := none, tmp := none, recovered }) :
    wp (journaled env) C Q removeJournal s := by
  unfold removeJournal
  apply wp_bind.mpr
  refine ⟨hC s.tmp s.recovered, fun rc₁ s₁ h₁ => ?_⟩
  obtain ⟨h₁, rfl⟩ := h₁
  obtain rfl : s₁ = { s with tmp := none } := h₁
  refine ⟨hC none s.recovered, wp_bind.mpr ⟨hC none s.recovered, fun rc₂ s₂ h₂ => ?_⟩⟩
  obtain ⟨recovered, rfl⟩ : ∃ recovered, s₂ = { s with tmp := none, recovered := recovered } := by
    have h : s₂ = if rc₂ = 0 then { s with tmp := none, recovered := false }
      else { s with tmp := none } := h₂.1
    split at h
    · exact ⟨false, h⟩
    · exact ⟨s.recovered, h⟩
  refine ⟨hC none recovered, wp_bind.mpr ⟨hC none recovered, fun rc₃ s₃ h₃ => ?_⟩⟩
  obtain ⟨h₃, rfl⟩ := h₃
  obtain rfl : s₃ = { s with journal := none, tmp := none, recovered := recovered } := h₃
  refine ⟨hnone recovered, wp_bind.mpr ⟨hnone recovered, fun r s₄ h₄ => ?_⟩⟩
  obtain ⟨⟨rfl, hr⟩, hok⟩ := h₄
  have hgone : r.2 = false ∧ r.1 = 0 := ⟨hr hok, hok⟩
  refine ⟨hnone recovered, ?_⟩
  dsimp only
  rw [if_pos hgone]
  exact ⟨hnone recovered, hQ recovered _⟩

theorem clear_reliable {C : World → Prop} {Q : Bytes → World → Prop}
    {E : Option Bytes → World → Prop} (failed done : Bytes)
    (hC : ∀ tmp recovered, C { s with tmp, recovered })
    (hnone : ∀ recovered, C { s with journal := none, tmp := none, recovered })
    (hQ : ∀ recovered, Q done { s with journal := none, tmp := none, recovered }) :
    wpc (reliable env) C Q E (clear failed done) s := by
  unfold clear
  apply wpc_bind
  apply wpc_lift
  refine wp_mono (removeJournal_journaled hC hnone fun recovered detail => ?_)
    (fun _ _ _ _ h => h.1) (fun _ h => h) fun _ _ h => h
  apply wpc_bind
  exact wpc_require (hnone recovered) (fun _ => ⟨hnone recovered, hQ recovered⟩)
    fun hno => (hno rfl).elim

/-! ## The rollback -/

theorem openContext_reliable {C : World → Prop} {Q : Unit → World → Prop}
    {E : Option Bytes → World → Prop} (hC : C s) (hQ : Q () s) :
    wpc (reliable env) C Q E openContext s := by
  have hopen : wpc (reliable env) C Q (fun _ _ => False) (streaming NspStream.openContext) s := by
    unfold NspStream.openContext
    refine wpc_streaming_bind (wpc_streaming_call ⟨hC, fun rc s₁ h₁ => ?_⟩)
    obtain ⟨⟨h₁, -⟩, rfl⟩ := h₁
    obtain rfl : s₁ = s := h₁
    refine ⟨hC, wpc_streaming_bind (wpc_streaming_require hC (fun _ => ?_) fun hno => hno rfl)⟩
    refine wpc_streaming_bind (wpc_streaming_call ⟨hC, fun rc s₂ h₂ => ?_⟩)
    obtain ⟨⟨h₂, -⟩, rfl⟩ := h₂
    obtain rfl : s₂ = s₁ := h₂
    refine ⟨hC, wpc_streaming_bind (wpc_streaming_require hC (fun _ => ?_) fun hno => hno rfl)⟩
    refine wpc_streaming_bind (wpc_streaming_call ⟨hC, fun rc s₃ h₃ => ?_⟩)
    obtain ⟨⟨h₃, -⟩, rfl⟩ := h₃
    obtain rfl : s₃ = s₂ := h₃
    exact ⟨hC, wpc_streaming_require hC (fun _ => hQ) fun hno => hno rfl⟩
  apply wp_bind.mpr
  refine wp_conseq hopen (fun _ h => h) fun r s' hC' hr => ?_
  cases r with
  | ok _ => exact ⟨hC', hr⟩
  | error e => exact hr.elim

theorem undoContent_reliable {C : World → Prop} {Q : Unit → World → Prop}
    {E : Option Bytes → World → Prop} (p : PlannedContent) (hC : C s)
    (hdone : C { s with storage := undone [p] s.storage })
    (hQ : Q () { s with storage := undone [p] s.storage }) :
    wpc (reliable env) C Q E (undoContent p.json) s := by
  unfold undoContent
  rw [NspJournal.undoOf_json, json_some, Throws.pure_bind]
  unfold PlannedContent.undo
  cases hnewly : p.newly with
  | true =>
    rw [undone_newly hnewly] at hdone hQ
    rw [if_pos rfl]
    show wpc _ _ _ _ (call (.Has (toNcmId p.content_id.1)) >>= _) _
    rw [toNcmId_val]
    apply wpc_bind
    refine wpc_call hC fun r s₁ h₁ => ?_
    obtain ⟨⟨⟨rfl, hhas⟩, -⟩, hok⟩ := h₁
    refine ⟨hC, ?_⟩
    split
    · apply wpc_bind
      refine wpc_call hC fun rc s₂ h₂ => ?_
      obtain ⟨⟨h₂, -⟩, rfl⟩ := h₂
      obtain rfl : s₂ = { s₁ with storage := Storage.delete s₁.storage p.content_id } := h₂
      exact ⟨hdone, hdone, hQ⟩
    -- nothing is there to be deleted
    · rename_i hno
      have hnot : s₁.storage.has p.content_id = false := by
        rw [← hhas hok]
        exact Bool.eq_false_iff.mpr fun hyes => hno ⟨hok, hyes⟩
      rw [delete_of_not_has hnot] at hQ
      exact ⟨hC, hQ⟩
  -- nothing was registered: at most a placeholder was made
  | false =>
    rw [if_neg Bool.false_ne_true]
    cases hcreated : p.placeholderCreated with
    | true =>
      rw [undone_created hnewly hcreated] at hdone hQ
      rw [if_pos rfl]
      show wpc _ _ _ _ (call (.HasPlaceHolder (toNcmId p.placeholder.1)) >>= _) _
      rw [toNcmId_val]
      apply wpc_bind
      refine wpc_call hC fun r s₁ h₁ => ?_
      obtain ⟨⟨⟨rfl, hhas⟩, -⟩, hok⟩ := h₁
      refine ⟨hC, ?_⟩
      split
      · apply wpc_bind
        refine wpc_call hC fun rc s₂ h₂ => ?_
        obtain ⟨⟨h₂, -⟩, rfl⟩ := h₂
        obtain rfl :
          s₂ = { s₁ with storage := Storage.deletePlaceHolder s₁.storage p.placeholder } := h₂
        exact ⟨hdone, hdone, hQ⟩
      · rename_i hno
        have hnot : Storage.hasPlaceHolder s₁.storage p.placeholder = false := by
          rw [← hhas hok]
          exact Bool.eq_false_iff.mpr fun hyes => hno ⟨hok, hyes⟩
        rw [deletePlaceHolder_of_not_has hnot] at hQ
        exact ⟨hC, hQ⟩
    | false =>
      rw [undone_nothing hnewly hcreated] at hQ
      exact ⟨hC, hQ⟩

section pending

variable {metaSet recordPushed ticketImported : Bool} {stage : String}

/-- The loop goes through the plan backwards. -/
theorem undoContents_reliable {C : World → Prop} {Q : Unit → World → Prop}
    {E : Option Bytes → World → Prop}
    (hC : ∀ part, (∀ p ∈ part, p ∈ t.plan) → C { s with storage := undone part s.storage })
    (hQ : Q () { s with storage := undone t.plan s.storage }) :
    wpc (reliable env) C Q E
      (undoContents (t.json metaSet recordPushed ticketImported stage)) s := by
  have hloop : undoContents (t.json metaSet recordPushed ticketImported stage)
      = Throws.forEach undoContent (t.plan.map PlannedContent.json).reverse := rfl
  rw [hloop, ← List.map_reverse, Throws.forEach_map]
  have hmem : ∀ part, part <+: t.plan.reverse → ∀ p ∈ part, p ∈ t.plan :=
    fun part hpart p hp => List.mem_reverse.mp (hpart.subset hp)
  refine Throws.wpc_forEach (fun part s' => s' = { s with storage := undone part s.storage })
    t.plan.reverse ?_ ?_ ?_
  · rintro part p rest s' hsplit rfl
    have hnext : undone [p] (undone part s.storage) = undone (part ++ [p]) s.storage :=
      (undone_append part [p] s.storage).symm
    refine undoContent_reliable p ?_ ?_ ?_
    · exact hC part (hmem part ⟨p :: rest, hsplit.symm⟩)
    · dsimp only
      rw [hnext]
      exact hC _ (hmem _ ⟨rest, by simp [hsplit]⟩)
    · dsimp only
      rw [hnext]
  · rintro s' rfl
    refine ⟨hC _ (hmem _ List.prefix_rfl), ?_⟩
    rw [undone_reverse]
    exact hQ
  · rw [undone_nil]

/-- With the journal that it is covered by, a card is pending. -/
theorem pending_of_covered
    (hj : s.journal = some (some (t.json metaSet recordPushed ticketImported stage)))
    (hstage : ¬Final stage) (h : Covered k old t.plan (listed t.key) metaSet s) : Pending k old s :=
  ⟨t, metaSet, recordPushed, ticketImported, stage, hj, hstage, h⟩

theorem undoMeta_reliable
    (hj : s.journal = some (some (t.json metaSet recordPushed ticketImported stage)))
    (hstage : ¬Final stage) (h : Covered k old t.plan (listed t.key) metaSet s) :
    wpc (reliable env) (Accounted k old)
      (fun _ s' => s'.journal = s.journal ∧ Covered k old t.plan (listed t.key) metaSet s' ∧
        s'.db = old.saved ∧ s'.saved = old.saved)
      (fun _ _ => False) (undoMeta (t.json metaSet recordPushed ticketImported stage)) s := by
  have hcut : ∀ s' : World, s'.journal = s.journal →
      Covered k old t.plan (listed t.key) metaSet s' → Accounted k old s' :=
    fun s' hj' h' => .inl (pending_of_covered (hj'.trans hj) hstage h')
  have hset : (t.json metaSet recordPushed ticketImported stage).valueBool "meta_set" false
      = some metaSet := rfl
  unfold undoMeta
  rw [hset, json_some, Throws.pure_bind]
  cases metaSet with
  | false => exact ⟨hcut s rfl h, rfl, h, h.db, h.saved⟩
  | true =>
    have hkey : NspJournal.metaKeyOf (t.json true recordPushed ticketImported stage)
        = some (listed t.key) := NspJournal.metaKeyOf_saveJournal ..
    rw [if_pos rfl, hkey, json_some, Throws.pure_bind]
    have hdb : remove s.db (listed t.key) = old.saved := h.db
    have hsaved : remove s.saved (listed t.key) = old.saved := h.saved
    have hagain : remove old.saved (listed t.key) = old.saved := by
      rw [← hdb, remove_remove]
    apply wpc_bind
    refine wpc_call (hcut s rfl h) fun rc s₁ h₁ => ?_
    -- the key is gone from the memory, be it that it was not there
    have hremoved : s₁ = { s with db := old.saved } := by
      obtain ⟨⟨h₁, -⟩, hok⟩ := h₁
      have hif : s₁ = if rc = 0 then { s with db := remove s.db (listed t.key) } else s := h₁
      by_cases hrc : rc = 0
      · rw [if_pos hrc, hdb] at hif
        exact hif
      · rw [if_neg hrc] at hif
        have hnew : ∀ m ∈ s.db, m.1 ≠ listed t.key := fun m hm heq => hrc (hok ⟨m, hm, heq⟩)
        rw [hif, ← hdb, remove_of_new hnew]
    subst hremoved
    have hmid : Covered k old t.plan (listed t.key) true { s with db := old.saved } :=
      { h with db := hagain }
    refine ⟨hcut _ rfl hmid, ?_⟩
    apply wpc_bind
    refine wpc_call (hcut _ rfl hmid) fun rc₂ s₂ h₂ => ?_
    obtain ⟨⟨h₂, -⟩, rfl⟩ := h₂
    obtain rfl : s₂ = { s with db := old.saved, saved := old.saved } := h₂
    have hend : Covered k old t.plan (listed t.key) true
        { s with db := old.saved, saved := old.saved } := { h with db := hagain, saved := hagain }
    exact ⟨hcut _ rfl hend, hcut _ rfl hend, rfl, hend, rfl, rfl⟩

/-- The recovery of an install that is pending restores the card; it can be cut anywhere. -/
theorem recoverInstall_reliable
    (hj : s.journal = some (some (t.json metaSet recordPushed ticketImported stage)))
    (hstage : ¬Final stage) (h : Covered k old t.plan (listed t.key) metaSet s) :
    wpc (reliable env) (Accounted k old)
      (fun _ s' => s'.journal = none ∧ s'.tmp = none ∧ Restored k old s') (fun _ _ => False)
      (recoverInstall (t.json metaSet recordPushed ticketImported stage)) s := by
  have hcut : Accounted k old s := .inl (pending_of_covered hj hstage h)
  have hread : (t.json metaSet recordPushed ticketImported stage).valueStr "stage" []
      = some (text stage) := rfl
  unfold recoverInstall
  rw [hread, json_some, Throws.pure_bind]
  split
  · rename_i hfinal
    exact (hstage hfinal).elim
  · apply wpc_bind
    refine openContext_reliable hcut ?_
    apply wpc_bind
    refine wpc_conseq (undoMeta_reliable hj hstage h) ?_ fun _ _ _ h => h
    rintro - s₂ - ⟨hj₂, h₂, hdb, hsaved⟩
    have hpart : ∀ part, (∀ p ∈ part, p ∈ t.plan) →
        Pending k old { s₂ with storage := undone part s₂.storage } := by
      intro part hpart
      refine pending_of_covered (hj₂.trans hj) hstage { h₂ with left := ?_ }
      dsimp only
      rw [undone_undone hpart]
      exact h₂.left
    apply wpc_bind
    refine undoContents_reliable (fun part hpart' => .inl (hpart part hpart')) ?_
    have hrestored : Restored k old { s₂ with storage := undone t.plan s₂.storage } :=
      { left := h₂.left, db := hdb, saved := hsaved, userDb := h₂.userDb }
    refine clear_reliable _ _ (fun tmp recovered => .inl ?_) (fun recovered => .inr (.inr ?_))
      fun recovered => ?_
    · obtain ⟨t', m', rp', ti', st', hj', hst', hc'⟩ := hpart t.plan fun _ h => h
      exact ⟨t', m', rp', ti', st', hj', hst', { hc' with }⟩
    · exact ⟨rfl, .inl { hrestored with }⟩
    · exact ⟨rfl, rfl, { hrestored with }⟩

end pending

/-! ## The recovery -/

/-- The journal is read and recovered. -/
theorem recover_reliable {C : World → Prop} {Q : Bool × Option Bytes → World → Prop} {j : Json}
    (hj : s.journal = some (some j)) (hC : C s)
    (h : wpc (reliable env) C (fun d => Q (true, some d)) (fun d => Q (false, d)) (recoverJournal j)
      s) : wp (reliable env) C Q recoverStaleRealInstall s := by
  unfold recoverStaleRealInstall
  apply wp_bind.mpr
  refine ⟨hC, fun found s₁ h₁ => ?_⟩
  obtain ⟨⟨⟨rfl, hfound⟩, -⟩, -⟩ := h₁
  refine ⟨hC, ?_⟩
  have hopen : wpc (reliable env) C (fun d => Q (true, some d)) (fun d => Q (false, d))
      openAndRecover s₁ := by
    unfold openAndRecover
    apply wpc_bind
    refine wpc_call hC fun r s₂ h₂ => ?_
    obtain ⟨⟨⟨rfl, hr⟩, hok⟩, -⟩ := h₂
    refine ⟨hC, ?_⟩
    cases r with
    | none => exact (hok (by rw [hj]; exact Option.some_ne_none _) rfl).elim
    | some text =>
      have htext : some text = some (some j) := (hr text rfl).symm.trans hj
      cases htext
      exact h
  rw [hfound, hj]
  apply wp_bind.mpr
  refine wp_conseq hopen (fun _ h => h) fun r s₂ hC₂ hr => ?_
  cases r with
  | ok done => exact ⟨hC₂, hr⟩
  | error detail => exact ⟨hC₂, hr⟩

/-- Without a journal there is nothing to recover. -/
theorem recover_none {C : World → Prop} {Q : Bool × Option Bytes → World → Prop}
    (hj : s.journal = none) (hC : C s) (hQ : Q (true, none) s) :
    wp (reliable env) C Q recoverStaleRealInstall s := by
  unfold recoverStaleRealInstall
  apply wp_bind.mpr
  refine ⟨hC, fun found s₁ h₁ => ?_⟩
  obtain ⟨⟨⟨rfl, hfound⟩, -⟩, -⟩ := h₁
  refine ⟨hC, ?_⟩
  rw [hfound, hj]
  exact ⟨hC, hQ⟩

theorem recover_pending (h : Pending k old s) :
    wp (reliable env) (Accounted k old)
      (fun r s' => r.1 = true ∧ s'.journal = none ∧ s'.tmp = none ∧ Restored k old s')
      recoverStaleRealInstall s := by
  obtain ⟨t, metaSet, recordPushed, ticketImported, stage, hj, hstage, hcovered⟩ := h
  refine recover_reliable hj (.inl (pending_of_covered hj hstage hcovered)) ?_
  have hkind : recoverJournal (t.json metaSet recordPushed ticketImported stage)
      = recoverInstall (t.json metaSet recordPushed ticketImported stage) := rfl
  rw [hkind]
  exact wpc_conseq (recoverInstall_reliable hj hstage hcovered) (fun _ _ _ h => ⟨rfl, h⟩)
    fun _ _ _ h => h.elim

/-- A recovery that is not cut ends what is accounted for, and one that is cut keeps the account. -/
theorem recover_accounted (h : Accounted k old s) :
    wp (reliable env) (Accounted k old) (fun r s' => r.1 = true ∧ Ended k old s')
      recoverStaleRealInstall s := by
  rcases h with hpending | hdone | hended
  · exact wp_conseq (recover_pending hpending) (fun _ h => h)
      fun r s' _ h => ⟨h.1, h.2.1, .inl h.2.2.2⟩
  · obtain ⟨t, recordPushed, ticketImported, stage, hj, hfinal, hcomplete⟩ := hdone
    have hcut : ∀ tmp recovered, Accounted k old { s with tmp := tmp, recovered := recovered } :=
      fun tmp recovered => .inr (.inl ⟨t, recordPushed, ticketImported, stage, hj, hfinal,
        { hcomplete with }⟩)
    refine recover_reliable hj (hcut s.tmp s.recovered) ?_
    have hkind : recoverJournal (t.json true recordPushed ticketImported stage)
        = recoverInstall (t.json true recordPushed ticketImported stage) := rfl
    have hread : (t.json true recordPushed ticketImported stage).valueStr "stage" []
        = some (text stage) := rfl
    have hends : ∀ recovered,
        Ended k old { s with journal := none, tmp := none, recovered := recovered } :=
      fun recovered => ⟨rfl, .inr (.inl ⟨t, { hcomplete with }⟩)⟩
    rw [hkind]
    unfold recoverInstall
    rw [hread, json_some, Throws.pure_bind]
    split
    · exact clear_reliable _ _ hcut (fun recovered => .inr (.inr (hends recovered)))
        fun recovered => ⟨rfl, hends recovered⟩
    · rename_i hno
      exact (hno hfinal).elim
  · exact recover_none hended.1 (.inr (.inr hended)) ⟨rfl, hended⟩

/-- What is accounted for when the console goes off is so when it is on again. -/
theorem Accounted.reboot (h : Accounted k old s) : Accounted k old (reboot s) := by
  rcases h with ⟨t, metaSet, rp, ti, stage, hj, hstage, hcovered⟩ | hdone | ⟨hj, hend⟩
  · refine .inl ⟨t, metaSet, rp, ti, stage, hj, hstage, ?_⟩
    exact { hcovered with db := hcovered.saved }
  · obtain ⟨t, rp, ti, stage, hj, hfinal, hcomplete⟩ := hdone
    exact .inr (.inl ⟨t, rp, ti, stage, hj, hfinal, { hcomplete with }⟩)
  · refine .inr (.inr ⟨hj, ?_⟩)
    rcases hend with hrestored | ⟨t, hcomplete⟩ | hwindow
    · exact .inl { hrestored with db := hrestored.saved }
    · exact .inr (.inl ⟨t, { hcomplete with }⟩)
    · exact .inr (.inr hwindow)

/-! ## The text of a journal takes the place of another -/

/-- Until the new text is there, the old one is, or none, with the new one beside. -/
theorem saveJournal_journaled {C : World → Prop} {Q : Unit → World → Prop} {j : Json}
    (hC : ∀ tmp, C { s with tmp }) (hwindow : C { s with journal := none, tmp := some (some j) })
    (hdone : C { s with journal := some (some j), tmp := none })
    (hQ : Q () { s with journal := some (some j), tmp := none }) :
    wp (journaled env) C Q (saveJournal j) s := by
  unfold saveJournal
  apply wp_bind.mpr
  refine ⟨hC s.tmp, fun _ s₁ h₁ => ?_⟩
  obtain rfl : s₁ = s := h₁.1
  refine ⟨hC s₁.tmp, wp_bind.mpr ⟨hC s₁.tmp, fun out s₂ h₂ => ?_⟩⟩
  obtain ⟨h₂, rfl⟩ := h₂
  obtain rfl : s₂ = { s₁ with tmp := some none } := h₂
  refine ⟨hC _, wp_bind.mpr ⟨hC _, fun ok s₃ h₃ => ?_⟩⟩
  obtain ⟨h₃, rfl⟩ := h₃
  obtain rfl : s₃ = { s₁ with tmp := some (some j) } := h₃
  refine ⟨hC _, wp_bind.mpr ⟨hC _, fun ec s₄ h₄ => ?_⟩⟩
  obtain ⟨h₄, -⟩ := h₄
  rw [ncm_renameTmp] at h₄
  split at h₄
  · rename_i hec
    obtain ⟨-, rfl⟩ := h₄
    refine ⟨hdone, ?_⟩
    dsimp only
    rw [if_pos hec]
    exact ⟨hdone, hQ⟩
  · rename_i hec
    obtain rfl := h₄
    refine ⟨hC _, ?_⟩
    dsimp only
    rw [if_neg hec]
    -- there was a journal, which is removed first
    refine wp_bind.mpr ⟨hC _, fun rc₅ s₅ h₅ => ?_⟩
    obtain ⟨h₅, rfl⟩ := h₅
    obtain rfl : s₅ = { s₁ with journal := none, tmp := some (some j) } := h₅
    refine ⟨hwindow, wp_bind.mpr ⟨hwindow, fun rc₆ s₆ h₆ => ?_⟩⟩
    obtain ⟨h₆, hok⟩ := h₆
    have hrc : rc₆ = 0 := hok (Option.some_ne_none _) rfl
    rw [ncm_renameTmp, if_pos hrc] at h₆
    obtain ⟨-, rfl⟩ := h₆
    exact ⟨hdone, hdone, hQ⟩

end NspInstall
