/-
# What a recovery leaves

The rollback ignores the results of its calls.  After it the journal is gone, and what it lists is
gone exactly if for each thing that was there some call for it worked.
-/
import AioMod.NspJournal

namespace NspJournal

/-! ## The texts of the ids -/

theorem nibble_hexDigit : ∀ d < 16, nibble (hexDigit d) = some d := by decide

theorem fromHexLoop_hex (p : Bytes) : fromHexLoop (hex p) = (true, p) := by
  induction p with
  | nil => rfl
  | cons b p ih =>
    have hb := b.toNat_lt
    show fromHexLoop (hexDigit (b.toNat / 16) :: hexDigit (b.toNat % 16) :: hex p) = _
    unfold fromHexLoop
    rw [nibble_hexDigit _ (by omega), nibble_hexDigit _ (by omega), ih]
    dsimp only
    rw [show b.toNat / 16 * 16 + b.toNat % 16 = b.toNat by omega, UInt8.ofNat_toNat]

theorem length_hex (p : Bytes) : (hex p).length = p.length * 2 := by
  induction p with
  | nil => rfl
  | cons b p ih =>
    show ([hexDigit (b.toNat / 16), hexDigit (b.toNat % 16)] ++ hex p).length = _
    rw [List.length_append, ih]
    show 2 + p.length * 2 = (p.length + 1) * 2
    omega

/-- An id is read back from its text. -/
theorem fromHex_hex (id : NcmId) : fromHex (hex id.1) 16 = (true, id.1) := by
  unfold fromHex
  rw [if_neg (not_not_intro (by rw [length_hex, id.2])), fromHexLoop_hex]

/-! ## What the rollback reads -/

/-- The interrupted run registered the content. -/
def PlannedContent.newly (c : PlannedContent) : Bool := c.registered && !c.preExisting

/-- The calls for a content. -/
def PlannedContent.undo (c : PlannedContent) : Undo :=
  if c.newly then .deleteContent c.content_id.1
  else if c.placeholderCreated then .deletePlaceHolder c.placeholder.1
  else .nothing

theorem undoOf_json (c : PlannedContent) : undoOf c.json = some c.undo := by
  have hcid : c.json.valueStr "content_id" [] = some (hex c.content_id.1) := rfl
  have hph : c.json.valueStr "placeholder_id" [] = some (hex c.placeholder.1) := rfl
  have hregistered : c.json.valueBool "registered" false = some c.registered := rfl
  have hpre : c.json.valueBool "pre_existing" false = some c.preExisting := rfl
  have hcreated : c.json.valueBool "placeholder_created" false = some c.placeholderCreated := rfl
  unfold undoOf PlannedContent.undo PlannedContent.newly
  simp only [hcid, hph, hregistered, hpre, hcreated, fromHex_hex, Option.bind_eq_bind,
    Option.bind_some, Option.map_some]
  cases c.registered
  · cases c.placeholderCreated <;> rfl
  · cases c.preExisting
    · rfl
    · cases c.placeholderCreated <;> rfl

/-- The key as the journal has it. -/
def listed (key : NcmContentMetaKey) : NcmContentMetaKey := { key with padding := (0, 0) }

theorem metaKeyOf_saveJournal (package : Bytes) (appId : UInt64) (key : NcmContentMetaKey)
    (contents : List PlannedContent) (metaSet recordPushed ticketImported : Bool) (stage : Bytes) :
    metaKeyOf (saveJournal package appId key contents metaSet recordPushed ticketImported stage)
      = some (listed key) := by
  show some (NcmContentMetaKey.mk (UInt64.ofNat key.id.toNat) (UInt32.ofNat key.version.toNat)
    (UInt8.ofNat key.type.toNat) (UInt8.ofNat key.install_type.toNat) (0, 0)) = _
  rw [UInt64.ofNat_toNat, UInt32.ofNat_toNat, UInt8.ofNat_toNat, UInt8.ofNat_toNat]
  rfl

/-! ## The contents -/

theorem undo_eq_deleteContent {c : PlannedContent} {id : Bytes} :
    c.undo = .deleteContent id ↔ c.newly = true ∧ c.content_id.1 = id := by
  unfold PlannedContent.undo
  cases c.newly <;> cases c.placeholderCreated <;> simp

theorem undo_eq_deletePlaceHolder {c : PlannedContent} {id : Bytes} :
    c.undo = .deletePlaceHolder id ↔
      c.newly = false ∧ c.placeholderCreated = true ∧ c.placeholder.1 = id := by
  unfold PlannedContent.undo
  cases c.newly <;> cases c.placeholderCreated <;> simp

/-- The calls for a content do not touch the rest. -/
theorem undo_frame (rc : Results) (i : ℕ) (w : World) (u : Undo) :
    (undo rc i w u).journal = w.journal ∧ (undo rc i w u).db = w.db ∧
      (undo rc i w u).saved = w.saved := by
  cases u with
  | deleteContent cid =>
    unfold undo ncmContentStorageDelete
    dsimp only
    split
    · split <;> exact ⟨rfl, rfl, rfl⟩
    · exact ⟨rfl, rfl, rfl⟩
  | deletePlaceHolder ph =>
    unfold undo ncmContentStorageDeletePlaceHolder
    dsimp only
    split
    · split <;> exact ⟨rfl, rfl, rfl⟩
    · exact ⟨rfl, rfl, rfl⟩
  | nothing => exact ⟨rfl, rfl, rfl⟩

theorem mem_filter_ne {l : List Bytes} {id x : Bytes} :
    id ∈ l.filter (· ≠ x) ↔ id ∈ l ∧ x ≠ id := by
  rw [List.mem_filter, decide_eq_true_iff, ne_comm]

/-- What is left of a list of ids when one of them is deleted, if it is there and both calls work. -/
theorem mem_deleted {p q c : Prop} [Decidable c] [Decidable q] {ids : List Bytes} {x id : Bytes}
    (hc : c ↔ p ∧ x ∈ ids) :
    id ∈ (if c then if q then ids.filter (· ≠ x) else ids else ids) ↔
      id ∈ ids ∧ ¬(x = id ∧ p ∧ q) := by
  by_cases h : c
  · obtain ⟨hp, -⟩ := hc.mp h
    rw [if_pos h]
    by_cases hq : q
    · rw [if_pos hq, mem_filter_ne, and_iff_left (⟨hp, hq⟩ : p ∧ q)]
    · rw [if_neg hq]
      exact (and_iff_left fun h => hq h.2.2).symm
  · rw [if_neg h]
    constructor
    · intro hid
      refine ⟨hid, ?_⟩
      rintro ⟨rfl, hp, -⟩
      exact h (hc.mpr ⟨hp, hid⟩)
    · exact And.left

theorem mem_undo_contents (rc : Results) (i : ℕ) (w : World) (u : Undo) (id : Bytes) :
    id ∈ (undo rc i w u).contents ↔
      id ∈ w.contents ∧ ¬(u = .deleteContent id ∧ rc (.Has i) = 0 ∧ rc (.Delete i) = 0) := by
  cases u with
  | deleteContent cid =>
    have hcontents : (undo rc i w (.deleteContent cid)).contents =
        if rc (.Has i) = 0 ∧ cid ∈ w.contents then
          if rc (.Delete i) = 0 then w.contents.filter (· ≠ cid) else w.contents
        else w.contents := by
      unfold undo ncmContentStorageDelete
      dsimp only
      split_ifs <;> rfl
    rw [hcontents, mem_deleted Iff.rfl, Undo.deleteContent.injEq]
  | deletePlaceHolder ph =>
    unfold undo ncmContentStorageDeletePlaceHolder
    dsimp only
    split_ifs <;> simp
  | nothing => simp [undo]

theorem mem_undo_placeholders (rc : Results) (i : ℕ) (w : World) (u : Undo) (id : Bytes) :
    id ∈ (undo rc i w u).placeholders ↔
      id ∈ w.placeholders ∧ ¬(u = .deletePlaceHolder id ∧ rc (.HasPlaceHolder i) = 0 ∧
        rc (.DeletePlaceHolder i) = 0) := by
  cases u with
  | deleteContent cid =>
    unfold undo ncmContentStorageDelete
    dsimp only
    split_ifs <;> simp
  | deletePlaceHolder ph =>
    have hplaceholders : (undo rc i w (.deletePlaceHolder ph)).placeholders =
        if rc (.HasPlaceHolder i) = 0 ∧ ph ∈ w.placeholders then
          if rc (.DeletePlaceHolder i) = 0 then w.placeholders.filter (· ≠ ph)
          else w.placeholders
        else w.placeholders := by
      unfold undo ncmContentStorageDeletePlaceHolder
      dsimp only
      split_ifs <;> rfl
    rw [hplaceholders, mem_deleted Iff.rfl, Undo.deletePlaceHolder.injEq]
  | nothing => simp [undo]

/-- The calls for some contents, with their places. -/
def undoAll (rc : Results) (l : List (PlannedContent × ℕ)) (w : World) : World :=
  l.foldl (fun w x => undo rc x.2 w x.1.undo) w

/-- Of a saved journal every content is read. -/
theorem undoContents_json (rc : Results) (l : List (PlannedContent × ℕ)) (w : World) :
    undoContents rc (l.map (Prod.map PlannedContent.json id)) w = .ok (undoAll rc l w) := by
  induction l generalizing w with
  | nil => rfl
  | cons x l ih =>
    rw [List.map_cons, Prod.map, undoContents, undoOf_json]
    exact ih _

theorem undoAll_frame (rc : Results) (l : List (PlannedContent × ℕ)) (w : World) :
    (undoAll rc l w).journal = w.journal ∧ (undoAll rc l w).db = w.db ∧
      (undoAll rc l w).saved = w.saved := by
  induction l generalizing w with
  | nil => exact ⟨rfl, rfl, rfl⟩
  | cons x l ih =>
    obtain ⟨hjournal, hdb, hsaved⟩ := ih (undo rc x.2 w x.1.undo)
    obtain ⟨hjournal', hdb', hsaved'⟩ := undo_frame rc x.2 w x.1.undo
    exact ⟨hjournal.trans hjournal', hdb.trans hdb', hsaved.trans hsaved'⟩

theorem mem_undoAll_contents (rc : Results) (l : List (PlannedContent × ℕ)) (w : World)
    (id : Bytes) :
    id ∈ (undoAll rc l w).contents ↔ id ∈ w.contents ∧
      ∀ x ∈ l, ¬(x.1.undo = .deleteContent id ∧ rc (.Has x.2) = 0 ∧ rc (.Delete x.2) = 0) := by
  induction l generalizing w with
  | nil => simp [undoAll]
  | cons x l ih =>
    show id ∈ (undoAll rc l (undo rc x.2 w x.1.undo)).contents ↔ _
    rw [ih, mem_undo_contents, List.forall_mem_cons, and_assoc]

theorem mem_undoAll_placeholders (rc : Results) (l : List (PlannedContent × ℕ)) (w : World)
    (id : Bytes) :
    id ∈ (undoAll rc l w).placeholders ↔ id ∈ w.placeholders ∧
      ∀ x ∈ l, ¬(x.1.undo = .deletePlaceHolder id ∧ rc (.HasPlaceHolder x.2) = 0 ∧
        rc (.DeletePlaceHolder x.2) = 0) := by
  induction l generalizing w with
  | nil => simp [undoAll]
  | cons x l ih =>
    show id ∈ (undoAll rc l (undo rc x.2 w x.1.undo)).placeholders ↔ _
    rw [ih, mem_undo_placeholders, List.forall_mem_cons, and_assoc]

/-! ## The rollback -/

/-- Some newly registered content has the id `id`, and the calls for it work. -/
def DeletesContent (rc : Results) (contents : List PlannedContent) (id : Bytes) : Prop :=
  ∃ i c, contents[i]? = some c ∧ c.newly = true ∧ c.content_id.1 = id ∧
    rc (.Has i) = 0 ∧ rc (.Delete i) = 0

/-- Some other content has the placeholder `id`, and the calls for it work. -/
def DeletesPlaceHolder (rc : Results) (contents : List PlannedContent) (id : Bytes) : Prop :=
  ∃ i c, contents[i]? = some c ∧ c.newly = false ∧ c.placeholderCreated = true ∧
    c.placeholder.1 = id ∧ rc (.HasPlaceHolder i) = 0 ∧ rc (.DeletePlaceHolder i) = 0

/-- What a rollback makes of the world `w`. -/
structure RolledBack (rc : Results) (plan : List PlannedContent) (key : NcmContentMetaKey)
    (metaSet : Bool) (w w' : World) : Prop where
  journal : w'.journal = w.journal
  contents : ∀ id, id ∈ w'.contents ↔ id ∈ w.contents ∧ ¬DeletesContent rc plan id
  placeholders : ∀ id, id ∈ w'.placeholders ↔
    id ∈ w.placeholders ∧ ¬DeletesPlaceHolder rc plan id
  meta_ : metaSet = true → (key ∈ w'.db ↔ key ∈ w.db ∧ rc .Remove ≠ 0) ∧
    (key ∈ w'.saved ↔ if rc .Commit = 0 then key ∈ w.db ∧ rc .Remove ≠ 0 else key ∈ w.saved)

theorem rolledBack_undoAll (rc : Results) (contents : List PlannedContent)
    (key : NcmContentMetaKey) {metaSet : Bool} {w τ : World} (hjournal : τ.journal = w.journal)
    (hcontents : τ.contents = w.contents) (hplaceholders : τ.placeholders = w.placeholders)
    (hmeta : metaSet = true → (key ∈ τ.db ↔ key ∈ w.db ∧ rc .Remove ≠ 0) ∧
      (key ∈ τ.saved ↔ if rc .Commit = 0 then key ∈ w.db ∧ rc .Remove ≠ 0 else key ∈ w.saved)) :
    RolledBack rc contents key metaSet w (undoAll rc contents.zipIdx.reverse τ) := by
  obtain ⟨hjournal', hdb, hsaved⟩ := undoAll_frame rc contents.zipIdx.reverse τ
  constructor
  · rw [hjournal', hjournal]
  · intro id
    rw [mem_undoAll_contents, hcontents]
    apply and_congr_right
    intro _
    constructor
    · rintro hall ⟨i, c, hc, hnewly, hid, hok⟩
      refine hall (c, i) ?_ ⟨undo_eq_deleteContent.mpr ⟨hnewly, hid⟩, hok⟩
      rw [List.mem_reverse, List.mem_zipIdx_iff_getElem?]
      exact hc
    · rintro hnone ⟨c, i⟩ hx ⟨hundo, hok⟩
      rw [List.mem_reverse, List.mem_zipIdx_iff_getElem?] at hx
      obtain ⟨hnewly, hid⟩ := undo_eq_deleteContent.mp hundo
      exact hnone ⟨i, c, hx, hnewly, hid, hok⟩
  · intro id
    rw [mem_undoAll_placeholders, hplaceholders]
    apply and_congr_right
    intro _
    constructor
    · rintro hall ⟨i, c, hc, hnewly, hcreated, hid, hok⟩
      refine hall (c, i) ?_ ⟨undo_eq_deletePlaceHolder.mpr ⟨hnewly, hcreated, hid⟩, hok⟩
      rw [List.mem_reverse, List.mem_zipIdx_iff_getElem?]
      exact hc
    · rintro hnone ⟨c, i⟩ hx ⟨hundo, hok⟩
      rw [List.mem_reverse, List.mem_zipIdx_iff_getElem?] at hx
      obtain ⟨hnewly, hcreated, hid⟩ := undo_eq_deletePlaceHolder.mp hundo
      exact hnone ⟨i, c, hx, hnewly, hcreated, hid, hok⟩
  · rw [hdb, hsaved]
    exact hmeta

/-- What becomes of the key in the meta database. -/
theorem meta_removed (rc : Results) (key : NcmContentMetaKey) (w : World) :
    let τ := ncmContentMetaDatabaseCommit rc (ncmContentMetaDatabaseRemove rc key w)
    τ.journal = w.journal ∧ τ.contents = w.contents ∧ τ.placeholders = w.placeholders ∧
      (key ∈ τ.db ↔ key ∈ w.db ∧ rc .Remove ≠ 0) ∧
      (key ∈ τ.saved ↔ if rc .Commit = 0 then key ∈ w.db ∧ rc .Remove ≠ 0 else key ∈ w.saved) := by
  intro τ
  unfold τ ncmContentMetaDatabaseCommit ncmContentMetaDatabaseRemove
  by_cases hremove : rc .Remove = 0
  · rw [if_pos hremove]
    by_cases hcommit : rc .Commit = 0
    · rw [if_pos hcommit, if_pos hcommit]
      simp [hremove]
    · rw [if_neg hcommit, if_neg hcommit]
      simp [hremove]
  · rw [if_neg hremove]
    by_cases hcommit : rc .Commit = 0
    · rw [if_pos hcommit, if_pos hcommit]
      simp [hremove]
    · rw [if_neg hcommit, if_neg hcommit]
      simp [hremove]

theorem rollBack_saveJournal (rc : Results) (w : World) (package : Bytes) (appId : UInt64)
    (key : NcmContentMetaKey) (contents : List PlannedContent)
    (metaSet recordPushed ticketImported : Bool) (stage : Bytes) :
    ∃ w', rollBack rc (saveJournal package appId key contents metaSet recordPushed ticketImported
      stage) w = .ok w' ∧ RolledBack rc contents (listed key) metaSet w w' := by
  have hset : (saveJournal package appId key contents metaSet recordPushed ticketImported
      stage).valueBool "meta_set" false = some metaSet := rfl
  have hfield : (saveJournal package appId key contents metaSet recordPushed ticketImported
      stage).field "contents" = some (some (.arr (contents.map PlannedContent.json))) := rfl
  have hzip : (Json.arr (contents.map PlannedContent.json)).items.zipIdx.reverse
      = contents.zipIdx.reverse.map (Prod.map PlannedContent.json id) := by
    show (contents.map PlannedContent.json).zipIdx.reverse = _
    rw [List.zipIdx_map, List.map_reverse]
  have hloop : ∀ τ, undoMeta rc (saveJournal package appId key contents metaSet recordPushed
      ticketImported stage) w = .ok τ → rollBack rc (saveJournal package appId key contents metaSet
        recordPushed ticketImported stage) w = .ok (undoAll rc contents.zipIdx.reverse τ) := by
    intro τ hτ
    unfold rollBack
    rw [hτ]
    dsimp only
    rw [hfield]
    dsimp only
    rw [hzip]
    exact undoContents_json rc _ τ
  have hmeta : undoMeta rc (saveJournal package appId key contents metaSet recordPushed
      ticketImported stage) w = .ok (if metaSet then ncmContentMetaDatabaseCommit rc
        (ncmContentMetaDatabaseRemove rc (listed key) w) else w) := by
    unfold undoMeta
    rw [hset]
    cases metaSet with
    | false => rfl
    | true =>
      dsimp only
      rw [metaKeyOf_saveJournal]
      rfl
  refine ⟨_, hloop _ hmeta, ?_⟩
  cases metaSet with
  | false =>
    apply rolledBack_undoAll <;> first | rfl | rintro ⟨⟩
  | true =>
    obtain ⟨hjournal, hcontents, hplaceholders, hdb, hsaved⟩ := meta_removed rc (listed key) w
    exact rolledBack_undoAll rc contents (listed key) hjournal hcontents hplaceholders
      fun _ => ⟨hdb, hsaved⟩

/-! ## The journal is removed -/

/-- The file of the journal is removed or renamed. -/
def Unlinks (rc : Results) : Prop := rc .removeActive = 0 ∨ rc .renameActive = 0

instance (rc : Results) : Decidable (Unlinks rc) := inferInstanceAs (Decidable (_ ∨ _))

/-- What the end of a recovery makes of the world `w`. -/
structure Cleared {α : Type} (rc : Results) (w : World) (r : (Bool × α) × World) : Prop where
  contents : r.2.contents = w.contents
  placeholders : r.2.placeholders = w.placeholders
  db : r.2.db = w.db
  saved : r.2.saved = w.saved
  gone : Unlinks rc → r.2.journal = none
  kept : ¬Unlinks rc → r.2.journal = w.journal
  answer : r.1.1 = true → r.2.journal = none
  works : rc = works → r.1.1 = true

theorem removed_removeJournal (rc : Results) {w : World} {j : Json} (hj : w.journal = some j) :
    Cleared rc w (removeJournal rc w) := by
  -- the other two files do not matter
  have hother : ∃ tmp recovered, (if rc .removeRecovered = 0 then
      { (if rc .removeTmp = 0 then { w with tmp := false } else w) with recovered := false }
      else (if rc .removeTmp = 0 then { w with tmp := false } else w))
      = { w with tmp := tmp, recovered := recovered } := by
    split <;> split <;> exact ⟨_, _, rfl⟩
  obtain ⟨tmp, recovered, hw⟩ := hother
  unfold removeJournal
  dsimp only
  rw [hw]
  by_cases hactive : rc .removeActive = 0
  · have hunlinks : Unlinks rc := .inl hactive
    rw [if_pos hactive]
    by_cases hexists : rc .existsActive = 0
    · rw [if_pos ⟨hexists, rfl⟩]
      exact ⟨rfl, rfl, rfl, rfl, fun _ => rfl, fun hno => absurd hunlinks hno, fun _ => rfl,
        fun _ => rfl⟩
    · rw [if_neg fun h => hexists h.1, if_neg (by rintro ⟨-, ⟨⟩⟩)]
      refine ⟨rfl, rfl, rfl, rfl, fun _ => rfl, fun hno => absurd hunlinks hno, fun _ => rfl, ?_⟩
      intro hworks
      exact absurd (congrFun hworks _) hexists
  · rw [if_neg hactive, if_neg (by rintro ⟨-, hnone⟩; rw [hj] at hnone; cases hnone)]
    by_cases hrename : rc .renameActive = 0
    · have hunlinks : Unlinks rc := .inr hrename
      have htombstone : ∃ recovered', (if rc .removeTombstone = 0 then
          ({ w with journal := none, tmp := tmp, recovered := false } : World)
          else { w with journal := none, tmp := tmp, recovered := true })
          = { w with journal := none, tmp := tmp, recovered := recovered' } := by
        split <;> exact ⟨_, rfl⟩
      obtain ⟨recovered', hw'⟩ := htombstone
      rw [if_pos ⟨hrename, by rw [hj]; rfl⟩, hw']
      split
      · exact ⟨rfl, rfl, rfl, rfl, fun _ => rfl, fun hno => absurd hunlinks hno, fun _ => rfl,
          fun _ => rfl⟩
      · rename_i hexists
        refine ⟨rfl, rfl, rfl, rfl, fun _ => rfl, fun hno => absurd hunlinks hno, fun _ => rfl, ?_⟩
        intro hworks
        exact absurd ⟨congrFun hworks _, rfl⟩ hexists
    · have hunlinks : ¬Unlinks rc := by
        rintro (h | h)
        · exact hactive h
        · exact hrename h
      rw [if_neg fun h => hrename h.1]
      refine ⟨rfl, rfl, rfl, rfl, fun hyes => absurd hyes hunlinks, fun _ => rfl, ?_, ?_⟩
      · rintro ⟨⟩
      · intro hworks
        exact absurd (congrFun hworks _) hactive

theorem cleared_clear (rc : Results) (failed done : Bytes) {w : World} {j : Json}
    (hj : w.journal = some j) : Cleared rc w (clear rc failed done w) := by
  have hsame := removed_removeJournal rc hj
  unfold clear
  generalize removeJournal rc w = r at hsame
  obtain ⟨⟨ok, detail⟩, w'⟩ := r
  cases ok <;> exact ⟨hsame.contents, hsame.placeholders, hsame.db, hsame.saved, hsame.gone,
    hsame.kept, hsame.answer, hsame.works⟩

/-! ## The whole recovery -/

/-- What the journal lists is gone. -/
structure Cleaned (contents : List PlannedContent) (key : NcmContentMetaKey) (metaSet : Bool)
    (w : World) : Prop where
  placeholders : ∀ c ∈ contents, c.placeholderCreated = true → c.placeholder.1 ∉ w.placeholders
  contents : ∀ c ∈ contents, c.newly = true → c.content_id.1 ∉ w.contents
  key : metaSet = true → key ∉ w.db ∧ key ∉ w.saved

/-- For each thing that is there some call works. -/
structure Clears (rc : Results) (plan : List PlannedContent) (key : NcmContentMetaKey)
    (metaSet : Bool) (w : World) : Prop where
  placeholders : ∀ c ∈ plan, c.placeholderCreated = true → c.placeholder.1 ∈ w.placeholders →
    DeletesPlaceHolder rc plan c.placeholder.1
  contents : ∀ c ∈ plan, c.newly = true → c.content_id.1 ∈ w.contents →
    DeletesContent rc plan c.content_id.1
  key : metaSet = true → (key ∈ w.db → rc .Remove = 0) ∧ (key ∈ w.saved → rc .Commit = 0)

theorem RolledBack.cleaned_iff {rc : Results} {contents : List PlannedContent}
    {key : NcmContentMetaKey} {metaSet : Bool} {w w' : World}
    (h : RolledBack rc contents key metaSet w w') :
    Cleaned contents key metaSet w' ↔ Clears rc contents key metaSet w := by
  constructor
  · intro hcleaned
    constructor
    · intro c hc hcreated hpresent
      by_contra hkept
      exact hcleaned.placeholders c hc hcreated ((h.placeholders _).mpr ⟨hpresent, hkept⟩)
    · intro c hc hnewly hpresent
      by_contra hkept
      exact hcleaned.contents c hc hnewly ((h.contents _).mpr ⟨hpresent, hkept⟩)
    · intro hset
      obtain ⟨hdb, hsaved⟩ := hcleaned.key hset
      obtain ⟨hdb', hsaved'⟩ := h.meta_ hset
      constructor
      · intro hpresent
        by_contra hremove
        exact hdb (hdb'.mpr ⟨hpresent, hremove⟩)
      · intro hpresent
        by_contra hcommit
        apply hsaved
        rw [hsaved', if_neg hcommit]
        exact hpresent
  · intro hclears
    constructor
    · intro c hc hcreated hpresent
      obtain ⟨hbefore, hkept⟩ := (h.placeholders _).mp hpresent
      exact hkept (hclears.placeholders c hc hcreated hbefore)
    · intro c hc hnewly hpresent
      obtain ⟨hbefore, hkept⟩ := (h.contents _).mp hpresent
      exact hkept (hclears.contents c hc hnewly hbefore)
    · intro hset
      obtain ⟨hdb, hsaved⟩ := hclears.key hset
      obtain ⟨hdb', hsaved'⟩ := h.meta_ hset
      rw [hdb', hsaved']
      constructor
      · rintro ⟨hpresent, hremove⟩
        exact hremove (hdb hpresent)
      · split
        · rintro ⟨hpresent, hremove⟩
          exact hremove (hdb hpresent)
        · rename_i hcommit
          intro hpresent
          exact hcommit (hsaved hpresent)

/-- A later recovery with working services finds what it would have found at first. -/
theorem RolledBack.clears_iff {rc : Results} {contents : List PlannedContent}
    {key : NcmContentMetaKey} {metaSet : Bool} {w w' : World}
    (h : RolledBack rc contents key metaSet w w') :
    Clears works contents key metaSet w' ↔ Clears works contents key metaSet w := by
  constructor
  · intro hclears
    constructor
    · intro c hc hcreated hpresent
      by_cases hlater : c.placeholder.1 ∈ w'.placeholders
      · exact hclears.placeholders c hc hcreated hlater
      · rw [h.placeholders, not_and_not_right] at hlater
        obtain ⟨i, d, hd, hnewly, hcreated', hid, -⟩ := hlater hpresent
        exact ⟨i, d, hd, hnewly, hcreated', hid, rfl, rfl⟩
    · intro c hc hnewly _
      obtain ⟨i, hi⟩ := List.mem_iff_getElem?.mp hc
      exact ⟨i, c, hi, hnewly, rfl, rfl, rfl⟩
    · intro _
      exact ⟨fun _ => rfl, fun _ => rfl⟩
  · intro hclears
    constructor
    · intro c hc hcreated hpresent
      exact hclears.placeholders c hc hcreated ((h.placeholders _).mp hpresent).1
    · intro c hc hnewly hpresent
      exact hclears.contents c hc hnewly ((h.contents _).mp hpresent).1
    · intro _
      exact ⟨fun _ => rfl, fun _ => rfl⟩

/-- A recovery with working services ends the work. -/
def Finishes (contents : List PlannedContent) (key : NcmContentMetaKey) (metaSet : Bool)
    (w : World) : Prop :=
  (recoverStaleRealInstall works w).1.1 = true ∧
    (recoverStaleRealInstall works w).2.journal = none ∧
    Cleaned contents key metaSet (recoverStaleRealInstall works w).2

/-- The recovery is true: where it answers true or the journal is gone, what the journal lists is
gone; otherwise the journal is there, and a later recovery with working services ends the work. -/
def TellsTruth (rc : Results) (contents : List PlannedContent) (key : NcmContentMetaKey)
    (metaSet : Bool) (w : World) : Prop :=
  let r := recoverStaleRealInstall rc w
  (r.1.1 = true ∨ r.2.journal = none → Cleaned contents key metaSet r.2) ∧
    (¬(r.1.1 = true ∨ r.2.journal = none) →
      r.2.journal = w.journal ∧ Finishes contents key metaSet r.2)

/-- The journal can be opened and removed, and the content manager answers. -/
def Ends (rc : Results) : Prop :=
  rc .openJournal = 0 ∧ NcmContext.open rc = none ∧ Unlinks rc

instance (rc : Results) : Decidable (Ends rc) := inferInstanceAs (Decidable (_ ∧ _ ∧ _))

/-- The world after a rollback, less the files, is that of the end of the recovery. -/
theorem RolledBack.of_cleared {rc rc' : Results} {contents : List PlannedContent}
    {key : NcmContentMetaKey} {metaSet : Bool} {w w' : World} {r : (Bool × Option Bytes) × World}
    (h : RolledBack rc contents key metaSet w w') (hr : Cleared rc' w' r)
    (hjournal : r.2.journal = w.journal) : RolledBack rc contents key metaSet w r.2 := by
  constructor
  · exact hjournal
  · rw [hr.contents]
    exact h.contents
  · rw [hr.placeholders]
    exact h.placeholders
  · rw [hr.db, hr.saved]
    exact h.meta_

theorem cleaned_of_cleared {rc : Results} {contents : List PlannedContent}
    {key : NcmContentMetaKey} {metaSet : Bool} {w : World} {r : (Bool × Option Bytes) × World}
    (hr : Cleared rc w r) :
    Cleaned contents key metaSet r.2 ↔ Cleaned contents key metaSet w := by
  constructor
  · rintro ⟨hplaceholders, hcontents, hkey⟩
    rw [hr.placeholders] at hplaceholders
    rw [hr.contents] at hcontents
    rw [hr.db, hr.saved] at hkey
    exact ⟨hplaceholders, hcontents, hkey⟩
  · rintro ⟨hplaceholders, hcontents, hkey⟩
    rw [← hr.placeholders] at hplaceholders
    rw [← hr.contents] at hcontents
    rw [← hr.db, ← hr.saved] at hkey
    exact ⟨hplaceholders, hcontents, hkey⟩

/-- The parts of a journal. -/
structure Saved where
  package : Bytes
  appId : UInt64
  key : NcmContentMetaKey
  contents : List PlannedContent
  metaSet : Bool
  recordPushed : Bool
  ticketImported : Bool
  stage : Bytes

/-- The journal. -/
def Saved.json (s : Saved) : Json :=
  saveJournal s.package s.appId s.key s.contents s.metaSet s.recordPushed s.ticketImported s.stage

/-- The application record was not pushed yet. -/
def Saved.pending (s : Saved) : Prop :=
  s.stage ≠ ascii "application-record" ∧ s.stage ≠ ascii "complete"

theorem recover_saved (rc : Results) {w : World} {s : Saved} (hj : w.journal = some s.json)
    (hopen : rc .openJournal = 0) :
    recoverStaleRealInstall rc w = recoverInstall rc s.json w := by
  have howner : s.json.valueStr "owner" [] = some (ascii "aio-switch-updater-mod") := rfl
  have hkind : s.json.valueStr "kind" [] = some (ascii "real-install") := rfl
  unfold recoverStaleRealInstall
  rw [hj]
  dsimp only
  rw [if_neg (not_not_intro hopen), howner, hkind]
  dsimp only
  rw [if_neg (not_not_intro rfl), if_neg (by decide), if_neg (by decide),
    if_neg (not_not_intro rfl)]

theorem stage_saved {s : Saved} (hpending : s.pending) :
    s.json.valueStr "stage" [] = some s.stage ∧
      ¬(s.stage = ascii "application-record" ∨ s.stage = ascii "complete") := by
  refine ⟨rfl, ?_⟩
  rintro (h | h)
  · exact hpending.1 h
  · exact hpending.2 h

/-- Where the recovery does not come as far as the rollback, it leaves everything. -/
theorem recover_stops (rc : Results) {w : World} {s : Saved} (hj : w.journal = some s.json)
    (hpending : s.pending) (h : ¬(rc .openJournal = 0 ∧ NcmContext.open rc = none)) :
    (recoverStaleRealInstall rc w).1.1 = false ∧ (recoverStaleRealInstall rc w).2 = w := by
  by_cases hopen : rc .openJournal = 0
  · obtain ⟨hstage, hnot⟩ := stage_saved hpending
    obtain ⟨d, hd⟩ := Option.ne_none_iff_exists'.mp fun hncm => h ⟨hopen, hncm⟩
    rw [recover_saved rc hj hopen]
    unfold recoverInstall
    rw [hstage]
    dsimp only
    rw [if_neg hnot, hd]
    exact ⟨rfl, rfl⟩
  · unfold recoverStaleRealInstall
    rw [hj]
    dsimp only
    rw [if_pos hopen]
    exact ⟨rfl, rfl⟩

/-- Where the recovery comes to its end, it rolls back and removes the journal. -/
theorem recover_ends (rc : Results) {w : World} {s : Saved} (hj : w.journal = some s.json)
    (hpending : s.pending) (hopen : rc .openJournal = 0) (hncm : NcmContext.open rc = none) :
    ∃ w', RolledBack rc s.contents (listed s.key) s.metaSet w w' ∧
      Cleared rc w' (recoverStaleRealInstall rc w) := by
  obtain ⟨w', hroll, hrolled⟩ := rollBack_saveJournal rc w s.package s.appId s.key s.contents
    s.metaSet s.recordPushed s.ticketImported s.stage
  obtain ⟨hstage, hnot⟩ := stage_saved hpending
  refine ⟨w', hrolled, ?_⟩
  rw [recover_saved rc hj hopen]
  unfold recoverInstall
  rw [hstage]
  dsimp only
  rw [if_neg hnot, hncm]
  dsimp only
  rw [show rollBack rc s.json w = .ok w' from hroll]
  exact cleared_clear rc _ _ (hrolled.journal.trans hj)

/-- With working services, a recovery ends the work exactly if each thing can be reached. -/
theorem recover_works {w : World} {s : Saved} (hj : w.journal = some s.json)
    (hpending : s.pending) :
    Finishes s.contents (listed s.key) s.metaSet w ↔
      Clears works s.contents (listed s.key) s.metaSet w := by
  obtain ⟨w', hrolled, hcleared⟩ := recover_ends works hj hpending rfl rfl
  rw [← hrolled.cleaned_iff, ← cleaned_of_cleared hcleared]
  constructor
  · exact fun h => h.2.2
  · exact fun h => ⟨hcleared.works rfl, hcleared.gone (.inl rfl), h⟩

/-- The recovery of a journal of an install that had not pushed its record is true exactly if for
each thing on the card that the journal lists some call for it works: in this recovery where it comes
to its end, else in the later one. -/
theorem recover_tells_truth_iff (rc : Results) (w : World) (s : Saved)
    (hj : w.journal = some s.json) (hpending : s.pending) :
    TellsTruth rc s.contents (listed s.key) s.metaSet w ↔
      Clears (if Ends rc then rc else works) s.contents (listed s.key) s.metaSet w := by
  have hsome : w.journal ≠ none := by
    rw [hj]
    rintro ⟨⟩
  by_cases hreaches : rc .openJournal = 0 ∧ NcmContext.open rc = none
  · obtain ⟨w', hrolled, hcleared⟩ := recover_ends rc hj hpending hreaches.1 hreaches.2
    by_cases hunlinks : Unlinks rc
    · have hgone := hcleared.gone hunlinks
      rw [if_pos ⟨hreaches.1, hreaches.2, hunlinks⟩, ← hrolled.cleaned_iff,
        ← cleaned_of_cleared hcleared]
      constructor
      · exact fun h => h.1 (.inr hgone)
      · exact fun h => ⟨fun _ => h, fun hno => absurd (.inr hgone) hno⟩
    · have hkept := (hcleared.kept hunlinks).trans hrolled.journal
      have hfalse : ¬((recoverStaleRealInstall rc w).1.1 = true ∨
          (recoverStaleRealInstall rc w).2.journal = none) := by
        rintro (hanswer | hnone)
        · exact hsome (hkept.symm.trans (hcleared.answer hanswer))
        · exact hsome (hkept.symm.trans hnone)
      rw [if_neg fun h => hunlinks h.2.2, ← (hrolled.of_cleared hcleared hkept).clears_iff,
        ← recover_works (hkept.trans hj) hpending]
      constructor
      · exact fun h => (h.2 hfalse).2
      · exact fun h => ⟨fun hyes => absurd hyes hfalse, fun _ => ⟨hkept, h⟩⟩
  · obtain ⟨hanswer, hsame⟩ := recover_stops rc hj hpending hreaches
    have hfalse : ¬((recoverStaleRealInstall rc w).1.1 = true ∨
        (recoverStaleRealInstall rc w).2.journal = none) := by
      rw [hanswer, hsame]
      rintro (⟨⟨⟩⟩ | hnone)
      exact hsome hnone
    rw [if_neg fun h => hreaches ⟨h.1, h.2.1⟩, ← recover_works hj hpending]
    constructor
    · intro h
      exact hsame ▸ (h.2 hfalse).2
    · intro h
      exact ⟨fun hyes => absurd hyes hfalse, fun _ => ⟨by rw [hsame], hsame.symm ▸ h⟩⟩

/-- The id of sixteen bytes `b`. -/
def idOf (b : UInt8) : NcmId := ⟨List.replicate 16 b, List.length_replicate⟩

/-- An install of two contents that is interrupted while it writes the second one. -/
def interrupted : Saved where
  package := ascii "game.nsp"
  appId := 0x0100000000001000
  key := ⟨0x0100000000001000, 0, 0x80, 0, (0, 0)⟩
  contents := [⟨idOf 1, idOf 11, false, true, false⟩, ⟨idOf 2, idOf 12, true, false, false⟩]
  metaSet := false
  recordPushed := false
  ticketImported := false
  stage := ascii "writing-content"

/-- The card then. -/
def card : World :=
  ⟨some interrupted.json, false, false, [(idOf 1).1], [(idOf 12).1], [], []⟩

theorem pending_interrupted : interrupted.pending := ⟨by decide, by decide⟩

theorem recover_tells_truth_working :
    TellsTruth works interrupted.contents (listed interrupted.key) interrupted.metaSet card := by
  apply (recover_tells_truth_iff works card interrupted rfl pending_interrupted).mpr
  rw [if_pos ⟨rfl, rfl, .inl rfl⟩]
  constructor
  · intro c hc hcreated _
    rcases List.mem_pair.mp hc with rfl | rfl
    · cases hcreated
    · exact ⟨1, _, rfl, rfl, rfl, rfl, rfl, rfl⟩
  · intro c hc hnewly _
    rcases List.mem_pair.mp hc with rfl | rfl
    · exact ⟨0, _, rfl, rfl, rfl, rfl, rfl⟩
    · cases hnewly
  · rintro ⟨⟩

/-- The first content cannot be deleted. -/
def stuck : Results
  | .Delete 0 => 1
  | _ => 0

set_option maxRecDepth 4000 in
/-- A content that cannot be deleted stays on the card, and the journal is removed. -/
theorem recovery_leaks :
    (recoverStaleRealInstall stuck card).1.1 = true ∧
      (recoverStaleRealInstall stuck card).2.journal.isNone ∧
      (recoverStaleRealInstall stuck card).2.contents = [(idOf 1).1] ∧
      ¬TellsTruth stuck interrupted.contents (listed interrupted.key) interrupted.metaSet card := by
  have hanswer : (recoverStaleRealInstall stuck card).1.1 = true := by decide
  have hcontents : (recoverStaleRealInstall stuck card).2.contents = [(idOf 1).1] := by decide
  refine ⟨hanswer, by decide, hcontents, ?_⟩
  intro h
  have hcleaned := (h.1 (.inl hanswer)).contents ⟨idOf 1, idOf 11, false, true, false⟩
    (List.mem_cons_self ..) rfl
  rw [hcontents] at hcleaned
  exact hcleaned (List.mem_cons_self ..)

end NspJournal
