/-
# An install is there or it is not

An install that fails takes back what it did, and one that is cut is taken back by the recovery
after the next start, but for one object at most: what was created or registered when the journal
was not yet rewritten.  From the first journal to the last one, the text that is on the card covers
what was done; only while one text takes the place of another is there none.
-/
import AioMod.NspInstallUndo

namespace NspInstall

open Nsp (NspEntryInfo NspManifest Diagnostic ErrorCode text)
open NspJournal (NcmId NcmContentMetaKey Json PlannedContent listed)
open NspRecords (ContentStorageRecord addKey)
open NspStream (Failure Content Placeholder contentId)
open Throws (wpc wpc_bind wpc_call wpc_conseq wpc_require wpc_pure wpc_throw wpc_lift wpc_catch)

variable {env : Env} {k : ℕ} {old s s' : World} {plan : List PlannedContent}

/-! ## A plan in which one entry changes -/

theorem getElem?_of_findPlan {id : NcmId} {p : PlannedContent} {i : ℕ}
    (h : NspStream.findPlan plan id = some (p, i)) : plan[i]? = some p ∧ p.content_id = id := by
  constructor
  · exact List.mem_zipIdx_iff_getElem?.mp (List.mem_of_find?_eq_some h)
  · exact of_decide_eq_true
      (List.find?_some (p := fun x : PlannedContent × ℕ => decide (x.1.content_id = id)) h)

theorem mem_modify {i : ℕ} {f : PlannedContent → PlannedContent} {q : PlannedContent}
    (h : q ∈ plan.modify i f) : q ∈ plan ∨ ∃ p, plan[i]? = some p ∧ q = f p := by
  obtain ⟨j, hj⟩ := List.mem_iff_getElem?.mp h
  rw [List.getElem?_modify] at hj
  split at hj
  · rename_i hij
    subst hij
    cases hget : plan[i]? with
    | none =>
      rw [hget] at hj
      cases hj
    | some p =>
      rw [hget] at hj
      cases hj
      exact .inr ⟨p, rfl, rfl⟩
  · rw [id_map'] at hj
    exact .inl (List.mem_of_getElem? hj)

theorem mem_modify_self {i : ℕ} {f : PlannedContent → PlannedContent} {p : PlannedContent}
    (h : plan[i]? = some p) : f p ∈ plan.modify i f := by
  apply List.mem_of_getElem? (i := i)
  rw [List.getElem?_modify_eq, h]
  rfl

theorem mem_modify_of_mem (i : ℕ) (f : PlannedContent → PlannedContent) {q : PlannedContent}
    (h : q ∈ plan) : q ∈ plan.modify i f ∨ f q ∈ plan.modify i f := by
  obtain ⟨j, hj⟩ := List.mem_iff_getElem?.mp h
  by_cases hij : i = j
  · subst hij
    exact .inr (mem_modify_self hj)
  · refine .inl (List.mem_of_getElem? (i := j) ?_)
    rw [List.getElem?_modify_ne f plan hij]
    exact hj

theorem deletes_iff {id : NcmId} :
    deletes plan id = true ↔ ∃ p ∈ plan, p.newly = true ∧ p.content_id = id := by
  unfold deletes
  simp only [List.any_eq_true, Bool.and_eq_true, decide_eq_true_eq]

theorem deletesPlaceHolder_iff {ph : NcmId} :
    deletesPlaceHolder plan ph = true ↔
      ∃ p ∈ plan, p.newly = false ∧ p.placeholderCreated = true ∧ p.placeholder = ph := by
  unfold deletesPlaceHolder
  simp only [List.any_eq_true, Bool.and_eq_true, decide_eq_true_eq, Bool.not_eq_true', and_assoc]

/-- What is deleted stays so where an entry that is new stays new. -/
theorem deletes_modify {i : ℕ} {f : PlannedContent → PlannedContent} {id : NcmId}
    (hf : ∀ p, p.newly = true → (f p).newly = true ∧ (f p).content_id = p.content_id)
    (h : deletes plan id = true) : deletes (plan.modify i f) id = true := by
  obtain ⟨p, hp, hnewly, hid⟩ := deletes_iff.mp h
  rcases mem_modify_of_mem i f hp with hp | hp
  · exact deletes_iff.mpr ⟨p, hp, hnewly, hid⟩
  · exact deletes_iff.mpr ⟨f p, hp, (hf p hnewly).1, (hf p hnewly).2.trans hid⟩

/-! ## The plan and the card -/

/-- What the plan says of the entries that were taken: what was there is marked, what is registered
was taken, and no placeholder is in use. -/
structure Follows (old : World) (entries taken : List NspEntryInfo) (plan : List PlannedContent) :
    Prop where
  pre : ∀ p ∈ plan, p.preExisting = old.storage.has p.content_id
  idle : ∀ p ∈ plan, p.placeholderCreated = false
  taken : ∀ p ∈ plan, p.registered = true →
    ∃ e ∈ taken, e.isNca = true ∧ contentId e = p.content_id
  listed : ∀ p ∈ plan, ∃ e ∈ entries, e.isNca = true ∧ contentId e = p.content_id

/-- What an install leaves alone until its contents are there. -/
structure Rest (old s : World) : Prop where
  db : s.db = old.saved
  saved : s.saved = old.saved
  userDb : s.userDb = old.userDb
  records : s.records = old.records

theorem not_deletes (h : ∀ p ∈ plan, p.preExisting = old.storage.has p.content_id) :
    ∀ c ∈ old.storage.contents, deletes plan c.id = false := by
  intro c hc
  rw [← Bool.not_eq_true, deletes_iff]
  rintro ⟨p, hp, hnewly, hid⟩
  have hhas : old.storage.has p.content_id = true :=
    List.any_eq_true.mpr ⟨c, hc, decide_eq_true hid.symm⟩
  unfold PlannedContent.newly at hnewly
  rw [h p hp, hhas, Bool.not_true, Bool.and_false] at hnewly
  exact Bool.noConfusion hnewly

theorem not_deletesPlaceHolder (h : ∀ p ∈ plan, p.placeholderCreated = false) (ph : NcmId) :
    deletesPlaceHolder plan ph = false := by
  rw [← Bool.not_eq_true, deletesPlaceHolder_iff]
  rintro ⟨p, hp, -, hcreated, -⟩
  rw [h p hp] at hcreated
  exact Bool.noConfusion hcreated

/-- A plan covers the card if it lists what is new, but for a number of objects. -/
theorem covered_of_lists (cs : List Content) (phs : List Placeholder) {key : NcmContentMetaKey}
    (hrest : Rest old s) (hcontents : s.storage.contents = old.storage.contents ++ cs)
    (hphs : s.storage.placeholders = old.storage.placeholders ++ phs)
    (hold : ∀ c ∈ old.storage.contents, deletes plan c.id = false)
    (holdPh : ∀ p ∈ old.storage.placeholders, deletesPlaceHolder plan p.id = false)
    (hcount : (cs.filter fun c => !deletes plan c.id).length +
      (phs.filter fun p => !deletesPlaceHolder plan p.id).length ≤ k) :
    Covered k old plan key false s := by
  refine { db := hrest.db, saved := hrest.saved, userDb := hrest.userDb, left := ?_ }
  refine ⟨_, _, 0, ?_, ?_, fun _ => hrest.records, hcount⟩
  · show s.storage.contents.filter _ = _
    rw [hcontents, List.filter_append, List.filter_eq_self.mpr]
    intro c hc
    rw [hold c hc]
    rfl
  · show s.storage.placeholders.filter _ = _
    rw [hphs, List.filter_append, List.filter_eq_self.mpr]
    intro p hp
    rw [holdPh p hp]
    rfl

/-- An install between two entries of the package. -/
structure Going (old : World) (name : Bytes) (entries taken : List NspEntryInfo)
    (plan : List PlannedContent) (s : World) : Prop where
  follows : Follows old entries taken plan
  contents : ∃ cs, s.storage.contents = old.storage.contents ++ cs ∧
    ∀ c ∈ cs, deletes plan c.id = true
  placeholders : s.storage.placeholders = old.storage.placeholders
  there : ∀ e ∈ taken, e.isNca = true → s.storage.has (contentId e) = true
  rest : Rest old s
  journal : ∃ stage, ¬Final stage ∧ s.journal = some (some
    (Transaction.json ⟨name, 0, NspStream.provisionalKey, plan⟩ false false false stage))

variable {name : Bytes} {entries taken : List NspEntryInfo}

theorem Going.covered (h : Going old name entries taken plan s) (key : NcmContentMetaKey) :
    Covered k old plan key false s := by
  obtain ⟨cs, hcs, hlisted⟩ := h.contents
  have hnone : (cs.filter fun c => !deletes plan c.id) = [] := by
    rw [List.filter_eq_nil_iff]
    intro c hc
    rw [hlisted c hc]
    exact Bool.false_ne_true
  refine covered_of_lists cs [] h.rest hcs (h.placeholders.trans (List.append_nil _).symm)
    (not_deletes h.follows.pre) (fun p _ => not_deletesPlaceHolder h.follows.idle p.id) ?_
  rw [hnone]
  exact Nat.zero_le k

theorem Going.pending (h : Going old name entries taken plan s) : Pending k old s := by
  obtain ⟨stage, hstage, hj⟩ := h.journal
  exact pending_of_covered hj hstage (h.covered _)

theorem Going.cut (h : Going old name entries taken plan s) : Accounted 1 old s := .inl h.pending

theorem Going.move (h : Going old name entries taken plan s) (pos : ℕ) :
    Going old name entries taken plan { s with pos } :=
  { h with rest := { h.rest with } }

/-- What is read leaves the install where it is. -/
theorem Going.reads {ε α : Type} {p : Throws FnI ε α} {F : α → Prop} (hp : Reads env s p F)
    (h : Going old name entries taken plan s) :
    wpc (journaled env) (Accounted 1 old)
      (fun a s' => Going old name entries taken plan s' ∧ F a) (fun _ => Pending k old) p s :=
  hp.wpc journaled_ncm (fun pos => (h.move pos).cut) (fun _ pos hF => ⟨h.move pos, hF⟩)
    fun _ pos => (h.move pos).pending

/-- A journal is saved while the program can be cut. -/
theorem save_journaled {t : Transaction} {metaSet recordPushed ticketImported : Bool}
    {stage : String} (hstage : ¬Final stage) (hs : ∀ tmp, Accounted 1 old { s with tmp })
    (h : Covered 1 old t.plan (listed t.key) metaSet s) :
    wp (journaled env) (Accounted 1 old)
      (fun _ s' => s' = { s with
        journal := some (some (t.json metaSet recordPushed ticketImported stage)), tmp := none })
      (saveJournal (t.json metaSet recordPushed ticketImported stage)) s := by
  refine saveJournal_journaled hs (.inr (.inr ⟨rfl, .inr (.inr ⟨_, rfl⟩)⟩)) (.inl ?_) rfl
  exact pending_of_covered rfl hstage { h with }

theorem streaming_save {E : Failure → World → Prop} {plan : List PlannedContent} {stage : String}
    (hstage : ¬Final stage)
    (hs : ∀ tmp, Accounted 1 old { s with tmp })
    (h : Covered 1 old plan NspStream.provisionalKey false s) (name : Bytes) :
    wpc (journaled env) (Accounted 1 old)
      (fun _ s' => s' = { s with
        journal := some (some (Transaction.json ⟨name, 0, NspStream.provisionalKey, plan⟩
          false false false stage))
        tmp := none })
      E (streaming (NspStream.save name plan stage)) s := by
  unfold NspStream.save
  exact wpc_lift
    (save_journaled (t := ⟨name, 0, NspStream.provisionalKey, plan⟩) hstage hs h)

theorem Pending.tmp (h : Pending k old s) (tmp : Option (Option Json)) :
    Pending k old { s with tmp } := by
  obtain ⟨t, metaSet, rp, ti, stage, hj, hstage, hcovered⟩ := h
  exact ⟨t, metaSet, rp, ti, stage, hj, hstage, { hcovered with }⟩

/-! ## One content -/

/-- The plan with the placeholder of the entry that is being written. -/
def writing (ph : NcmId) (p : PlannedContent) : PlannedContent :=
  { p with placeholder := ph, placeholderCreated := true }

/-- The entry when it is registered. -/
def registered (ph : NcmId) (p : PlannedContent) : PlannedContent :=
  { p with placeholder := ph, placeholderCreated := false, registered := true }

/-- A content is being written: the placeholder is there, and nothing else is new. -/
structure Writing (old : World) (name : Bytes) (plan : List PlannedContent) (ph : NcmId)
    (size : ℕ) (cs : List Content) (s : World) : Prop where
  contents : s.storage.contents = old.storage.contents ++ cs
  placeholders : ∃ writes, s.storage.placeholders =
    old.storage.placeholders ++ [{ id := ph, size, writes }]
  rest : Rest old s
  journal : ∃ stage, ¬Final stage ∧ s.journal = some (some
    (Transaction.json ⟨name, 0, NspStream.provisionalKey, plan⟩ false false false stage))

section content

variable {ph : NcmId} {size i : ℕ} {p : PlannedContent} {cs : List Content}

theorem writing_follows (h : Follows old entries taken plan) :
    ∀ q ∈ plan.modify i (writing ph), q.preExisting = old.storage.has q.content_id := by
  intro q hq
  rcases mem_modify hq with hq | ⟨p, hp, rfl⟩
  · exact h.pre q hq
  · exact h.pre p (List.mem_of_getElem? hp)

/-- Only the entry that is being written has a placeholder. -/
theorem writing_deletes (h : Follows old entries taken plan) {id : NcmId}
    (hyes : deletesPlaceHolder (plan.modify i (writing ph)) id = true) : id = ph := by
  obtain ⟨q, hq, -, hcreated, rfl⟩ := deletesPlaceHolder_iff.mp hyes
  rcases mem_modify hq with hq | ⟨p, hp, rfl⟩
  · rw [h.idle q hq] at hcreated
    exact Bool.noConfusion hcreated
  · rfl

theorem Writing.covered (h : Writing old name (plan.modify i (writing ph)) ph size cs s)
    (hfollows : Follows old entries taken plan) (hp : plan[i]? = some p)
    (hk : p.registered = true → 1 ≤ k) (hcs : ∀ c ∈ cs, deletes plan c.id = true)
    (hfresh : ∀ q ∈ old.storage.placeholders, q.id ≠ ph) (key : NcmContentMetaKey) :
    Covered k old (plan.modify i (writing ph)) key false s := by
  obtain ⟨writes, hphs⟩ := h.placeholders
  refine covered_of_lists _ _ h.rest h.contents hphs (not_deletes (writing_follows hfollows)) ?_ ?_
  · intro q hq
    rw [← Bool.not_eq_true]
    exact fun hyes => hfresh q hq (writing_deletes hfollows hyes)
  · have hnone : (cs.filter fun c => !deletes (plan.modify i (writing ph)) c.id) = [] := by
      rw [List.filter_eq_nil_iff]
      intro c hc
      rw [deletes_modify (f := writing ph) (fun p hp => ⟨hp, rfl⟩) (hcs c hc)]
      exact Bool.false_ne_true
    rw [hnone, List.length_nil, Nat.zero_add]
    -- the journal lists the placeholder, unless another entry with the id is registered
    cases hregistered : p.registered with
    | true => exact (List.length_filter_le _ _).trans (hk hregistered)
    | false =>
      have hlists : deletesPlaceHolder (plan.modify i (writing ph)) ph = true := by
        refine deletesPlaceHolder_iff.mpr ⟨_, mem_modify_self hp, ?_, rfl, rfl⟩
        show (p.registered && !p.preExisting) = false
        rw [hregistered, Bool.false_and]
      rw [List.filter_cons_of_neg (by rw [hlists]; exact Bool.false_ne_true)]
      exact Nat.zero_le k

/-- The calls while a content is written. -/
theorem Writing.step {plan : List PlannedContent} (h : Writing old name plan ph size cs s)
    (hfresh : ∀ q ∈ old.storage.placeholders, q.id ≠ ph) {fn : Fn} {r : fn.Res}
    (hfn : Quiet fn ∨ ∃ offset data, fn = .WritePlaceHolder ph offset data)
    (hstep : ncm env s fn r s') : Writing old name plan ph size cs s' := by
  rcases hfn with hquiet | ⟨offset, data, rfl⟩
  · obtain ⟨pos, rfl⟩ := (Moved.refl s).step hquiet hstep
    exact { h with rest := { h.rest with } }
  · obtain rfl : s' = _ := hstep
    split
    · obtain ⟨writes, hphs⟩ := h.placeholders
      refine { h with rest := { h.rest with }, placeholders := ⟨writes ++ [(offset, data)], ?_⟩ }
      show s.storage.placeholders.map _ = _
      rw [hphs, List.map_append, List.map_congr_left (g := id)]
      · rw [List.map_id]
        simp
      · intro q hq
        rw [if_neg (hfresh q hq)]
        rfl
    · exact h

theorem Writing.pending (h : Writing old name (plan.modify i (writing ph)) ph size cs s)
    (hfollows : Follows old entries taken plan) (hp : plan[i]? = some p)
    (hk : p.registered = true → 1 ≤ k) (hcs : ∀ c ∈ cs, deletes plan c.id = true)
    (hfresh : ∀ q ∈ old.storage.placeholders, q.id ≠ ph) : Pending k old s := by
  obtain ⟨stage, hstage, hj⟩ := h.journal
  exact pending_of_covered hj hstage (h.covered hfollows hp hk hcs hfresh _)

/-- The bytes of a content go into its placeholder. -/
theorem consume_writing {plan : List PlannedContent} (h : Writing old name plan ph size cs s)
    (hfresh : ∀ q ∈ old.storage.placeholders, q.id ≠ ph) (streamOffset bytes installedNow : ℕ)
    (stage : Bytes) :
    wpc (journaled env) (Writing old name plan ph size cs)
      (fun _ => Writing old name plan ph size cs) (fun _ => Writing old name plan ph size cs)
      (streaming (NspStream.consumeBytes streamOffset bytes (NspStream.toPlaceholder ph) stage
        installedNow)) s := by
  have hcalls : (NspStream.consumeBytes streamOffset bytes (NspStream.toPlaceholder ph) stage
      installedNow).run.Calls fun fn => (ofStream fn).Calls fun fn =>
        Quiet fn ∨ ∃ offset data, fn = Fn.WritePlaceHolder ph offset data := by
    unfold NspStream.consumeBytes
    apply consumeLoop_calls
    · exact calls_op (.inl trivial)
    · exact fun n => calls_op (.inl trivial)
    · intro a data done
      unfold NspStream.toPlaceholder
      refine Throws.calls_bind (Throws.calls_call (calls_op (.inr ⟨_, _, rfl⟩))) fun _ => ?_
      exact Throws.calls_bind (Throws.calls_require _ _) fun _ => add_calls _ _
  refine Throws.wpc_of_calls (calls_streaming hcalls) ?_ h
  intro s₁ fn r s₂ hfn h₁ hstep
  exact h₁.step hfresh hfn hstep.1

/-- The placeholder becomes a content. -/
theorem Writing.register {plan : List PlannedContent} (h : Writing old name plan ph size cs s)
    (hfresh : ∀ q ∈ old.storage.placeholders, q.id ≠ ph) (id : NcmId) :
    ∃ writes, s.storage.register id ph =
      { contents := old.storage.contents ++ (cs ++ [{ id, writes }])
        placeholders := old.storage.placeholders } := by
  obtain ⟨writes, hphs⟩ := h.placeholders
  refine ⟨writes, ?_⟩
  unfold NspStream.Storage.register
  have hothers : old.storage.placeholders.filter (fun q => q.id = ph) = [] := by
    rw [List.filter_eq_nil_iff]
    intro q hq
    rw [decide_eq_true_eq]
    exact hfresh q hq
  have hself : old.storage.placeholders.filter (fun q => q.id ≠ ph) = old.storage.placeholders :=
    List.filter_eq_self.mpr fun q hq => decide_eq_true (hfresh q hq)
  rw [hphs, h.contents, List.filter_append, List.filter_append, hothers, hself]
  simp

/-- After the registration the plan lists one content more. -/
theorem Going.next (h : Going old name entries taken plan s) {e : NspEntryInfo}
    (he : e.isNca = true) (hp : plan[i]? = some p) (hid : p.content_id = contentId e)
    (hpre : p.preExisting = false) {writes : List (ℕ × Bytes)}
    (hcs : s.storage.contents = old.storage.contents ++ cs)
    (hlisted : ∀ c ∈ cs, deletes plan c.id = true) {s' : World}
    (hstorage : s'.storage =
      { contents := old.storage.contents ++ (cs ++ [{ id := contentId e, writes }])
        placeholders := old.storage.placeholders })
    (hrest : Rest old s') {stage : String} (hstage : ¬Final stage)
    (hj : s'.journal = some (some (Transaction.json ⟨name, 0, NspStream.provisionalKey,
      plan.modify i (registered ph)⟩ false false false stage))) :
    Going old name entries (taken ++ [e]) (plan.modify i (registered ph)) s' := by
  have hcontents : s'.storage.contents =
      s.storage.contents ++ [{ id := contentId e, writes }] := by
    rw [hstorage, hcs, List.append_assoc]
  constructor
  · constructor
    · intro q hq
      rcases mem_modify hq with hq | ⟨q₀, hq₀, rfl⟩
      · exact h.follows.pre q hq
      · exact h.follows.pre q₀ (List.mem_of_getElem? hq₀)
    · intro q hq
      rcases mem_modify hq with hq | ⟨q₀, hq₀, rfl⟩
      · exact h.follows.idle q hq
      · rfl
    · intro q hq hregistered
      rcases mem_modify hq with hq | ⟨q₀, hq₀, rfl⟩
      · obtain ⟨e', he', hnca⟩ := h.follows.taken q hq hregistered
        exact ⟨e', List.mem_append_left _ he', hnca⟩
      · rw [hp] at hq₀
        cases hq₀
        exact ⟨e, List.mem_append_right _ List.mem_cons_self, he, hid.symm⟩
    · intro q hq
      rcases mem_modify hq with hq | ⟨q₀, hq₀, rfl⟩
      · exact h.follows.listed q hq
      · exact h.follows.listed q₀ (List.mem_of_getElem? hq₀)
  -- the contents before stay listed, and the journal now lists this one
  · refine ⟨cs ++ [{ id := contentId e, writes }], by rw [hstorage], ?_⟩
    intro c hc
    rcases List.mem_append.mp hc with hc | hc
    · refine deletes_modify (f := registered ph) (fun p hp => ⟨?_, rfl⟩) (hlisted c hc)
      exact Bool.and_eq_true_iff.mpr ⟨rfl, (Bool.and_eq_true_iff.mp hp).2⟩
    · obtain rfl := List.mem_singleton.mp hc
      refine deletes_iff.mpr ⟨_, mem_modify_self hp, ?_, hid⟩
      show (true && !p.preExisting) = true
      rw [hpre]
      rfl
  · rw [hstorage]
  · intro e' he' hnca
    unfold NspStream.Storage.has
    rw [hcontents, List.any_append, Bool.or_eq_true]
    rcases List.mem_append.mp he' with he' | he'
    · exact .inl (h.there e' he' hnca)
    · obtain rfl := List.mem_singleton.mp he'
      exact .inr (by simp)
  · exact hrest
  · exact ⟨stage, hstage, hj⟩

/-- A content that is installed is listed by the journal from one step after its placeholder is
there. -/
theorem installContent_going {v : NspStream.Vars}
    (h : Going old name entries taken v.plan s) {e : NspEntryInfo} (he : e.isNca = true)
    (hfind : NspStream.findPlan v.plan (contentId e) = some (p, i)) (hpre : p.preExisting = false)
    (hnew : (∃ e' ∈ taken, e'.isNca = true ∧ contentId e' = contentId e) → 1 ≤ k) :
    wpc (journaled env) (Accounted 1 old)
      (fun v' s' => Going old name entries (taken ++ [e]) v'.plan s') (fun _ => Pending k old)
      (streaming (NspStream.installContent name v e i)) s := by
  obtain ⟨hp, hid⟩ := getElem?_of_findPlan hfind
  have hmem : p ∈ v.plan := List.mem_of_getElem? hp
  have hk : p.registered = true → 1 ≤ k := by
    intro hregistered
    obtain ⟨e', he', hnca, hid'⟩ := h.follows.taken p hmem hregistered
    exact hnew ⟨e', he', hnca, hid'.trans hid⟩
  obtain ⟨cs, hcs, hlisted⟩ := h.contents
  unfold NspStream.installContent
  refine wpc_streaming_bind (wpc_streaming_call ⟨h.cut, fun r s₁ hs₁ => ?_⟩)
  obtain rfl : s₁ = s := hs₁.1
  refine ⟨h.cut, wpc_streaming_bind (wpc_streaming_require h.cut (fun _ => ?_)
    fun _ => h.pending)⟩
  refine wpc_streaming_bind (wpc_streaming_call ⟨h.cut, fun rc s₂ hs₂ => ?_⟩)
  have hcreate := ncm_create.mp hs₂.1
  split at hcreate
  swap
  · rename_i hrc
    obtain rfl := hcreate
    exact ⟨h.cut, wpc_streaming_bind (wpc_streaming_require h.cut (fun hok => (hrc hok).elim)
      fun _ => h.pending)⟩
  obtain ⟨hfresh, rfl⟩ := hcreate
  rw [h.placeholders] at hfresh
  -- the placeholder is there, and the journal does not list it yet
  have hcut₂ : ∀ tmp, Accounted 1 old
      { s₁ with storage := s₁.storage.create r.2 e.size, tmp := tmp } := by
    intro tmp
    obtain ⟨stage, hstage, hj⟩ := h.journal
    refine .inl (pending_of_covered hj hstage ?_)
    refine covered_of_lists cs [{ id := r.2, size := e.size }] { h.rest with } hcs
      (congrArg (· ++ _) h.placeholders) (not_deletes h.follows.pre)
      (fun q _ => not_deletesPlaceHolder h.follows.idle q.id) ?_
    have hnone : (cs.filter fun c => !deletes v.plan c.id) = [] := by
      rw [List.filter_eq_nil_iff]
      intro c hc
      rw [hlisted c hc]
      exact Bool.false_ne_true
    rw [hnone, List.length_nil, Nat.zero_add]
    exact List.length_filter_le _ _
  refine ⟨hcut₂ s₁.tmp, wpc_streaming_bind (wpc_streaming_require (hcut₂ s₁.tmp) (fun _ => ?_)
    fun hno => (hno ‹_›).elim)⟩
  have hplan₂ : (v.plan.modify i fun p => { p with placeholder := r.2 }).modify i
      (fun p => { p with placeholderCreated := true }) = v.plan.modify i (writing r.2) := by
    rw [List.modify_modify_eq]
    rfl
  rw [hplan₂]
  have hwriting : Writing old name (v.plan.modify i (writing r.2)) r.2 e.size cs
      { s₁ with
        storage := s₁.storage.create r.2 e.size, tmp := none
        journal := some (some (Transaction.json ⟨name, 0, NspStream.provisionalKey,
          v.plan.modify i (writing r.2)⟩ false false false "stream-writing-content")) } :=
    { contents := hcs, placeholders := ⟨[], congrArg (· ++ _) h.placeholders⟩
      rest := { h.rest with }, journal := ⟨_, by decide, rfl⟩ }
  apply wpc_streaming_bind
  refine wpc_conseq (streaming_save (by decide) hcut₂ ?_ name) ?_ fun _ _ _ h => h
  · exact { hwriting.covered h.follows hp (fun _ => le_refl 1) hlisted hfresh _ with }
  rintro - s₃ - rfl
  apply wpc_streaming_bind
  refine Throws.wpc_weaken (consume_writing hwriting hfresh _ _ _ _) ?_ ?_ ?_
  · exact fun s₄ h₄ => .inl (h₄.pending h.follows hp (fun _ => le_refl 1) hlisted hfresh)
  swap
  · exact fun _ s₄ _ h₄ => h₄.pending h.follows hp hk hlisted hfresh
  rintro q s₄ - h₄
  have hcut₄ : Accounted 1 old s₄ :=
    .inl (h₄.pending h.follows hp (fun _ => le_refl 1) hlisted hfresh)
  refine wpc_streaming_bind (wpc_streaming_call ⟨hcut₄, fun rc s₅ hs₅ => ?_⟩)
  have hregister := ncm_register.mp hs₅.1
  split at hregister
  swap
  · rename_i hrc
    obtain rfl := hregister
    exact ⟨hcut₄, wpc_streaming_bind (wpc_streaming_require hcut₄ (fun hok => (hrc hok).elim)
      fun _ => h₄.pending h.follows hp hk hlisted hfresh)⟩
  obtain ⟨-, rfl⟩ := hregister
  obtain ⟨writes, hstorage⟩ := h₄.register hfresh (contentId e)
  -- the content is there, and the journal still lists the placeholder
  have hcut₅ : ∀ tmp, Accounted 1 old
      { s₄ with storage := s₄.storage.register (contentId e) r.2, tmp := tmp } := by
    intro tmp
    obtain ⟨stage, hstage, hj⟩ := h₄.journal
    refine .inl (pending_of_covered hj hstage ?_)
    refine covered_of_lists (cs ++ [{ id := contentId e, writes }]) []
      { h₄.rest with } (by rw [hstorage]) (by rw [hstorage, List.append_nil])
      (not_deletes (writing_follows h.follows)) ?_ ?_
    · intro q hq
      rw [← Bool.not_eq_true]
      exact fun hyes => hfresh q hq (writing_deletes h.follows hyes)
    · rw [List.filter_append, List.filter_eq_nil_iff.mpr]
      · exact List.length_filter_le _ _
      · intro c hc
        rw [deletes_modify (f := writing r.2) (fun p hp => ⟨hp, rfl⟩) (hlisted c hc)]
        exact Bool.false_ne_true
  refine ⟨hcut₅ s₄.tmp, wpc_streaming_bind (wpc_streaming_require (hcut₅ s₄.tmp) (fun _ => ?_)
    fun hno => (hno ‹_›).elim)⟩
  have hplan₃ : (v.plan.modify i (writing r.2)).modify i
      (fun p => { p with placeholderCreated := false, registered := true })
      = v.plan.modify i (registered r.2) := by
    rw [List.modify_modify_eq]
    rfl
  rw [hplan₃]
  have hnext : Going old name entries (taken ++ [e]) (v.plan.modify i (registered r.2))
      { s₄ with
        storage := s₄.storage.register (contentId e) r.2, tmp := none
        journal := some (some (Transaction.json ⟨name, 0, NspStream.provisionalKey,
          v.plan.modify i (registered r.2)⟩ false false false "stream-registered-content")) } :=
    h.next he hp hid hpre hcs hlisted hstorage { h₄.rest with } (by decide) rfl
  apply wpc_streaming_bind
  refine wpc_conseq (streaming_save (by decide) hcut₅ ?_ name) ?_ fun _ _ _ h => h
  · exact { hnext.covered _ with }
  rintro - s₆ - rfl
  exact ⟨hnext.cut, hnext⟩

end content

/-! ## All contents -/

/-- An entry that brings nothing new. -/
theorem Going.take (h : Going old name entries taken plan s) {e : NspEntryInfo}
    (he : e.isNca = true → s.storage.has (contentId e) = true) :
    Going old name entries (taken ++ [e]) plan s := by
  refine { h with follows := { h.follows with taken := ?_ }, there := ?_ }
  · intro p hp hregistered
    obtain ⟨e', he', hnca⟩ := h.follows.taken p hp hregistered
    exact ⟨e', List.mem_append_left _ he', hnca⟩
  · intro e' he' hnca
    rcases List.mem_append.mp he' with he' | he'
    · exact h.there e' he' hnca
    · obtain rfl := List.mem_singleton.mp he'
      exact he hnca

theorem streamData_going {v : NspStream.Vars} (h : Going old name entries taken v.plan s)
    (e : NspEntryInfo)
    (hnew : (∃ e' ∈ taken, e'.isNca = true ∧ e.isNca = true ∧ contentId e' = contentId e) → 1 ≤ k) :
    wpc (journaled env) (Accounted 1 old)
      (fun v' s' => Going old name entries (taken ++ [e]) v'.plan s') (fun _ => Pending k old)
      (streaming (NspStream.streamData name v e)) s := by
  have hread : ∀ {p : NspStream.Installer NspStream.Vars},
      (e.isNca = true → s.storage.has (contentId e) = true) →
      Reads env s (streaming p) (fun v' => v'.plan = v.plan) →
      wpc (journaled env) (Accounted 1 old)
        (fun v' s' => Going old name entries (taken ++ [e]) v'.plan s') (fun _ => Pending k old)
        (streaming p) s := by
    intro p he hp
    refine wpc_conseq ((h.take he).reads hp) ?_ fun _ _ _ h => h
    rintro v' s' - ⟨hgoing, hplan⟩
    exact hplan ▸ hgoing
  unfold NspStream.streamData
  split
  · rename_i hnca
    split
    · exact ⟨h.cut, h.pending⟩
    · rename_i p i hfind
      obtain ⟨hp, hid⟩ := getElem?_of_findPlan hfind
      have hpre := h.follows.pre p (List.mem_of_getElem? hp)
      split
      · rename_i hthere
        apply hread _ (skipTo_reads _ _ _)
        intro _
        -- the content was there before
        rw [hthere, hid] at hpre
        obtain ⟨cs, hcs, -⟩ := h.contents
        unfold NspStream.Storage.has
        rw [hcs, List.any_append, Bool.or_eq_true]
        exact .inl hpre.symm
      · rename_i hnot
        refine installContent_going h hnca hfind (Bool.eq_false_iff.mpr hnot) ?_
        rintro ⟨e', he', hnca', hid'⟩
        exact hnew ⟨e', he', hnca', hnca, hid'⟩
  · rename_i hnca
    have hnone : e.isNca = true → s.storage.has (contentId e) = true := fun hyes => (hnca hyes).elim
    split
    · exact hread hnone (bufferAux_reads v e)
    · exact hread hnone (skipTo_reads _ _ _)

theorem streamEntry_going {v : NspStream.Vars} (h : Going old name entries taken v.plan s)
    (e : NspEntryInfo)
    (hnew : (∃ e' ∈ taken, e'.isNca = true ∧ e.isNca = true ∧ contentId e' = contentId e) → 1 ≤ k) :
    wpc (journaled env) (Accounted 1 old)
      (fun v' s' => Going old name entries (taken ++ [e]) v'.plan s') (fun _ => Pending k old)
      (streaming (NspStream.streamEntry name v e)) s := by
  unfold NspStream.streamEntry
  refine wpc_streaming_bind (wpc_streaming_require h.cut (fun _ => ?_) fun _ => h.pending)
  split
  · apply wpc_streaming_bind
    refine wpc_conseq (h.reads (reads_of_streamCalls (sub_calls _ _))) (fun gap s₁ _ h₁ => ?_)
      fun _ _ _ h => h
    apply wpc_streaming_bind
    refine wpc_conseq (h₁.1.reads (skipBytes_reads _ _ _)) (fun streamOffset s₂ _ h₂ => ?_)
      fun _ _ _ h => h
    exact streamData_going (v := { v with streamOffset := streamOffset }) h₂.1 e hnew
  · exact streamData_going h e hnew

/-- The contents of a package have ids of their own. -/
def Distinct (manifest : NspManifest) : Prop :=
  ((manifest.entries.filter fun e => e.isNca).map contentId).Nodup

theorem Distinct.new {manifest : NspManifest} (h : Distinct manifest) {taken rest : List NspEntryInfo}
    {e : NspEntryInfo} (hsplit : NspStream.physical manifest = taken ++ e :: rest) :
    ¬∃ e' ∈ taken, e'.isNca = true ∧ e.isNca = true ∧ contentId e' = contentId e := by
  have hperm : (NspStream.physical manifest).Perm manifest.entries := List.perm_insertionSort _ _
  have hnodup : (((NspStream.physical manifest).filter fun e => e.isNca).map contentId).Nodup :=
    ((hperm.filter _).map contentId).nodup_iff.mpr h
  rintro ⟨e', he', hnca', hnca, hid⟩
  rw [hsplit, List.filter_append, List.filter_cons_of_pos hnca, List.map_append, List.map_cons,
    List.nodup_append] at hnodup
  refine hnodup.2.2 (contentId e') ?_ (contentId e) List.mem_cons_self hid
  exact List.mem_map.mpr ⟨e', List.mem_filter.mpr ⟨he', hnca'⟩, rfl⟩

theorem streamContents_going {v : NspStream.Vars} {manifest : NspManifest}
    (h : Going old name entries [] v.plan s) (hk : Distinct manifest ∨ 1 ≤ k) :
    wpc (journaled env) (Accounted 1 old)
      (fun v' s' => Going old name entries (NspStream.physical manifest) v'.plan s')
      (fun _ => Pending k old) (streaming (streamContents name manifest v)) s := by
  unfold streamContents
  apply wpc_streaming_bind
  rw [streaming_foldlM]
  refine Throws.wpc_foldlM (fun taken v s => Going old name entries taken v.plan s) _ ?_ ?_ h
  · rintro taken e rest v s' hsplit hs
    refine streamEntry_going hs e fun htwice => ?_
    rcases hk with hdistinct | hk
    · exact (hdistinct.new hsplit htwice).elim
    · exact hk
  · rintro v s' hs
    refine ⟨hs.cut, ?_⟩
    refine wpc_conseq (hs.reads (finish_reads manifest v)) ?_ fun _ _ _ h => h
    rintro v' s'' - ⟨hgoing, hplan⟩
    exact hplan ▸ hgoing

/-! ## Meta, ticket and record -/

/-- The contents of the plan are there, and a rollback deletes them and nothing else. -/
structure Filled (old : World) (plan : List PlannedContent) (st : NspStream.Storage) : Prop where
  undone : undone plan st = old.storage
  contents : ∃ cs, st.contents = old.storage.contents ++ cs ∧
    ∀ c ∈ cs, ∃ p ∈ plan, p.content_id = c.id
  placeholders : st.placeholders = old.storage.placeholders
  there : ∀ p ∈ plan, st.has p.content_id = true

theorem Going.filled {manifest : NspManifest}
    (h : Going old name manifest.entries (NspStream.physical manifest) plan s) :
    Filled old plan s.storage := by
  obtain ⟨cs, hcs, hlisted⟩ := h.contents
  refine { undone := ?_, contents := ⟨cs, hcs, fun c hc => ?_⟩, placeholders := h.placeholders
           there := ?_ }
  · have hleft := (h.covered (k := 0) NspStream.provisionalKey).left
    obtain ⟨cs', phs', n, hcs', hphs', -, hle⟩ := hleft
    obtain rfl : cs' = [] := List.eq_nil_of_length_eq_zero (by omega)
    obtain rfl : phs' = [] := List.eq_nil_of_length_eq_zero (by omega)
    rw [List.append_nil] at hcs' hphs'
    cases hundone : NspInstall.undone plan s.storage
    rw [hundone] at hcs' hphs'
    cases hold : old.storage
    rw [hold] at hcs' hphs'
    cases hcs'
    cases hphs'
    rfl
  · obtain ⟨p, hp, -, hid⟩ := deletes_iff.mp (hlisted c hc)
    exact ⟨p, hp, hid⟩
  · intro p hp
    obtain ⟨e, he, hnca, hid⟩ := h.follows.listed p hp
    rw [← hid]
    exact h.there e ((List.perm_insertionSort _ _).mem_iff.mpr he) hnca

/-- An install with all its contents, before and after its meta is set. -/
structure Held (old : World) (t : Transaction) (metaSet : Bool) (s : World) : Prop where
  filled : Filled old t.plan s.storage
  db : (if metaSet then remove s.db t.key else s.db) = old.saved
  saved : (if metaSet then remove s.saved t.key else s.saved) = old.saved
  userDb : s.userDb = old.userDb
  records : s.records = old.records
  padding : listed t.key = t.key
  journal : ∃ recordPushed ticketImported stage, ¬Final stage ∧
    s.journal = some (some (t.json metaSet recordPushed ticketImported stage))

variable {t : Transaction} {metaSet : Bool}

/-- The rollback of such an install takes all back, but for the records. -/
theorem Filled.covered (hfilled : Filled old t.plan s.storage) (hlisted : listed t.key = t.key)
    (hdb : (if metaSet then remove s.db t.key else s.db) = old.saved)
    (hsaved : (if metaSet then remove s.saved t.key else s.saved) = old.saved)
    (huserDb : s.userDb = old.userDb) (hrecords : 1 ≤ k ∨ s.records = old.records) :
    Covered k old t.plan (listed t.key) metaSet s := by
  rw [hlisted]
  refine { db := hdb, saved := hsaved, userDb := huserDb, left := ?_ }
  rw [hfilled.undone]
  rcases hrecords with hk | hrecords
  · exact ⟨[], [], 1, by simp, by simp, by simp, by simpa using hk⟩
  · exact ⟨[], [], 0, by simp, by simp, fun _ => hrecords, by simp⟩

theorem Held.covered (h : Held old t metaSet s) : Covered k old t.plan (listed t.key) metaSet s :=
  h.filled.covered h.padding h.db h.saved h.userDb (.inr h.records)

theorem Held.pending (h : Held old t metaSet s) : Pending k old s := by
  obtain ⟨recordPushed, ticketImported, stage, hstage, hj⟩ := h.journal
  exact pending_of_covered hj hstage h.covered

theorem Held.cut (h : Held old t metaSet s) : Accounted 1 old s := .inl h.pending

theorem Held.reads {ε α : Type} {p : Throws FnI ε α} {F : α → Prop} (hp : Reads env s p F)
    (h : Held old t metaSet s) :
    wpc (journaled env) (Accounted 1 old)
      (fun a s' => (∃ pos, s' = { s with pos }) ∧ F a) (fun _ => Pending k old) p s :=
  hp.wpc journaled_ncm (fun _ => Held.cut { h with }) (fun _ pos hF => ⟨⟨pos, rfl⟩, hF⟩)
    fun _ _ => Held.pending { h with }

/-- A journal is saved that holds the install. -/
theorem Transaction.save_held {metaSet' recordPushed ticketImported : Bool} {stage : String}
    (hstage : ¬Final stage) (hs : ∀ tmp, Accounted 1 old { s with tmp })
    (h : ∀ s', s' = { s with
        journal := some (some (t.json metaSet' recordPushed ticketImported stage)), tmp := none } →
      Held old t metaSet' s') :
    wpc (journaled env) (Accounted 1 old)
      (fun _ s' => s' = { s with
          journal := some (some (t.json metaSet' recordPushed ticketImported stage)), tmp := none } ∧
        Held old t metaSet' s')
      (fun _ => Pending k old) (t.save metaSet' recordPushed ticketImported stage) s := by
  refine wpc_conseq (wpc_lift (save_journaled hstage hs ?_)) ?_ fun _ _ _ h => h
  · have hheld := h _ rfl
    exact { hheld.covered (k := 1) with }
  · rintro - s' - rfl
    exact ⟨rfl, h _ rfl⟩

theorem Held.cuts (h : Held old t metaSet s) (tmp : Option (Option Json)) :
    Accounted 1 old { s with tmp } := Held.cut { h with }

/-- The meta is set and committed. -/
theorem setMeta_held (h : Held old t false s) (hnew : ∀ m ∈ old.saved, m.1 ≠ t.key) (blob : Bytes) :
    wpc (journaled env) (Accounted 1 old)
      (fun _ s' => Held old t true s' ∧ s'.saved = old.saved ++ [(t.key, blob)])
      (fun _ => Pending k old) (setMeta t blob) s := by
  have hdb : s.db = old.saved := h.db
  have hsaved : s.saved = old.saved := h.saved
  have hremove : remove old.saved t.key = old.saved := remove_of_new hnew
  have hset : set old.saved t.key blob = old.saved ++ [(t.key, blob)] :=
    congrArg (· ++ _) hremove
  have hremoveSet : remove (set old.saved t.key blob) t.key = old.saved :=
    (remove_set _ _ _).trans hremove
  unfold setMeta
  apply wpc_bind
  refine wpc_conseq (Transaction.save_held (by decide) h.cuts ?_) ?_ fun _ _ _ h => h
  · rintro s' rfl
    refine { h with journal := ⟨_, _, _, by decide, rfl⟩, db := ?_, saved := ?_ }
    · exact (congrArg (remove · t.key) hdb).trans hremove
    · exact (congrArg (remove · t.key) hsaved).trans hremove
  rintro - s₁ - ⟨hs₁, h₁⟩
  apply wpc_bind
  refine wpc_call h₁.cut fun rc s₂ hs₂ => ?_
  have hif : s₂ = if rc = 0 then { s₁ with db := NspInstall.set s₁.db t.key blob } else s₁ := hs₂.1
  -- a key that was not set leaves the database as it was
  by_cases hrc : rc = 0
  swap
  · rw [if_neg hrc] at hif
    obtain rfl := hif
    refine ⟨h₁.cut, ?_⟩
    apply wpc_bind
    exact wpc_require h₁.cut (fun hok => (hrc hok).elim) fun _ => h₁.pending
  rw [if_pos hrc, show s₁.db = old.saved by rw [hs₁, hdb]] at hif
  subst hif
  have h₂ : Held old t true { s₁ with db := NspInstall.set old.saved t.key blob } :=
    { h₁ with db := hremoveSet }
  refine ⟨h₂.cut, ?_⟩
  apply wpc_bind
  refine wpc_require h₂.cut (fun _ => ?_) fun _ => h₂.pending
  apply wpc_bind
  refine wpc_call h₂.cut fun rc₃ s₃ hs₃ => ?_
  have hif : s₃ = if rc₃ = 0 then { s₁ with
      db := NspInstall.set old.saved t.key blob, saved := NspInstall.set old.saved t.key blob }
    else { s₁ with db := NspInstall.set old.saved t.key blob } := hs₃.1
  by_cases hrc₃ : rc₃ = 0
  swap
  · -- the key is only in the memory
    rw [if_neg hrc₃] at hif
    obtain rfl := hif
    refine ⟨h₂.cut, ?_⟩
    apply wpc_bind
    exact wpc_require h₂.cut (fun hok => (hrc₃ hok).elim) fun _ => h₂.pending
  rw [if_pos hrc₃] at hif
  subst hif
  have h₃ : Held old t true { s₁ with
      db := NspInstall.set old.saved t.key blob, saved := NspInstall.set old.saved t.key blob } :=
    { h₁ with db := hremoveSet, saved := hremoveSet }
  refine ⟨h₃.cut, ?_⟩
  apply wpc_bind
  refine wpc_require h₃.cut (fun _ => ?_) fun _ => h₃.pending
  refine wpc_conseq (Transaction.save_held (by decide) h₃.cuts ?_) ?_ fun _ _ _ h => h
  · rintro s' rfl
    exact { h₃ with journal := ⟨_, _, _, by decide, rfl⟩ }
  · rintro - s₄ - ⟨rfl, h₄⟩
    exact ⟨h₄, hset⟩

theorem importRights_held {sv : MetaDatabase} (h : Held old t metaSet s) (hsv : s.saved = sv)
    (planned : List NspEntryInfo) (aux : List NspStream.BufferedAuxFile) :
    wpc (journaled env) (Accounted 1 old) (fun _ s' => Held old t metaSet s' ∧ s'.saved = sv)
      (fun _ => Pending k old) (importRights planned aux) s := by
  have hcalls := importRights_calls
    (P := fun fn => Quiet fn ∨ ∃ tik cert, fn = Fn.ImportTicket tik cert) (fun _ h => .inl h)
    (fun tik cert => .inr ⟨tik, cert, rfl⟩) planned aux
  refine Throws.wpc_weaken (C := fun s' => Held old t metaSet s' ∧ s'.saved = sv)
    (Throws.wpc_of_calls hcalls ?_ ⟨h, hsv⟩) (fun _ h => h.1.cut) (fun _ _ _ h => h)
    fun _ _ _ h => h.1.pending
  rintro s₁ fn r s₂ (hquiet | ⟨tik, cert, rfl⟩) ⟨h₁, hsv₁⟩ hstep
  · obtain ⟨pos, rfl⟩ := (Moved.refl s₁).step hquiet hstep.1
    exact ⟨{ h₁ with }, hsv₁⟩
  · obtain rfl : s₂ = _ := hstep.1
    split
    · exact ⟨{ h₁ with }, hsv₁⟩
    · exact ⟨h₁, hsv₁⟩

theorem key_mem_addKey (key : NcmContentMetaKey) (records : List ContentStorageRecord) :
    ∃ r ∈ addKey key records, r.key = key := by
  by_cases hmem : ∃ r ∈ records, r.key = key
  · rw [NspRecords.addKey_of_mem hmem]
    exact hmem
  · rw [NspRecords.addKey_of_not_mem hmem]
    exact ⟨NspRecords.newRecord key, List.mem_append_right _ List.mem_cons_self, rfl⟩

/-- Records that were pushed are one object that a rollback leaves. -/
theorem Held.pushed (h : Held old t metaSet s) (records : UInt64 → List ContentStorageRecord)
    (tmp : Option (Option Json)) : Accounted 1 old { s with records, tmp } := by
  obtain ⟨recordPushed, ticketImported, stage, hstage, hj⟩ := h.journal
  refine .inl (pending_of_covered hj hstage ?_)
  exact Filled.covered (s := { s with records := records, tmp := tmp }) h.filled h.padding h.db
    h.saved h.userDb (.inl (le_refl 1))

/-- The records are pushed, or nothing is changed. -/
theorem pushApplicationRecord_held (h : Held old t metaSet s)
    (records : List ContentStorageRecord) :
    wpc (journaled env) (Accounted 1 old)
      (fun rc s' => if rc = 0 then s' = { s with records := Function.update s.records t.appId records }
        else s' = s)
      (fun _ => Pending k old) (pushApplicationRecord t.appId records) s := by
  unfold pushApplicationRecord
  apply wpc_bind
  refine wpc_call h.cut fun rc s₁ hs₁ => ?_
  obtain rfl : s₁ = s := hs₁.1
  refine ⟨h.cut, ?_⟩
  split
  · rename_i hrc
    refine ⟨h.cut, ?_⟩
    dsimp only [Throws.ends]
    rw [if_neg hrc]
  apply wpc_bind
  refine wpc_call h.cut fun rc₂ s₂ hs₂ => ?_
  obtain rfl : s₂ = s₁ := hs₂.1
  refine ⟨h.cut, ?_⟩
  split
  · rename_i hrc
    refine ⟨h.cut, ?_⟩
    dsimp only [Throws.ends]
    rw [if_neg hrc]
  refine wpc_call h.cut fun rc₃ s₃ hs₃ => ?_
  have hif : s₃ = if rc₃ = 0 then
      { s₂ with records := Function.update s₂.records t.appId records } else s₂ := hs₃.1
  split at hif
  · subst hif
    refine ⟨h.pushed _ s₂.tmp, ?_⟩
    rw [if_pos ‹_›]
  · subst hif
    refine ⟨h.cut, ?_⟩
    rw [if_neg ‹_›]

/-- The install is there, and the journal is gone. -/
def Finished (old s : World) : Prop := s.journal = none ∧ ∃ t, Complete old t s

theorem pushRecord_held (h : Held old t true s) {blob : Bytes}
    (hsaved : s.saved = old.saved ++ [(t.key, blob)]) (metaType : UInt8) (ticketImported : Bool) :
    wpc (journaled env) (Accounted 1 old) (fun _ => Finished old) (fun _ => Pending k old)
      (pushRecord t metaType ticketImported) s := by
  unfold pushRecord
  apply wpc_bind
  refine wpc_conseq (h.reads (reads_of_calls (listRecords_calls t.appId))) ?_ fun _ _ _ h => h
  rintro rr s₁ - ⟨⟨pos, rfl⟩, -⟩
  have h₁ : Held old t true { s with pos := pos } := { h with }
  apply wpc_bind
  refine wpc_require h₁.cut (fun _ => ?_) fun _ => h₁.pending
  apply wpc_bind
  refine wpc_conseq (Transaction.save_held (by decide) h₁.cuts ?_) ?_ fun _ _ _ h => h
  · rintro s' rfl
    exact { h₁ with journal := ⟨_, _, _, by decide, rfl⟩ }
  rintro - s₂ - ⟨rfl, h₂⟩
  apply wpc_bind
  refine wpc_conseq (pushApplicationRecord_held h₂ _) ?_ fun _ _ _ h => h
  intro rc s₃ hcut₃ hs₃
  apply wpc_bind
  by_cases hrc : rc = 0
  swap
  · rw [if_neg hrc] at hs₃
    subst hs₃
    exact wpc_require h₂.cut (fun hok => (hrc hok).elim) fun _ => h₂.pending
  rw [if_pos hrc] at hs₃
  refine wpc_require hcut₃ (fun _ => ?_) fun hno => (hno hrc).elim
  -- from here on the install is there
  have hcomplete : Complete old t s₃ := by
    obtain ⟨-, hcontents, hplaceholders, hthere⟩ := h.filled
    subst hs₃
    refine { contents := hcontents, placeholders := hplaceholders, there := hthere
             saved := ⟨blob, hsaved⟩, record := ?_ }
    dsimp only
    rw [Function.update_self]
    exact key_mem_addKey t.key rr.2
  have hcut₃ : ∀ tmp, Accounted 1 old { s₃ with tmp } := by
    subst hs₃
    exact fun tmp => h₂.pushed _ tmp
  have hdone : ∀ {recordPushed ticketImported : Bool} {stage : String} (_ : Final stage) tmp,
      Accounted 1 old { s₃ with
        journal := some (some (t.json true recordPushed ticketImported stage)), tmp := tmp } :=
    fun hfinal tmp => .inr (.inl ⟨t, _, _, _, rfl, hfinal, { hcomplete with }⟩)
  have hwindow : ∀ j, Accounted 1 old { s₃ with journal := none, tmp := some (some j) } :=
    fun j => .inr (.inr ⟨rfl, .inr (.inr ⟨j, rfl⟩)⟩)
  apply wpc_bind
  refine wpc_lift (saveJournal_journaled hcut₃ (hwindow _) (hdone (by decide) none) ?_)
  apply wpc_bind
  refine wpc_lift (saveJournal_journaled (fun tmp => hdone (by decide) tmp) (hwindow _)
    (hdone (by decide) none) ?_)
  apply wpc_bind
  have hends : ∀ recovered, Finished old
      { s₃ with journal := none, tmp := none, recovered := recovered } :=
    fun recovered => ⟨rfl, t, { hcomplete with }⟩
  have hended : ∀ recovered, Accounted 1 old
      { s₃ with journal := none, tmp := none, recovered := recovered } :=
    fun recovered => .inr (.inr ⟨rfl, .inr (.inl (hends recovered).2)⟩)
  refine wpc_lift (removeJournal_journaled (fun tmp recovered => ?_) hended fun recovered detail => ?_)
  · exact .inr (.inl ⟨t, _, _, _, rfl, (by decide : Final "complete"), { hcomplete with }⟩)
  · exact ⟨hended recovered, hends recovered⟩

/-! ## The whole install -/

theorem finishInstall_going {manifest : NspManifest} {v : NspStream.Vars}
    (h : Going old name manifest.entries (NspStream.physical manifest) v.plan s)
    (atLeast15 : Bool) (cnmt : NspEntryInfo) :
    wpc (journaled env) (Accounted 1 old) (fun _ => Finished old) (fun _ => Pending k old)
      (finishInstall atLeast15 name manifest cnmt v) s := by
  unfold finishInstall
  apply wpc_bind
  refine wpc_conseq (h.reads (reads_of_calls (parseInstalledMeta_calls _ _)))
    (fun m s₁ _ h₁ => ?_) fun _ _ _ h => h
  obtain ⟨h₁, -⟩ := h₁
  split
  · exact ⟨h₁.cut, h₁.pending⟩
  apply wpc_bind
  refine wpc_conseq ((h₁.reads (validate_reads m))) (fun key s₂ _ h₂ => ?_) fun _ _ _ h => h
  obtain ⟨h₂, rfl, hnew, -⟩ := h₂
  rw [h₁.rest.db] at hnew
  -- from here on the journal names the key, which was not there before
  set t : Transaction := ⟨name, m.appId, keyOf m.header, v.plan⟩ with ht
  have hcuts : ∀ tmp, Accounted 1 old { s₂ with tmp } :=
    fun tmp => Going.cut { h₂ with rest := { h₂.rest with } }
  apply wpc_bind
  refine wpc_conseq (Transaction.save_held (t := t) (by decide) hcuts ?_) ?_ fun _ _ _ h => h
  · rintro s' rfl
    exact { filled := h₂.filled, db := h₂.rest.db, saved := h₂.rest.saved
            userDb := h₂.rest.userDb, records := h₂.rest.records, padding := rfl
            journal := ⟨_, _, _, by decide, rfl⟩ }
  rintro - s₃ - ⟨-, h₃⟩
  apply wpc_bind
  refine wpc_conseq (setMeta_held h₃ hnew _) (fun _ s₄ _ h₄ => ?_) fun _ _ _ h => h
  obtain ⟨h₄, hsaved⟩ := h₄
  apply wpc_bind
  refine wpc_conseq (importRights_held h₄ hsaved _ _) (fun ticketImported s₅ _ h₅ => ?_)
    fun _ _ _ h => h
  obtain ⟨h₅, hsaved₅⟩ := h₅
  apply wpc_bind
  have hticket : wpc (journaled env) (Accounted 1 old) (fun _ s' => Held old t true s' ∧
      s'.saved = old.saved ++ [(t.key, NspCnmt.buildMetaDbBlob m cnmt)]) (fun _ => Pending k old)
      (saveTicket t ticketImported) s₅ := by
    unfold saveTicket
    split
    · refine wpc_conseq (Transaction.save_held (by decide) h₅.cuts ?_) ?_ fun _ _ _ h => h
      · rintro s' rfl
        exact { h₅ with journal := ⟨_, _, _, by decide, rfl⟩ }
      · rintro - s₆ - ⟨rfl, h₆⟩
        exact ⟨h₆, hsaved₅⟩
    · exact ⟨h₅.cut, h₅, hsaved₅⟩
  refine wpc_conseq hticket (fun _ s₆ _ h₆ => ?_) fun _ _ _ h => h
  obtain ⟨h₆, hsaved₆⟩ := h₆
  apply wpc_bind
  refine wpc_conseq (pushRecord_held h₆ hsaved₆ _ _) (fun _ s₇ hcut₇ h₇ => ?_) fun _ _ _ h => h
  exact ⟨hcut₇, h₇⟩

/-- The install failed, and there is no journal. -/
def Failed (k : ℕ) (old s : World) : Prop :=
  s.journal = none ∧ s.tmp = none ∧ Restored k old s

theorem Accounted.mono {k' : ℕ} (h : Accounted k old s) (hk : k ≤ k') : Accounted k' old s := by
  rcases h with hpending | hdone | ⟨hj, hrestored | hcomplete | hwindow⟩
  · exact .inl (hpending.mono hk)
  · exact .inr (.inl hdone)
  · exact .inr (.inr ⟨hj, .inl { hrestored with left := hrestored.left.mono hk }⟩)
  · exact .inr (.inr ⟨hj, .inr (.inl hcomplete)⟩)
  · exact .inr (.inr ⟨hj, .inr (.inr hwindow)⟩)

theorem transact_going {c : Console} {manifest : NspManifest} {v : NspStream.Vars}
    (h : Going old name manifest.entries [] v.plan c.card) (hk : Distinct manifest ∨ 1 ≤ k)
    (hle : k ≤ 1) (atLeast15 : Bool) (cnmt : NspEntryInfo) :
    wpc (dependable env) (fun c => Accounted 1 old c.card) (fun _ c => Finished old c.card)
      (fun _ c => Failed k old c.card) (transact atLeast15 name manifest cnmt v) c := by
  have hrollback : ∀ e (c' : Console), Pending k old c'.card →
      wpc (dependable env) (fun c => Accounted 1 old c.card) (fun _ c => Finished old c.card)
        (fun _ c => Failed k old c.card)
        (do
          let _ ← Throws.lift recoverStaleRealInstall
          throw e : Throws FnI Failure Installed) c' := by
    intro e c' h'
    apply wpc_bind
    apply wpc_lift
    refine wp_conseq (recover_dependable (recover_pending h')) (fun _ h => h.mono hle)
      fun r c'' hcut hr => ?_
    exact ⟨hcut.mono hle, hr.2⟩
  unfold transact
  apply wpc_catch
  apply wpc_bind
  refine wpc_conseq (wpc_dependable (streamContents_going h hk)) ?_ fun e c' _ => hrollback e c'
  intro v' c₁ _ h₁
  refine wpc_conseq (wpc_dependable (finishInstall_going (k := k) h₁ atLeast15 cnmt))
    (fun _ _ _ h => h) fun e c' _ => ?_
  exact hrollback e c'

/-- A card that has no journal yet. -/
structure Untouched (old s : World) : Prop where
  journal : s.journal = none
  tmp : s.tmp = none
  storage : s.storage = old.storage
  db : s.db = old.saved
  saved : s.saved = old.saved
  userDb : s.userDb = old.userDb
  records : s.records = old.records

theorem Untouched.restored (h : Untouched old s) : Restored k old s := by
  refine { left := ⟨[], [], 0, ?_, ?_, fun _ => h.records, Nat.zero_le k⟩
           db := h.db, saved := h.saved, userDb := h.userDb }
  · rw [h.storage, List.append_nil]
  · rw [h.storage, List.append_nil]

theorem Untouched.failed (h : Untouched old s) : Failed k old s := ⟨h.journal, h.tmp, h.restored⟩

theorem Untouched.cut (h : Untouched old s) : Accounted 1 old s :=
  .inr (.inr ⟨h.journal, .inl h.restored⟩)

theorem Untouched.reads {ε α : Type} {p : Throws FnI ε α} {F : α → Prop} (hp : Reads env s p F)
    (h : Untouched old s) :
    wpc (journaled env) (Accounted 1 old) (fun a s' => Untouched old s' ∧ F a)
      (fun _ => Failed k old) p s :=
  hp.wpc journaled_ncm (fun _ => Untouched.cut { h with }) (fun _ _ hF => ⟨{ h with }, hF⟩)
    fun _ _ => Untouched.failed { h with }

theorem installManifest_untouched {c : Console} (h : Untouched old c.card) {manifest : NspManifest}
    (hk : Distinct manifest ∨ 1 ≤ k) (hle : k ≤ 1) (atLeast15 : Bool) (streamOffset : ℕ) :
    wpc (dependable env) (fun c => Accounted 1 old c.card) (fun _ c => Finished old c.card)
      (fun _ c => Failed k old c.card) (installManifest atLeast15 name manifest streamOffset) c := by
  unfold installManifest
  split
  · exact ⟨h.cut, h.failed⟩
  rename_i cnmt hcnmt
  apply wpc_bind
  refine wpc_conseq (wpc_dependable (h.reads (reads_of_streamCalls
    (streamOpenContext_calls (P := Quiet) trivial trivial trivial)))) (fun _ c₁ _ h₁ => ?_)
    fun _ _ _ h => h
  obtain ⟨h₁, -⟩ := h₁
  apply wpc_bind
  refine wpc_conseq (wpc_dependable (h₁.reads (plan_reads _))) (fun planned c₂ _ h₂ => ?_)
    fun _ _ _ h => h
  obtain ⟨h₂, hplanned⟩ := h₂
  rw [h₁.storage] at hplanned
  apply wpc_bind
  refine wpc_conseq (wpc_dependable (h₂.reads (reads_of_streamCalls (checkSpace_calls _))))
    (fun _ c₃ _ h₃ => ?_) fun _ _ _ h => h
  obtain ⟨h₃, -⟩ := h₃
  -- the first journal lists the plan, of which nothing is taken
  have hgoing : Going old name manifest.entries [] planned.1 { c₃.card with
      journal := some (some (Transaction.json ⟨name, 0, NspStream.provisionalKey, planned.1⟩
        false false false "stream-prepared"))
      tmp := none } := by
    constructor
    · refine { pre := fun p hp => (hplanned p hp).1, idle := fun p hp => (hplanned p hp).2.1
               taken := fun p hp hyes => ?_, listed := fun p hp => (hplanned p hp).2.2.2 }
      rw [(hplanned p hp).2.2.1] at hyes
      exact Bool.noConfusion hyes
    · refine ⟨[], ?_, fun c hc => (List.not_mem_nil hc).elim⟩
      rw [List.append_nil]
      exact congrArg NspStream.Storage.contents h₃.storage
    · exact congrArg NspStream.Storage.placeholders h₃.storage
    · exact fun e he => (List.not_mem_nil he).elim
    · exact ⟨h₃.db, h₃.saved, h₃.userDb, h₃.records⟩
    · exact ⟨_, by decide, rfl⟩
  apply wpc_bind
  have hcuts : ∀ tmp, Accounted 1 old { c₃.card with tmp } :=
    fun tmp => .inr (.inr ⟨h₃.journal, .inl { h₃.restored with }⟩)
  have hcovered := hgoing.covered (k := 1) NspStream.provisionalKey
  refine wpc_conseq (wpc_dependable (streaming_save (by decide) hcuts { hcovered with } name)) ?_
    fun _ _ _ h => h
  rintro - c₄ - hc₄
  rw [← hc₄] at hgoing
  exact transact_going (v := { streamOffset, plan := planned.1 }) hgoing hk hle atLeast15 cnmt

/-- No package that the stream begins with has two contents of one id. -/
def StreamDistinct (stream : Bytes) (packageSize : ℕ) : Prop :=
  ∀ (n : ℕ) (manifest : NspManifest) (consumed : ℕ) (w : Bool),
    Nsp.parseStreamManifest packageSize (stream.take n) false = .ok ((manifest, consumed), w) →
      Distinct manifest

theorem install_untouched {c : Console} (h : Untouched old c.card) (hpos : c.card.pos = 0)
    {packageSize : ℕ} (hk : StreamDistinct env.stream packageSize ∨ 1 ≤ k) (hle : k ≤ 1)
    (atLeast15 : Bool) :
    wpc (dependable env) (fun c => Accounted 1 old c.card) (fun _ c => Finished old c.card)
      (fun _ c => Failed k old c.card)
      (installNspStreamToSdTransactional atLeast15 name packageSize) c := by
  unfold installNspStreamToSdTransactional
  apply wpc_bind
  -- there is nothing to be recovered
  have hnothing : wp (reliable env) (Accounted 1 old) (fun r s => r.1 = true ∧ s = c.card)
      recoverStaleRealInstall c.card := recover_none h.journal h.cut ⟨rfl, rfl⟩
  refine wpc_conseq (wpc_lift (recover_dependable hnothing)) ?_ fun _ _ _ h => h
  rintro recovery c₁ - ⟨hok, hc₁⟩
  rw [← hc₁] at h hpos
  apply wpc_bind
  refine wpc_require h.cut (fun _ => ?_) fun hno => (hno hok).elim
  apply wpc_bind
  refine wpc_call (C := fun c : Console => Accounted 1 old c.card) h.cut fun found c₂ hc₂ => ?_
  obtain ⟨⟨⟨hcard, -⟩, -⟩, -⟩ := hc₂
  rw [← hcard] at h hpos
  refine ⟨h.cut, ?_⟩
  apply wpc_bind
  refine wpc_require h.cut (fun _ => ?_) fun _ => h.failed
  apply wpc_bind
  have hparsed : wpc (journaled env) (Accounted 1 old)
      (fun r s => Untouched old s ∧ ∃ n w,
        Nsp.parseStreamManifest packageSize (env.stream.take n) false = .ok (r, w))
      (fun _ => Failed k old) (parseStreamManifest packageSize) c₂.card := by
    refine wpc_of_moved (parseStreamManifest_streamed hpos packageSize) journaled_ncm
      (fun _ => Untouched.cut { h with }) ?_ fun _ _ => Untouched.failed { h with }
    rintro r pos ⟨n, w, hparse⟩
    exact ⟨{ h with }, n, w, hparse⟩
  refine wpc_conseq (wpc_dependable hparsed) ?_ fun _ _ _ h => h
  rintro ⟨manifest, consumed⟩ c₃ - ⟨h₃, n, w, hparse⟩
  refine installManifest_untouched h₃ ?_ hle atLeast15 consumed
  rcases hk with hdistinct | hk
  · exact .inl (hdistinct n manifest consumed w hparse)
  · exact .inr hk

theorem untouched_start (hjournal : old.journal = none) (htmp : old.tmp = none)
    (hdb : old.db = old.saved) : Untouched old { old with pos := 0 } :=
  ⟨hjournal, htmp, rfl, hdb, rfl, rfl, rfl⟩

/-- With nothing left, the card is as it was, and so is the console but for tickets. -/
theorem Failed.eq (h : Failed 0 old s) (hjournal : old.journal = none) (htmp : old.tmp = none)
    (hdb : old.db = old.saved) :
    s = { old with pos := s.pos, tickets := s.tickets, recovered := s.recovered } := by
  obtain ⟨hj, ht, ⟨cs, phs, n, hcs, hphs, hn, hle⟩, hdb', hsaved, huserDb⟩ := h
  obtain rfl : cs = [] := List.eq_nil_of_length_eq_zero (by omega)
  obtain rfl : phs = [] := List.eq_nil_of_length_eq_zero (by omega)
  have hrecords := hn (by omega)
  rw [List.append_nil] at hcs hphs
  obtain ⟨pos, ⟨contents, placeholders⟩, db, saved, userDb, records, tickets, journal, tmp,
    recovered⟩ := s
  obtain ⟨pos₀, ⟨contents₀, placeholders₀⟩, db₀, saved₀, userDb₀, records₀, tickets₀, journal₀, tmp₀,
    recovered₀⟩ := old
  dsimp only at *
  subst hj ht hcs hphs hdb' hsaved huserDb hrecords hjournal htmp hdb
  rfl

/-- **An install is there or it is not.**  Where the calls that write, move, read and remove the
journal work, and those of a rollback once it has opened the journal, an install of a package whose
contents have ids of their own, whatever its other calls return, comes to one of two ends: it
reports success, and all contents of the plan, the key and the record are there and no journal is;
or it reports a failure, and everything is as it was before, but for an imported ticket. -/
theorem install_atomic (hjournal : old.journal = none) (htmp : old.tmp = none)
    (hdb : old.db = old.saved) {packageSize : ℕ}
    (hdistinct : StreamDistinct env.stream packageSize) {atLeast15 : Bool} {displayName : Bytes}
    {r : Except Failure Installed} {c : Console}
    (hrun : Run (dependable env)
      (installNspStreamToSdTransactional atLeast15 displayName packageSize).run
      ⟨{ old with pos := 0 }, false⟩ (some r) c) :
    (∃ i, r = .ok i ∧ Finished old c.card) ∨ ∃ e, r = .error e ∧
      c.card = { old with
        pos := c.card.pos, tickets := c.card.tickets, recovered := c.card.recovered } := by
  have hstart := untouched_start hjournal htmp hdb
  have hend := wp_sound (install_untouched (c := ⟨{ old with pos := 0 }, false⟩) (k := 0) hstart rfl
    (.inl hdistinct) (Nat.zero_le 1) atLeast15) hrun
  cases r with
  | ok i => exact .inl ⟨i, rfl, hend⟩
  | error e => exact .inr ⟨e, rfl, Failed.eq hend hjournal htmp hdb⟩

/-- The meta database is not committed. -/
def uncommitted (s : World) : (fn : Fn) → fn.Res × World
  | .MetaCommit => (1, s)
  | fn => answers pairEnv s fn

/-- The pair is sent to a card on which the commit fails until the journal is opened. -/
def uncommittedInstall : Except Failure Installed × Console :=
  Throws.exec (I := FnI)
    (fun c fn => c.answer (if c.undoing then answers pairEnv else uncommitted) fn)
    (installNspStreamToSdTransactional true [] 149) ⟨{ played with pos := 0 }, false⟩

theorem uncommittedInstall_ends :
    Run (dependable pairEnv) (installNspStreamToSdTransactional true [] 149).run
      ⟨{ played with pos := 0 }, false⟩ (some uncommittedInstall.1) uncommittedInstall.2 := by
  refine Throws.exec_ends (I := FnI) (fun c fn => ?_) _ _
  apply dependable_answer
  · split
    · exact (reliable_answers pairEnv c.card fn).1
    · cases fn with
      | MetaCommit => exact ⟨rfl, trivial⟩
      | _ => exact (reliable_answers pairEnv c.card _).1
  · intro hc
    rw [if_pos hc]
    exact (reliable_answers pairEnv c.card fn).2

set_option maxRecDepth 8000 in
theorem pair_distinct : StreamDistinct pairEnv.stream 149 := by
  have hwhole : Nsp.parseStreamManifest 149 pairEnv.stream false
      = .ok ((NspStream.pairManifest 3, 143), false) := by rfl
  intro n manifest consumed w h
  have hsame := (parseStreamManifest_take h).symm.trans hwhole
  cases hsame
  unfold Distinct
  decide

set_option maxRecDepth 8000 in
/-- The whole package was read, and the rollback has taken it back. -/
theorem install_atomic_uncommitted :
    uncommittedInstall.2.undoing = true ∧ ∃ e, uncommittedInstall.1 = .error e ∧
      uncommittedInstall.2.card = { played with
        pos := 149, tickets := [], recovered := false } := by
  have hundoing : uncommittedInstall.2.undoing = true := by decide
  have hfails : uncommittedInstall.1.toOption.isNone = true := by decide
  have hpos : uncommittedInstall.2.card.pos = 149 := by decide
  have htickets : uncommittedInstall.2.card.tickets = [] := by decide
  have hrecovered : uncommittedInstall.2.card.recovered = false := by decide
  rcases install_atomic rfl rfl rfl pair_distinct uncommittedInstall_ends with ⟨i, hi, -⟩ | hend
  · rw [hi] at hfails
    cases hfails
  · obtain ⟨e, he, hcard⟩ := hend
    rw [hpos, htickets, hrecovered] at hcard
    exact ⟨hundoing, e, he, hcard⟩

/-- What happens after the install was cut: the console is switched off and on, or the recovery is
run, and it can be cut as well. -/
inductive Recovering : World → World → Prop where
  | reboot {s : World} : Recovering s (reboot s)
  | recover {s s' : World} {out : Option (Bool × Option Bytes)} (env : Env)
      (h : Run (reliable env) recoverStaleRealInstall s out s') : Recovering s s'

theorem Recovering.accounted (hstep : Recovering s s') (h : Accounted k old s) :
    Accounted k old s' := by
  cases hstep with
  | reboot => exact h.reboot
  | recover env hrun => exact wp_end (recover_accounted h) hrun

/-- **A cut install is taken back.**  Where the calls that write, move, read and remove the journal
work, and those of a rollback or a recovery once it has opened the journal: wherever an install is
cut, and whatever number of restarts and cut recoveries follow, the first recovery that comes to its
end reports success and leaves the card without a journal: as it was, but for one object at most; or
with the whole install; or, where the cut was between the removal of one text of the journal and the
renaming of the next, with that text still beside its place. -/
theorem cut_install_recovered {c : Console} {s₂ s₃ : World} (hjournal : old.journal = none)
    (htmp : old.tmp = none) (hdb : old.db = old.saved) {packageSize : ℕ} {atLeast15 : Bool}
    {displayName : Bytes} {out : Option (Except Failure Installed)}
    (hinstall : Run (dependable env)
      (installNspStreamToSdTransactional atLeast15 displayName packageSize).run
      ⟨{ old with pos := 0 }, false⟩ out c)
    (hrestarts : Relation.ReflTransGen Recovering c.card s₂) {env' : Env} {r : Bool × Option Bytes}
    (hrecovery : Run (reliable env') recoverStaleRealInstall s₂ (some r) s₃) :
    r.1 = true ∧ s₃.journal = none ∧
      (Restored 1 old s₃ ∨ (∃ t, Complete old t s₃) ∨ ∃ j, s₃.tmp = some (some j)) := by
  have hstart := untouched_start hjournal htmp hdb
  have h₁ : Accounted 1 old c.card :=
    wp_end (C := fun c : Console => Accounted 1 old c.card) (install_untouched
      (c := ⟨{ old with pos := 0 }, false⟩) (k := 1) hstart rfl (.inr (le_refl 1)) (le_refl 1)
      atLeast15) hinstall
  have h₂ : Accounted 1 old s₂ := by
    clear hrecovery
    induction hrestarts with
    | refl => exact h₁
    | tail _ hstep ih => exact hstep.accounted ih
  exact wp_sound (recover_accounted h₂) hrecovery

/-- The install of the pair is cut behind the registration of its second content. -/
def brokenInstall : Option (Except Failure Installed) × Console :=
  (installNspStreamToSdTransactional true [] 149).run.follow (I := FnI)
    (Prog.firstCalls (I := FnI) 41 fun c fn => c.answer (answers pairEnv) fn) 0
    ⟨{ played with pos := 0 }, false⟩

/-- After a restart its recovery is cut as well. -/
def brokenRecovery : Option (Bool × Option Bytes) × World :=
  recoverStaleRealInstall.follow (I := FnI) (Prog.firstCalls (I := FnI) 7 (answers pairEnv)) 0
    (reboot brokenInstall.2.card)

/-- After another restart the recovery comes to its end. -/
def wholeRecovery : Option (Bool × Option Bytes) × World :=
  recoverStaleRealInstall.follow (I := FnI) (Prog.firstCalls (I := FnI) 100 (answers pairEnv)) 0
    (reboot brokenRecovery.2)

set_option maxRecDepth 8000 in
/-- The content that the journal did not list yet is left. -/
theorem cut_install_recovered_broken :
    brokenInstall.1.isNone = true ∧ brokenRecovery.1.isNone = true ∧
    wholeRecovery.2.storage.contents.length = 2 ∧
    ∃ detail, wholeRecovery.1 = some (true, detail) ∧ wholeRecovery.2.journal = none ∧
      (Restored 1 played wholeRecovery.2 ∨ (∃ t, Complete played t wholeRecovery.2) ∨
        ∃ j, wholeRecovery.2.tmp = some (some j)) := by
  have hinstall : Run (dependable pairEnv) (installNspStreamToSdTransactional true [] 149).run
      ⟨{ played with pos := 0 }, false⟩ brokenInstall.1 brokenInstall.2 :=
    Prog.follow_firstCalls (I := FnI) (fun c fn => dependable_answer
      (reliable_answers pairEnv c.card fn).1 fun _ => (reliable_answers pairEnv c.card fn).2) 41 _ _
  have hbroken : Recovering (reboot brokenInstall.2.card) brokenRecovery.2 :=
    .recover pairEnv (Prog.follow_firstCalls (I := FnI) (reliable_answers pairEnv) 7 _ _)
  have hwhole : Run (reliable pairEnv) recoverStaleRealInstall (reboot brokenRecovery.2)
      wholeRecovery.1 wholeRecovery.2 :=
    Prog.follow_firstCalls (I := FnI) (reliable_answers pairEnv) 100 _ _
  have hends : wholeRecovery.1.isSome = true := by decide
  refine ⟨by decide, by decide, by decide, ?_⟩
  cases hr : wholeRecovery.1 with
  | none =>
    rw [hr] at hends
    cases hends
  | some r =>
    rw [hr] at hwhole
    obtain ⟨hok, hend⟩ := cut_install_recovered rfl rfl rfl hinstall
      (((Relation.ReflTransGen.single .reboot).tail hbroken).tail .reboot) hwhole
    exact ⟨r.2, by rw [← hok], hend⟩

end NspInstall
