/-
# What an install leaves alone

Contents, placeholders and metas that were on the card before are there afterwards, whatever fails
and wherever the program is cut, over any number of installs.  The plan of an install marks what was
there, no journal lists what is marked, and a recovery deletes what its journal lists; so this is an
invariant of the card with the texts of the journal on it.
-/
import AioMod.NspInstallCalls
import AioMod.NspJournalSpec

namespace NspInstall

open Nsp (NspEntryInfo NspManifest ErrorCode text)
open NspJournal (NcmId NcmContentMetaKey Json PlannedContent)
open NspStream (Failure Storage Content Placeholder toNcmId contentId)
open Throws (wpc wpc_bind wpc_call wpc_conseq wpc_require wpc_pure wpc_throw wpc_lift wpc_catch)

/-! ## What is guarded -/

/-- Some of what is on the card. -/
structure Guarded where
  contents : List Content
  placeholders : List Placeholder
  metas : MetaDatabase

/-- A call that does not touch what is guarded. -/
def SparesNcm (G : Guarded) : Fn → Prop
  | .Delete id => ∀ c ∈ G.contents, c.id ≠ id
  | .DeletePlaceHolder ph => ∀ p ∈ G.placeholders, p.id ≠ ph
  | .WritePlaceHolder ph _ _ => ∀ p ∈ G.placeholders, p.id ≠ ph
  | .Register _ ph => ∀ p ∈ G.placeholders, p.id ≠ ph
  | .MetaRemove key => ∀ m ∈ G.metas, m.1 ≠ key
  | .MetaSet key _ => ∀ m ∈ G.metas, m.1 ≠ key
  | .writeTmp _ => False
  | _ => True

/-- A journal whose recovery does not touch it. -/
def SparesJournal (G : Guarded) (j : Json) : Prop := (recoverJournal j).run.Calls (SparesNcm G)

/-- A call that does not touch it, nor will when it is recovered. -/
def Spares (G : Guarded) : Fn → Prop
  | .writeTmp j => SparesJournal G j
  | fn => SparesNcm G fn

/-- What is guarded is there, and no text of a journal is a danger to it. -/
structure Kept (G : Guarded) (s : World) : Prop where
  contents : ∀ c ∈ G.contents, c ∈ s.storage.contents
  placeholders : ∀ p ∈ G.placeholders, p ∈ s.storage.placeholders
  db : ∀ m ∈ G.metas, m ∈ s.db
  saved : ∀ m ∈ G.metas, m ∈ s.saved
  journal : ∀ j, s.journal = some (some j) → SparesJournal G j
  tmp : ∀ j, s.tmp = some (some j) → SparesJournal G j

variable {env : Env} {G : Guarded} {s s' : World}

/-! ## One call -/

theorem Kept.remove (h : Kept G s) {key : NcmContentMetaKey} (hkey : ∀ m ∈ G.metas, m.1 ≠ key) :
    ∀ m ∈ G.metas, m ∈ remove s.db key := by
  intro m hm
  exact List.mem_filter.mpr ⟨h.db m hm, decide_eq_true (hkey m hm)⟩

theorem Kept.write (h : Kept G s) {ph : NcmId} (hph : ∀ p ∈ G.placeholders, p.id ≠ ph)
    (offset : ℕ) (data : Bytes) :
    ∀ p ∈ G.placeholders, p ∈ (s.storage.write ph offset data).placeholders := by
  intro p hp
  refine List.mem_map.mpr ⟨p, h.placeholders p hp, ?_⟩
  rw [if_neg (hph p hp)]

theorem Kept.withoutPlaceHolder (h : Kept G s) {ph : NcmId}
    (hph : ∀ p ∈ G.placeholders, p.id ≠ ph) :
    ∀ p ∈ G.placeholders, p ∈ s.storage.placeholders.filter fun p => p.id ≠ ph := by
  intro p hp
  exact List.mem_filter.mpr ⟨h.placeholders p hp, decide_eq_true (hph p hp)⟩

/-- A call that spares what is guarded keeps it. -/
theorem Kept.step {fn : Fn} {r : fn.Res} (h : Kept G s) (hstep : ncm env s fn r s')
    (hfn : Spares G fn) : Kept G s' := by
  cases fn with
  | Delete id =>
    obtain rfl : s' = _ := hstep
    split
    · refine { h with contents := fun c hc => ?_ }
      exact List.mem_filter.mpr ⟨h.contents c hc, decide_eq_true (hfn c hc)⟩
    · exact h
  | DeletePlaceHolder ph =>
    obtain rfl : s' = _ := hstep
    split
    · exact { h with placeholders := h.withoutPlaceHolder hfn }
    · exact h
  | CreatePlaceHolder content ph size =>
    rw [ncm_create] at hstep
    split at hstep
    · obtain ⟨-, rfl⟩ := hstep
      exact { h with placeholders := fun p hp => List.mem_append_left _ (h.placeholders p hp) }
    · exact hstep ▸ h
  | WritePlaceHolder ph offset data =>
    obtain rfl : s' = _ := hstep
    split
    · exact { h with placeholders := h.write hfn offset data }
    · exact h
  | Register content ph =>
    rw [ncm_register] at hstep
    split at hstep
    · obtain ⟨-, rfl⟩ := hstep
      exact { h with
        contents := fun c hc => List.mem_append_left _ (h.contents c hc)
        placeholders := h.withoutPlaceHolder hfn }
    · exact hstep ▸ h
  -- the database is changed in memory, and saved by `MetaCommit` only
  | MetaSet key blob =>
    obtain rfl : s' = _ := hstep
    split
    · exact { h with db := fun m hm => List.mem_append_left _ (h.remove hfn m hm) }
    · exact h
  | MetaRemove key =>
    obtain rfl : s' = _ := hstep
    split
    · exact { h with db := h.remove hfn }
    · exact h
  | MetaCommit =>
    obtain rfl : s' = _ := hstep
    split
    · exact { h with saved := h.db }
    · exact h
  | ImportTicket tik cert =>
    obtain rfl : s' = _ := hstep
    split
    · exact { h with }
    · exact h
  | PushRecord appId records =>
    obtain rfl : s' = _ := hstep
    split
    · exact { h with }
    · exact h
  | readExact size =>
    cases r with
    | none =>
      obtain ⟨pos, rfl⟩ := hstep
      exact { h with }
    | some data =>
      obtain ⟨-, rfl⟩ := hstep
      exact { h with }
  -- a journal text, wherever it stands, names nothing that is guarded
  | openTmp =>
    obtain rfl : s' = _ := hstep
    split
    · exact { h with tmp := by rintro j ⟨⟩ }
    · exact h
  | writeTmp journal =>
    obtain rfl : s' = _ := hstep
    refine { h with tmp := ?_ }
    rintro j hj
    split at hj
    · cases hj
      exact hfn
    · cases hj
  | renameTmp =>
    rw [ncm_renameTmp] at hstep
    split at hstep
    · obtain ⟨-, rfl⟩ := hstep
      exact { h with journal := h.tmp, tmp := by rintro j ⟨⟩ }
    · exact hstep ▸ h
  | removeTmp =>
    obtain rfl : s' = _ := hstep
    split
    · exact { h with tmp := by rintro j ⟨⟩ }
    · exact h
  | removeRecovered =>
    obtain rfl : s' = _ := hstep
    split
    · exact { h with }
    · exact h
  | removeActive =>
    obtain rfl : s' = _ := hstep
    split
    · exact { h with journal := by rintro j ⟨⟩ }
    · exact h
  | renameActive =>
    rw [ncm_renameActive] at hstep
    split at hstep
    · obtain ⟨-, rfl⟩ := hstep
      exact { h with journal := by rintro j ⟨⟩ }
    · exact hstep ▸ h
  | Has | HasPlaceHolder | fsDirGetEntryCount | fsDirRead | fsFileRead | MetaHas
  | GetLatestContentMetaKey | ListRecords | existsJournal | openJournal | existsActive =>
    exact hstep.1 ▸ h
  | _ => exact (show s' = s from hstep) ▸ h

/-- A program whose calls all spare what is guarded. -/
theorem kept_of_calls {ε α : Type} {p : Throws FnI ε α} (hp : p.run.Calls (Spares G))
    (hs : Kept G s) :
    wpc (ncm env) (Kept G) (fun _ => Kept G) (fun _ => Kept G) p s :=
  Throws.wpc_of_calls hp (fun _ _ _ _ hfn h hstep => h.step hstep hfn) hs

/-- What only reads keeps everything. -/
theorem Kept.reads {ε α : Type} {p : Throws FnI ε α} {F : α → Prop} (hp : Reads env s p F)
    (h : Kept G s) :
    wpc (ncm env) (Kept G) (fun a s' => Kept G s' ∧ F a) (fun _ => Kept G) p s :=
  hp.wpc (fun _ _ _ _ h => h) (fun _ => { h with }) (fun _ _ hF => ⟨{ h with }, hF⟩)
    fun _ _ => { h with }

/-! ## The recovery -/

theorem Spares.of_ncm {fn : Fn} (h : SparesNcm G fn) : Spares G fn := by
  cases fn with
  | writeTmp j => exact h.elim
  | _ => exact h

section calls

variable {P : Fn → Prop} {ε α : Type}

theorem calls_json (r : Option α) : (json r).run.Calls P := by
  cases r with
  | none => exact trivial
  | some a => exact trivial

end calls

theorem removeJournal_calls : removeJournal.Calls (SparesNcm G) := by
  unfold removeJournal
  refine Prog.calls_bind (calls_op trivial) fun _ => ?_
  refine Prog.calls_bind (calls_op trivial) fun _ => ?_
  refine Prog.calls_bind (calls_op trivial) fun _ => ?_
  refine Prog.calls_bind (calls_op trivial) fun r => ?_
  split
  · exact trivial
  · refine Prog.calls_bind (calls_op trivial) fun ec => ?_
    split
    · refine Prog.calls_bind (calls_op trivial) fun _ => ?_
      refine Prog.calls_bind (calls_op trivial) fun r => ?_
      split <;> exact trivial
    · exact trivial

theorem clear_calls (failed done : Bytes) : (clear failed done).run.Calls (SparesNcm G) := by
  unfold clear
  refine Throws.calls_bind (Throws.calls_lift removeJournal_calls) fun r => ?_
  refine Throws.calls_bind (Throws.calls_require _ _) fun _ => ?_
  exact Throws.calls_pure _

theorem openContext_calls : openContext.run.Calls (SparesNcm G) := by
  apply Prog.calls_bind (calls_streaming (streamOpenContext_calls trivial trivial trivial))
  rintro ((d | _) | _) <;> exact trivial

/-- What a journal would delete of what is guarded: nothing. -/
structure ListsOthers (G : Guarded) (j : Json) : Prop where
  metas : j.valueBool "meta_set" false = some true → ∀ key, NspJournal.metaKeyOf j = some key →
    ∀ m ∈ G.metas, m.1 ≠ key
  contents : ∀ items, j.field "contents" = some (some items) → ∀ x ∈ items.items, ∀ cid,
    NspJournal.undoOf x = some (.deleteContent cid) → ∀ c ∈ G.contents, c.id ≠ toNcmId cid
  placeholders : ∀ items, j.field "contents" = some (some items) → ∀ x ∈ items.items, ∀ ph,
    NspJournal.undoOf x = some (.deletePlaceHolder ph) → ∀ p ∈ G.placeholders, p.id ≠ toNcmId ph

theorem undoMeta_calls {j : Json} (h : ListsOthers G j) :
    (undoMeta j).run.Calls (SparesNcm G) := by
  unfold undoMeta
  cases hset : j.valueBool "meta_set" false with
  | none => exact trivial
  | some metaSet =>
    rw [json_some, Throws.pure_bind]
    refine Throws.calls_ite (fun hset' => ?_) fun _ => Throws.calls_pure _
    cases hkey : NspJournal.metaKeyOf j with
    | none => exact trivial
    | some key =>
      rw [json_some, Throws.pure_bind]
      refine Throws.calls_bind (Throws.calls_call ?_) fun _ => ?_
      · exact h.metas (hset' ▸ hset) key hkey
      · refine Throws.calls_bind (Throws.calls_call trivial) fun _ => ?_
        exact Throws.calls_pure _

/-- What is read of a content decides what is deleted. -/
theorem undoContent_calls {x : Json}
    (hcontent : ∀ cid, NspJournal.undoOf x = some (.deleteContent cid) →
      ∀ c ∈ G.contents, c.id ≠ toNcmId cid)
    (hplaceholder : ∀ ph, NspJournal.undoOf x = some (.deletePlaceHolder ph) →
      ∀ p ∈ G.placeholders, p.id ≠ toNcmId ph) :
    (undoContent x).run.Calls (SparesNcm G) := by
  unfold undoContent
  cases hundo : NspJournal.undoOf x with
  | none => exact trivial
  | some u =>
    rw [json_some, Throws.pure_bind]
    cases u with
    | deleteContent cid =>
      refine Throws.calls_bind (Throws.calls_call trivial) fun r => ?_
      refine Throws.calls_ite (fun _ => ?_) fun _ => Throws.calls_pure _
      refine Throws.calls_bind (Throws.calls_call ?_) fun _ => Throws.calls_pure _
      exact hcontent cid hundo
    | deletePlaceHolder ph =>
      refine Throws.calls_bind (Throws.calls_call trivial) fun r => ?_
      refine Throws.calls_ite (fun _ => ?_) fun _ => Throws.calls_pure _
      refine Throws.calls_bind (Throws.calls_call ?_) fun _ => Throws.calls_pure _
      exact hplaceholder ph hundo
    | nothing => exact trivial

theorem undoContents_calls {j : Json} (h : ListsOthers G j) :
    (undoContents j).run.Calls (SparesNcm G) := by
  unfold undoContents
  split
  · rename_i items hitems
    apply Throws.calls_forEach
    intro x hx
    have hx : x ∈ items.items := List.mem_reverse.mp hx
    exact undoContent_calls (h.contents items hitems x hx) (h.placeholders items hitems x hx)
  · exact trivial

theorem recoverInstall_calls {j : Json} (h : ListsOthers G j) :
    (recoverInstall j).run.Calls (SparesNcm G) := by
  unfold recoverInstall
  refine Throws.calls_bind (calls_json _) fun stage => ?_
  refine Throws.calls_ite (fun _ => clear_calls _ _) fun _ => ?_
  refine Throws.calls_bind openContext_calls fun _ => ?_
  refine Throws.calls_bind (undoMeta_calls h) fun _ => ?_
  refine Throws.calls_bind (undoContents_calls h) fun _ => ?_
  exact clear_calls _ _

/-- A recovery keeps what is guarded, because the journals on the card do not list it. -/
theorem recover_kept (h : Kept G s) :
    wp (ncm env) (Kept G) (fun _ => Kept G) recoverStaleRealInstall s := by
  unfold recoverStaleRealInstall
  apply wp_bind.mpr
  refine ⟨h, fun found s' hs => ⟨h.step hs trivial, ?_⟩⟩
  have h' : Kept G s' := h.step hs trivial
  dsimp only
  split
  · exact ⟨h', h'⟩
  · apply wp_bind.mpr
    have hopen : wpc (ncm env) (Kept G) (fun _ => Kept G) (fun _ => Kept G) openAndRecover s' := by
      unfold openAndRecover
      apply wpc_bind
      refine wpc_call h' fun t s'' ht => ⟨h'.step ht trivial, ?_⟩
      have h'' : Kept G s'' := h'.step ht trivial
      cases t with
      | none => exact ⟨h'', h''⟩
      | some t =>
        cases t with
        | none => exact ⟨h'', h''⟩
        | some j =>
          show wpc _ _ _ _ (recoverJournal j) _
          apply kept_of_calls ?_ h''
          exact Prog.Calls.mono (fun _ => Spares.of_ncm) (h'.journal j (ht.2 _ rfl))
    refine wp_conseq hopen (fun _ h => h) fun r s'' _ hr => ?_
    cases r with
    | ok done => exact ⟨hr, hr⟩
    | error detail => exact ⟨hr, hr⟩

/-! ## The journals of an install -/

/-- A plan that marks what is guarded: its contents were there before, its placeholders were not. -/
def Sparing (G : Guarded) (plan : List PlannedContent) : Prop :=
  ∀ p ∈ plan, (p.preExisting = false → ∀ c ∈ G.contents, c.id ≠ p.content_id) ∧
    (p.placeholderCreated = true → ∀ g ∈ G.placeholders, g.id ≠ p.placeholder)

/-- The journal of such a plan lists nothing that is guarded, unless its key is. -/
theorem spares_json {t : Transaction} (hplan : Sparing G t.plan)
    {metaSet : Bool} (hkey : metaSet = true → ∀ m ∈ G.metas, m.1 ≠ NspJournal.listed t.key)
    (recordPushed ticketImported : Bool) (stage : String) :
    SparesJournal G (t.json metaSet recordPushed ticketImported stage) := by
  set j := t.json metaSet recordPushed ticketImported stage with hj
  have hrecover : recoverJournal j = recoverInstall j := rfl
  unfold SparesJournal
  rw [hrecover]
  apply recoverInstall_calls
  have hfield : j.field "contents" = some (some (.arr (t.plan.map PlannedContent.json))) := rfl
  have hitem : ∀ items, j.field "contents" = some (some items) → ∀ x ∈ items.items,
      ∃ p ∈ t.plan, NspJournal.undoOf x = some p.undo := by
    intro items hitems x hx
    rw [hfield] at hitems
    cases hitems
    obtain ⟨p, hp, rfl⟩ := List.mem_map.mp (show x ∈ t.plan.map PlannedContent.json from hx)
    exact ⟨p, hp, NspJournal.undoOf_json p⟩
  constructor
  · intro hset key hmeta
    have hset' : some metaSet = some true := hset
    rw [show NspJournal.metaKeyOf j = _ from NspJournal.metaKeyOf_saveJournal ..] at hmeta
    cases hmeta
    exact hkey (Option.some.inj hset')
  · intro items hitems x hx cid hundo
    obtain ⟨p, hp, hxp⟩ := hitem items hitems x hx
    have hdelete := NspJournal.undo_eq_deleteContent.mp (Option.some.inj (hxp.symm.trans hundo))
    obtain ⟨hnewly, rfl⟩ := hdelete
    unfold PlannedContent.newly at hnewly
    rw [toNcmId_val]
    exact (hplan p hp).1 (by simpa using (Bool.and_eq_true_iff.mp hnewly).2)
  · intro items hitems x hx ph hundo
    obtain ⟨p, hp, hxp⟩ := hitem items hitems x hx
    have hdelete := NspJournal.undo_eq_deletePlaceHolder.mp
      (Option.some.inj (hxp.symm.trans hundo))
    obtain ⟨-, hcreated, rfl⟩ := hdelete
    rw [toNcmId_val]
    exact (hplan p hp).2 hcreated

theorem saveJournal_calls {j : Json} (h : SparesJournal G j) :
    (saveJournal j).Calls (Spares G) := by
  unfold saveJournal
  refine Prog.calls_bind (calls_op trivial) fun _ => ?_
  refine Prog.calls_bind (calls_op trivial) fun out => ?_
  refine Prog.calls_bind ?_ fun _ => ?_
  · split
    · exact calls_op h
    · exact trivial
  · refine Prog.calls_bind (calls_op trivial) fun ec => ?_
    split
    · exact trivial
    · refine Prog.calls_bind (calls_op trivial) fun _ => ?_
      exact Prog.calls_bind (calls_op trivial) fun _ => trivial

/-! ## The plan and the contents -/

theorem kept_of_streamCalls {α : Type} {p : NspStream.Installer α}
    (hp : p.run.Calls fun fn => (ofStream fn).Calls (Spares G)) (hs : Kept G s) :
    wpc (ncm env) (Kept G) (fun _ => Kept G) (fun _ => Kept G) (streaming p) s :=
  kept_of_calls (calls_streaming hp) hs

/-- The plan marks what is on the card. -/
theorem Planned.sparing {entries : List NspEntryInfo} {plan : List PlannedContent}
    (h : Planned s.storage entries plan) (hs : Kept G s) : Sparing G plan := by
  intro p hp
  obtain ⟨hpre, hcreated, -, -⟩ := h p hp
  refine ⟨fun hnew c hc heq => ?_, fun hyes => ?_⟩
  · have hfound : s.storage.has p.content_id = true :=
      List.any_eq_true.mpr ⟨c, hs.contents c hc, decide_eq_true heq⟩
    rw [← hpre, hnew] at hfound
    exact Bool.noConfusion hfound
  · rw [hcreated] at hyes
    exact Bool.noConfusion hyes

/-- A journal that is saved while the stream is read. -/
theorem save_kept {plan : List PlannedContent} (hplan : Sparing G plan) (h : Kept G s)
    (displayName : Bytes) (stage : String) :
    wpc (ncm env) (Kept G) (fun _ => Kept G) (fun _ => Kept G)
      (streaming (NspStream.save displayName plan stage)) s := by
  apply kept_of_streamCalls _ h
  apply Throws.calls_call
  apply saveJournal_calls
  exact spares_json (t := ⟨displayName, 0, NspStream.provisionalKey, plan⟩) hplan
    (by rintro ⟨⟩) false false stage

theorem Sparing.modify {plan : List PlannedContent} (h : Sparing G plan) (i : ℕ)
    {f : PlannedContent → PlannedContent}
    (hf : ∀ p ∈ plan, ((f p).preExisting = false → ∀ c ∈ G.contents, c.id ≠ (f p).content_id) ∧
      ((f p).placeholderCreated = true → ∀ g ∈ G.placeholders, g.id ≠ (f p).placeholder)) :
    Sparing G (plan.modify i f) := by
  intro q hq
  obtain ⟨k, hk⟩ := List.mem_iff_getElem?.mp hq
  rw [List.getElem?_modify] at hk
  split at hk
  · cases hget : plan[k]? with
    | none =>
      rw [hget] at hk
      cases hk
    | some p =>
      rw [hget] at hk
      cases hk
      exact hf p (List.mem_of_getElem? hget)
  · rw [id_map'] at hk
    exact h q (List.mem_of_getElem? hk)

/-- A content that is installed gets a placeholder of its own. -/
theorem installContent_kept {v : NspStream.Vars} (h : Kept G s) (hplan : Sparing G v.plan)
    (displayName : Bytes) (e : NspEntryInfo) (i : ℕ) :
    wpc (ncm env) (Kept G) (fun v' s' => Kept G s' ∧ Sparing G v'.plan) (fun _ => Kept G)
      (streaming (NspStream.installContent displayName v e i)) s := by
  unfold NspStream.installContent
  refine wpc_streaming_bind (wpc_streaming_call ⟨h, fun r s₁ hs₁ => ?_⟩)
  have h₁ : Kept G s₁ := h.step hs₁ trivial
  refine ⟨h₁, wpc_streaming_bind (wpc_streaming_require h₁ (fun _ => ?_) fun _ => h₁)⟩
  refine wpc_streaming_bind (wpc_streaming_call ⟨h₁, fun rc s₂ hs₂ => ?_⟩)
  have h₂ : Kept G s₂ := h₁.step hs₂ trivial
  refine ⟨h₂, wpc_streaming_bind (wpc_streaming_require h₂ (fun hrc => ?_) fun _ => h₂)⟩
  -- the placeholder is created, so its id is new
  have hnew : ∀ g ∈ G.placeholders, g.id ≠ r.2 := by
    have hcreate := ncm_create.mp hs₂
    rw [if_pos hrc] at hcreate
    intro g hg
    exact hcreate.1 g (h₁.placeholders g hg)
  have hwriting : Sparing G ((v.plan.modify i fun p => { p with placeholder := r.2 }).modify i
      fun p => { p with placeholderCreated := true }) := by
    rw [List.modify_modify_eq]
    apply hplan.modify i
    intro p hp
    exact ⟨(hplan p hp).1, fun _ => hnew⟩
  apply wpc_streaming_bind
  refine wpc_conseq (save_kept hwriting h₂ displayName _) (fun _ s₃ _ h₃ => ?_) fun _ _ _ h => h
  apply wpc_streaming_bind
  have hconsume := consumeLoop_calls (P := fun fn => (ofStream fn).Calls (Spares G))
    (NspStream.toPlaceholder r.2) (calls_op trivial) (fun _ => calls_op trivial) ?_ e.size e.name
    e.size 0 v.streamOffset v.installedNow
  · refine wpc_conseq (kept_of_streamCalls hconsume h₃) (fun _ s₄ _ h₄ => ?_) fun _ _ _ h => h
    refine wpc_streaming_bind (wpc_streaming_call ⟨h₄, fun rc s₅ hs₅ => ?_⟩)
    have h₅ : Kept G s₅ := h₄.step hs₅ hnew
    refine ⟨h₅, wpc_streaming_bind (wpc_streaming_require h₅ (fun _ => ?_) fun _ => h₅)⟩
    have hregistered := hwriting.modify i
      (f := fun p => { p with placeholderCreated := false, registered := true })
      fun p hp => ⟨(hwriting p hp).1, by rintro ⟨⟩⟩
    apply wpc_streaming_bind
    refine wpc_conseq (save_kept hregistered h₅ displayName _) (fun _ s₆ _ h₆ => ?_)
      fun _ _ _ h => h
    exact ⟨h₆, h₆, hregistered⟩
  · intro a data done
    unfold NspStream.toPlaceholder
    refine Throws.calls_bind (Throws.calls_call (calls_op hnew)) fun _ => ?_
    refine Throws.calls_bind (Throws.calls_require _ _) fun _ => ?_
    exact add_calls _ _

theorem streamData_kept {v : NspStream.Vars} (h : Kept G s) (hplan : Sparing G v.plan)
    (displayName : Bytes) (e : NspEntryInfo) :
    wpc (ncm env) (Kept G) (fun v' s' => Kept G s' ∧ Sparing G v'.plan) (fun _ => Kept G)
      (streaming (NspStream.streamData displayName v e)) s := by
  have hread : ∀ {p : NspStream.Installer NspStream.Vars},
      Reads env s (streaming p) (fun v' => v'.plan = v.plan) →
      wpc (ncm env) (Kept G) (fun v' s' => Kept G s' ∧ Sparing G v'.plan) (fun _ => Kept G)
        (streaming p) s := by
    intro p hp
    exact wpc_conseq (h.reads hp) (fun _ _ _ h => ⟨h.1, h.2 ▸ hplan⟩) fun _ _ _ h => h
  unfold NspStream.streamData
  split
  · split
    · exact ⟨h, h⟩
    · split
      · exact hread (skipTo_reads _ _ _)
      · exact installContent_kept h hplan displayName e _
  · split
    · exact hread (bufferAux_reads v e)
    · exact hread (skipTo_reads _ _ _)

theorem streamEntry_kept {v : NspStream.Vars} (h : Kept G s) (hplan : Sparing G v.plan)
    (displayName : Bytes) (e : NspEntryInfo) :
    wpc (ncm env) (Kept G) (fun v' s' => Kept G s' ∧ Sparing G v'.plan) (fun _ => Kept G)
      (streaming (NspStream.streamEntry displayName v e)) s := by
  unfold NspStream.streamEntry
  refine wpc_streaming_bind (wpc_streaming_require h (fun _ => ?_) fun _ => h)
  split
  · apply wpc_streaming_bind
    refine wpc_conseq (h.reads (reads_of_streamCalls (sub_calls _ _))) (fun _ s₁ _ h₁ => ?_)
      fun _ _ _ h => h
    apply wpc_streaming_bind
    refine wpc_conseq (h₁.1.reads (skipBytes_reads _ _ _)) (fun streamOffset s₂ _ h₂ => ?_)
      fun _ _ _ h => h
    exact streamData_kept h₂.1
      (show Sparing G { v with streamOffset := streamOffset }.plan from hplan) displayName e
  · exact streamData_kept h hplan displayName e

theorem streamContents_kept {v : NspStream.Vars} (h : Kept G s) (hplan : Sparing G v.plan)
    (displayName : Bytes) (manifest : NspManifest) :
    wpc (ncm env) (Kept G) (fun v' s' => Kept G s' ∧ Sparing G v'.plan) (fun _ => Kept G)
      (streaming (streamContents displayName manifest v)) s := by
  unfold streamContents
  apply wpc_streaming_bind
  rw [streaming_foldlM]
  refine Throws.wpc_foldlM (fun _ v s => Kept G s ∧ Sparing G v.plan) _ ?_ ?_ ⟨h, hplan⟩
  · rintro - e - v s' - ⟨hs, hv⟩
    exact streamEntry_kept hs hv displayName e
  · rintro v s' ⟨hs, hv⟩
    refine ⟨hs, ?_⟩
    exact wpc_conseq (hs.reads (finish_reads manifest v)) (fun _ _ _ h => ⟨h.1, h.2 ▸ hv⟩)
      fun _ _ _ h => h

/-! ## What follows the stream -/

theorem Spares.of_quiet {fn : Fn} (h : Quiet fn) : Spares G fn := by
  cases fn with
  | Delete | DeletePlaceHolder | WritePlaceHolder | Register | MetaSet | MetaRemove | writeTmp =>
    exact h.elim
  | _ => exact trivial

theorem pushApplicationRecord_calls (appId : UInt64)
    (records : List NspRecords.ContentStorageRecord) :
    (pushApplicationRecord appId records).run.Calls (Spares G) := by
  unfold pushApplicationRecord
  refine Throws.calls_bind (Throws.calls_call trivial) fun rc => ?_
  refine Throws.calls_ite (fun _ => Throws.calls_pure _) fun _ => ?_
  refine Throws.calls_bind (Throws.calls_call trivial) fun rc => ?_
  exact Throws.calls_ite (fun _ => Throws.calls_pure _) fun _ => Throws.calls_call trivial

section transaction

variable {t : Transaction} (hplan : Sparing G t.plan) (hlisted : NspJournal.listed t.key = t.key)
  (hkey : ∀ x ∈ G.metas, x.1 ≠ t.key)

include hplan hlisted hkey

theorem save_calls (metaSet recordPushed ticketImported : Bool) (stage : String) :
    (t.save metaSet recordPushed ticketImported stage).run.Calls (Spares G) := by
  apply Throws.calls_lift
  apply saveJournal_calls
  exact spares_json hplan (fun _ => hlisted.symm ▸ hkey) _ _ _

theorem setMeta_calls (blob : Bytes) : (setMeta t blob).run.Calls (Spares G) := by
  unfold setMeta
  refine Throws.calls_bind (save_calls hplan hlisted hkey _ _ _ _) fun _ => ?_
  refine Throws.calls_bind (Throws.calls_call hkey) fun _ => ?_
  refine Throws.calls_bind (Throws.calls_require _ _) fun _ => ?_
  refine Throws.calls_bind (Throws.calls_call trivial) fun _ => ?_
  refine Throws.calls_bind (Throws.calls_require _ _) fun _ => ?_
  exact save_calls hplan hlisted hkey _ _ _ _

theorem pushRecord_calls (metaType : UInt8) (ticketImported : Bool) :
    (pushRecord t metaType ticketImported).run.Calls (Spares G) := by
  unfold pushRecord
  refine Throws.calls_bind (Prog.Calls.mono (fun _ => Spares.of_quiet) (listRecords_calls _))
    fun rr => ?_
  refine Throws.calls_bind (Throws.calls_require _ _) fun _ => ?_
  refine Throws.calls_bind (save_calls hplan hlisted hkey _ _ _ _) fun _ => ?_
  refine Throws.calls_bind (pushApplicationRecord_calls _ _) fun _ => ?_
  refine Throws.calls_bind (Throws.calls_require _ _) fun _ => ?_
  refine Throws.calls_bind (save_calls hplan hlisted hkey _ _ _ _) fun _ => ?_
  refine Throws.calls_bind (save_calls hplan hlisted hkey _ _ _ _) fun _ => ?_
  refine Throws.calls_bind (Throws.calls_lift ?_) fun _ => Throws.calls_pure _
  exact Prog.Calls.mono (fun _ => Spares.of_ncm) removeJournal_calls

end transaction

theorem finishInstall_kept {v : NspStream.Vars} (h : Kept G s) (hplan : Sparing G v.plan)
    (atLeast15 : Bool) (displayName : Bytes) (manifest : NspManifest) (cnmt : NspEntryInfo) :
    wpc (ncm env) (Kept G) (fun _ => Kept G) (fun _ => Kept G)
      (finishInstall atLeast15 displayName manifest cnmt v) s := by
  unfold finishInstall
  apply wpc_bind
  refine wpc_conseq (h.reads (reads_of_calls (parseInstalledMeta_calls _ _)))
    (fun m s₁ _ h₁ => ?_) fun _ _ _ h => h
  obtain ⟨h₁, -⟩ := h₁
  split
  · exact ⟨h₁, h₁⟩
  · apply wpc_bind
    refine wpc_conseq (h₁.reads (validate_reads m)) (fun key s₂ _ h₂ => ?_) fun _ _ _ h => h
    obtain ⟨h₂, rfl, hnew, -⟩ := h₂
    have hlisted : NspJournal.listed (keyOf m.header) = keyOf m.header := rfl
    have hkey : ∀ x ∈ G.metas, x.1 ≠ keyOf m.header := fun x hx => hnew x (h₁.db x hx)
    apply kept_of_calls _ h₂
    have hsave := save_calls (t := ⟨displayName, m.appId, keyOf m.header, v.plan⟩) hplan hlisted hkey
    refine Throws.calls_bind (hsave _ _ _ _) fun _ => ?_
    refine Throws.calls_bind ?_ fun _ => ?_
    · exact setMeta_calls (t := ⟨displayName, m.appId, keyOf m.header, v.plan⟩) hplan hlisted hkey _
    refine Throws.calls_bind (importRights_calls (fun _ => Spares.of_quiet) (fun _ _ => trivial) _ _)
      fun ticketImported => ?_
    refine Throws.calls_bind ?_ fun _ => ?_
    · exact Throws.calls_ite (fun _ => hsave _ _ _ _) fun _ => Throws.calls_pure _
    · refine Throws.calls_bind ?_ fun _ => Throws.calls_pure _
      exact pushRecord_calls (t := ⟨displayName, m.appId, keyOf m.header, v.plan⟩) hplan hlisted hkey _ _

/-! ## Whole installs -/

theorem transact_kept {v : NspStream.Vars} (h : Kept G s) (hplan : Sparing G v.plan)
    (atLeast15 : Bool) (displayName : Bytes) (manifest : NspManifest) (cnmt : NspEntryInfo) :
    wpc (ncm env) (Kept G) (fun _ => Kept G) (fun _ => Kept G)
      (transact atLeast15 displayName manifest cnmt v) s := by
  unfold transact
  apply wpc_catch
  apply wpc_bind
  have hrollback : ∀ e s', Kept G s' → wpc (ncm env) (Kept G) (fun _ => Kept G) (fun _ => Kept G)
      (do
        let _ ← Throws.lift recoverStaleRealInstall
        throw e : Throws FnI Failure Installed) s' := by
    intro e s' h'
    apply wpc_bind
    refine wpc_conseq (wpc_lift (recover_kept h')) (fun _ _ _ h => ⟨h, h⟩) fun _ _ _ h => h
  refine wpc_conseq (streamContents_kept h hplan displayName manifest) ?_ fun e s' _ => hrollback e s'
  rintro v' s₁ - ⟨h₁, hplan'⟩
  refine wpc_conseq (finishInstall_kept h₁ hplan' _ _ _ _) (fun _ _ _ h => h) fun e s' _ => ?_
  exact hrollback e s'

theorem installManifest_kept (h : Kept G s) (atLeast15 : Bool) (displayName : Bytes)
    (manifest : NspManifest) (streamOffset : ℕ) :
    wpc (ncm env) (Kept G) (fun _ => Kept G) (fun _ => Kept G)
      (installManifest atLeast15 displayName manifest streamOffset) s := by
  unfold installManifest
  split
  · exact ⟨h, h⟩
  · apply wpc_bind
    refine wpc_conseq (h.reads (reads_of_streamCalls
      (streamOpenContext_calls (P := Quiet) trivial trivial trivial)))
      (fun _ s₁ _ h₁ => ?_) fun _ _ _ h => h
    apply wpc_bind
    refine wpc_conseq (h₁.1.reads (plan_reads _)) (fun planned s₂ _ h₂ => ?_) fun _ _ _ h => h
    obtain ⟨h₂, hplanned⟩ := h₂
    have hplan : Sparing G planned.1 := hplanned.sparing h₁.1
    apply wpc_bind
    refine wpc_conseq (h₂.reads (reads_of_streamCalls (checkSpace_calls _))) (fun _ s₃ _ h₃ => ?_)
      fun _ _ _ h => h
    apply wpc_bind
    refine wpc_conseq (save_kept hplan h₃.1 _ _) (fun _ s₄ _ h₄ => ?_) fun _ _ _ h => h
    exact transact_kept h₄ hplan _ _ _ _

/-- An install keeps what is guarded wherever it ends. -/
theorem install_kept (h : Kept G s) (atLeast15 : Bool) (displayName : Bytes) (packageSize : ℕ) :
    wpc (ncm env) (Kept G) (fun _ => Kept G) (fun _ => Kept G)
      (installNspStreamToSdTransactional atLeast15 displayName packageSize) s := by
  unfold installNspStreamToSdTransactional
  apply wpc_bind
  refine wpc_conseq (wpc_lift (recover_kept h)) (fun recovery s₁ _ h₁ => ?_) fun _ _ _ h => h
  apply wpc_bind
  refine wpc_require h₁ (fun _ => ?_) fun _ => h₁
  apply wpc_bind
  refine wpc_conseq (kept_of_calls (Throws.calls_call trivial) h₁) (fun found s₂ _ h₂ => ?_)
    fun _ _ _ h => h
  apply wpc_bind
  refine wpc_require h₂ (fun _ => ?_) fun _ => h₂
  apply wpc_bind
  refine wpc_conseq (h₂.reads (reads_of_calls (parseStreamManifest_calls _)))
    (fun r s₃ _ h₃ => ?_) fun _ _ _ h => h
  exact installManifest_kept h₃.1 _ _ _ _

/-- What can happen to the card: a package is sent, whatever the calls return and wherever the
install is cut; an interrupted install is recovered, and that can be cut too; or the console is
switched off and on. -/
inductive Session : World → World → Prop where
  | install {s s' : World} {out : Option (Except Failure Installed)} (env : Env) (atLeast15 : Bool)
      (displayName : Bytes) (packageSize : ℕ)
      (h : Run (ncm env)
        (installNspStreamToSdTransactional atLeast15 displayName packageSize).run
        { s with pos := 0 } out s') : Session s s'
  | recover {s s' : World} {out : Option (Bool × Option Bytes)} (env : Env)
      (h : Run (ncm env) recoverStaleRealInstall s out s') : Session s s'
  | reboot {s : World} : Session s (reboot s)

theorem Session.kept (hsession : Session s s') (h : Kept G s) : Kept G s' := by
  cases hsession with
  | install env atLeast15 displayName packageSize hrun =>
    have h' : Kept G { s with pos := 0 } := { h with }
    exact wp_end (install_kept h' atLeast15 displayName packageSize) hrun
  | recover env hrun => exact wp_end (recover_kept h) hrun
  | reboot => exact { h with db := h.saved }

/-- **Nothing that was installed before is lost.**  On a card without a journal of an earlier run,
whatever packages are sent in whatever number and order, whichever calls fail, and wherever the
installs and their recoveries are cut: every content and every placeholder that was on the card is
still there as it was, and every meta that was committed is still there with its record. -/
theorem installs_keep (hjournal : s.journal = none) (htmp : s.tmp = none) (hdb : s.db = s.saved)
    (h : Relation.ReflTransGen Session s s') :
    (∀ c ∈ s.storage.contents, c ∈ s'.storage.contents) ∧
      (∀ p ∈ s.storage.placeholders, p ∈ s'.storage.placeholders) ∧
      ∀ m ∈ s.saved, m ∈ s'.db ∧ m ∈ s'.saved := by
  have hkept : Kept ⟨s.storage.contents, s.storage.placeholders, s.saved⟩ s' := by
    induction h with
    | refl =>
      refine ⟨fun _ h => h, fun _ h => h, fun m hm => hdb ▸ hm, fun _ h => h, ?_, ?_⟩
      · intro j hj
        rw [hjournal] at hj
        cases hj
      · intro j hj
        rw [htmp] at hj
        cases hj
    | tail _ hstep ih => exact hstep.kept ih
  exact ⟨hkept.contents, hkept.placeholders, fun m hm => ⟨hkept.db m hm, hkept.saved m hm⟩⟩

/-- The install of a pair is cut when the second content was registered, and the journal does not
list it yet. -/
def cutInstall : Option (Except Failure Installed) × World :=
  (installNspStreamToSdTransactional true [] 149).run.follow (I := FnI)
    (Prog.firstCalls (I := FnI) 41 (answers pairEnv)) 0 played

/-- The recovery after the next start. -/
def cutRecovery : Option (Bool × Option Bytes) × World :=
  recoverStaleRealInstall.follow (I := FnI) (Prog.firstCalls (I := FnI) 100 (answers pairEnv)) 0
    (reboot cutInstall.2)

theorem cut_session : Relation.ReflTransGen Session played cutRecovery.2 := by
  have hinstall : Session played cutInstall.2 :=
    .install pairEnv true [] 149 (Prog.follow_firstCalls (I := FnI) (ncm_answers pairEnv) 41 _ _)
  have hrecovery : Session (reboot cutInstall.2) cutRecovery.2 :=
    .recover pairEnv (Prog.follow_firstCalls (I := FnI) (ncm_answers pairEnv) 100 _ _)
  exact ((Relation.ReflTransGen.single hinstall).tail .reboot).tail hrecovery

set_option maxRecDepth 8000 in
/-- The recovery deletes one of the two contents, and no other. -/
theorem installs_keep_played :
    (cutInstall.1.isNone = true ∧ cutInstall.2.storage.contents.length = 3 ∧
      cutInstall.2.journal.isSome = true) ∧
    (cutRecovery.1.isSome = true ∧ cutRecovery.2.storage.contents.length = 2 ∧
      cutRecovery.2.journal.isNone = true) ∧
    (∀ c ∈ played.storage.contents, c ∈ cutRecovery.2.storage.contents) ∧
      (∀ p ∈ played.storage.placeholders, p ∈ cutRecovery.2.storage.placeholders) ∧
      ∀ m ∈ played.saved, m ∈ cutRecovery.2.db ∧ m ∈ cutRecovery.2.saved := by
  refine ⟨?_, ?_, installs_keep rfl rfl rfl cut_session⟩
  · decide
  · decide

end NspInstall
