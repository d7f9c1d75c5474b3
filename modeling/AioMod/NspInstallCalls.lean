/-
# What an install only reads

Most of what an install calls changes nothing but the place in the stream.  A program of such calls
leaves the card as it was, and what it returns is what the card says: so it is with the tables, the
plan, the content meta, and the tests of the meta against what is installed.  At the end stand cards
and answers on which an install can be run.
-/
import AioMod.NspInstaller
import AioMod.NspManifestSpec
import AioMod.NspStreamSpec

namespace NspInstall

open ByteImage
open Nsp (NspEntryInfo NspManifest ErrorCode)
open NspJournal (NcmId NcmContentMetaKey PlannedContent)
open NspStream (Failure Storage contentId toNcmId)
open Throws (wpc wpc_bind wpc_call wpc_conseq wpc_require wpc_pure wpc_throw wpc_lift wpc_catch)

/-- A call that changes nothing but the place in the stream. -/
def Quiet : Fn → Prop
  | .Delete _ | .DeletePlaceHolder _ | .CreatePlaceHolder _ _ _ | .WritePlaceHolder _ _ _
  | .Register _ _ | .MetaSet _ _ | .MetaRemove _ | .MetaCommit | .ImportTicket _ _
  | .PushRecord _ _ | .openTmp | .writeTmp _ | .renameTmp | .removeTmp | .removeRecovered
  | .removeActive | .renameActive => False
  | _ => True

/-- The same card, at another place in the stream. -/
def Moved (s s' : World) : Prop := ∃ pos, s' = { s with pos }

variable {env : Env} {s s' : World} {ε α β : Type}

theorem toNcmId_val (id : NcmId) : toNcmId id.1 = id := by
  apply Subtype.ext
  show (id.1 ++ ByteImage.zeros 16).take 16 = id.1
  rw [List.take_append_of_le_length (le_of_eq id.2.symm), List.take_of_length_le (le_of_eq id.2)]

theorem remove_of_new {db : MetaDatabase} {key : NcmContentMetaKey} (h : ∀ m ∈ db, m.1 ≠ key) :
    remove db key = db :=
  List.filter_eq_self.mpr fun m hm => decide_eq_true (h m hm)

theorem json_some (a : α) : json (some a) = pure a := rfl

theorem Moved.refl (s : World) : Moved s s := ⟨s.pos, rfl⟩

theorem Moved.step {s₀ : World} {fn : Fn} {r : fn.Res} (h : Moved s₀ s) (hfn : Quiet fn)
    (hstep : ncm env s fn r s') : Moved s₀ s' := by
  obtain ⟨pos₀, rfl⟩ := h
  cases fn with
  | readExact size =>
    cases r with
    | none =>
      obtain ⟨pos, rfl⟩ := hstep
      exact ⟨pos, rfl⟩
    | some data =>
      obtain ⟨-, rfl⟩ := hstep
      exact ⟨_, rfl⟩
  | Delete | DeletePlaceHolder | CreatePlaceHolder | WritePlaceHolder | Register | MetaSet
  | MetaRemove | MetaCommit | ImportTicket | PushRecord | openTmp | writeTmp | renameTmp
  | removeTmp | removeRecovered | removeActive | renameActive => exact hfn.elim
  | Has | HasPlaceHolder | fsDirGetEntryCount | fsDirRead | fsFileRead | MetaHas
  | GetLatestContentMetaKey | ListRecords | existsJournal | openJournal | existsActive =>
    exact ⟨pos₀, hstep.1⟩
  | _ => exact ⟨pos₀, hstep⟩

/-- The program leaves the card as it is, wherever the stream is, and what it returns is so. -/
def Reads (env : Env) (s : World) (p : Throws FnI ε α) (F : α → Prop) : Prop :=
  ∀ s₁, Moved s s₁ → wpc (ncm env) (Moved s) (fun a s' => Moved s s' ∧ F a) (fun _ => Moved s) p s₁

section reads

variable {F : α → Prop} {p : Throws FnI ε β} {f : β → Throws FnI ε α}

theorem reads_pure {a : α} (h : F a) : Reads env s (pure a : Throws FnI ε α) F :=
  fun _ hs => ⟨hs, hs, h⟩

theorem reads_of_calls {p : Throws FnI ε α} (hp : p.run.Calls Quiet) :
    Reads env s p fun _ => True := by
  intro s₁ hs₁
  refine wpc_conseq (Throws.wpc_of_calls hp ?_ hs₁) (fun _ _ _ h => ⟨h, trivial⟩) fun _ _ _ h => h
  intro s₁ fn r s₂ hfn h hstep
  exact h.step hfn hstep

theorem Reads.bind {G : β → Prop} (hp : Reads env s p G) (hf : ∀ b, G b → Reads env s (f b) F) :
    Reads env s (p >>= f) F := by
  intro s₁ hs₁
  apply wpc_bind
  refine wpc_conseq (hp s₁ hs₁) (fun b s₂ _ h => ?_) fun _ _ _ h => h
  exact hf b h.2 s₂ h.1

theorem Reads.mono {p : Throws FnI ε α} {G : α → Prop} (hp : Reads env s p G)
    (h : ∀ a, G a → F a) : Reads env s p F :=
  fun s₁ hs₁ => wpc_conseq (hp s₁ hs₁) (fun a _ _ hr => ⟨hr.1, h a hr.2⟩) fun _ _ _ h => h

theorem reads_bind (hp : p.run.Calls Quiet) (hf : ∀ b, Reads env s (f b) F) :
    Reads env s (p >>= f) F := (reads_of_calls hp).bind fun b _ => hf b

theorem reads_require {c : Prop} [Decidable c] {e : ε} {f : Unit → Throws FnI ε α}
    (hf : c → Reads env s (f ()) F) : Reads env s (Throws.require c e >>= f) F := by
  intro s₁ hs₁
  apply wpc_bind
  exact wpc_require hs₁ (fun hc => hf hc s₁ hs₁) fun _ => hs₁

/-- What a call returns is what the card says. -/
theorem reads_call {fn : Fn} {f : fn.Res → Throws FnI ε α} (hfn : Quiet fn)
    (hf : ∀ r s₁ s₂, Moved s s₁ → ncm env s₁ fn r s₂ → Reads env s (f r) F) :
    Reads env s (call fn >>= f) F := by
  intro s₁ hs₁
  apply wpc_bind
  refine wpc_call hs₁ fun r s₂ hstep => ?_
  have hs₂ : Moved s s₂ := hs₁.step hfn hstep
  exact ⟨hs₂, hf r s₁ s₂ hs₁ hstep s₂ hs₂⟩

/-- What leaves the card as it is does so on every machine that can do no more, and keeps every
condition that does not speak of the place in the stream. -/
theorem wpc_of_moved {p : Throws FnI ε α}
    (h : wpc (ncm env) (Moved s) (fun a s' => Moved s s' ∧ F a) (fun _ => Moved s) p s)
    {M : Machine FnI World} {C : World → Prop} {Q : α → World → Prop} {E : ε → World → Prop}
    (hM : ∀ s fn r s', M s fn r s' → ncm env s fn r s') (hC : ∀ pos, C { s with pos })
    (hQ : ∀ a pos, F a → Q a { s with pos }) (hE : ∀ e pos, E e { s with pos }) :
    wpc M C Q E p s := by
  refine wp_mono h hM (fun s' hs' => ?_) fun r s' hr => ?_
  · obtain ⟨pos, rfl⟩ := hs'
    exact hC pos
  · cases r with
    | ok a =>
      obtain ⟨⟨pos, rfl⟩, hF⟩ := hr
      exact hQ a pos hF
    | error e =>
      obtain ⟨pos, rfl⟩ := hr
      exact hE e pos

theorem Reads.wpc {p : Throws FnI ε α} (h : Reads env s p F)
    {M : Machine FnI World} {C : World → Prop} {Q : α → World → Prop} {E : ε → World → Prop}
    (hM : ∀ s fn r s', M s fn r s' → ncm env s fn r s') (hC : ∀ pos, C { s with pos })
    (hQ : ∀ a pos, F a → Q a { s with pos }) (hE : ∀ e pos, E e { s with pos }) :
    wpc M C Q E p s := wpc_of_moved (h s (Moved.refl s)) hM hC hQ hE

end reads

/-! ## The part that reads the stream -/

section streaming

variable {M : Machine FnI World} {C : World → Prop} {E : Failure → World → Prop}
  {Q : α → World → Prop} {P : Fn → Prop}

theorem wpc_streaming_bind {p : NspStream.Installer β} {f : β → NspStream.Installer α}
    (h : wpc M C (fun b => wpc M C Q E (streaming (f b))) E (streaming p) s) :
    wpc M C Q E (streaming (p >>= f)) s := by
  rw [streaming, Throws.handle_bind]
  exact wpc_bind h

theorem wpc_streaming_call {fn : NspStream.Fn} {Q : fn.Res → World → Prop}
    (h : wp M C Q (ofStream fn) s) : wpc M C Q E (streaming (NspStream.call fn)) s := wpc_lift h

theorem wpc_streaming_require {c : Prop} [Decidable c] {code : ErrorCode} {technical : Bytes}
    {Q : Unit → World → Prop} (hC : C s) (hQ : c → Q () s)
    (hE : ¬c → E (.stop ⟨code, technical⟩) s) :
    wpc M C Q E (streaming (NspStream.require c code technical)) s := by
  rw [streaming, NspStream.require, Throws.handle_require]
  exact wpc_require hC hQ hE

theorem streaming_foldlM (body : α → β → NspStream.Installer α) (l : List β) (a : α) :
    streaming (l.foldlM body a) = l.foldlM (fun a b => streaming (body a b)) a :=
  Throws.handle_foldlM ..

theorem calls_op {fn : Fn} (h : P fn) : (op fn).Calls P := ⟨h, fun _ => trivial⟩

theorem calls_streaming {p : NspStream.Installer α}
    (hp : p.run.Calls fun fn => (ofStream fn).Calls P) : (streaming p).run.Calls P :=
  Prog.calls_handle (fun _ h => h) hp

theorem reads_of_streamCalls {p : NspStream.Installer α}
    (hp : p.run.Calls fun fn => (ofStream fn).Calls Quiet) : Reads env s (streaming p) fun _ => True :=
  reads_of_calls (calls_streaming hp)

theorem reads_streaming_bind {F : α → Prop} {p : NspStream.Installer β}
    {f : β → NspStream.Installer α} (hp : p.run.Calls fun fn => (ofStream fn).Calls Quiet)
    (hf : ∀ b, Reads env s (streaming (f b)) F) : Reads env s (streaming (p >>= f)) F := by
  rw [streaming, Throws.handle_bind]
  exact reads_bind (calls_streaming hp) hf

end streaming

section calls

variable {P : NspStream.Fn → Prop}

/-- A number of the stream's program calls nothing. -/
theorem sub_calls (a b : ℕ) : (NspStream.sub a b).run.Calls P :=
  Throws.calls_bind (Throws.calls_require _ _) fun _ => Throws.calls_pure _

theorem add_calls (a b : ℕ) : (NspStream.add a b).run.Calls P :=
  Throws.calls_bind (Throws.calls_require _ _) fun _ => Throws.calls_pure _

/-- Reading on makes the calls of the sink and two of its own. -/
theorem consumeLoop_calls (sink : α → Bytes → ℕ → NspStream.Installer α)
    (hinterupt : P .getInterupt) (hread : ∀ n, P (.readExact n))
    (hsink : ∀ a data done, (sink a data done).run.Calls P) (bytes : ℕ) (stage : Bytes)
    (fuel done streamOffset : ℕ) (a : α) :
    (NspStream.consumeLoop bytes sink stage fuel done streamOffset a).run.Calls P := by
  induction fuel generalizing done streamOffset a with
  | zero => exact trivial
  | succ fuel ih =>
    unfold NspStream.consumeLoop
    refine Throws.calls_ite (fun _ => ?_) fun _ => Throws.calls_pure _
    refine Throws.calls_bind (Throws.calls_call hinterupt) fun interrupt => ?_
    refine Throws.calls_bind (Throws.calls_require _ _) fun _ => ?_
    refine Throws.calls_bind (sub_calls _ _) fun rest => ?_
    refine Throws.calls_bind (Throws.calls_call (hread _)) fun data => ?_
    cases data with
    | none => exact trivial
    | some data =>
      refine Throws.calls_bind (hsink _ _ _) fun a => ?_
      refine Throws.calls_bind (add_calls _ _) fun done => ?_
      exact Throws.calls_bind (add_calls _ _) fun streamOffset => ih _ _ _

theorem skipBytes_calls (hinterupt : P .getInterupt) (hread : ∀ n, P (.readExact n))
    (streamOffset bytes : ℕ) (stage : Bytes) :
    (NspStream.skipBytes streamOffset bytes stage).run.Calls P := by
  unfold NspStream.skipBytes NspStream.consumeBytes
  refine Throws.calls_bind (consumeLoop_calls _ hinterupt hread ?_ _ _ _ _ _ _) fun _ => ?_
  · intro _ _ _
    exact Throws.calls_pure _
  · exact Throws.calls_pure _

/-- The opening of the content manager makes its three calls. -/
theorem streamOpenContext_calls {P : Fn → Prop} (hinit : P .ncmInitialize)
    (hstorage : P .ncmOpenContentStorage) (hdb : P .ncmOpenContentMetaDatabase) :
    NspStream.openContext.run.Calls fun fn => (ofStream fn).Calls P := by
  unfold NspStream.openContext
  refine Throws.calls_bind (Throws.calls_call (calls_op hinit)) fun _ => ?_
  refine Throws.calls_bind (Throws.calls_require _ _) fun _ => ?_
  refine Throws.calls_bind (Throws.calls_call (calls_op hstorage)) fun _ => ?_
  refine Throws.calls_bind (Throws.calls_require _ _) fun _ => ?_
  refine Throws.calls_bind (Throws.calls_call (calls_op hdb)) fun _ => ?_
  exact Throws.calls_require _ _

end calls

theorem skipBytes_reads (streamOffset bytes : ℕ) (stage : Bytes) :
    Reads env s (streaming (NspStream.skipBytes streamOffset bytes stage)) fun _ => True :=
  reads_of_streamCalls
    (skipBytes_calls (calls_op trivial) (fun _ => calls_op trivial) streamOffset bytes stage)

/-- What is skipped leaves the variables as they are, but for the place. -/
theorem skipTo_reads (v : NspStream.Vars) (bytes : ℕ) (stage : Bytes) :
    Reads env s (streaming (do
      let streamOffset ← NspStream.skipBytes v.streamOffset bytes stage
      return { v with streamOffset })) fun v' => v'.plan = v.plan :=
  reads_streaming_bind
    (skipBytes_calls (calls_op trivial) (fun _ => calls_op trivial) v.streamOffset bytes stage)
    fun _ => reads_pure rfl

/-- A ticket or a certificate is kept in memory. -/
theorem bufferAux_reads (v : NspStream.Vars) (e : NspEntryInfo) :
    Reads env s (streaming (NspStream.bufferAux v e)) fun v' => v'.plan = v.plan := by
  have hconsume := consumeLoop_calls (P := fun fn => (ofStream fn).Calls Quiet)
    NspStream.toBuffer (calls_op trivial) (fun _ => calls_op trivial)
    (fun f data _ => Throws.calls_bind (add_calls _ _) fun _ => Throws.calls_pure _)
    e.size e.name e.size 0 v.streamOffset ⟨ByteImage.zeros e.size, 0⟩
  unfold NspStream.bufferAux
  refine reads_streaming_bind (Throws.calls_require _ _) fun _ => ?_
  refine reads_streaming_bind (sub_calls _ _) fun room => ?_
  refine reads_streaming_bind (Throws.calls_require _ _) fun _ => ?_
  refine reads_streaming_bind hconsume fun r => ?_
  exact reads_streaming_bind (add_calls _ _) fun auxTotal => reads_pure rfl

theorem finish_reads (manifest : NspManifest) (v : NspStream.Vars) :
    Reads env s (streaming (NspStream.finish manifest v)) fun v' => v'.plan = v.plan := by
  unfold NspStream.finish
  split
  · exact reads_streaming_bind (sub_calls _ _) fun trailer => skipTo_reads _ _ _
  · exact reads_pure rfl

/-! ## The plan -/

/-- A plan marks what is on the card; nothing of it is done yet. -/
def Planned (st : Storage) (entries : List NspEntryInfo) (plan : List PlannedContent) : Prop :=
  ∀ p ∈ plan, p.preExisting = st.has p.content_id ∧ p.placeholderCreated = false ∧
    p.registered = false ∧ ∃ e ∈ entries, e.isNca = true ∧ contentId e = p.content_id

theorem planEntry_reads {entries : List NspEntryInfo} {acc : List PlannedContent × ℕ}
    (hacc : Planned s.storage entries acc.1) {e : NspEntryInfo} (he : e ∈ entries) :
    Reads env s (streaming (NspStream.planEntry acc e)) fun acc' =>
      Planned s.storage entries acc'.1 := by
  unfold NspStream.planEntry
  split
  · exact reads_pure hacc
  · rename_i hnca
    have hisNca : e.isNca = true := by
      simp only [Bool.or_eq_true, Bool.not_eq_true', not_or, Bool.not_eq_false] at hnca
      exact hnca.1
    rw [streaming, Throws.handle_bind]
    refine reads_call (show Quiet (.Has (contentId e)) from trivial) fun r s₁ s₂ hs₁ hstep => ?_
    have hhas : r.1 = 0 → r.2 = s.storage.has (contentId e) := by
      obtain ⟨pos, rfl⟩ := hs₁
      exact hstep.2
    rw [Throws.handle_bind]
    unfold NspStream.check NspStream.require
    rw [Throws.handle_require]
    refine reads_require fun hrc => ?_
    have hplan : ∀ p : PlannedContent, p.content_id = contentId e → p.preExisting = r.2 →
        p.placeholderCreated = false → p.registered = false →
        Planned s.storage entries (acc.1 ++ [p]) := by
      intro p hid hpre hcreated hregistered q hq
      rcases List.mem_append.mp hq with hq | hq
      · exact hacc q hq
      · obtain rfl := List.mem_singleton.mp hq
        exact ⟨by rw [hpre, hhas hrc, hid], hcreated, hregistered, e, he, hisNca, hid.symm⟩
    dsimp only
    rw [Throws.handle_ite]
    split
    · exact reads_pure (hplan _ rfl rfl rfl rfl)
    · refine reads_streaming_bind (sub_calls _ _) fun most => ?_
      refine reads_streaming_bind (Throws.calls_require _ _) fun _ => ?_
      exact reads_streaming_bind (add_calls _ _) fun n => reads_pure (hplan _ rfl rfl rfl rfl)

theorem plan_reads (entries : List NspEntryInfo) :
    Reads env s (streaming (entries.foldlM NspStream.planEntry ([], 0))) fun planned =>
      Planned s.storage entries planned.1 := by
  intro s₀ hs₀
  rw [streaming_foldlM]
  refine Throws.wpc_foldlM (fun _ acc s' => Moved s s' ∧ Planned s.storage entries acc.1)
    entries ?_ ?_ ⟨hs₀, fun p hp => (List.not_mem_nil hp).elim⟩
  · rintro pre e post acc s' hsplit ⟨hmoved, hacc⟩
    have he : e ∈ entries := hsplit ▸ List.mem_append_right pre List.mem_cons_self
    exact planEntry_reads hacc he s' hmoved
  · rintro acc s' ⟨hmoved, hacc⟩
    exact ⟨hmoved, hmoved, hacc⟩

theorem checkSpace_calls (newContentBytes : ℕ) :
    (NspStream.checkSpace newContentBytes).run.Calls fun fn => (ofStream fn).Calls Quiet := by
  unfold NspStream.checkSpace
  generalize NspStream.STREAM_INSTALL_SPACE_RESERVE = reserve
  generalize 2 ^ 64 - 1 = largest
  refine Throws.calls_bind (Throws.calls_call (calls_op trivial)) fun r => ?_
  refine Throws.calls_ite (fun _ => ?_) fun _ => Throws.calls_pure _
  refine Throws.calls_bind (sub_calls _ _) fun most => ?_
  dsimp only
  refine Throws.calls_ite (fun _ => ?_) fun _ => ?_
  · exact Throws.calls_bind (Throws.calls_pure _) fun _ => Throws.calls_require _ _
  · exact Throws.calls_bind (add_calls _ _) fun _ => Throws.calls_require _ _

theorem readExact_take {stream bs : Bytes} {n pos size : ℕ}
    (h : Nsp.readExact (stream.take n) pos size = some bs) :
    Nsp.readExact stream pos size = some bs := by
  obtain ⟨hle, hslice⟩ := Nsp.readExact_eq_some.mp h
  rw [List.length_take] at hle
  refine Nsp.readExact_eq_some.mpr ⟨by omega, hslice ▸ ?_⟩
  unfold slice
  rw [List.drop_take, List.take_take, Nat.min_eq_left (by omega)]

/-- A manifest needs no more of the stream than it was made from. -/
theorem parseStreamManifest_take {packageSize n : ℕ} {stream : Bytes} {r : NspManifest × ℕ}
    {w w' : Bool} (h : Nsp.parseStreamManifest packageSize (stream.take n) w = .ok (r, w')) :
    Nsp.parseStreamManifest packageSize stream w = .ok (r, w') := by
  simp only [Nsp.parseStreamManifest] at h ⊢
  simp only [↓Nsp.refuse_bind_ok, ↓Nsp.require_bind_ok, Nsp.bind_ok, Nsp.pure_ok] at h ⊢
  obtain ⟨bs, hread, c₀, w₁, h₀, hmagic, hlim, n, w₂, hn, hmax, es, hes, c₁, w₃, h₁, k, w₄, hk,
    tab, htab, hrest⟩ := h
  exact ⟨bs, readExact_take hread, c₀, w₁, h₀, hmagic, hlim, n, w₂, hn, hmax, es,
    readExact_take hes, c₁, w₃, h₁, k, w₄, hk, tab, readExact_take htab, hrest⟩

theorem readTables_calls : readTables.run.Calls Quiet := by
  unfold readTables
  refine Throws.calls_bind (Throws.calls_call trivial) fun head => ?_
  cases head with
  | none => exact trivial
  | some head =>
    refine Throws.calls_bind (Throws.calls_require _ _) fun _ => ?_
    refine Throws.calls_bind (Throws.calls_require _ _) fun _ => ?_
    refine Throws.calls_bind (Throws.calls_call trivial) fun raw => ?_
    cases raw with
    | none => exact trivial
    | some raw =>
      refine Throws.calls_ite (fun _ => Throws.calls_pure _) fun _ => ?_
      refine Throws.calls_bind (Throws.calls_call trivial) fun strings => ?_
      cases strings with
      | none => exact trivial
      | some strings => exact trivial

theorem parseStreamManifest_calls (packageSize : ℕ) :
    (parseStreamManifest packageSize).run.Calls Quiet := by
  unfold parseStreamManifest
  refine Throws.calls_bind readTables_calls fun tables => ?_
  split <;> exact trivial

/-- What is read next of the stream joins what was read of it. -/
theorem read_prefix {size n : ℕ} {data : Bytes} {s₀ : World} (hs : Moved s₀ s) (hn : s.pos = n)
    (hstep : ncm env s (.readExact size) (some data) s') :
    env.stream.take n ++ data = env.stream.take (n + size) ∧ Moved s₀ s' ∧ s'.pos = n + size := by
  obtain ⟨hread, rfl⟩ := hstep
  refine ⟨?_, ?_, by rw [hn]⟩
  · unfold Nsp.readExact at hread
    split at hread
    · cases hread
      rw [hn, List.take_add]
      rfl
    · cases hread
  · obtain ⟨pos, rfl⟩ := hs
    exact ⟨_, rfl⟩

/-- The header is the first of what is read. -/
theorem headerOf_take {stream : Bytes} {n : ℕ} (hn : Nsp.headerSize ≤ n) :
    Nsp.headerOf (stream.take n) = Nsp.Pfs0Header.decode (stream.take Nsp.headerSize) := by
  unfold Nsp.headerOf ByteImage.slice
  rw [List.drop_zero, List.take_take, Nat.min_eq_left hn]

/-- The tables are the first bytes of the stream, up to the data. -/
theorem readTables_streamed (hpos : s.pos = 0) :
    wpc (ncm env) (Moved s)
      (fun tables s' => Moved s s' ∧ ∃ n, tables = env.stream.take n ∧ s'.pos = n ∧
        n = Nsp.dataStart tables)
      (fun _ => Moved s) readTables s := by
  have hmove : ∀ {size : ℕ} {r : Option Bytes} {s₁ s₂ : World}, Moved s s₁ →
      ncm env s₁ (.readExact size) r s₂ → Moved s s₂ := by
    intro size r s₁ s₂ h hstep
    exact h.step (show Quiet (.readExact size) from trivial) hstep
  unfold readTables
  apply wpc_bind
  refine wpc_call (Moved.refl s) fun head s₁ h₁ => ⟨hmove (Moved.refl s) h₁, ?_⟩
  have hs₁ := hmove (Moved.refl s) h₁
  cases head with
  | none => exact ⟨hs₁, hs₁⟩
  | some head =>
    obtain ⟨hhead, -, hn₁⟩ := read_prefix (Moved.refl s) hpos h₁
    rw [List.take_zero, List.nil_append, Nat.zero_add] at hhead
    rw [Nat.zero_add] at hn₁
    apply wpc_bind
    refine wpc_require hs₁ (fun _ => ?_) fun _ => hs₁
    apply wpc_bind
    refine wpc_require hs₁ (fun _ => ?_) fun _ => hs₁
    apply wpc_bind
    refine wpc_call hs₁ fun raw s₂ h₂ => ⟨hmove hs₁ h₂, ?_⟩
    have hs₂ := hmove hs₁ h₂
    cases raw with
    | none => exact ⟨hs₂, hs₂⟩
    | some raw =>
      obtain ⟨hraw, -, hn₂⟩ := read_prefix hs₁ hn₁ h₂
      rw [← hhead] at hraw
      have hstart : ∀ n, Nsp.headerSize ≤ n → Nsp.headerOf (env.stream.take n) =
          Nsp.Pfs0Header.decode head := fun n hn => by rw [headerOf_take hn, hhead]
      dsimp only
      split
      · rename_i hnone
        refine ⟨hs₂, hs₂, _, hraw, hn₂, ?_⟩
        rw [Nsp.dataStart, Nsp.stringStart, hraw, hstart _ (Nat.le_add_right _ _), hnone]
        rfl
      · apply wpc_bind
        refine wpc_call hs₂ fun strings s₃ h₃ => ⟨hmove hs₂ h₃, ?_⟩
        have hs₃ := hmove hs₂ h₃
        cases strings with
        | none => exact ⟨hs₃, hs₃⟩
        | some strings =>
          obtain ⟨hstrings, -, hn₃⟩ := read_prefix hs₂ hn₂ h₃
          rw [← hraw] at hstrings
          refine ⟨hs₃, hs₃, _, hstrings, hn₃, ?_⟩
          rw [Nsp.dataStart, Nsp.stringStart, hstrings,
            hstart _ ((Nat.le_add_right _ _).trans (Nat.le_add_right _ _))]

/-- The manifest is that of the first bytes of the stream. -/
theorem parseStreamManifest_streamed (hpos : s.pos = 0) (packageSize : ℕ) :
    wpc (ncm env) (Moved s)
      (fun r s' => Moved s s' ∧ ∃ n w,
        Nsp.parseStreamManifest packageSize (env.stream.take n) false = .ok (r, w))
      (fun _ => Moved s) (parseStreamManifest packageSize) s := by
  unfold parseStreamManifest
  apply wpc_bind
  refine wpc_conseq (readTables_streamed hpos) ?_ fun _ _ _ h => h
  rintro tables s₁ - ⟨hs₁, n, rfl, -⟩
  split
  · rename_i r w hparse
    exact ⟨hs₁, hs₁, n, w, hparse⟩
  · exact ⟨hs₁, hs₁⟩

/-! ## The content meta -/

theorem readMetaBytes_calls (id : NcmId) (path : Bytes) (off size : ℕ) (technical : String) :
    (readMetaBytes id path off size technical).run.Calls Quiet := by
  unfold readMetaBytes
  refine Throws.calls_bind (Throws.calls_call trivial) fun r => ?_
  exact Throws.calls_bind (Throws.calls_require _ _) fun _ => Throws.calls_pure _

theorem readMetaPart_calls (id : NcmId) (path : Bytes) (off size : ℕ) (technical : String) :
    (readMetaPart id path off size technical).run.Calls Quiet :=
  Throws.calls_ite (fun _ => Throws.calls_pure _) fun _ => readMetaBytes_calls _ _ _ _ _

theorem readContentInfos_calls (id : NcmId) (path : Bytes) (n off : ℕ)
    (infos : List NspCnmt.NcmContentInfo) :
    (readContentInfos id path n off infos).run.Calls Quiet := by
  induction n generalizing off infos with
  | zero => exact trivial
  | succ n ih => exact Throws.calls_bind (readMetaBytes_calls _ _ _ _ _) fun _ => ih _ _

theorem readMetaFile_calls (atLeast15 : Bool) (id : NcmId) (path : Bytes) :
    (readMetaFile atLeast15 id path).run.Calls Quiet := by
  unfold readMetaFile
  refine Throws.calls_bind (readMetaBytes_calls _ _ _ _ _) fun bs => ?_
  refine Throws.calls_bind (Throws.calls_require _ _) fun _ => ?_
  refine Throws.calls_bind (readMetaPart_calls _ _ _ _ _) fun ext => ?_
  refine Throws.calls_bind (readContentInfos_calls _ _ _ _ _) fun r => ?_
  exact Throws.calls_bind (readMetaPart_calls _ _ _ _ _) fun _ => Throws.calls_pure _

theorem parseInstalledMeta_calls (atLeast15 : Bool) (cnmt : NspEntryInfo) :
    (parseInstalledMeta atLeast15 cnmt).run.Calls Quiet := by
  unfold parseInstalledMeta
  refine Throws.calls_bind (Throws.calls_call trivial) fun _ => ?_
  refine Throws.calls_bind (Throws.calls_require _ _) fun _ => ?_
  refine Throws.calls_bind (Throws.calls_call trivial) fun _ => ?_
  refine Throws.calls_bind (Throws.calls_require _ _) fun _ => ?_
  refine Throws.calls_bind (Throws.calls_call trivial) fun _ => ?_
  refine Throws.calls_bind (Throws.calls_require _ _) fun _ => ?_
  refine Throws.calls_bind (Throws.calls_call trivial) fun _ => ?_
  refine Throws.calls_bind (Throws.calls_require _ _) fun _ => ?_
  refine Throws.calls_bind (Throws.calls_call trivial) fun _ => ?_
  refine Throws.calls_bind (Throws.calls_require _ _) fun _ => ?_
  refine Throws.calls_bind (Throws.calls_call trivial) fun _ => ?_
  refine Throws.calls_bind (Throws.calls_require _ _) fun _ => ?_
  exact readMetaFile_calls _ _ _

/-! ## Its tests -/

theorem inspect_calls (user : Bool) (header : NspCnmt.PackagedCnmtHeader) (acc : Bool × UInt32) :
    (inspect user header acc).run.Calls Quiet := by
  unfold inspect
  refine Throws.calls_bind (Throws.calls_call trivial) fun r => ?_
  exact Throws.calls_ite (fun _ => Throws.calls_pure _) fun _ => Throws.calls_pure _

theorem inspectBoth_calls (header : NspCnmt.PackagedCnmtHeader) :
    (inspectBoth header).run.Calls Quiet := by
  unfold inspectBoth
  refine Throws.calls_bind (inspect_calls _ _ _) fun onCard => ?_
  refine Throws.calls_bind (Throws.calls_call trivial) fun urc => ?_
  exact Throws.calls_ite (fun _ => inspect_calls _ _ _) fun _ => Throws.calls_pure _

theorem streamCurrentFirmwarePacked_calls : streamCurrentFirmwarePacked.run.Calls Quiet := by
  unfold streamCurrentFirmwarePacked
  refine Throws.calls_bind (Throws.calls_call trivial) fun r => ?_
  cases r with
  | none => exact trivial
  | some v => exact trivial

/-- The base of a content that needs one is installed. -/
def HasBase (s : World) (m : NspCnmt.ParsedMeta) : Prop :=
  needsBase m.header.metaType = true → ∃ k, (k ∈ s.db.map Prod.fst ∨ k ∈ s.userDb) ∧
    k.id = m.appId ∧ k.type = NspApplication.NcmContentMetaType_Application

theorem findBase_reads (appId : UInt64) :
    Reads env s (findBase appId) fun found => found = true →
      ∃ k, (k ∈ s.db.map Prod.fst ∨ k ∈ s.userDb) ∧ k.id = appId ∧
        k.type = NspApplication.NcmContentMetaType_Application := by
  have hlatest : ∀ {user : Bool} {r : ℕ × NcmContentMetaKey} {s₁ s₂ : World}, Moved s s₁ →
      ncm env s₁ (.GetLatestContentMetaKey user appId) r s₂ → r.1 = 0 →
      IsLatest (if user then s.userDb else s.db.map Prod.fst) appId r.2 := by
    rintro user r s₁ s₂ ⟨pos, rfl⟩ hstep hrc
    exact hstep.2 hrc
  unfold findBase
  refine reads_call (show Quiet (.GetLatestContentMetaKey false appId) from trivial)
    fun r s₁ s₂ hs₁ hstep => ?_
  split
  · rename_i hfound
    have hkey := hlatest hs₁ hstep hfound.1
    exact reads_pure fun _ => ⟨r.2, .inl hkey.1, hkey.2.1, hfound.2⟩
  refine reads_bind (Throws.calls_call trivial) fun urc => ?_
  split
  · refine reads_call (show Quiet (.GetLatestContentMetaKey true appId) from trivial)
      fun r s₁ s₂ hs₁ hstep => ?_
    refine reads_pure fun hfound => ?_
    have hfound := of_decide_eq_true hfound
    have hkey := hlatest hs₁ hstep hfound.1
    exact ⟨r.2, .inr hkey.1, hkey.2.1, hfound.2⟩
  · exact reads_pure fun hno => Bool.noConfusion hno

theorem testBase_reads (m : NspCnmt.ParsedMeta) :
    Reads env s (testBase m) fun _ => HasBase s m := by
  unfold testBase
  split
  · refine (findBase_reads m.appId).bind fun found hfound s₁ hs₁ => ?_
    exact wpc_require hs₁ (fun hyes => ⟨hs₁, fun _ => hfound hyes⟩) fun _ => hs₁
  · rename_i hno
    exact reads_pure fun hyes => (hno hyes).elim

/-- The key of the record was not in the database, and the base is installed. -/
theorem validate_reads (m : NspCnmt.ParsedMeta) :
    Reads env s (validateStreamMetaAgainstInstalled m) fun key =>
      key = keyOf m.header ∧ (∀ x ∈ s.db, x.1 ≠ keyOf m.header) ∧ HasBase s m := by
  unfold validateStreamMetaAgainstInstalled
  refine reads_require fun _ => ?_
  refine reads_call (show Quiet (.MetaHas (keyOf m.header)) from trivial) fun r s₁ s₂ hs₁ hstep => ?_
  have hhas : r.1 = 0 → r.2 = s.db.any fun x => x.1 = keyOf m.header := by
    obtain ⟨pos, rfl⟩ := hs₁
    exact hstep.2
  refine reads_require fun hrc => ?_
  refine reads_require fun hno => ?_
  have hnew : ∀ x ∈ s.db, x.1 ≠ keyOf m.header := by
    intro x hx heq
    have hfound : s.db.any (fun x => x.1 = keyOf m.header) = true :=
      List.any_eq_true.mpr ⟨x, hx, decide_eq_true heq⟩
    rw [← hhas hrc, hno] at hfound
    exact Bool.noConfusion hfound
  refine (testBase_reads m).bind fun _ hbase => ?_
  refine reads_bind (inspectBoth_calls _) fun found => ?_
  refine reads_require fun _ => ?_
  refine reads_require fun _ => ?_
  refine reads_bind streamCurrentFirmwarePacked_calls fun current => ?_
  exact reads_require fun _ => reads_pure ⟨rfl, hnew, hbase⟩

/-! ## Ticket and records -/

/-- The records that the application has, or none where they cannot be listed. -/
theorem listRecords_reads (appId : UInt64) :
    Reads env s (listRecords appId) fun r =>
      r.2 = if r.1 = 0 then (s.records appId).take NspRecords.MAX_RECORDS else [] := by
  unfold listRecords
  refine reads_bind (Throws.calls_call trivial) fun rr => ?_
  split
  · rename_i hrr
    exact reads_pure (if_neg hrr).symm
  refine reads_bind (Throws.calls_call trivial) fun rr => ?_
  split
  · rename_i hrr
    exact reads_pure (if_neg hrr).symm
  refine reads_call (show Quiet (.ListRecords appId) from trivial) fun r s₁ s₂ hs₁ hstep => ?_
  obtain ⟨pos, rfl⟩ := hs₁
  have hlist : r.1 = 0 → r.2 = (s.records appId).take NspRecords.MAX_RECORDS := hstep.2
  refine reads_pure ?_
  dsimp only
  split
  · rename_i hrc
    exact hlist hrc
  · rfl

theorem findRights_calls (entries : List NspEntryInfo) : (findRights entries).run.Calls Quiet := by
  induction entries with
  | nil => exact trivial
  | cons e es ih =>
    unfold findRights
    refine Throws.calls_ite (fun _ => ih) fun _ => ?_
    refine Throws.calls_bind (Throws.calls_call trivial) fun rr => ?_
    exact Throws.calls_ite (fun _ => Throws.calls_pure _) fun _ => ih

theorem listRecords_calls (appId : UInt64) : (listRecords appId).run.Calls Quiet := by
  unfold listRecords
  refine Throws.calls_bind (Throws.calls_call trivial) fun rr => ?_
  refine Throws.calls_ite (fun _ => Throws.calls_pure _) fun _ => ?_
  refine Throws.calls_bind (Throws.calls_call trivial) fun rr => ?_
  refine Throws.calls_ite (fun _ => Throws.calls_pure _) fun _ => ?_
  exact Throws.calls_bind (Throws.calls_call trivial) fun _ => Throws.calls_pure _

/-- The import of a ticket makes one call that is not quiet. -/
theorem importRights_calls {P : Fn → Prop} (hquiet : ∀ fn, Quiet fn → P fn)
    (himport : ∀ tik cert, P (.ImportTicket tik cert)) (planned : List NspEntryInfo)
    (aux : List NspStream.BufferedAuxFile) : (importRights planned aux).run.Calls P := by
  unfold importRights
  refine Throws.calls_bind (Prog.Calls.mono hquiet (findRights_calls _)) fun rights => ?_
  cases rights with
  | none => exact trivial
  | some rights =>
    dsimp only
    split
    · refine Throws.calls_bind ?_ fun rc => ?_
      · refine Throws.calls_bind (Throws.calls_call (hquiet _ trivial)) fun rc => ?_
        exact Throws.calls_ite (fun _ => Throws.calls_call (himport _ _)) fun _ =>
          Throws.calls_pure _
      · exact Throws.calls_bind (Throws.calls_require _ _) fun _ => Throws.calls_pure _
    · exact trivial

/-! ## Cards and answers -/

/-- A card with nothing on it. -/
def empty : World where
  pos := 0
  storage := { contents := [], placeholders := [] }
  db := []
  saved := []
  userDb := []
  records := fun _ => []
  tickets := []
  journal := none
  tmp := none
  recovered := false

/-- A card with one content, one placeholder and one meta. -/
def played : World := { empty with
  storage :=
    { contents := [⟨toNcmId [1], [(0, [7, 7])]⟩], placeholders := [⟨toNcmId [2], 3, []⟩] }
  db := [(⟨5, 0, 0x80, 0, (0, 0)⟩, [3])]
  saved := [(⟨5, 0, 0x80, 0, (0, 0)⟩, [3])] }

/-- The CNMT of an application with one content of two bytes. -/
def pairCnmt : Bytes :=
  NspCnmt.PackagedCnmtHeader.encode
      ⟨1, 0, NspApplication.NcmContentMetaType_Application, 0, ⟨0, 1, 0, 0, 0⟩, 0, 0, 0, 0⟩ ++
    NspCnmt.NcmPackagedContentInfo.encode
      ⟨zeros 32, ⟨toNcmId (List.replicate 16 0x11), 2, 0, 0, 1, 0⟩⟩

/-- The package of two contents is sent, the first of which is the meta. -/
def pairEnv : Env where
  stream := NspStream.pairPackage 3
  files := fun id => if id = toNcmId [] then [([109], pairCnmt)] else []

/-- Every call works but those that look for another version, for rights and for the space. -/
def answers (env : Env) (s : World) : (fn : Fn) → fn.Res × World
  | .Has id => ((0, s.storage.has id), s)
  | .Delete id => (0, { s with storage := Storage.delete s.storage id })
  | .HasPlaceHolder ph => ((0, Storage.hasPlaceHolder s.storage ph), s)
  | .DeletePlaceHolder ph => (0, { s with storage := Storage.deletePlaceHolder s.storage ph })
  | .GeneratePlaceHolderId => ((0, toNcmId []), s)
  | .CreatePlaceHolder _ ph size =>
    if ∀ p ∈ s.storage.placeholders, p.id ≠ ph then
      (0, { s with storage := s.storage.create ph size })
    else (1, s)
  | .WritePlaceHolder ph offset data => (0, { s with storage := s.storage.write ph offset data })
  | .Register content ph =>
    if s.storage.has content = false then
      (0, { s with storage := s.storage.register content ph })
    else (1, s)
  | .fsDirGetEntryCount id => ((0, (env.files id).length), s)
  | .fsDirRead id count => ((0, ((env.files id).map Prod.fst).take count), s)
  | .fsFileRead id path offset size => ((0, slice (env.file id path) offset size), s)
  | .MetaHas key => ((0, s.db.any fun m => m.1 = key), s)
  | .GetLatestContentMetaKey _ _ => ((1, keyOf (.decode [])), s)
  | .MetaSet key blob => (0, { s with db := set s.db key blob })
  | .MetaRemove key => (0, { s with db := remove s.db key })
  | .MetaCommit => (0, { s with saved := s.db })
  | .GetRightsIdFromContentId _ => ((1, toNcmId []), s)
  | .ImportTicket tik cert => (0, { s with tickets := s.tickets ++ [(tik, cert)] })
  | .ListRecords appId => ((0, (s.records appId).take NspRecords.MAX_RECORDS), s)
  | .PushRecord appId records =>
    (0, { s with records := Function.update s.records appId records })
  | .nsGetFreeSpaceSize => ((1, 0), s)
  | .setsysGetFirmwareVersion => (none, s)
  | .getInterupt => (false, s)
  | .readExact size =>
    match Nsp.readExact env.stream s.pos size with
    | some data => (some data, { s with pos := s.pos + size })
    | none => (none, s)
  | .existsJournal => (s.journal.isSome, s)
  | .openJournal => (s.journal, s)
  | .openTmp => (true, { s with tmp := some none })
  | .writeTmp journal => (true, { s with tmp := some (some journal) })
  | .renameTmp => if s.tmp ≠ none then (0, { s with journal := s.tmp, tmp := none }) else (1, s)
  | .removeTmp => (0, { s with tmp := none })
  | .removeRecovered => (0, { s with recovered := false })
  | .removeActive => (0, { s with journal := none })
  | .existsActive => ((0, s.journal.isSome), s)
  | .renameActive => (1, s)
  | .ncmInitialize => (0, s)
  | .ncmOpenContentStorage => (0, s)
  | .ncmOpenContentMetaDatabase => (0, s)
  | .GetPath _ => (0, s)
  | .fsOpenFileSystem _ => (0, s)
  | .fsFsOpenDirectory _ => (0, s)
  | .fsFsOpenFile _ _ => (0, s)
  | .openUserDatabase => (0, s)
  | .smGetService => (0, s)
  | .nsInitialize => (0, s)
  | .nsGetApplicationManagerInterface => (0, s)
  | .create_directories => (0, s)

theorem ncm_answers (env : Env) (s : World) (fn : Fn) :
    ncm env s fn (answers env s fn).1 (answers env s fn).2 := by
  cases fn with
  | Has | HasPlaceHolder | fsDirGetEntryCount | fsDirRead | fsFileRead | MetaHas | ListRecords
  | existsActive => exact ⟨rfl, fun _ => rfl⟩
  | GetLatestContentMetaKey user id => exact ⟨rfl, fun h => absurd h one_ne_zero⟩
  | CreatePlaceHolder content ph size =>
    by_cases hfree : ∀ p ∈ s.storage.placeholders, p.id ≠ ph
    · simp only [answers, if_pos hfree]
      exact ⟨hfree, rfl⟩
    · simp only [answers, if_neg hfree]
      rfl
  | Register content ph =>
    by_cases hnew : s.storage.has content = false
    · simp only [answers, if_pos hnew]
      exact ⟨hnew, rfl⟩
    · simp only [answers, if_neg hnew]
      rfl
  | readExact size =>
    cases hread : Nsp.readExact env.stream s.pos size with
    | none =>
      simp only [answers, hread]
      exact ⟨s.pos, rfl⟩
    | some data =>
      simp only [answers, hread]
      exact ⟨hread, rfl⟩
  | existsJournal => exact ⟨rfl, rfl⟩
  | openJournal => exact ⟨rfl, fun _ h => h⟩
  | renameTmp =>
    by_cases htmp : s.tmp ≠ none
    · simp only [answers, if_pos htmp]
      exact ⟨htmp, rfl⟩
    · simp only [answers, if_neg htmp]
      rfl
  | writeTmp journal => rfl
  | Delete | DeletePlaceHolder | WritePlaceHolder | MetaSet | MetaRemove | MetaCommit
  | ImportTicket | PushRecord | openTmp | removeTmp | removeRecovered | removeActive =>
    exact (if_pos rfl).symm
  | _ => rfl

end NspInstall
