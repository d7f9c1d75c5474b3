/-
# A reported install is the package

What an install that reports success has left: the contents of the package as they were sent, each
with its own bytes; the meta of the CNMT among them, whose record the database now has; and the key
in the records of the application.  Every call may fail, and none is taken to work.  The part that
reads the stream is the program of `NspStream` on another machine, so that its invariant is used
here as it is.
-/
import AioMod.NspInstallCalls
import AioMod.NspCnmtSpec
import AioMod.NspStreamSpec

namespace NspInstall

open ByteImage
open Nsp (NspEntryInfo NspManifest ErrorCode text)
open NspJournal (NcmId NcmContentMetaKey Json PlannedContent)
open NspRecords (ContentStorageRecord addKey)
open NspStream (Failure Storage contentId findCnmt physical Streamed BufferedAuxFile)
open NspCnmt (ParsedMeta NcmContentInfo NcmPackagedContentInfo PackagedCnmtHeader
  NcmContentMetaInfo IsCnmt MetaRecord recordOf buildMetaDbBlob ncmContentInfoSizeToU64)
open Throws (wpx wpx_bind wpx_call wpx_conseq wpx_require wpx_pure wpx_catch)

/-! ## The tables -/

variable {env : Env} {s s' old : World} {ε α β : Type} {packageSize : ℕ}

/-- The manifest is that of the stream, which has come to the data. -/
theorem wpx_parseStreamManifest {E : Failure → World → Prop} (hE : ∀ e s, E e s) (hpos : s.pos = 0)
    (hknown : packageSize ≠ 0) :
    wpx (ncm env)
      (fun r s' => Moved s s' ∧ s'.pos = r.2 ∧
        NspStream.Accepted packageSize env.stream r.1 r.2 ∧
        ∃ w, Nsp.parseStreamManifest packageSize env.stream false = .ok (r, w))
      E (parseStreamManifest packageSize) s := by
  unfold parseStreamManifest
  rw [wpx_bind]
  refine wp_conseq (readTables_streamed hpos) (fun _ _ => trivial) fun r s₁ _ hr => ?_
  cases r with
  | error e => exact hE e s₁
  | ok tables =>
    obtain ⟨hs₁, n, rfl, hn, hstart⟩ := hr
    show wpx _ _ _ _ s₁
    split
    · rename_i r w hparse
      obtain ⟨manifest, consumed⟩ := r
      have htables := (NspStream.parseStreamManifest_accepted hknown hparse).tables
      have hwhole := parseStreamManifest_take hparse
      rw [wpx_pure]
      exact ⟨hs₁, by rw [hn, hstart, htables],
        NspStream.parseStreamManifest_accepted hknown hwhole, w, hwhole⟩
    · exact ⟨trivial, hE _ _⟩

/-! ## The part that reads the stream -/

/-- What that part sees of the console. -/
def onCard (s : World) : NspStream.State := ⟨s.pos, s.storage⟩

/-- What is in the databases, the records and the tickets. -/
structure Registry where
  db : MetaDatabase
  saved : MetaDatabase
  userDb : List NcmContentMetaKey
  records : UInt64 → List ContentStorageRecord
  tickets : List (Bytes × Bytes)

def registry (s : World) : Registry := ⟨s.db, s.saved, s.userDb, s.records, s.tickets⟩

/-- A call that is about the files of the journal. -/
def Journaling : Fn → Prop
  | .create_directories | .openTmp | .writeTmp _ | .renameTmp | .removeTmp | .removeRecovered
  | .removeActive | .existsActive | .renameActive => True
  | _ => False

/-- Only the files of the journal are different. -/
def Rejournaled (s s' : World) : Prop :=
  ∃ journal tmp recovered, s' = { s with journal, tmp, recovered }

theorem Rejournaled.step {s₀ : World} {fn : Fn} {r : fn.Res} (h : Rejournaled s₀ s)
    (hfn : Journaling fn) (hstep : ncm env s fn r s') : Rejournaled s₀ s' := by
  obtain ⟨journal, tmp, recovered, rfl⟩ := h
  have hif : ∀ {c : Prop} [Decidable c] {s₁ s₂ : World}, Rejournaled s₀ s₁ → Rejournaled s₀ s₂ →
      s' = (if c then s₁ else s₂) → Rejournaled s₀ s' := by
    intro c _ s₁ s₂ h₁ h₂ hs
    split at hs
    · exact hs ▸ h₁
    · exact hs ▸ h₂
  cases fn with
  | create_directories => exact ⟨_, _, _, hstep⟩
  | existsActive => exact ⟨_, _, _, hstep.1⟩
  | openTmp => exact hif ⟨_, _, _, rfl⟩ ⟨_, _, _, rfl⟩ hstep
  | writeTmp j => exact ⟨_, _, _, hstep⟩
  | removeTmp => exact hif ⟨_, _, _, rfl⟩ ⟨_, _, _, rfl⟩ hstep
  | removeRecovered => exact hif ⟨_, _, _, rfl⟩ ⟨_, _, _, rfl⟩ hstep
  | removeActive => exact hif ⟨_, _, _, rfl⟩ ⟨_, _, _, rfl⟩ hstep
  | renameTmp =>
    rw [ncm_renameTmp] at hstep
    split at hstep
    · exact ⟨_, _, _, hstep.2⟩
    · exact ⟨_, _, _, hstep⟩
  | renameActive =>
    rw [ncm_renameActive] at hstep
    split at hstep
    · exact ⟨_, _, _, hstep.2⟩
    · exact ⟨_, _, _, hstep⟩
  | _ => exact hfn.elim

theorem saveJournal_journaling (j : Json) : (saveJournal j).Calls Journaling := by
  unfold saveJournal
  refine Prog.calls_bind (calls_op trivial) fun _ => ?_
  refine Prog.calls_bind (calls_op trivial) fun out => ?_
  refine Prog.calls_bind ?_ fun _ => ?_
  · split
    · exact calls_op trivial
    · exact trivial
  refine Prog.calls_bind (calls_op trivial) fun ec => ?_
  split
  · exact trivial
  refine Prog.calls_bind (calls_op trivial) fun _ => ?_
  exact Prog.calls_bind (calls_op trivial) fun _ => trivial

theorem removeJournal_journaling : removeJournal.Calls Journaling := by
  unfold removeJournal
  refine Prog.calls_bind (calls_op trivial) fun _ => ?_
  refine Prog.calls_bind (calls_op trivial) fun _ => ?_
  refine Prog.calls_bind (calls_op trivial) fun _ => ?_
  refine Prog.calls_bind (calls_op trivial) fun r => ?_
  split
  · exact trivial
  refine Prog.calls_bind (calls_op trivial) fun ec => ?_
  split
  · refine Prog.calls_bind (calls_op trivial) fun _ => ?_
    refine Prog.calls_bind (calls_op trivial) fun r => ?_
    split <;> exact trivial
  · exact trivial

/-- A program of the journal changes only its files. -/
theorem wp_journaling {p : Prog FnI α} (hp : p.Calls Journaling) {Q : α → World → Prop}
    (hQ : ∀ a s', Rejournaled s s' → Q a s') : wp (ncm env) (fun _ => True) Q p s := by
  refine wp_conseq (wp_of_calls hp (J := Rejournaled s) ?_ ⟨_, _, _, rfl⟩) (fun _ _ => trivial)
    fun a s' _ h => hQ a s' h
  intro s₁ fn r s₂ hfn h hstep
  exact h.step hfn hstep

/-- A call of the part that reads the stream does to the card what its own machine says, and nothing
else. -/
theorem ofStream_step (s : World) (fn : NspStream.Fn) :
    wp (ncm env) (fun _ => True)
      (fun r s' => NspStream.ncm env.stream (onCard s) fn r (onCard s') ∧ registry s' = registry s)
      (ofStream fn) s := by
  cases fn with
  | saveJournal j =>
    refine wp_journaling (saveJournal_journaling j) fun _ s' h => ?_
    obtain ⟨journal, tmp, recovered, rfl⟩ := h
    exact ⟨rfl, rfl⟩
  | Has id =>
    refine ⟨trivial, fun r s' hs => ⟨trivial, ?_⟩⟩
    obtain ⟨rfl, hr⟩ := hs
    exact ⟨⟨rfl, hr⟩, rfl⟩
  | readExact size =>
    refine ⟨trivial, fun r s' hs => ⟨trivial, ?_⟩⟩
    cases r with
    | none =>
      obtain ⟨pos, rfl⟩ := hs
      exact ⟨⟨pos, rfl⟩, rfl⟩
    | some data =>
      obtain ⟨hread, rfl⟩ := hs
      exact ⟨⟨hread, rfl⟩, rfl⟩
  | CreatePlaceHolder content ph size =>
    refine ⟨trivial, fun (rc : ℕ) s' hs => ⟨trivial, ?_⟩⟩
    have hs : ncm env s (.CreatePlaceHolder content ph size) rc s' := hs
    rw [ncm_create] at hs
    show (if rc = 0 then _ else _) ∧ _
    split at hs
    · rename_i hrc
      obtain ⟨hfree, rfl⟩ := hs
      rw [if_pos hrc]
      exact ⟨⟨hfree, rfl⟩, rfl⟩
    · rename_i hrc
      subst hs
      rw [if_neg hrc]
      exact ⟨rfl, rfl⟩
  | WritePlaceHolder ph offset data =>
    refine ⟨trivial, fun (rc : ℕ) s' hs => ⟨trivial, ?_⟩⟩
    have hs : s' = if rc = 0 then { s with storage := s.storage.write ph offset data } else s := hs
    show _ = (if rc = 0 then _ else _) ∧ _
    split at hs
    · rename_i hrc
      subst hs
      rw [if_pos hrc]
      exact ⟨rfl, rfl⟩
    · rename_i hrc
      subst hs
      rw [if_neg hrc]
      exact ⟨rfl, rfl⟩
  | Register content ph =>
    refine ⟨trivial, fun (rc : ℕ) s' hs => ⟨trivial, ?_⟩⟩
    have hs : ncm env s (.Register content ph) rc s' := hs
    rw [ncm_register] at hs
    show _ = (if rc = 0 then _ else _) ∧ _
    split at hs
    · rename_i hrc
      obtain ⟨-, rfl⟩ := hs
      rw [if_pos hrc]
      exact ⟨rfl, rfl⟩
    · rename_i hrc
      subst hs
      rw [if_neg hrc]
      exact ⟨rfl, rfl⟩
  | _ =>
    refine ⟨trivial, fun r s' hs => ⟨trivial, ?_⟩⟩
    obtain rfl : s' = s := hs
    exact ⟨rfl, rfl⟩

/-- **What holds of the part that reads the stream holds in the whole.** -/
theorem wpx_streaming {p : NspStream.Installer α} {Q : α → NspStream.State → Prop}
    {E : Failure → NspStream.State → Prop} (h : wpx (NspStream.ncm env.stream) Q E p (onCard s))
    {E' : Failure → World → Prop} (hE : ∀ e s, E' e s) :
    wpx (ncm env) (fun a s' => Q a (onCard s') ∧ registry s' = registry s) E' (streaming p) s := by
  let M : Machine NspStream.FnI World := fun s fn r s' =>
    NspStream.ncm env.stream (onCard s) fn r (onCard s') ∧ registry s' = registry s
  have hmachine : wp M (fun _ => True) (fun r s' => Throws.ends Q E r (onCard s')) p.run s :=
    wp_comap (M := M) onCard (fun _ _ _ _ hstep => hstep.1) h
  have hframe := wp_frame (K := fun s' => registry s' = registry s)
    (fun _ _ _ _ hK hstep => hstep.2.trans hK) hmachine rfl
  refine wp_conseq (wp_handle (fun s fn _ => ofStream_step s fn) hframe) (fun _ h => h) ?_
  intro r s' _ hr
  cases r with
  | ok a => exact hr
  | error e => exact hE e s'

/-! ## The content meta -/

theorem slice_of_length {file : Bytes} {off size : ℕ} (hoff : off ≤ file.length)
    (h : (slice file off size).length = size) : off + size ≤ file.length := by
  rw [length_slice] at h
  omega

section file

variable {id : NcmId} {path : Bytes} {file : Bytes} (hfile : env.file id path = file)

include hfile

/-- What is read is there. -/
theorem readMetaBytes_reads (off size : ℕ) (technical : String) :
    Reads env s (readMetaBytes id path off size technical) fun bs =>
      bs = slice file off size ∧ (slice file off size).length = size := by
  unfold readMetaBytes
  refine reads_call (show Quiet (.fsFileRead id path off size) from trivial) fun r _ _ _ hstep => ?_
  have hread : r.1 = 0 → r.2 = slice (env.file id path) off size := hstep.2
  refine reads_require fun hok => ?_
  have hslice : r.2 = slice file off size := hfile ▸ hread hok.1
  exact reads_pure ⟨hslice, hslice ▸ hok.2⟩

theorem readMetaPart_reads (off size : ℕ) (technical : String) :
    Reads env s (readMetaPart id path off size technical) fun bs =>
      bs = slice file off size ∧ (slice file off size).length = size := by
  unfold readMetaPart
  split
  · rename_i hnone
    subst hnone
    have hempty : slice file off 0 = [] := List.take_zero
    exact reads_pure (hempty ▸ ⟨rfl, rfl⟩)
  · exact readMetaBytes_reads hfile off size technical

/-- The loop over the contents, from where it stands in the file. -/
theorem readContentInfos_reads (n : ℕ) {off : ℕ} (hoff : off ≤ file.length)
    (infos : List NcmContentInfo) :
    Reads env s (readContentInfos id path n off infos) fun r =>
      r.1 = off + NcmPackagedContentInfo.size * n ∧ r.1 ≤ file.length ∧
        r.2 = infos ++ ((NspCnmt.decodeArray NcmPackagedContentInfo.decode
          NcmPackagedContentInfo.size n (file.drop off)).map NcmPackagedContentInfo.info).filter
            fun i => i.content_type ≠ NspCnmt.NcmContentType_DeltaFragment := by
  induction n generalizing off infos with
  | zero => exact reads_pure ⟨rfl, hoff, (List.append_nil _).symm⟩
  | succ n ih =>
    unfold readContentInfos
    refine (readMetaBytes_reads hfile off _ _).bind fun bs hbs => ?_
    obtain ⟨rfl, hlength⟩ := hbs
    have hnext := slice_of_length hoff hlength
    refine Reads.mono (ih hnext _) fun r hr => ?_
    obtain ⟨hend, hle, hinfos⟩ := hr
    refine ⟨by rw [hend, Nat.mul_succ]; omega, hle, hinfos.trans ?_⟩
    have hfirst : slice (file.drop off) 0 NcmPackagedContentInfo.size =
        slice file off NcmPackagedContentInfo.size := rfl
    rw [NspCnmt.decodeArray_succ, List.map_cons, List.filter_cons, hfirst, List.drop_drop]
    split
    · rename_i hdelta
      rw [if_pos (decide_eq_true hdelta), List.append_assoc]
      rfl
    · rename_i hdelta
      rw [if_neg (fun h => hdelta (of_decide_eq_true h))]

/-- The whole file is read as what it is. -/
theorem readMetaFile_reads (atLeast15 : Bool) :
    Reads env s (readMetaFile atLeast15 id path) (IsCnmt atLeast15 file) := by
  unfold readMetaFile
  refine (readMetaBytes_reads hfile 0 _ _).bind fun bs hbs => ?_
  obtain ⟨rfl, hheader⟩ := hbs
  have hstart := slice_of_length (Nat.zero_le _) hheader
  rw [Nat.zero_add] at hstart
  dsimp only
  refine reads_require fun hcounts => ?_
  refine (readMetaPart_reads hfile _ _ _).bind fun ext hext => ?_
  obtain ⟨rfl, hextLength⟩ := hext
  have hcontents := slice_of_length hstart hextLength
  refine (readContentInfos_reads hfile _ hcontents []).bind fun r hr => ?_
  obtain ⟨hmetas, hle, hinfos⟩ := hr
  refine (readMetaPart_reads hfile _ _ _).bind fun metas hm => ?_
  obtain ⟨rfl, hmetasLength⟩ := hm
  have hend := slice_of_length hle hmetasLength
  refine reads_pure ⟨rfl, hcounts, rfl, ?_, ?_, rfl, ?_⟩
  · dsimp only
    rw [hextLength]
    exact hinfos
  · dsimp only
    rw [hextLength, NspCnmt.decodeArray_slice, hmetas]
  · dsimp only
    rw [hmetas] at hend
    rw [Nat.mul_comm NcmContentMetaInfo.size]
    exact hend

end file

/-- The meta is that of the first file in the content of the CNMT. -/
theorem parseInstalledMeta_reads (atLeast15 : Bool) (cnmt : NspEntryInfo) :
    Reads env s (parseInstalledMeta atLeast15 cnmt) fun m =>
      ∃ f ∈ (env.files (contentId cnmt)).head?, IsCnmt atLeast15 f.2 m := by
  unfold parseInstalledMeta
  refine reads_bind (Throws.calls_call trivial) fun _ => ?_
  refine reads_require fun _ => ?_
  refine reads_bind (Throws.calls_call trivial) fun _ => ?_
  refine reads_require fun _ => ?_
  refine reads_bind (Throws.calls_call trivial) fun _ => ?_
  refine reads_require fun _ => ?_
  refine reads_bind (Throws.calls_call trivial) fun cnt => ?_
  refine reads_require fun _ => ?_
  refine reads_call (show Quiet (.fsDirRead (contentId cnmt) _) from trivial)
    fun ents _ _ _ hstep => ?_
  have hread : ents.1 = 0 →
      ents.2 = ((env.files (contentId cnmt)).map Prod.fst).take cnt.2.toNat := hstep.2
  refine reads_require fun hok => ?_
  refine reads_bind (Throws.calls_call trivial) fun _ => ?_
  refine reads_require fun _ => ?_
  have hents := hread hok.1
  have hsome := hok.2
  cases hfiles : env.files (contentId cnmt) with
  | nil =>
    rw [hents, hfiles, List.map_nil, List.take_nil] at hsome
    exact absurd hsome (lt_irrefl 0)
  | cons f fs =>
    have hhead : ents.2.headD [] = f.1 := by
      rw [hents, hfiles, List.map_cons] at hsome ⊢
      cases hcount : cnt.2.toNat with
      | zero =>
        rw [hcount, List.take_zero] at hsome
        exact absurd hsome (lt_irrefl 0)
      | succ n => rfl
    have hfile : env.file (contentId cnmt) (47 :: ents.2.headD []) = f.2 := by
      rw [Env.file, hfiles, hhead]
      simp
    refine Reads.mono (readMetaFile_reads hfile atLeast15) fun m hm => ?_
    exact ⟨f, rfl, hm⟩

/-- Every content that the meta lists is in the package, and has the size that it says. -/
theorem references_valid {m : ParsedMeta} {manifest : NspManifest}
    (h : streamValidateCnmtReferences m manifest = none) :
    ∀ info ∈ m.contentInfos, ∃ e ∈ manifest.entries, e.isNca = true ∧
      contentId e = info.content_id ∧ e.size = ncmContentInfoSizeToU64 info := by
  intro info hinfo
  have hnone := List.findSome?_eq_none_iff.mp h info hinfo
  split at hnone
  · cases hnone
  · rename_i e he
    have hmem : e ∈ manifest.entries := List.mem_of_find?_eq_some he
    have htest := List.find?_some he
    simp only [Bool.and_eq_true, decide_eq_true_eq] at htest
    obtain ⟨⟨hnca, -⟩, hid⟩ := htest
    dsimp only at hnone
    split at hnone
    · cases hnone
    · rename_i hsize
      exact ⟨e, hmem, hnca, hid, not_not.mp hsize⟩

/-! ## The end of an install -/

/-- The contents and the registry. -/
def card (s : World) : Storage × Registry := (s.storage, registry s)

theorem Moved.card (h : Moved s s') : card s' = card s := by
  obtain ⟨pos, rfl⟩ := h
  rfl

theorem Rejournaled.card (h : Rejournaled s s') : card s' = card s := by
  obtain ⟨journal, tmp, recovered, rfl⟩ := h
  rfl

section ends

variable {E : Failure → World → Prop} (hE : ∀ e s, E e s)

include hE

/-- Nothing is asked of a run that stops. -/
theorem wpx_required {c : Prop} [Decidable c] {code : ErrorCode} {technical : Bytes}
    {Q : Unit → World → Prop} (hQ : c → Q () s) :
    wpx (ncm env) Q E (require c code technical) s :=
  wpx_require.mpr ⟨hQ, fun _ => hE _ _⟩

theorem wpx_reads {p : Throws FnI Failure α} {F : α → Prop} (h : Reads env s p F)
    {Q : α → World → Prop} (hQ : ∀ a s', card s' = card s → F a → Q a s') :
    wpx (ncm env) Q E p s := by
  refine wp_conseq (h s (Moved.refl s)) (fun _ _ => trivial) fun r s' _ hr => ?_
  cases r with
  | ok a => exact hQ a s' hr.1.card hr.2
  | error e => exact hE e s'

omit hE in
theorem wpx_save {t : Transaction} {metaSet recordPushed ticketImported : Bool} {stage : String}
    {Q : Unit → World → Prop} (hQ : ∀ s', card s' = card s → Q () s') :
    wpx (ncm env) Q E (t.save metaSet recordPushed ticketImported stage) s :=
  Throws.wpc_lift (wp_journaling (saveJournal_journaling _) fun _ s' h => hQ s' h.card)

/-- The meta is in the database and committed. -/
theorem wpx_setMeta {t : Transaction} {blob : Bytes} {st : Storage} {R : Registry}
    (hs : card s = (st, R)) :
    wpx (ncm env)
      (fun _ s' => card s' =
        (st, { R with db := set R.db t.key blob, saved := set R.db t.key blob }))
      E (setMeta t blob) s := by
  unfold setMeta
  rw [wpx_bind]
  refine wpx_save fun s₁ h₁ => ?_
  rw [hs] at h₁
  rw [wpx_bind]
  refine wpx_call.mpr fun (rc : ℕ) s₂ h₂ => ?_
  have h₂ : s₂ = if rc = 0 then { s₁ with db := set s₁.db t.key blob } else s₁ := h₂
  rw [wpx_bind]
  refine wpx_required hE fun hrc => ?_
  rw [if_pos hrc] at h₂
  rw [wpx_bind]
  refine wpx_call.mpr fun (rc : ℕ) s₃ h₃ => ?_
  have h₃ : s₃ = if rc = 0 then { s₂ with saved := s₂.db } else s₂ := h₃
  rw [wpx_bind]
  refine wpx_required hE fun hrc => ?_
  rw [if_pos hrc] at h₃
  refine wpx_save fun s₄ h₄ => h₄.trans ?_
  subst h₂ h₃
  have hdb : s₁.db = R.db := congrArg (fun c => c.2.db) h₁
  have hcard : card s₁ = (st, R) := h₁
  unfold card registry at hcard ⊢
  cases hcard
  rfl

/-- At most one ticket is imported, with a certificate, both from the package. -/
def Imported (aux : List BufferedAuxFile) (new : List (Bytes × Bytes)) : Prop :=
  new = [] ∨ ∃ tik ∈ aux, ∃ cert ∈ aux, tik.entry.isTicket = true ∧ cert.entry.isCert = true ∧
    new = [(tik.bytes, cert.bytes)]

omit hE in
theorem findBufferedRights_some {aux : List BufferedAuxFile} {rights : NcmId} {ticket : Bool}
    {f : BufferedAuxFile} (h : findBufferedRights aux rights ticket = some f) :
    f ∈ aux ∧ (if ticket then f.entry.isTicket else f.entry.isCert) = true := by
  have htest := List.find?_some h
  simp only [Bool.and_eq_true] at htest
  exact ⟨List.mem_of_find?_eq_some h, htest.1.1⟩

theorem wpx_importRights {planned : List NspEntryInfo} {aux : List BufferedAuxFile}
    {st : Storage} {R : Registry} (hs : card s = (st, R)) :
    wpx (ncm env)
      (fun _ s' => ∃ new, Imported aux new ∧
        card s' = (st, { R with tickets := R.tickets ++ new }))
      E (importRights planned aux) s := by
  have hsame : card s = (st, { R with tickets := R.tickets ++ [] }) := by
    rw [hs, List.append_nil]
  unfold importRights
  rw [wpx_bind]
  refine wpx_reads hE (reads_of_calls (findRights_calls planned)) fun rights s₁ h₁ _ => ?_
  cases rights with
  | none => exact ⟨trivial, [], .inl rfl, h₁.trans hsame⟩
  | some rights =>
    dsimp only
    split
    · rename_i tik cert htik hcert
      obtain ⟨htik, hisTicket⟩ := findBufferedRights_some htik
      obtain ⟨hcert, hisCert⟩ := findBufferedRights_some hcert
      rw [wpx_bind]
      unfold importTicket
      rw [wpx_bind]
      refine wpx_call.mpr fun (rc : ℕ) s₂ h₂ => ?_
      obtain rfl : s₂ = s₁ := h₂
      split
      · refine wpx_call.mpr fun (rc : ℕ) s₃ h₃ => ?_
        have h₃ : s₃ = if rc = 0 then
          { s₂ with tickets := s₂.tickets ++ [(tik.bytes, cert.bytes)] } else s₂ := h₃
        rw [wpx_bind]
        refine wpx_required hE fun hrc => ⟨trivial, _, .inr ⟨tik, htik, cert, hcert, hisTicket,
          hisCert, rfl⟩, ?_⟩
        rw [if_pos hrc] at h₃
        subst h₃
        have hcard := h₁.trans hs
        unfold card registry at hcard ⊢
        cases hcard
        rfl
      · rename_i hrc
        rw [wpx_pure, wpx_bind]
        exact wpx_required hE fun hok => (hrc hok).elim
    · exact ⟨trivial, hE _ _⟩

/-- The key is in the records of the application, with those that were listed. -/
theorem wpx_pushRecord {t : Transaction} {metaType : UInt8} {ticketImported : Bool}
    {st : Storage} {R : Registry} (hs : card s = (st, R)) :
    wpx (ncm env)
      (fun _ s' => ∃ known, (known = (R.records t.appId).take NspRecords.MAX_RECORDS ∨
          known = [] ∧ metaType = NspApplication.NcmContentMetaType_Application) ∧
        card s' = (st, { R with
          records := Function.update R.records t.appId (addKey t.key known) }))
      E (pushRecord t metaType ticketImported) s := by
  have hrecords : s.records = R.records := congrArg (fun c => c.2.records) hs
  unfold pushRecord
  rw [wpx_bind]
  refine wpx_reads hE (listRecords_reads t.appId) fun rr s₁ h₁ hlist => ?_
  rw [hrecords] at hlist
  rw [wpx_bind]
  refine wpx_required hE fun hlisted => ?_
  rw [wpx_bind]
  refine wpx_save fun s₂ h₂ => ?_
  rw [wpx_bind]
  have hs₂ := (h₂.trans h₁).trans hs
  -- the records are replaced only if every call before it works
  have hpush : wpx (ncm env)
      (fun rc s' => rc = 0 → card s' = (st, { R with
          records := Function.update R.records t.appId (addKey t.key rr.2) }))
      E (pushApplicationRecord t.appId (addKey t.key rr.2)) s₂ := by
    unfold pushApplicationRecord
    rw [wpx_bind]
    refine wpx_call.mpr fun (rc : ℕ) s₃ h₃ => ?_
    obtain rfl : s₃ = s₂ := h₃
    split
    · rename_i hrc
      exact ⟨trivial, fun hok => (hrc hok).elim⟩
    rw [wpx_bind]
    refine wpx_call.mpr fun (rc : ℕ) s₄ h₄ => ?_
    obtain rfl : s₄ = s₃ := h₄
    split
    · rename_i hrc
      exact ⟨trivial, fun hok => (hrc hok).elim⟩
    refine wpx_call.mpr fun (rc : ℕ) s₅ h₅ hrc => ?_
    have h₅ : s₅ = if rc = 0 then { s₄ with
      records := Function.update s₄.records t.appId (addKey t.key rr.2) } else s₄ := h₅
    rw [if_pos hrc] at h₅
    subst h₅
    unfold card registry at hs₂ ⊢
    cases hs₂
    rfl
  refine wpx_conseq hpush (fun rc s₃ h₃ => ?_) fun e s _ => hE e s
  rw [wpx_bind]
  refine wpx_required hE fun hrc => ?_
  rw [wpx_bind]
  refine wpx_save fun s₄ h₄ => ?_
  rw [wpx_bind]
  refine wpx_save fun s₅ h₅ => ?_
  rw [wpx_bind]
  refine Throws.wpc_lift (wp_journaling removeJournal_journaling fun _ s₆ h₆ => ?_)
  refine ⟨trivial, rr.2, ?_, (h₆.card.trans (h₅.trans h₄)).trans (h₃ hrc)⟩
  by_cases hfound : rr.1 = 0
  · rw [if_pos hfound] at hlist
    exact .inl hlist
  · rw [if_neg hfound] at hlist
    exact .inr ⟨hlist, not_not.mp fun hno => hlisted ⟨hfound, hno⟩⟩

omit hE in
/-- The stream has come to its end, and every content is there. -/
theorem wpx_streamContents {displayName : Bytes} {manifest : NspManifest} {v : NspStream.Vars}
    {st : Storage} {consumed : ℕ} {E : Failure → NspStream.State → Prop} (hE : ∀ e s, E e s)
    (h : NspStream.Accepted packageSize env.stream manifest consumed)
    (hsize : packageSize < 2 ^ 64) {t : NspStream.State}
    (hstart : Streamed env.stream st manifest [] v t) :
    wpx (NspStream.ncm env.stream)
      (fun v' t' => Streamed env.stream st manifest (physical manifest) v' t')
      E (streamContents displayName manifest v) t := by
  unfold streamContents
  rw [wpx_bind]
  refine Throws.wpx_foldlM (Streamed env.stream st manifest) (physical manifest) ?_ ?_ hstart
  · intro taken e rest v s hsplit hstreamed
    have hphysical : e ∈ physical manifest :=
      hsplit ▸ List.mem_append_right taken List.mem_cons_self
    have he : e ∈ manifest.entries := (List.mem_insertionSort _).mp hphysical
    refine wpx_conseq (NspStream.wpx_streamEntry_streamed ⟨e :: rest, hsplit.symm⟩ ?_ ?_ hstreamed)
      (fun _ _ h => h) fun e s _ => hE e s
    · rw [h.size]
      exact hsize
    · rw [h.size]
      exact (h.inside e he).2
  · intro v s hstreamed
    exact wpx_conseq (NspStream.wpx_finish (by rw [h.size]; exact hsize) hstreamed)
      (fun _ _ h => h.1) fun e s _ => hE e s

end ends

/-! ## The whole install -/

/-- A package with its CNMT is installed, and the result says so. -/
structure Delivered (env : Env) (atLeast15 : Bool) (old s : World) (manifest : NspManifest)
    (cnmt : NspEntryInfo) (m : ParsedMeta) (i : Installed) : Prop where
  file : ∃ f ∈ (env.files (contentId cnmt)).head?, IsCnmt atLeast15 f.2 m
  references : ∀ info ∈ m.contentInfos, ∃ e ∈ manifest.entries, e.isNca = true ∧
    contentId e = info.content_id ∧ e.size = ncmContentInfoSizeToU64 info
  base : HasBase old m
  contents : NspStream.Filled env.stream old.storage (physical manifest) s.storage.contents
  placeholders : s.storage.placeholders = old.storage.placeholders
  new : ∀ x ∈ old.db, x.1 ≠ keyOf m.header
  db : s.db = old.db ++ [(keyOf m.header, buildMetaDbBlob m cnmt)]
  saved : s.saved = s.db
  record : MetaRecord.decode (buildMetaDbBlob m cnmt) = recordOf m cnmt
  records : ∃ known, (known = (old.records m.appId).take NspRecords.MAX_RECORDS ∨
      known = [] ∧ m.header.metaType = NspApplication.NcmContentMetaType_Application) ∧
    s.records = Function.update old.records m.appId (addKey (keyOf m.header) known)
  tickets : ∃ new, Imported ((physical manifest).flatMap (NspStream.auxOf env.stream)) new ∧
    s.tickets = old.tickets ++ new
  titleId : i.titleId = m.header.titleId
  applicationId : i.applicationId = m.appId

section whole

variable {E : Failure → World → Prop} (hE : ∀ e s, E e s) {atLeast15 : Bool} {displayName : Bytes}

include hE

theorem wpx_finishInstall {manifest : NspManifest} {cnmt : NspEntryInfo} {v : NspStream.Vars}
    (hstreamed : Streamed env.stream old.storage manifest (physical manifest) v (onCard s))
    (hs : registry s = registry old) :
    wpx (ncm env) (fun i s' => ∃ m, Delivered env atLeast15 old s' manifest cnmt m i) E
      (finishInstall atLeast15 displayName manifest cnmt v) s := by
  have hcard : card s = (s.storage, registry old) := Prod.ext rfl hs
  have hdb : ∀ {s' : World}, card s' = card s → s'.db = old.db ∧ s'.userDb = old.userDb :=
    fun h => ⟨congrArg (fun c => c.2.db) (h.trans hcard),
      congrArg (fun c => c.2.userDb) (h.trans hcard)⟩
  unfold finishInstall
  rw [wpx_bind]
  refine wpx_reads hE (parseInstalledMeta_reads atLeast15 cnmt) fun m s₁ h₁ hmeta => ?_
  split
  · exact ⟨trivial, hE _ _⟩
  rename_i hrefs
  rw [wpx_bind]
  refine wpx_reads hE (validate_reads m) fun key s₂ h₂ hvalid => ?_
  obtain ⟨rfl, hnew, hbase⟩ := hvalid
  rw [(hdb h₁).1] at hnew
  have hbase : HasBase old m := by
    unfold HasBase at hbase ⊢
    rw [(hdb h₁).1, (hdb h₁).2] at hbase
    exact hbase
  rw [wpx_bind]
  refine wpx_save fun s₃ h₃ => ?_
  have hs₃ := h₃.trans (h₂.trans (h₁.trans hcard))
  rw [wpx_bind]
  refine wpx_conseq (wpx_setMeta hE hs₃) (fun _ s₄ h₄ => ?_) fun e s _ => hE e s
  rw [wpx_bind]
  refine wpx_conseq (wpx_importRights hE h₄) (fun imported s₅ h₅ => ?_) fun e s _ => hE e s
  obtain ⟨new, hnewTickets, h₅⟩ := h₅
  rw [wpx_bind]
  have hticket : wpx (ncm env) (fun _ s' => card s' = card s₅) E
      (saveTicket ⟨displayName, m.appId, keyOf m.header, v.plan⟩ imported) s₅ := by
    unfold saveTicket
    split
    · exact wpx_save fun s' h => h
    · exact ⟨trivial, rfl⟩
  refine wpx_conseq hticket (fun _ s₆ h₆ => ?_) fun e s _ => hE e s
  rw [wpx_bind]
  refine wpx_conseq (wpx_pushRecord hE (h₆.trans h₅)) (fun _ s₇ h₇ => ?_) fun e s _ => hE e s
  obtain ⟨known, hknown, h₇⟩ := h₇
  -- the key was not there, so its record is behind the old ones
  have hset : NspInstall.set old.db (keyOf m.header) (buildMetaDbBlob m cnmt) =
      old.db ++ [(keyOf m.header, buildMetaDbBlob m cnmt)] :=
    congrArg (· ++ _) (remove_of_new hnew)
  have hstorage : s₇.storage = s.storage := congrArg Prod.fst h₇
  have hregistry := congrArg Prod.snd h₇
  obtain ⟨f, hf, hcnmt⟩ := hmeta
  -- every part of it was settled by one of the steps
  refine ⟨trivial, m, ?_⟩
  exact {
    file := ⟨f, hf, hcnmt⟩
    references := references_valid hrefs
    base := hbase
    contents := hstorage ▸ hstreamed.contents
    placeholders := (congrArg Storage.placeholders hstorage).trans hstreamed.placeholders
    new := hnew
    db := (congrArg Registry.db hregistry).trans hset
    saved := (congrArg Registry.saved hregistry).trans (congrArg Registry.db hregistry).symm
    record := NspCnmt.decode_buildMetaDbBlob hcnmt.counted cnmt
    records := ⟨known, hknown, congrArg Registry.records hregistry⟩
    tickets := ⟨new, hstreamed.aux ▸ hnewTickets, congrArg Registry.tickets hregistry⟩
    titleId := rfl
    applicationId := rfl }

/-- What an install that reports success has left, where no journal was left before. -/
theorem wpx_install (hjournal : s.journal = none) (hpos : s.pos = 0) (hknown : packageSize ≠ 0)
    (hsize : packageSize < 2 ^ 64) :
    wpx (ncm env)
      (fun i s' => ∃ manifest consumed w cnmt m,
        Nsp.parseStreamManifest packageSize env.stream false = .ok ((manifest, consumed), w) ∧
        findCnmt manifest = some cnmt ∧ Delivered env atLeast15 s s' manifest cnmt m i)
      E (installNspStreamToSdTransactional atLeast15 displayName packageSize) s := by
  unfold installNspStreamToSdTransactional
  rw [wpx_bind]
  have hrecover : wp (ncm env) (fun _ => True) (fun _ s' => s' = s) recoverStaleRealInstall s := by
    refine ⟨trivial, fun found s₁ hs₁ => ?_⟩
    obtain ⟨rfl, hfound⟩ := hs₁
    rw [hfound, hjournal]
    exact ⟨trivial, rfl⟩
  refine Throws.wpc_lift (wp_conseq hrecover (fun _ h => h) ?_)
  rintro recovery s₁ - rfl
  rw [wpx_bind]
  refine wpx_required hE fun _ => ?_
  rw [wpx_bind]
  refine wpx_call.mpr fun found s₂ hs₂ => ?_
  obtain rfl : s₂ = s₁ := hs₂.1
  rw [wpx_bind]
  refine wpx_required hE fun _ => ?_
  rw [wpx_bind]
  refine wpx_conseq (wpx_parseStreamManifest hE hpos hknown) ?_ fun _ _ h => h
  rintro ⟨manifest, consumed⟩ s₃ ⟨hmoved, hpos₃, haccepted, w, hparse⟩
  have hregistry₃ : registry s₃ = registry s₂ := congrArg Prod.snd hmoved.card
  have honCard₃ : onCard s₃ = ⟨consumed, s₂.storage⟩ := by
    unfold onCard
    rw [hpos₃]
    exact congrArg (NspStream.State.mk consumed ·) (congrArg Prod.fst hmoved.card)
  show wpx _ _ _ (installManifest atLeast15 displayName manifest consumed) s₃
  unfold installManifest
  split
  · exact ⟨trivial, hE _ _⟩
  rename_i cnmt hcnmt
  rw [wpx_bind]
  refine wpx_conseq (wpx_streaming (NspStream.wpx_openContext (Q := fun _ t => t = onCard s₃)
    (E := fun _ _ => True) (fun _ => trivial) rfl) hE) ?_ fun _ _ h => h
  rintro - s₄ ⟨honCard₄, hregistry₄⟩
  rw [wpx_bind]
  refine wpx_conseq (wpx_streaming (NspStream.wpx_plan (E := fun _ _ => True)
    (fun _ => trivial) fun e he => ?_) hE) ?_
    fun _ _ h => h
  · have := (haccepted.inside e he).2
    omega
  rintro planned s₅ ⟨⟨hplan, -, honCard₅⟩, hregistry₅⟩
  rw [wpx_bind]
  refine wpx_conseq (wpx_streaming (NspStream.wpx_checkSpace (Q := fun _ t => t = onCard s₅)
    (E := fun _ _ => True) (fun _ => trivial) rfl) hE) ?_ fun _ _ h => h
  rintro - s₆ ⟨honCard₆, hregistry₆⟩
  rw [wpx_bind]
  have hsave : wpx (NspStream.ncm env.stream) (fun _ t => t = onCard s₆)
      (fun _ _ => True) (NspStream.save displayName planned.1 "stream-prepared") (onCard s₆) :=
    wpx_call.mpr fun _ _ h => h
  refine wpx_conseq (wpx_streaming hsave hE) ?_ fun _ _ h => h
  rintro - s₇ ⟨honCard₇, hregistry₇⟩
  have hcard₇ : onCard s₇ = ⟨consumed, s₂.storage⟩ :=
    ((honCard₇.trans (honCard₆.trans (honCard₅.trans honCard₄)))).trans honCard₃
  have hregistry : registry s₇ = registry s₂ :=
    (hregistry₇.trans (hregistry₆.trans (hregistry₅.trans hregistry₄))).trans hregistry₃
  have hplan : planned.1.map NspStream.planKey = NspStream.planOf s₂.storage manifest.entries := by
    rw [hplan, honCard₄, honCard₃]
  have hstart : Streamed env.stream s₂.storage manifest []
      { streamOffset := consumed, plan := planned.1 } (onCard s₇) := by
    rw [hcard₇]
    exact {
      pos := rfl, inStream := haccepted.inStream, now := Nat.zero_le _, auxTotal := Nat.zero_le _
      le := haccepted.size ▸ haccepted.consumed_le, ends := by simp, apart := .nil, plan := hplan
      aux := rfl, placeholders := rfl, contents := ⟨[], (List.append_nil _).symm, .nil⟩ }
  unfold transact
  rw [wpx_catch]
  -- a run that is rolled back reports no success
  have hrollback : ∀ e s', wpx (ncm env)
      (fun i s' => ∃ manifest consumed w cnmt m,
        Nsp.parseStreamManifest packageSize env.stream false = .ok ((manifest, consumed), w) ∧
        findCnmt manifest = some cnmt ∧ Delivered env atLeast15 s₂ s' manifest cnmt m i) E
      (do
        let _ ← Throws.lift recoverStaleRealInstall
        throw e) s' := by
    intro e s'
    rw [wpx_bind]
    refine Throws.wpc_lift (wp_conseq (wp_top _ _) (fun _ h => h) fun _ s'' _ _ => ?_)
    exact ⟨trivial, hE e s''⟩
  rw [wpx_bind]
  refine wpx_conseq (wpx_streaming (wpx_streamContents (fun _ _ => trivial) haccepted hsize hstart)
    fun e s' => hrollback e s') ?_ fun e s' _ => hrollback e s'
  rintro v s₈ ⟨hstreamed, hregistry₈⟩
  refine wpx_conseq (wpx_finishInstall (fun e s' => hrollback e s') hstreamed
    (hregistry₈.trans hregistry)) ?_ fun e s' _ => hrollback e s'
  rintro i s₉ ⟨m, hdelivered⟩
  exact ⟨manifest, consumed, w, cnmt, m, hparse, hcnmt, hdelivered⟩

end whole

/-- The package is installed on an empty card. -/
def pairInstall : Except Failure Installed × World :=
  Throws.exec (I := FnI) (answers pairEnv) (installNspStreamToSdTransactional true [] 149) empty

theorem pairInstall_ends :
    Run (ncm pairEnv) (installNspStreamToSdTransactional true [] 149).run empty
      (some pairInstall.1) pairInstall.2 :=
  Throws.exec_ends (I := FnI) (ncm_answers pairEnv) _ _

set_option maxRecDepth 8000 in
theorem pairInstall_ok : pairInstall.1.toOption.isSome = true := by decide

/-- **A reported install is the package.**  On a card without a journal, whatever the calls return:
an install of a package of known size that reports success has parsed the whole stream's manifest;
the contents of the package that were not on the card are there with their own bytes, in the order
of the package, and nothing else is new; the file of the CNMT lists contents that are in the package
with the sizes it gives; the key is in the database, in memory and committed, with a record that
says what the file says; and it is in the records of the application. -/
theorem reported_install_delivered (hjournal : old.journal = none) (hknown : packageSize ≠ 0)
    (hsize : packageSize < 2 ^ 64) {atLeast15 : Bool} {displayName : Bytes} {i : Installed}
    (hrun : Run (ncm env)
      (installNspStreamToSdTransactional atLeast15 displayName packageSize).run
      { old with pos := 0 } (some (.ok i)) s) :
    ∃ manifest consumed w cnmt m,
      Nsp.parseStreamManifest packageSize env.stream false = .ok ((manifest, consumed), w) ∧
      findCnmt manifest = some cnmt ∧ Delivered env atLeast15 old s manifest cnmt m i := by
  have hend := Throws.wpx_sound (wpx_install (E := fun _ _ => True) (fun _ _ => trivial)
    (s := { old with pos := 0 }) hjournal rfl hknown hsize) hrun
  obtain ⟨manifest, consumed, w, cnmt, m, hparse, hcnmt, hdelivered⟩ := hend
  exact ⟨manifest, consumed, w, cnmt, m, hparse, hcnmt, { hdelivered with }⟩

theorem reported_install_delivered_pair :
    ∃ i manifest consumed w cnmt m, pairInstall.1 = .ok i ∧
      Nsp.parseStreamManifest 149 pairEnv.stream false = .ok ((manifest, consumed), w) ∧
      findCnmt manifest = some cnmt ∧
      Delivered pairEnv true empty pairInstall.2 manifest cnmt m i := by
  have hends := pairInstall_ends
  have hok := pairInstall_ok
  cases hr : pairInstall.1 with
  | error e =>
    rw [hr] at hok
    cases hok
  | ok i =>
    rw [hr] at hends
    have hjournal : empty.journal = none := rfl
    have hknown : (149 : ℕ) ≠ 0 := by decide
    obtain ⟨manifest, consumed, w, cnmt, m, hdelivered⟩ :=
      reported_install_delivered hjournal hknown (by norm_num) hends
    exact ⟨i, manifest, consumed, w, cnmt, m, rfl, hdelivered⟩

/-- **The record says what the file says.**  Whatever a CNMT file holds, and whatever the calls
return: if a meta is read of it, the file was long enough for its counts, the meta is what the file
says without its delta fragments, and the record that is made of it is read back as the header with
the counts of what is there, the extended header, the meta itself in front of the contents, and the
metas, with nothing behind them. -/
theorem parsed_meta_recorded {atLeast15 : Bool} {cnmt : NspEntryInfo} {m : ParsedMeta}
    (hrun : Run (ncm env) (parseInstalledMeta atLeast15 cnmt).run s (some (.ok m)) s') :
    (∃ f ∈ (env.files (contentId cnmt)).head?, IsCnmt atLeast15 f.2 m) ∧
      MetaRecord.decode (buildMetaDbBlob m cnmt) = recordOf m cnmt ∧
      (buildMetaDbBlob m cnmt).length = (recordOf m cnmt).length := by
  have hend := Throws.wpx_sound (wpx_reads (E := fun _ _ => True) (fun _ _ => trivial)
    (parseInstalledMeta_reads atLeast15 cnmt)
    (Q := fun m _ => ∃ f ∈ (env.files (contentId cnmt)).head?, IsCnmt atLeast15 f.2 m)
    fun m s' _ h => h) hrun
  obtain ⟨f, hf, hcnmt⟩ := hend
  exact ⟨⟨f, hf, hcnmt⟩, NspCnmt.decode_buildMetaDbBlob hcnmt.counted cnmt,
    NspCnmt.length_buildMetaDbBlob m cnmt⟩

/-- The entry of the meta of that package. -/
def pairMeta : NspEntryInfo where
  name := List.replicate 32 48 ++ text ".cnmt.nca"
  offset := 143
  size := 2
  isNca := true
  isCnmtNca := true
  isTicket := false
  isCert := false
  contentId := some (zeros 16)

def pairParsed : Except Failure ParsedMeta × World :=
  Throws.exec (I := FnI) (answers pairEnv) (parseInstalledMeta true pairMeta) empty

set_option maxRecDepth 8000 in
theorem parsed_meta_recorded_pair :
    ∃ m, pairParsed.1 = .ok m ∧ (∃ f ∈ (pairEnv.files (contentId pairMeta)).head?,
      IsCnmt true f.2 m) ∧ MetaRecord.decode (buildMetaDbBlob m pairMeta) = recordOf m pairMeta ∧
      (buildMetaDbBlob m pairMeta).length = (recordOf m pairMeta).length := by
  have hok : pairParsed.1.toOption.isSome = true := by decide
  have hends := Throws.exec_ends (I := FnI) (ncm_answers pairEnv)
    (parseInstalledMeta true pairMeta) empty
  change Run _ _ _ (some pairParsed.1) pairParsed.2 at hends
  cases hr : pairParsed.1 with
  | error e =>
    rw [hr] at hok
    cases hok
  | ok m =>
    rw [hr] at hends
    exact ⟨m, rfl, parsed_meta_recorded hends⟩

end NspInstall
