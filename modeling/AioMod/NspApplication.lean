/-
# The application of an NSP

Two functions take the id of the application from the extended header of a content meta:
`getApplicationIdForMeta` of `nsp_ncm_probe.cpp`, for the test that the base game is installed, and
`applicationIdFor` of `nsp_transaction_installer.cpp`, for the application record.  They agree where
the extended header is long enough; what they make up where it is too short is different.
-/
import AioMod.FatFs
import AioMod.ByteImage

namespace NspApplication

open ByteImage

/-! ## Content metas -/

def NcmContentMetaType_Application : UInt8 := 0x80
def NcmContentMetaType_Patch : UInt8 := 0x81
def NcmContentMetaType_AddOnContent : UInt8 := 0x82
def NcmContentMetaType_DataPatch : UInt8 := 0x84

/-- `sizeof(NcmPatchMetaExtendedHeader)` -/
def sizeof_Patch : ℕ := 0x18

/-- `sizeof(NcmAddOnContentMetaExtendedHeader)` -/
def sizeof_AddOnContent : ℕ := 0x18

/-- `sizeof(NcmLegacyAddOnContentMetaExtendedHeader)` -/
def sizeof_LegacyAddOnContent : ℕ := 0x10

/-- `sizeof(NcmDataPatchMetaExtendedHeader)` -/
def sizeof_DataPatch : ℕ := 0x20

/-- A field of 64 bits. -/
def field64 (ext : Bytes) (off : ℕ) : UInt64 := .ofNat (ofLe (slice ext off 8))

/-- `application_id`, which is the first field but in the header of a data patch. -/
def application_id (ext : Bytes) : UInt64 := field64 ext 0

/-- `application_id` behind `data_id`. -/
def dataPatch_application_id (ext : Bytes) : UInt64 := field64 ext 8

/-- `PackagedCnmtHeader`, as far as the application depends on it. -/
structure PackagedCnmtHeader where
  titleId : UInt64
  metaType : UInt8

/-- `applicationIdFor`; `atLeast15` is `hosversionAtLeast(15,0,0)`. -/
def applicationIdFor (atLeast15 : Bool) (titleId : UInt64) (type : UInt8) (ext : Bytes) : UInt64 :=
  if type = NcmContentMetaType_Application then titleId
  else if type = NcmContentMetaType_Patch then
    if sizeof_Patch ≤ ext.length then application_id ext else titleId &&& ~~~0x800
  else if type = NcmContentMetaType_AddOnContent then
    if atLeast15 ∧ sizeof_AddOnContent ≤ ext.length then application_id ext
    else if sizeof_LegacyAddOnContent ≤ ext.length then application_id ext
    else titleId
  else titleId

def getApplicationIdForMeta (titleId : UInt64) (metaType : UInt8) (ext : Bytes) : UInt64 :=
  if metaType = NcmContentMetaType_Application then titleId
  else if metaType = NcmContentMetaType_Patch then
    if sizeof_Patch ≤ ext.length then application_id ext else titleId ^^^ 0x800
  else if metaType = NcmContentMetaType_AddOnContent then
    if sizeof_LegacyAddOnContent ≤ ext.length then application_id ext
    else (titleId ^^^ 0x1000) &&& ~~~0xFFF
  else if metaType = NcmContentMetaType_DataPatch then
    if sizeof_DataPatch ≤ ext.length then dataPatch_application_id ext
    else (titleId ^^^ 0x1000) &&& ~~~0xFFF
  else titleId

/-! ## The masks -/

/-- Clearing a bit and flipping it is the same if it is set. -/
theorem clear_eq_flip {n i : ℕ} (hi : i < n) (v : BitVec n) :
    v &&& ~~~BitVec.twoPow n i = v ^^^ BitVec.twoPow n i ↔ v.getLsbD i = true := by
  constructor
  · intro h
    have hbit := congrArg (BitVec.getLsbD · i) h
    simpa [hi] using hbit
  · intro h
    apply BitVec.eq_of_getLsbD_eq
    intro j hj
    by_cases hij : i = j
    · subst hij
      simp [hi, h]
    · simp [hj, Ne.symm hij]

theorem and_twoPow_ne_zero {n i : ℕ} (hi : i < n) (v : BitVec n) :
    v &&& BitVec.twoPow n i ≠ 0 ↔ v.getLsbD i = true := by
  rw [Ne, not_iff_comm, Bool.not_eq_true]
  constructor
  · intro h
    apply BitVec.eq_of_getLsbD_eq
    intro j hj
    by_cases hij : i = j
    · subst hij
      simp [h]
    · simp [hij]
  · intro h
    have hbit := congrArg (BitVec.getLsbD · i) h
    simpa [hi] using hbit

/-- A patch without its header: the ids are the same if the bit of a patch is set. -/
theorem patch_masks (titleId : UInt64) :
    titleId &&& ~~~0x800 = titleId ^^^ 0x800 ↔ titleId &&& 0x800 ≠ 0 := by
  rw [← UInt64.toBitVec_inj, Ne, ← UInt64.toBitVec_inj, ← Ne]
  show titleId.toBitVec &&& ~~~BitVec.twoPow 64 11 = titleId.toBitVec ^^^ BitVec.twoPow 64 11 ↔
    titleId.toBitVec &&& BitVec.twoPow 64 11 ≠ 0
  rw [clear_eq_flip (by decide), and_twoPow_ne_zero (by decide)]

/-- The base of an add-on content is never its own id. -/
theorem addOn_mask (titleId : UInt64) : titleId ≠ (titleId ^^^ 0x1000) &&& ~~~0xFFF := by
  intro h
  have hbit := congrArg (fun v : UInt64 => v.toBitVec.getLsbD 12) h
  simp at hbit

/-! ## Agreement -/

/-- The extended header is long enough for its type or, for a patch, the id has the bit that both
functions take away.  A data patch, for which the installer has no case, has to name itself. -/
structure Agrees (header : PackagedCnmtHeader) (ext : Bytes) : Prop where
  patch : header.metaType = NcmContentMetaType_Patch →
    sizeof_Patch ≤ ext.length ∨ header.titleId &&& 0x800 ≠ 0
  addOn : header.metaType = NcmContentMetaType_AddOnContent →
    sizeof_LegacyAddOnContent ≤ ext.length
  dataPatch : header.metaType = NcmContentMetaType_DataPatch →
    sizeof_DataPatch ≤ ext.length ∧ dataPatch_application_id ext = header.titleId

section cases

variable {header : PackagedCnmtHeader} {ext : Bytes}

theorem agrees_of_other (hpatch : header.metaType ≠ NcmContentMetaType_Patch)
    (haddOn : header.metaType ≠ NcmContentMetaType_AddOnContent)
    (hdata : header.metaType ≠ NcmContentMetaType_DataPatch) : Agrees header ext :=
  ⟨fun h => absurd h hpatch, fun h => absurd h haddOn, fun h => absurd h hdata⟩

theorem agrees_patch (h : header.metaType = NcmContentMetaType_Patch) :
    Agrees header ext ↔ sizeof_Patch ≤ ext.length ∨ header.titleId &&& 0x800 ≠ 0 := by
  constructor
  · intro hagrees
    exact hagrees.patch h
  · intro hcond
    refine ⟨fun _ => hcond, fun h' => ?_, fun h' => ?_⟩
    · exact absurd (h.symm.trans h') (by decide)
    · exact absurd (h.symm.trans h') (by decide)

theorem agrees_addOn (h : header.metaType = NcmContentMetaType_AddOnContent) :
    Agrees header ext ↔ sizeof_LegacyAddOnContent ≤ ext.length := by
  constructor
  · intro hagrees
    exact hagrees.addOn h
  · intro hcond
    refine ⟨fun h' => ?_, fun _ => hcond, fun h' => ?_⟩
    · exact absurd (h.symm.trans h') (by decide)
    · exact absurd (h.symm.trans h') (by decide)

theorem agrees_dataPatch (h : header.metaType = NcmContentMetaType_DataPatch) :
    Agrees header ext ↔
      sizeof_DataPatch ≤ ext.length ∧ dataPatch_application_id ext = header.titleId := by
  constructor
  · intro hagrees
    exact hagrees.dataPatch h
  · intro hcond
    refine ⟨fun h' => ?_, fun h' => ?_, fun _ => hcond⟩
    · exact absurd (h.symm.trans h') (by decide)
    · exact absurd (h.symm.trans h') (by decide)

end cases

/-- **The base that is looked for is the application that gets the record exactly if the header
agrees**, on any firmware.  Neither function rejects anything. -/
theorem same_application_iff (atLeast15 : Bool) (header : PackagedCnmtHeader) (ext : Bytes) :
    applicationIdFor atLeast15 header.titleId header.metaType ext =
      getApplicationIdForMeta header.titleId header.metaType ext ↔ Agrees header ext := by
  unfold applicationIdFor getApplicationIdForMeta
  by_cases happ : header.metaType = NcmContentMetaType_Application
  · rw [if_pos happ, if_pos happ]
    exact iff_of_true rfl (agrees_of_other (by rw [happ]; decide) (by rw [happ]; decide)
      (by rw [happ]; decide))
  rw [if_neg happ, if_neg happ]
  by_cases hpatch : header.metaType = NcmContentMetaType_Patch
  · rw [if_pos hpatch, if_pos hpatch, agrees_patch hpatch]
    by_cases hlen : sizeof_Patch ≤ ext.length
    · rw [if_pos hlen, if_pos hlen]
      exact iff_of_true rfl (.inl hlen)
    · rw [if_neg hlen, if_neg hlen, patch_masks, or_iff_right hlen]
  rw [if_neg hpatch, if_neg hpatch]
  by_cases haddOn : header.metaType = NcmContentMetaType_AddOnContent
  · rw [if_pos haddOn, if_pos haddOn, agrees_addOn haddOn]
    by_cases hlen : sizeof_LegacyAddOnContent ≤ ext.length
    · rw [if_pos hlen, if_pos hlen, ite_self]
      exact iff_of_true rfl hlen
    · have hshort : ¬(atLeast15 = true ∧ sizeof_AddOnContent ≤ ext.length) := by
        unfold sizeof_LegacyAddOnContent at hlen
        unfold sizeof_AddOnContent
        omega
      rw [if_neg hshort, if_neg hlen, if_neg hlen]
      exact iff_of_false (addOn_mask _) hlen
  rw [if_neg haddOn, if_neg haddOn]
  by_cases hdata : header.metaType = NcmContentMetaType_DataPatch
  · rw [if_pos hdata, agrees_dataPatch hdata]
    by_cases hlen : sizeof_DataPatch ≤ ext.length
    · rw [if_pos hlen, and_iff_right hlen]
      exact eq_comm
    · rw [if_neg hlen]
      exact iff_of_false (addOn_mask _) fun h => hlen h.1
  · rw [if_neg hdata]
    exact iff_of_true rfl (agrees_of_other hpatch haddOn hdata)

/-! ## A content without its extended header -/

/-- An add-on content, with no extended header. -/
def bareAddOn : PackagedCnmtHeader where
  titleId := 0x0100000000011001
  metaType := NcmContentMetaType_AddOnContent

/-- The base game is looked for under one id, and the record is pushed under another. -/
theorem record_of_other_application : ¬∀ (atLeast15 : Bool) (header : PackagedCnmtHeader)
    (ext : Bytes), applicationIdFor atLeast15 header.titleId header.metaType ext =
      getApplicationIdForMeta header.titleId header.metaType ext := by
  intro h
  exact absurd (h true bareAddOn []) (by decide)

end NspApplication
