/-
# The application record of an NSP install

Both installers of `nsp_transaction_installer.cpp` end with the same merge: the records that the
application has are read into an array, the new meta key is added unless it is there, and the whole
list is pushed.
-/
import AioMod.NspJournal

namespace NspRecords

open NspJournal (NcmContentMetaKey rcDiag)

/-! ## The code -/

/-- `ContentStorageRecord` -/
structure ContentStorageRecord where
  key : NcmContentMetaKey
  storage_id : UInt8
  padding : Bytes
  deriving DecidableEq

/-- `NcmStorageId_SdCard` -/
def NcmStorageId_SdCard : UInt8 := 5

/-- `NcmContentMetaType_Application` -/
def NcmContentMetaType_Application : UInt8 := 0x80

def MAX_RECORDS : ℕ := 64

/-- What `nsInitialize`, `nsGetApplicationManagerInterface` and the command return; 0 is success. -/
structure NsResults where
  init : ℕ
  interface : ℕ
  command : ℕ

/-- The first failure, or 0. -/
def NsResults.rc (n : NsResults) : ℕ :=
  if n.init ≠ 0 then n.init else if n.interface ≠ 0 then n.interface else n.command

/-- The command 17 into an array of `MAX_RECORDS` records: those that are inserted. -/
def listRecords (ns : NsResults) (existing : List ContentStorageRecord) :
    List ContentStorageRecord :=
  if ns.rc = 0 then existing.take MAX_RECORDS else []

/-- The record of the new key. -/
def newRecord (key : NcmContentMetaKey) : ContentStorageRecord :=
  ⟨key, NcmStorageId_SdCard, List.replicate 7 0⟩

/-- The new key joins the records. -/
def addKey (key : NcmContentMetaKey) (records : List ContentStorageRecord) :
    List ContentStorageRecord :=
  let haveKey := records.any (·.key = key)
  let records := if !haveKey then records ++ [newRecord key] else records
  if records.isEmpty then records ++ [newRecord key] else records

/-- The merge: the records to push, or the text of the error at which the install is rolled back. -/
def mergeRecords (place : String) (ns : NsResults) (metaType : UInt8) (key : NcmContentMetaKey)
    (existing : List ContentStorageRecord) : Except Bytes (List ContentStorageRecord) :=
  if ns.rc ≠ 0 ∧ metaType ≠ NcmContentMetaType_Application then .error (rcDiag ns.rc place)
  else .ok (addKey key (listRecords ns existing))

/-- `pushApplicationRecord`: its result, and what the service has afterwards. -/
def pushApplicationRecord (ns : NsResults) (records existing : List ContentStorageRecord) :
    ℕ × List ContentStorageRecord :=
  (ns.rc, if ns.rc = 0 then records else existing)

/-- The end of an install: an error, and what the service has afterwards. -/
def finish (listPlace pushPlace : String) (list push : NsResults) (metaType : UInt8)
    (key : NcmContentMetaKey) (existing : List ContentStorageRecord) :
    Option Bytes × List ContentStorageRecord :=
  match mergeRecords listPlace list metaType key existing with
  | .error d => (some d, existing)
  | .ok records =>
    let (rc, after) := pushApplicationRecord push records existing
    (if rc ≠ 0 then some (rcDiag rc pushPlace) else none, after)

/-- The end of `installNspToSdTransactional`. -/
def installNspToSdTransactional : NsResults → NsResults → UInt8 → NcmContentMetaKey →
    List ContentStorageRecord → Option Bytes × List ContentStorageRecord :=
  finish "ListApplicationRecordContentMeta" "PushApplicationRecord"

/-- The end of `installNspStreamToSdTransactional`. -/
def installNspStreamToSdTransactional : NsResults → NsResults → UInt8 → NcmContentMetaKey →
    List ContentStorageRecord → Option Bytes × List ContentStorageRecord :=
  finish "ListApplicationRecordContentMeta(stream)" "PushApplicationRecord(stream)"

/-! ## What is pushed -/

/-- `pushed` has every record of another key, the key once and on the card, and no duplicates. -/
structure Merged (key : NcmContentMetaKey) (existing pushed : List ContentStorageRecord) : Prop where
  kept : ∀ r ∈ existing, r.key ≠ key → r ∈ pushed
  once : ∃ r, pushed.filter (·.key = key) = [r] ∧ r.storage_id = NcmStorageId_SdCard
  nodup : pushed.Nodup

/-- Every record of another key was read, none twice, and at most one of the key, which is on the
card. -/
structure Fits (key : NcmContentMetaKey) (existing read : List ContentStorageRecord) : Prop where
  reads : ∀ r ∈ existing, r.key ≠ key → r ∈ read
  atMostOnce : (read.filter (·.key = key)).length ≤ 1
  onCard : ∀ r ∈ read, r.key = key → r.storage_id = NcmStorageId_SdCard
  nodup : read.Nodup

theorem addKey_of_mem {key : NcmContentMetaKey} {read : List ContentStorageRecord}
    (h : ∃ r ∈ read, r.key = key) : addKey key read = read := by
  obtain ⟨r, hr, hkey⟩ := h
  have hany : read.any (·.key = key) = true := List.any_eq_true.mpr ⟨r, hr, decide_eq_true hkey⟩
  have hne : read.isEmpty = false := List.isEmpty_eq_false_iff.mpr (List.ne_nil_of_mem hr)
  unfold addKey
  simp [hany, hne]

theorem addKey_of_not_mem {key : NcmContentMetaKey} {read : List ContentStorageRecord}
    (h : ¬∃ r ∈ read, r.key = key) : addKey key read = read ++ [newRecord key] := by
  have hany : read.any (·.key = key) = false := by
    rw [← Bool.not_eq_true, List.any_eq_true]
    rintro ⟨r, hr, hkey⟩
    exact h ⟨r, hr, of_decide_eq_true hkey⟩
  unfold addKey
  simp [hany]

/-- The merge of what was read is a merge of what is there exactly if what was read fits. -/
theorem merged_addKey_iff (key : NcmContentMetaKey) (existing read : List ContentStorageRecord) :
    Merged key existing (addKey key read) ↔ Fits key existing read := by
  by_cases h : ∃ r ∈ read, r.key = key
  · rw [addKey_of_mem h]
    obtain ⟨r, hr, hkey⟩ := h
    have hmem : r ∈ read.filter (·.key = key) := List.mem_filter.mpr ⟨hr, decide_eq_true hkey⟩
    constructor
    · rintro ⟨hkept, ⟨r', honce, hcard⟩, hnodup⟩
      refine ⟨hkept, by rw [honce]; exact le_rfl, ?_, hnodup⟩
      intro x hx hxkey
      have hx' : x ∈ read.filter (·.key = key) :=
        List.mem_filter.mpr ⟨hx, decide_eq_true hxkey⟩
      rw [honce, List.mem_singleton] at hx'
      rw [hx', hcard]
    · rintro ⟨hreads, hatMost, honCard, hnodup⟩
      have hone : (read.filter (·.key = key)).length = 1 := by
        have hpos := List.length_pos_of_mem hmem
        omega
      obtain ⟨r', honce⟩ := List.length_eq_one_iff.mp hone
      refine ⟨hreads, ⟨r', honce, ?_⟩, hnodup⟩
      rw [honce, List.mem_singleton] at hmem
      rw [← hmem]
      exact honCard r hr hkey
  · rw [addKey_of_not_mem h]
    have hother : ∀ r ∈ read, r.key ≠ key := fun r hr hkey => h ⟨r, hr, hkey⟩
    have hnone : read.filter (·.key = key) = [] := by
      apply List.filter_eq_nil_iff.mpr
      intro r hr
      rw [decide_eq_true_iff]
      exact hother r hr
    constructor
    · rintro ⟨hkept, -, hnodup⟩
      refine ⟨?_, by rw [hnone]; exact Nat.zero_le _, fun r hr hkey => absurd hkey (hother r hr),
        (List.nodup_append.mp hnodup).1⟩
      intro r hr hkey
      rcases List.mem_append.mp (hkept r hr hkey) with hread | hnew
      · exact hread
      · rw [List.mem_singleton] at hnew
        rw [hnew] at hkey
        exact absurd rfl hkey
    · rintro ⟨hreads, -, -, hnodup⟩
      refine ⟨fun r hr hkey => List.mem_append_left _ (hreads r hr hkey), ⟨newRecord key, ?_, rfl⟩,
        ?_⟩
      · rw [List.filter_append, hnone]
        simp [newRecord]
      · apply List.nodup_append.mpr
        refine ⟨hnodup, List.nodup_singleton _, ?_⟩
        intro r hr r' hr' heq
        rw [List.mem_singleton] at hr'
        rw [heq, hr'] at hr
        exact hother _ hr rfl

/-- The end of either installer. -/
theorem finish_merges_iff (listPlace pushPlace : String) (list push : NsResults) (metaType : UInt8)
    (key : NcmContentMetaKey) (existing : List ContentStorageRecord) :
    ((finish listPlace pushPlace list push metaType key existing).1 = none →
      Merged key existing (finish listPlace pushPlace list push metaType key existing).2) ↔
      push.rc ≠ 0 ∨ (list.rc ≠ 0 ∧ metaType ≠ NcmContentMetaType_Application) ∨
        Fits key existing (listRecords list existing) := by
  unfold finish mergeRecords pushApplicationRecord
  by_cases hlist : list.rc ≠ 0 ∧ metaType ≠ NcmContentMetaType_Application
  · rw [if_pos hlist]
    constructor
    · exact fun _ => .inr (.inl hlist)
    · rintro - ⟨⟩
  · rw [if_neg hlist]
    dsimp only
    by_cases hpush : push.rc = 0
    · rw [if_neg (not_not_intro hpush), if_pos hpush, merged_addKey_iff]
      constructor
      · exact fun h => .inr (.inr (h rfl))
      · rintro (h | h | h)
        · exact absurd hpush h
        · exact absurd h hlist
        · exact fun _ => h
    · rw [if_pos hpush]
      constructor
      · exact fun _ => .inl hpush
      · rintro - ⟨⟩

/-- The two installers differ in the texts of their errors only. -/
theorem finish_same (p q p' q' : String) (list push : NsResults) (metaType : UInt8)
    (key : NcmContentMetaKey) (existing : List ContentStorageRecord) :
    (finish p q list push metaType key existing).2
        = (finish p' q' list push metaType key existing).2 ∧
      ((finish p q list push metaType key existing).1 = none ↔
        (finish p' q' list push metaType key existing).1 = none) := by
  unfold finish mergeRecords
  by_cases hlist : list.rc ≠ 0 ∧ metaType ≠ NcmContentMetaType_Application
  · rw [if_pos hlist, if_pos hlist]
    exact ⟨rfl, by simp⟩
  · rw [if_neg hlist, if_neg hlist]
    refine ⟨rfl, ?_⟩
    unfold pushApplicationRecord
    dsimp only
    by_cases hpush : push.rc = 0
    · rw [if_neg (not_not_intro hpush), if_neg (not_not_intro hpush)]
    · rw [if_pos hpush, if_pos hpush]
      simp

/-- What an installer pushes is a merge exactly if what was read fits or nothing is pushed, and both
push the same. -/
theorem push_merges_iff (list push : NsResults) (metaType : UInt8) (key : NcmContentMetaKey)
    (existing : List ContentStorageRecord) :
    (((installNspToSdTransactional list push metaType key existing).1 = none →
      Merged key existing (installNspToSdTransactional list push metaType key existing).2) ↔
        push.rc ≠ 0 ∨ (list.rc ≠ 0 ∧ metaType ≠ NcmContentMetaType_Application) ∨
          Fits key existing (listRecords list existing)) ∧
    (installNspToSdTransactional list push metaType key existing).2
        = (installNspStreamToSdTransactional list push metaType key existing).2 ∧
    ((installNspToSdTransactional list push metaType key existing).1 = none ↔
      (installNspStreamToSdTransactional list push metaType key existing).1 = none) :=
  ⟨finish_merges_iff _ _ list push metaType key existing,
    finish_same _ _ _ _ list push metaType key existing⟩

/-- An update that is installed in the memory of the console is recorded there; installed again on
the card, it is still recorded there. -/
theorem record_is_lost :
    let key : NcmContentMetaKey := ⟨0x0100000000001800, 65536, 0x81, 0, (0, 0)⟩
    let existing : List ContentStorageRecord := [⟨key, 4, List.replicate 7 0⟩]
    installNspToSdTransactional ⟨0, 0, 0⟩ ⟨0, 0, 0⟩ 0x81 key existing = (none, existing) ∧
      ¬Merged key existing existing := by
  intro key existing
  refine ⟨by decide, ?_⟩
  rintro ⟨-, ⟨r, honce, hcard⟩, -⟩
  have hr : existing.filter (·.key = key) = existing := by decide
  rw [hr] at honce
  rw [← (List.cons.inj honce).1] at hcard
  exact absurd hcard (by decide)

end NspRecords
