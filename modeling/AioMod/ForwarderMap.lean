/-
# The memory the forwarder loader maps

`map_target` and `unmap_previous_target` of `forwarder-loader/source/main.c`: the loaded image
becomes code memory, its three segments get their permissions, and the next launch takes the
mapping away again.  Fields of the header are 32 bits wide and are added as such; addresses are
64 bits wide.

The kernel is a parameter: it answers a call by the calls that have succeeded before it.
-/
import AioMod.ForwarderLoader

namespace Forwarder

open ByteImage

/-! ## The calls -/

/-- `Perm_R`, `Perm_R | Perm_X` and `Perm_Rw` -/
inductive Perm where
  | R
  | RX
  | Rw
  deriving DecidableEq

/-- The calls of the two functions, with the process left out. -/
inductive Svc where
  | svcBreak (addr size : ℕ)
  | svcMapProcessCodeMemory (dst src size : ℕ)
  | svcUnmapProcessCodeMemory (dst src size : ℕ)
  | svcSetProcessMemoryPermission (addr size : ℕ) (perm : Perm)
  deriving DecidableEq

/-- Whether a call succeeds after the calls that succeeded before. -/
abbrev Kernel := List Svc → Svc → Bool

/-- A call that has to succeed; else the loader ends with `rc`. -/
def svc (kernel : Kernel) (rc : Abort) (call : Svc) (done : List Svc) :
    Except Abort (List Svc) :=
  if kernel done call then .ok (done ++ [call]) else .error rc

theorem svc_eq_ok {kernel : Kernel} {rc : Abort} {call : Svc} {done done' : List Svc} :
    svc kernel rc call done = .ok done' ↔ kernel done call = true ∧ done' = done ++ [call] := by
  unfold svc
  by_cases h : kernel done call = true
  · rw [if_pos h]
    simp [h, eq_comm]
  · rw [if_neg h]
    simp [h]

/-! ## Mapping and unmapping -/

/-- The header `map_target` copies. -/
structure TargetHeader extends NroHeader where
  bss_size : ℕ

/-- The header behind the `NroStart` of an image, with its `bss_size`. -/
def targetHeader (image : Bytes) : TargetHeader where
  toNroHeader := nroHeader image
  bss_size := ofLe (slice image 0x38 4)

/-- `segments[i].file_off` -/
def TargetHeader.file_off (h : TargetHeader) (i : Fin 3) : ℕ := (h.segments i).1

/-- `segments[i].size` -/
def TargetHeader.segSize (h : TargetHeader) (i : Fin 3) : ℕ := (h.segments i).2

/-- `(n + 0xFFF) & ~0xFFF` of a sum of 32 bits. -/
def roundPage (n : ℕ) : ℕ := (n + 0xFFF) % 2 ^ 32 / 0x1000 * 0x1000

/-- The statics that remember the mapping. -/
structure Mapped where
  s_header : TargetHeader
  s_mapped_addr : ℕ
  s_mapped_size : ℕ

/-- `rw` of both functions. -/
def TargetHeader.rw (h : TargetHeader) : ℕ := roundPage (h.segSize 2 + h.bss_size)

/-- `total` of `map_target`. -/
def TargetHeader.total (h : TargetHeader) : ℕ := roundPage (h.size + h.bss_size)

/-- An address of 64 bits. -/
def u64 (n : ℕ) : ℕ := n % 2 ^ 64

/-- `map_target`: what it leaves in the statics, `heap_start` and `heap_size`. -/
def map_target (kernel : Kernel) (virtmemFindCodeMemory : ℕ → ℕ) (s_heap s_heap_size : ℕ)
    (h : TargetHeader) (done : List Svc) : Except Abort ((Mapped × ℕ × ℕ) × List Svc) := do
  let target := virtmemFindCodeMemory h.total
  let done ← svc kernel (.homebrewLoader 18)
    (.svcMapProcessCodeMemory target s_heap h.total) done
  let done ← svc kernel .call
    (.svcSetProcessMemoryPermission (u64 (target + h.file_off 0)) (h.segSize 0) .RX) done
  let done ← svc kernel .call
    (.svcSetProcessMemoryPermission (u64 (target + h.file_off 1)) (h.segSize 1) .R) done
  let done ← svc kernel .call
    (.svcSetProcessMemoryPermission (u64 (target + h.file_off 2)) h.rw .Rw) done
  let s_mapped_size := h.file_off 2 + h.rw
  let heap_start := u64 (s_heap + s_mapped_size)
  let heap_size := u64 (s_heap_size + s_heap + 2 ^ 64 - heap_start)
  return ((⟨h, target, s_mapped_size⟩, heap_start, heap_size), done)

/-- `aioLoadTarget` between `unmap_previous_target` and the launch. -/
def loadTarget (sd : Bytes → Option Bytes) (kernel : Kernel) (virtmemFindCodeMemory : ℕ → ℕ)
    (s_heap : ℕ) (s : Loader) (done : List Svc) : Except Abort ((Mapped × ℕ × ℕ) × List Svc) := do
  let s' ← load_nro_into_heap sd s
  let header := targetHeader s'.s_heap
  validate_segments header.toNroHeader
  map_target kernel virtmemFindCodeMemory s_heap s.s_heap.length header done

/-- `unmap_previous_target` -/
def unmap_previous_target (kernel : Kernel) (s_heap : ℕ) (m : Mapped) (done : List Svc) :
    Except Abort (Mapped × List Svc) := do
  if m.s_mapped_size = 0 then
    return (m, done)
  let h := m.s_header
  let done ← svc kernel (.homebrewLoader 24) (.svcBreak m.s_mapped_addr m.s_mapped_size) done
  let done ← svc kernel (.homebrewLoader 24)
    (.svcUnmapProcessCodeMemory (u64 (m.s_mapped_addr + h.file_off 0))
      (u64 (s_heap + h.file_off 0)) (h.segSize 0)) done
  let done ← svc kernel (.homebrewLoader 25)
    (.svcUnmapProcessCodeMemory (u64 (m.s_mapped_addr + h.file_off 1))
      (u64 (s_heap + h.file_off 1)) (h.segSize 1)) done
  let done ← svc kernel (.homebrewLoader 26)
    (.svcUnmapProcessCodeMemory (u64 (m.s_mapped_addr + h.file_off 2))
      (u64 (s_heap + h.file_off 2)) h.rw) done
  return ({ m with s_mapped_addr := 0, s_mapped_size := 0 }, done)

/-! ## What the kernel promises -/

/-- The place of the last mapping. -/
def currentMapping (done : List Svc) : Option (ℕ × ℕ) :=
  done.reverse.findSome? fun
    | .svcMapProcessCodeMemory dst _ size => some (dst, size)
    | _ => none

/-- A nonzero page-aligned address and size. -/
def PageRange (addr size : ℕ) : Prop :=
  addr ≠ 0 ∧ 0x1000 ∣ addr ∧ size ≠ 0 ∧ 0x1000 ∣ size

instance (addr size : ℕ) : Decidable (PageRange addr size) :=
  inferInstanceAs (Decidable (addr ≠ 0 ∧ 0x1000 ∣ addr ∧ size ≠ 0 ∧ 0x1000 ∣ size))

/-- A mapping succeeds only for pages of the heap, which is a part of the address space, and a
permission is only given to pages of the current mapping. -/
structure Kernel.Strict (kernel : Kernel) (s_heap s_heap_size : ℕ) : Prop where
  heap : s_heap + s_heap_size < 2 ^ 64
  map : ∀ done dst src size, kernel done (.svcMapProcessCodeMemory dst src size) = true →
    PageRange dst size ∧ PageRange src size ∧ s_heap ≤ src ∧
      src + size ≤ s_heap + s_heap_size
  permission : ∀ done addr size perm,
    kernel done (.svcSetProcessMemoryPermission addr size perm) = true →
      PageRange addr size ∧ ∃ dst n, currentMapping done = some (dst, n) ∧ dst ≤ addr ∧
        addr + size ≤ dst + n

/-! ## In range -/

/-- The addresses of a segment in the image. -/
def TargetHeader.segment (h : TargetHeader) (i : Fin 3) : Set ℕ :=
  Set.Ico (h.file_off i) (h.file_off i + h.segSize i)

/-- What a mapping made by the calls `calls`, that left `m` and the heap behind, is to be. -/
structure InRange (s_heap s_heap_size : ℕ) (m : Mapped) (heap_start heap_size : ℕ)
    (calls : List Svc) : Prop where
  disjoint : ∀ i j, i ≠ j → Disjoint (m.s_header.segment i) (m.s_header.segment j)
  bss : ∀ dst src size, .svcMapProcessCodeMemory dst src size ∈ calls →
    m.s_header.file_off 2 + m.s_header.segSize 2 + m.s_header.bss_size ≤ size
  fixed : ∀ (i j addr size addr' size' : ℕ) (perm : Perm), i < j → perm ≠ .Rw →
    calls[i]? = some (Svc.svcSetProcessMemoryPermission addr size perm) →
    calls[j]? = some (Svc.svcSetProcessMemoryPermission addr' size' .Rw) →
      Disjoint (Set.Ico addr (addr + size)) (Set.Ico addr' (addr' + size'))
  start : ∀ dst src size, .svcMapProcessCodeMemory dst src size ∈ calls →
    src + size ≤ heap_start
  rest : heap_start + heap_size = s_heap + s_heap_size
  unmapped : ∀ done gone m', unmap_previous_target (fun _ _ => true) s_heap m done
      = .ok (m', done ++ gone) →
    {a | ∃ dst src size, .svcUnmapProcessCodeMemory dst src size ∈ gone ∧
        a ∈ Set.Ico dst (dst + size)} =
      {a | ∃ dst src size, .svcMapProcessCodeMemory dst src size ∈ calls ∧
        a ∈ Set.Ico dst (dst + size)}

/-- The first two segments fill the image up to the data segment, in either order; the data
segment and the image end in one page when `bss_size` bytes follow either, and 32 bits hold the
sum. -/
structure TargetHeader.Packed (h : TargetHeader) : Prop where
  front : (h.file_off 0 = 0 ∧ h.file_off 1 = h.segSize 0 ∧
      h.file_off 2 = h.file_off 1 + h.segSize 1) ∨
    (h.file_off 1 = 0 ∧ h.file_off 0 = h.segSize 1 ∧
      h.file_off 2 = h.file_off 0 + h.segSize 0)
  fits : h.size + h.bss_size + 0xFFF < 2 ^ 32
  page : (h.file_off 2 + h.segSize 2 + h.bss_size + 0xFFF) / 0x1000 =
    (h.size + h.bss_size + 0xFFF) / 0x1000

/-! ## Runs of the two functions -/

/-- The calls of `map_target`. -/
def TargetHeader.mapCalls (h : TargetHeader) (target s_heap : ℕ) : List Svc :=
  [.svcMapProcessCodeMemory target s_heap h.total,
    .svcSetProcessMemoryPermission (u64 (target + h.file_off 0)) (h.segSize 0) .RX,
    .svcSetProcessMemoryPermission (u64 (target + h.file_off 1)) (h.segSize 1) .R,
    .svcSetProcessMemoryPermission (u64 (target + h.file_off 2)) h.rw .Rw]

/-- What a `map_target` that returns has done. -/
theorem map_target_ok {kernel : Kernel} {find : ℕ → ℕ} {s_heap s_heap_size : ℕ}
    {h : TargetHeader} {done done' : List Svc} {m : Mapped} {start rest : ℕ}
    (hmap : map_target kernel find s_heap s_heap_size h done = .ok ((m, start, rest), done')) :
    m = ⟨h, find h.total, h.file_off 2 + h.rw⟩ ∧
      start = u64 (s_heap + (h.file_off 2 + h.rw)) ∧
      rest = u64 (s_heap_size + s_heap + 2 ^ 64 - start) ∧
      done' = done ++ h.mapCalls (find h.total) s_heap ∧
      ∀ i (hi : i < (h.mapCalls (find h.total) s_heap).length),
        kernel (done ++ (h.mapCalls (find h.total) s_heap).take i)
          ((h.mapCalls (find h.total) s_heap).get ⟨i, hi⟩) = true := by
  simp only [map_target, bind, Except.bind] at hmap
  split at hmap
  · cases hmap
  rename_i d₁ h₁
  rw [svc_eq_ok] at h₁
  split at hmap
  · cases hmap
  rename_i d₂ h₂
  rw [svc_eq_ok] at h₂
  split at hmap
  · cases hmap
  rename_i d₃ h₃
  rw [svc_eq_ok] at h₃
  split at hmap
  · cases hmap
  rename_i d₄ h₄
  rw [svc_eq_ok] at h₄
  obtain ⟨k₁, rfl⟩ := h₁
  obtain ⟨k₂, rfl⟩ := h₂
  obtain ⟨k₃, rfl⟩ := h₃
  obtain ⟨k₄, rfl⟩ := h₄
  simp only [pure, Except.pure, Except.ok.injEq, Prod.mk.injEq] at hmap
  obtain ⟨⟨rfl, rfl, rfl⟩, rfl⟩ := hmap
  refine ⟨rfl, rfl, rfl, by simp [TargetHeader.mapCalls], ?_⟩
  intro i hi
  have hlt : i < 4 := hi
  interval_cases i
  · simpa [TargetHeader.mapCalls] using k₁
  · simpa [TargetHeader.mapCalls] using k₂
  · simpa [TargetHeader.mapCalls] using k₃
  · simpa [TargetHeader.mapCalls] using k₄

/-- A `map_target` whose calls succeed returns. -/
theorem map_target_of_calls {kernel : Kernel} {find : ℕ → ℕ} {s_heap s_heap_size : ℕ}
    {h : TargetHeader} {done calls : List Svc} (hcalls : calls = h.mapCalls (find h.total) s_heap)
    (hk : ∀ i, (hi : i < calls.length) →
      kernel (done ++ calls.take i) (calls.get ⟨i, hi⟩) = true) :
    map_target kernel find s_heap s_heap_size h done =
      .ok ((⟨h, find h.total, h.file_off 2 + h.rw⟩, u64 (s_heap + (h.file_off 2 + h.rw)),
        u64 (s_heap_size + s_heap + 2 ^ 64 - u64 (s_heap + (h.file_off 2 + h.rw)))),
        done ++ calls) := by
  subst hcalls
  have k0 := hk 0 (show 0 < 4 by omega)
  have k1 := hk 1 (show 1 < 4 by omega)
  have k2 := hk 2 (show 2 < 4 by omega)
  have k3 := hk 3 (show 3 < 4 by omega)
  simp only [TargetHeader.mapCalls, List.take_zero, List.append_nil, List.get_eq_getElem,
    List.take_succ_cons, List.getElem_cons_zero, List.getElem_cons_succ] at k0 k1 k2 k3
  simp only [map_target, svc, bind, Except.bind, pure, Except.pure, TargetHeader.mapCalls, k0, k1,
    k2, k3, if_true, List.append_assoc, List.cons_append, List.nil_append]

/-- The calls of `unmap_previous_target` when something is mapped. -/
def Mapped.unmapCalls (m : Mapped) (s_heap : ℕ) : List Svc :=
  .svcBreak m.s_mapped_addr m.s_mapped_size ::
    [.svcUnmapProcessCodeMemory (u64 (m.s_mapped_addr + m.s_header.file_off 0))
        (u64 (s_heap + m.s_header.file_off 0)) (m.s_header.segSize 0),
      .svcUnmapProcessCodeMemory (u64 (m.s_mapped_addr + m.s_header.file_off 1))
        (u64 (s_heap + m.s_header.file_off 1)) (m.s_header.segSize 1),
      .svcUnmapProcessCodeMemory (u64 (m.s_mapped_addr + m.s_header.file_off 2))
        (u64 (s_heap + m.s_header.file_off 2)) m.s_header.rw]

/-- With every call answered, all of the calls are made. -/
theorem unmap_previous_target_all {s_heap : ℕ} {m : Mapped} (hm : m.s_mapped_size ≠ 0)
    (done : List Svc) :
    unmap_previous_target (fun _ _ => true) s_heap m done =
      .ok ({ m with s_mapped_addr := 0, s_mapped_size := 0 }, done ++ m.unmapCalls s_heap) := by
  simp only [unmap_previous_target, if_neg hm, svc, if_true, bind, Except.bind, pure, Except.pure,
    Mapped.unmapCalls, List.append_assoc, List.singleton_append]
  rfl

/-! ## What the checks leave -/

/-- The last mapping is not changed by a call that maps nothing. -/
theorem currentMapping_append {done rest : List Svc} {dst src size : ℕ}
    (hrest : ∀ call ∈ rest, ∃ addr n perm, call = .svcSetProcessMemoryPermission addr n perm) :
    currentMapping (done ++ .svcMapProcessCodeMemory dst src size :: rest) = some (dst, size) := by
  induction rest using List.reverseRecOn with
  | nil => simp [currentMapping]
  | append_singleton rest call ih =>
    obtain ⟨addr, n, perm, rfl⟩ := hrest call (by simp)
    have hbefore := ih (fun c hc => hrest c (by simp [hc]))
    unfold currentMapping at hbefore ⊢
    rw [← List.cons_append, ← List.append_assoc, List.reverse_append]
    exact hbefore

/-- `roundPage` gives whole pages, and no more than the sum needs. -/
theorem roundPage_facts (n : ℕ) : 0x1000 ∣ roundPage n ∧ roundPage n < 2 ^ 32 ∧
    roundPage n ≤ (n + 0xFFF) / 0x1000 * 0x1000 ∧
    (n + 0xFFF < 2 ^ 32 → roundPage n = (n + 0xFFF) / 0x1000 * 0x1000) := by
  unfold roundPage
  refine ⟨Nat.dvd_mul_left _ _, ?_, ?_, ?_⟩
  · have hmod : (n + 0xFFF) % 2 ^ 32 < 2 ^ 32 := Nat.mod_lt _ (by decide)
    omega
  · have hmod : (n + 0xFFF) % 2 ^ 32 ≤ n + 0xFFF := Nat.mod_le _ _
    exact Nat.mul_le_mul_right _ (Nat.div_le_div_right hmod)
  · intro hlt
    rw [Nat.mod_eq_of_lt hlt]

/-- The fields of a header are 32 bits wide. -/
structure TargetHeader.Narrow (h : TargetHeader) : Prop where
  size : h.size < 2 ^ 32
  bss : h.bss_size < 2 ^ 32
  off : ∀ i, h.file_off i < 2 ^ 32
  seg : ∀ i, h.segSize i < 2 ^ 32

theorem targetHeader_narrow (image : Bytes) : (targetHeader image).Narrow :=
  ⟨ofLe_slice_lt _ _ 4, ofLe_slice_lt _ _ 4, fun _ => ofLe_slice_lt _ _ 4,
    fun _ => ofLe_slice_lt _ _ 4⟩

/-- What `validate_segments` has checked. -/
theorem validate_segments_ok {h : NroHeader} (hv : validate_segments h = .ok ()) (i : Fin 3) :
    (h.segments i).1 + (h.segments i).2 ≤ h.size := by
  unfold validate_segments at hv
  split at hv
  · cases hv
  · rename_i hno
    push Not at hno
    exact (hno i).2.2

/-- The sizes in the calls: the data segment takes its `.bss` along. -/
def TargetHeader.len (h : TargetHeader) : Fin 3 → ℕ
  | 0 => h.segSize 0
  | 1 => h.segSize 1
  | 2 => h.rw

/-- What the kernel has agreed to when a header is mapped at `target`. -/
structure Placed (s_heap s_heap_size target : ℕ) (h : TargetHeader) : Prop where
  mapping : PageRange target h.total
  fits : h.total ≤ s_heap_size
  aligned : ∀ i, 0x1000 ∣ h.file_off i ∧ 0x1000 ∣ h.len i
  pos : ∀ i, 0 < h.len i
  inside : ∀ i, h.file_off i + h.len i ≤ h.total
  addr : ∀ i, u64 (target + h.file_off i) = target + h.file_off i

/-- A permission that is given behind the mapping. -/
theorem Kernel.Strict.placed {kernel : Kernel} {s_heap s_heap_size : ℕ}
    (hk : kernel.Strict s_heap s_heap_size) {done : List Svc} {target total off n : ℕ} {perm : Perm}
    (ht : PageRange target total) (hoff : off < 2 ^ 32)
    (hmapping : currentMapping done = some (target, total))
    (hcall : kernel done (.svcSetProcessMemoryPermission (u64 (target + off)) n perm) = true) :
    0x1000 ∣ off ∧ 0x1000 ∣ n ∧ 0 < n ∧ off + n ≤ total ∧ u64 (target + off) = target + off := by
  obtain ⟨hpage, dst, size, hcur, hlow, hhigh⟩ := hk.permission _ _ _ _ hcall
  rw [hmapping] at hcur
  obtain ⟨rfl, rfl⟩ : target = dst ∧ total = size := by simpa using hcur
  obtain ⟨-, haddr, hn, hdvd⟩ := hpage
  obtain ⟨-, htarget, -, -⟩ := ht
  have hu : u64 (target + off) = target + off := by
    unfold u64 at hlow ⊢
    omega
  rw [hu] at haddr hhigh
  refine ⟨?_, hdvd, by omega, by omega, hu⟩
  exact (Nat.dvd_add_right htarget).mp haddr

theorem placed_of_map_target {kernel : Kernel} {find : ℕ → ℕ} {s_heap s_heap_size : ℕ}
    (hk : kernel.Strict s_heap s_heap_size) {h : TargetHeader} (hn : h.Narrow)
    {done done' : List Svc} {m : Mapped} {start rest : ℕ}
    (hmap : map_target kernel find s_heap s_heap_size h done = .ok ((m, start, rest), done')) :
    Placed s_heap s_heap_size (find h.total) h := by
  obtain ⟨-, -, -, -, hcalls⟩ := map_target_ok hmap
  obtain ⟨htarget, -, hlow, hhigh⟩ := hk.map _ _ _ _ (hcalls 0 (show 0 < 4 by omega))
  have hseg : ∀ i : Fin 3, 0x1000 ∣ h.file_off i ∧ 0x1000 ∣ h.len i ∧ 0 < h.len i ∧
      h.file_off i + h.len i ≤ h.total ∧
      u64 (find h.total + h.file_off i) = find h.total + h.file_off i := by
    intro i
    fin_cases i
    · exact hk.placed htarget (hn.off 0) (currentMapping_append (by simp))
        (hcalls 1 (show 1 < 4 by omega))
    · exact hk.placed htarget (hn.off 1) (currentMapping_append (by simp))
        (hcalls 2 (show 2 < 4 by omega))
    · exact hk.placed htarget (hn.off 2) (currentMapping_append (by simp))
        (hcalls 3 (show 3 < 4 by omega))
  exact
    { mapping := htarget
      fits := by omega
      aligned := fun i => ⟨(hseg i).1, (hseg i).2.1⟩
      pos := fun i => (hseg i).2.2.1
      inside := fun i => (hseg i).2.2.2.1
      addr := fun i => (hseg i).2.2.2.2 }

/-- Three ranges with something in each are the pieces of one from 0 that ends with the third
when the other two stand in front of it, in one order or the other. -/
theorem pieces_iff {a n : Fin 3 → ℕ} {total : ℕ} (hpos : ∀ i, 0 < n i)
    (hin : ∀ i, a i + n i ≤ total) :
    ((a 0 + n 0 ≤ a 1 ∨ a 1 + n 1 ≤ a 0) ∧ (a 0 + n 0 ≤ a 2 ∨ a 2 + n 2 ≤ a 0) ∧
        (a 1 + n 1 ≤ a 2 ∨ a 2 + n 2 ≤ a 1) ∧ total ≤ a 2 + n 2 ∧
        ∀ x, (∃ i, a i ≤ x ∧ x < a i + n i) ↔ x < total) ↔
      a 2 + n 2 = total ∧
        ((a 0 = 0 ∧ a 1 = n 0 ∧ a 2 = a 1 + n 1) ∨ (a 1 = 0 ∧ a 0 = n 1 ∧ a 2 = a 0 + n 0)) := by
  have p0 := hpos 0
  have p1 := hpos 1
  have p2 := hpos 2
  have i0 := hin 0
  have i1 := hin 1
  have i2 := hin 2
  have hany : ∀ x, (∃ i, a i ≤ x ∧ x < a i + n i) ↔ (a 0 ≤ x ∧ x < a 0 + n 0) ∨
      (a 1 ≤ x ∧ x < a 1 + n 1) ∨ (a 2 ≤ x ∧ x < a 2 + n 2) := by
    intro x
    rw [Fin.exists_fin_succ, Fin.exists_fin_succ, Fin.exists_fin_succ]
    simp
  constructor
  · rintro ⟨h01, h02, h12, hlast, hall⟩
    refine ⟨by omega, ?_⟩
    -- what covers 0, and what covers the ends of the first two ranges
    have c0 := (hany 0).mp ((hall 0).mpr (by omega))
    have c1 := (hany _).symm.trans (hall (a 0 + n 0))
    have c2 := (hany _).symm.trans (hall (a 1 + n 1))
    omega
  · rintro ⟨hlast, hfront⟩
    refine ⟨by omega, by omega, by omega, by omega, ?_⟩
    intro x
    rw [hany]
    omega

/-! ## The two readings of a mapping -/

section Reading

variable {s_heap s_heap_size target : ℕ} {h : TargetHeader}

/-- What `map_target` leaves in the statics. -/
def TargetHeader.mapped (h : TargetHeader) (target : ℕ) : Mapped :=
  ⟨h, target, h.file_off 2 + h.rw⟩

theorem mem_mapCalls_map {dst src size : ℕ} :
    Svc.svcMapProcessCodeMemory dst src size ∈ h.mapCalls target s_heap ↔
      dst = target ∧ src = s_heap ∧ size = h.total := by
  simp [TargetHeader.mapCalls]

/-- The ranges the next launch takes away. -/
theorem Placed.mem_unmapCalls (hp : Placed s_heap s_heap_size target h) {a : ℕ} :
    (∃ dst src size, Svc.svcUnmapProcessCodeMemory dst src size ∈
        (h.mapped target).unmapCalls s_heap ∧ a ∈ Set.Ico dst (dst + size)) ↔
      target ≤ a ∧ ∃ i, h.file_off i ≤ a - target ∧ a - target < h.file_off i + h.len i := by
  have a0 := hp.addr 0
  have a1 := hp.addr 1
  have a2 := hp.addr 2
  simp only [Mapped.unmapCalls, TargetHeader.mapped, a0, a1, a2, List.mem_cons, reduceCtorEq,
    Svc.svcUnmapProcessCodeMemory.injEq, List.not_mem_nil, or_false, false_or, Set.mem_Ico]
  constructor
  · rintro ⟨dst, src, size, ⟨rfl, rfl, rfl⟩ | ⟨rfl, rfl, rfl⟩ | ⟨rfl, rfl, rfl⟩, hlow, hhigh⟩
    · refine ⟨by omega, 0, by omega, ?_⟩
      show a - target < h.file_off 0 + h.segSize 0
      omega
    · refine ⟨by omega, 1, by omega, ?_⟩
      show a - target < h.file_off 1 + h.segSize 1
      omega
    · refine ⟨by omega, 2, by omega, ?_⟩
      show a - target < h.file_off 2 + h.rw
      omega
  · rintro ⟨hle, i, hlow, hhigh⟩
    fin_cases i
    · have hfrom : h.file_off 0 ≤ a - target := hlow
      have hto : a - target < h.file_off 0 + h.segSize 0 := hhigh
      exact ⟨_, _, _, .inl ⟨rfl, rfl, rfl⟩, by omega, by omega⟩
    · have hfrom : h.file_off 1 ≤ a - target := hlow
      have hto : a - target < h.file_off 1 + h.segSize 1 := hhigh
      exact ⟨_, _, _, .inr (.inl ⟨rfl, rfl, rfl⟩), by omega, by omega⟩
    · have hfrom : h.file_off 2 ≤ a - target := hlow
      have hto : a - target < h.file_off 2 + h.rw := hhigh
      exact ⟨_, _, _, .inr (.inr ⟨rfl, rfl, rfl⟩), by omega, by omega⟩

/-- What the next launch takes away, in offsets: the three ranges are the whole mapping. -/
theorem Placed.unmapped_iff (hp : Placed s_heap s_heap_size target h) :
    (∀ done gone m', unmap_previous_target (fun _ _ => true) s_heap (h.mapped target) done
        = .ok (m', done ++ gone) →
      {a | ∃ dst src size, Svc.svcUnmapProcessCodeMemory dst src size ∈ gone ∧
          a ∈ Set.Ico dst (dst + size)} =
        {a | ∃ dst src size, Svc.svcMapProcessCodeMemory dst src size ∈ h.mapCalls target s_heap ∧
          a ∈ Set.Ico dst (dst + size)}) ↔
      ∀ x, (∃ i, h.file_off i ≤ x ∧ x < h.file_off i + h.len i) ↔ x < h.total := by
  have hpos : (h.mapped target).s_mapped_size ≠ 0 := by
    have h2 : 0 < h.rw := hp.pos 2
    show h.file_off 2 + h.rw ≠ 0
    omega
  have hwhole : ∀ a, (∃ dst src size, Svc.svcMapProcessCodeMemory dst src size ∈
      h.mapCalls target s_heap ∧ a ∈ Set.Ico dst (dst + size)) ↔
        target ≤ a ∧ a - target < h.total := by
    intro a
    simp only [mem_mapCalls_map, Set.mem_Ico]
    constructor
    · rintro ⟨_, _, _, ⟨rfl, rfl, rfl⟩, hlow, hhigh⟩
      omega
    · rintro ⟨hlow, hhigh⟩
      exact ⟨_, _, _, ⟨rfl, rfl, rfl⟩, hlow, by omega⟩
  constructor
  · intro hall x
    have heq := hall [] _ _ (unmap_previous_target_all hpos [])
    have hx := Set.ext_iff.mp heq (target + x)
    rw [Set.mem_ofPred_eq, Set.mem_ofPred_eq, hp.mem_unmapCalls, hwhole] at hx
    rw [Nat.add_sub_cancel_left] at hx
    constructor
    · intro hi
      exact (hx.mp ⟨by omega, hi⟩).2
    · intro hlt
      exact (hx.mpr ⟨by omega, hlt⟩).2
  · intro hall done gone m' hrun
    rw [unmap_previous_target_all hpos, Except.ok.injEq, Prod.mk.injEq] at hrun
    obtain rfl := List.append_cancel_left hrun.2
    ext a
    rw [Set.mem_ofPred_eq, Set.mem_ofPred_eq, hp.mem_unmapCalls, hwhole, hall]

theorem disjoint_Ico {a n b k : ℕ} (hn : 0 < n) (hk : 0 < k) :
    Disjoint (Set.Ico a (a + n)) (Set.Ico b (b + k)) ↔ a + n ≤ b ∨ b + k ≤ a := by
  rw [Set.Ico_disjoint_Ico]
  omega

/-- The permission of the data segment is the last one, and the only one to write. -/
theorem Placed.fixed_iff (hp : Placed s_heap s_heap_size target h) :
    (∀ (i j addr size addr' size' : ℕ) (perm : Perm), i < j → perm ≠ .Rw →
      (h.mapCalls target s_heap)[i]? = some (Svc.svcSetProcessMemoryPermission addr size perm) →
      (h.mapCalls target s_heap)[j]? = some (Svc.svcSetProcessMemoryPermission addr' size' .Rw) →
        Disjoint (Set.Ico addr (addr + size)) (Set.Ico addr' (addr' + size'))) ↔
      (h.file_off 0 + h.segSize 0 ≤ h.file_off 2 ∨ h.file_off 2 + h.rw ≤ h.file_off 0) ∧
        (h.file_off 1 + h.segSize 1 ≤ h.file_off 2 ∨ h.file_off 2 + h.rw ≤ h.file_off 1) := by
  have p0 : 0 < h.segSize 0 := hp.pos 0
  have p1 : 0 < h.segSize 1 := hp.pos 1
  have p2 : 0 < h.rw := hp.pos 2
  have h02 := disjoint_Ico (a := target + h.file_off 0) (b := target + h.file_off 2) p0 p2
  have h12 := disjoint_Ico (a := target + h.file_off 1) (b := target + h.file_off 2) p1 p2
  have hcall : h.mapCalls target s_heap = [.svcMapProcessCodeMemory target s_heap h.total,
      .svcSetProcessMemoryPermission (target + h.file_off 0) (h.segSize 0) .RX,
      .svcSetProcessMemoryPermission (target + h.file_off 1) (h.segSize 1) .R,
      .svcSetProcessMemoryPermission (target + h.file_off 2) h.rw .Rw] := by
    rw [TargetHeader.mapCalls, hp.addr 0, hp.addr 1, hp.addr 2]
  rw [hcall]
  constructor
  · intro hfixed
    have f0 := h02.mp (hfixed 1 3 _ _ _ _ .RX (by omega) (by decide) rfl rfl)
    have f1 := h12.mp (hfixed 2 3 _ _ _ _ .R (by omega) (by decide) rfl rfl)
    omega
  · rintro ⟨f0, f1⟩ i j addr size addr' size' perm hij hperm hi hj
    -- a call that lets write is the last one
    have hj3 : j = 3 := by
      rcases j with _ | _ | _ | _ | j
      · cases hj
      · cases hj
      · cases hj
      · rfl
      · cases hj
    subst hj3
    cases hj
    rcases i with _ | _ | _ | i
    · cases hi
    · cases hi
      exact h02.mpr (by omega)
    · cases hi
      exact h12.mpr (by omega)
    · omega

/-- What a mapping is to be, in the numbers of its header. -/
theorem Placed.inRange_iff (hp : Placed s_heap s_heap_size target h)
    (hheap : s_heap + s_heap_size < 2 ^ 64) {start rest : ℕ}
    (hstart : start = u64 (s_heap + (h.file_off 2 + h.rw)))
    (hrest : rest = u64 (s_heap_size + s_heap + 2 ^ 64 - start)) :
    InRange s_heap s_heap_size (h.mapped target) start rest (h.mapCalls target s_heap) ↔
      (∀ i j, i ≠ j → Disjoint (h.segment i) (h.segment j)) ∧
      h.file_off 2 + h.segSize 2 + h.bss_size ≤ h.total ∧
      ((h.file_off 0 + h.segSize 0 ≤ h.file_off 2 ∨ h.file_off 2 + h.rw ≤ h.file_off 0) ∧
        (h.file_off 1 + h.segSize 1 ≤ h.file_off 2 ∨ h.file_off 2 + h.rw ≤ h.file_off 1)) ∧
      h.total ≤ h.file_off 2 + h.rw ∧
      ∀ x, (∃ i, h.file_off i ≤ x ∧ x < h.file_off i + h.len i) ↔ x < h.total := by
  have hin : h.file_off 2 + h.rw ≤ h.total := hp.inside 2
  have hfits := hp.fits
  have hs : start = s_heap + (h.file_off 2 + h.rw) := by
    rw [hstart, u64]
    omega
  have hr : start + rest = s_heap + s_heap_size := by
    rw [hrest, u64]
    omega
  constructor
  · intro hr
    refine ⟨hr.disjoint, hr.bss _ _ _ (mem_mapCalls_map.mpr ⟨rfl, rfl, rfl⟩),
      hp.fixed_iff.mp hr.fixed, ?_, hp.unmapped_iff.mp hr.unmapped⟩
    have hend := hr.start _ _ _ (mem_mapCalls_map.mpr ⟨rfl, rfl, rfl⟩)
    omega
  · rintro ⟨hdisj, hbss, hfixed, hend, hall⟩
    refine ⟨hdisj, ?_, hp.fixed_iff.mpr hfixed, ?_, hr, hp.unmapped_iff.mpr hall⟩
    · intro dst src size hmem
      obtain ⟨rfl, rfl, rfl⟩ := mem_mapCalls_map.mp hmem
      exact hbss
    · intro dst src size hmem
      obtain ⟨rfl, rfl, rfl⟩ := mem_mapCalls_map.mp hmem
      omega

/-- An empty data segment apart, the segments are ranges. -/
theorem segment_disjoint_of_le {i j : Fin 3}
    (hle : h.file_off i + h.segSize i ≤ h.file_off j ∨ h.file_off j + h.segSize j ≤ h.file_off i) :
    Disjoint (h.segment i) (h.segment j) := by
  unfold TargetHeader.segment
  rw [Set.Ico_disjoint_Ico]
  omega

/-- The numbers of a header are in range when it is packed. -/
theorem Placed.packed_iff (hp : Placed s_heap s_heap_size target h) (hn : h.Narrow)
    (hdata : h.file_off 2 + h.segSize 2 ≤ h.size) :
    ((∀ i j, i ≠ j → Disjoint (h.segment i) (h.segment j)) ∧
      h.file_off 2 + h.segSize 2 + h.bss_size ≤ h.total ∧
      ((h.file_off 0 + h.segSize 0 ≤ h.file_off 2 ∨ h.file_off 2 + h.rw ≤ h.file_off 0) ∧
        (h.file_off 1 + h.segSize 1 ≤ h.file_off 2 ∨ h.file_off 2 + h.rw ≤ h.file_off 1)) ∧
      h.total ≤ h.file_off 2 + h.rw ∧
      ∀ x, (∃ i, h.file_off i ≤ x ∧ x < h.file_off i + h.len i) ↔ x < h.total) ↔ h.Packed := by
  have hpieces := pieces_iff hp.pos hp.inside
  have len0 : h.len 0 = h.segSize 0 := rfl
  have len1 : h.len 1 = h.segSize 1 := rfl
  have len2 : h.len 2 = h.rw := rfl
  rw [len0, len1, len2] at hpieces
  have p0 : 0 < h.segSize 0 := hp.pos 0
  have p1 : 0 < h.segSize 1 := hp.pos 1
  have d0 : 0x1000 ∣ h.segSize 0 := (hp.aligned 0).2
  have doff : 0x1000 ∣ h.file_off 2 := (hp.aligned 2).1
  have hsize := hn.size
  have hbss := hn.bss
  obtain ⟨-, -, -, hrw⟩ := roundPage_facts (h.segSize 2 + h.bss_size)
  obtain ⟨-, -, -, htotal⟩ := roundPage_facts (h.size + h.bss_size)
  rw [← TargetHeader.rw] at hrw
  rw [← TargetHeader.total] at htotal
  constructor
  · rintro ⟨hdisj, hends, ⟨h02, h12⟩, hlast, hall⟩
    have h01 := (disjoint_Ico p0 p1).mp (hdisj 0 1 (by decide))
    obtain ⟨hend, hfront⟩ := hpieces.mp ⟨h01, h02, h12, hlast, hall⟩
    -- a size that wraps would leave room for less than the file
    have hfits : h.size + h.bss_size + 0xFFF < 2 ^ 32 := by
      by_contra hwide
      have hwrap : h.total ≤ h.size + h.bss_size + 0xFFF - 2 ^ 32 := by
        unfold TargetHeader.total roundPage
        omega
      omega
    refine ⟨hfront, hfits, ?_⟩
    have e1 := hrw (by omega)
    have e2 := htotal hfits
    omega
  · rintro ⟨hfront, hfits, hpage⟩
    have e1 := hrw (by omega)
    have e2 := htotal hfits
    have hend : h.file_off 2 + h.rw = h.total := by omega
    obtain ⟨h01, h02, h12, hlast, hall⟩ := hpieces.mpr ⟨hend, hfront⟩
    have hseg : h.segSize 2 ≤ h.rw := by omega
    refine ⟨?_, by omega, ⟨h02, h12⟩, hlast, hall⟩
    have s01 : Disjoint (h.segment 0) (h.segment 1) := segment_disjoint_of_le (by omega)
    have s02 : Disjoint (h.segment 0) (h.segment 2) := segment_disjoint_of_le (by omega)
    have s12 : Disjoint (h.segment 1) (h.segment 2) := segment_disjoint_of_le (by omega)
    intro i j hij
    fin_cases i <;> fin_cases j
    · exact absurd rfl hij
    · exact s01
    · exact s02
    · exact s01.symm
    · exact absurd rfl hij
    · exact s12
    · exact s02.symm
    · exact s12.symm
    · exact absurd rfl hij

end Reading

/-- **When the memory of a target is in range.** Whenever the loader accepts a file and maps it,
the segments do not meet, the data segment and its `.bss` are mapped, what was made to run or to
read is not made to be written, the heap of the application begins behind the mapping, and the
next launch takes away what was mapped, exactly when the header is packed. -/
theorem map_target_in_range {sd : Bytes → Option Bytes} {kernel : Kernel} {find : ℕ → ℕ}
    {s_heap start rest : ℕ} {s : Loader} {m : Mapped} {done calls : List Svc}
    (hk : kernel.Strict s_heap s.s_heap.length)
    (hrun : loadTarget sd kernel find s_heap s done = .ok ((m, start, rest), done ++ calls)) :
    InRange s_heap s.s_heap.length m start rest calls ↔ m.s_header.Packed := by
  cases hload : load_nro_into_heap sd s with
  | error e =>
    rw [loadTarget, hload] at hrun
    cases hrun
  | ok s' =>
    have hmap : (validate_segments (nroHeader s'.s_heap) >>= fun _ =>
        map_target kernel find s_heap s.s_heap.length (targetHeader s'.s_heap) done)
          = .ok ((m, start, rest), done ++ calls) := by
      rw [loadTarget, hload] at hrun
      exact hrun
    cases hvalid : validate_segments (nroHeader s'.s_heap) with
    | error e =>
      rw [hvalid] at hmap
      cases hmap
    | ok u =>
      rw [hvalid] at hmap
      replace hmap : map_target kernel find s_heap s.s_heap.length (targetHeader s'.s_heap) done
          = .ok ((m, start, rest), done ++ calls) := hmap
      have hn := targetHeader_narrow s'.s_heap
      have hp := placed_of_map_target hk hn hmap
      obtain ⟨rfl, hstart, hrest, hcalls, -⟩ := map_target_ok hmap
      obtain rfl := List.append_cancel_left hcalls
      rw [← hp.packed_iff hn (validate_segments_ok hvalid 2)]
      exact hp.inRange_iff hk.heap hstart hrest

/-- A kernel that does what it promises and answers the rest. -/
def pageKernel (s_heap s_heap_size : ℕ) : Kernel
  | _, .svcMapProcessCodeMemory dst src size =>
    decide (PageRange dst size ∧ PageRange src size ∧ s_heap ≤ src ∧
      src + size ≤ s_heap + s_heap_size)
  | done, .svcSetProcessMemoryPermission addr size _ =>
    (currentMapping done).any fun mapping =>
      decide (PageRange addr size ∧ mapping.1 ≤ addr ∧ addr + size ≤ mapping.1 + mapping.2)
  | _, _ => true

theorem pageKernel_strict {s_heap s_heap_size : ℕ} (hheap : s_heap + s_heap_size < 2 ^ 64) :
    (pageKernel s_heap s_heap_size).Strict s_heap s_heap_size where
  heap := hheap
  map _ _ _ _ h := of_decide_eq_true h
  permission done addr size _ h := by
    obtain ⟨mapping, hcur, hin⟩ := (Option.any_eq_true _ _).mp h
    obtain ⟨hpage, hlow, hhigh⟩ := of_decide_eq_true hin
    exact ⟨hpage, mapping.1, mapping.2, hcur, hlow, hhigh⟩

/-- The header of an NRO of `size` bytes; `fields` are the segments and `bss_size`. -/
def nroHead (size : ℕ) (fields : List ℕ) : Bytes :=
  zeros 0x10 ++ le 4 NROHEADER_MAGIC ++ le 4 0 ++ le 4 size ++ le 4 0 ++ fields.flatMap (le 4) ++
    zeros 0x44

/-- A loader that is to load the file `a.nro` into a heap of `n` bytes. -/
def emptyHeap (n : ℕ) : Loader := { readyLoader with s_heap := zeros n }

/-- The header that is loaded is that of the file, and a target whose calls succeed is mapped. -/
theorem loadTarget_head (n heap : ℕ) (kernel : Kernel) (find : ℕ → ℕ) (s_heap : ℕ)
    (done : List Svc) {head : Bytes} {h : TargetHeader} {calls : List Svc} (hlen : head.length = 0x80)
    (hhead : targetHeader head = h) (hmagic : h.magic = NROHEADER_MAGIC) (hn : h.size ≤ n)
    (hheap : 0x80 + n ≤ heap) (hvalid : validate_segments h.toNroHeader = .ok ())
    (hcalls : calls = h.mapCalls (find h.total) s_heap)
    (hk : ∀ i, (hi : i < calls.length) →
      kernel (done ++ calls.take i) (calls.get ⟨i, hi⟩) = true) :
    loadTarget (fun _ => some (head ++ zeros n)) kernel find s_heap (emptyHeap heap) done =
      .ok ((⟨h, find h.total, h.file_off 2 + h.rw⟩, u64 (s_heap + (h.file_off 2 + h.rw)),
        u64 (heap + s_heap + 2 ^ 64 - u64 (s_heap + (h.file_off 2 + h.rw)))), done ++ calls) := by
  have hfile : (head ++ zeros n).length = 0x80 + n := by
    rw [List.length_append, length_zeros, hlen]
  have hsize : (emptyHeap heap).s_heap.length = heap := length_zeros heap
  have hnro : nroHeader head = h.toNroHeader := congrArg TargetHeader.toNroHeader hhead
  have hfull : nroHeader (head ++ zeros n) = h.toNroHeader :=
    (nroHeader_append (by omega)).trans hnro
  have hload : load_nro_into_heap (fun _ => some (head ++ zeros n)) (emptyHeap heap) =
      if (head ++ zeros n).length < 0x80 + (nroHeader (head ++ zeros n)).size then
        .error (.homebrewLoader 6)
      else .ok { emptyHeap heap with
        s_argv := (emptyHeap heap).s_next_argv
        s_heap := fill (emptyHeap heap).s_heap (head ++ zeros n) } :=
    load_nro_into_heap_eq rfl (by omega) (by omega) (by rw [hfull]; exact hmagic)
  rw [hfull, if_neg (by omega)] at hload
  have hfill : nroHeader (fill (emptyHeap heap).s_heap (head ++ zeros n)) = nroHeader head := by
    rw [fill, List.append_assoc]
    exact nroHeader_append (by omega)
  have hbss : slice (fill (emptyHeap heap).s_heap (head ++ zeros n)) 0x38 4
      = slice head 0x38 4 := by
    rw [fill, List.append_assoc]
    exact slice_append_left (by omega)
  have htarget : targetHeader (fill (emptyHeap heap).s_heap (head ++ zeros n)) = h := by
    rw [← hhead]
    simp only [targetHeader, hfill, hbss]
  rw [loadTarget, hload, hsize]
  show validate_segments (targetHeader (fill _ _)).toNroHeader >>= (fun _ =>
    map_target kernel find s_heap heap (targetHeader (fill _ _)) done) = _
  rw [htarget, hvalid]
  exact map_target_of_calls hcalls hk

/-- The header with these numbers. -/
def headerWith (size : ℕ) (segments : Fin 3 → ℕ × ℕ) (bss_size : ℕ) : TargetHeader where
  magic := NROHEADER_MAGIC
  size := size
  segments := segments
  bss_size := bss_size

theorem targetHeader_eq {head : Bytes} {size bss_size : ℕ} {segments : Fin 3 → ℕ × ℕ}
    (hmagic : ofLe (slice head 0x10 4) = NROHEADER_MAGIC) (hsize : ofLe (slice head 0x18 4) = size)
    (hbss : ofLe (slice head 0x38 4) = bss_size)
    (hseg : ∀ i : Fin 3, (ofLe (slice head (0x20 + 8 * i.val) 4),
      ofLe (slice head (0x24 + 8 * i.val) 4)) = segments i) :
    targetHeader head = headerWith size segments bss_size := by
  simp only [targetHeader, nroHeader, headerWith, hmagic, hsize, hbss, hseg]

/-- A target in three segments behind each other, with 0x10 bytes behind its data. -/
def packedHead : Bytes := nroHead 0x3000 [0, 0x1000, 0x1000, 0x1000, 0x2000, 0x1000, 0x10]

def packedHeader : TargetHeader :=
  headerWith 0x3000 ![(0, 0x1000), (0x1000, 0x1000), (0x2000, 0x1000)] 0x10

/-- A target whose three segments are one and the same page. -/
def overlappedHead : Bytes := nroHead 0x1000 [0, 0x1000, 0, 0x1000, 0, 0x1000, 0]

def overlappedHeader : TargetHeader := headerWith 0x1000 ![(0, 0x1000), (0, 0x1000), (0, 0x1000)] 0

section Samples

set_option maxRecDepth 8000

theorem targetHeader_packedHead : targetHeader packedHead = packedHeader :=
  targetHeader_eq (by decide) (by decide) (by decide) (by decide)

theorem targetHeader_overlappedHead : targetHeader overlappedHead = overlappedHeader :=
  targetHeader_eq (by decide) (by decide) (by decide) (by decide)

theorem packedHeader_packed : packedHeader.Packed where
  front := .inl (by decide)
  fits := by decide
  page := by decide

theorem map_target_in_range_packed :
    ∃ m start rest calls, loadTarget (fun _ => some (packedHead ++ zeros 0x3000))
        (pageKernel 0x10000000 0x10000) (fun _ => 0x8000000) 0x10000000 (emptyHeap 0x10000) [] =
          .ok ((m, start, rest), [] ++ calls) ∧
      InRange 0x10000000 (emptyHeap 0x10000).s_heap.length m start rest calls := by
  have hheap : (emptyHeap 0x10000).s_heap.length = 0x10000 := length_zeros _
  have hstrict : (pageKernel 0x10000000 0x10000).Strict 0x10000000
      (emptyHeap 0x10000).s_heap.length := by
    rw [hheap]
    exact pageKernel_strict (by decide)
  have hrun := loadTarget_head 0x3000 0x10000 (pageKernel 0x10000000 0x10000) (fun _ => 0x8000000)
    0x10000000 [] (by decide) targetHeader_packedHead rfl (by decide) (by decide)
    (if_neg (by decide)) rfl
    (by decide)
  exact ⟨_, _, _, _, hrun, (map_target_in_range hstrict hrun).mpr packedHeader_packed⟩

/-- Three segments in one page are loaded and mapped, and the page that was made to run is made to
be written. -/
theorem overlapping_segments_mapped :
    ∃ kernel m start rest calls, Kernel.Strict kernel 0x10000000 (emptyHeap 0x10000).s_heap.length ∧
      loadTarget (fun _ => some (overlappedHead ++ zeros 0x1000)) kernel (fun _ => 0x8000000)
        0x10000000 (emptyHeap 0x10000) [] = .ok ((m, start, rest), [] ++ calls) ∧
      ¬ InRange 0x10000000 (emptyHeap 0x10000).s_heap.length m start rest calls := by
  have hheap : (emptyHeap 0x10000).s_heap.length = 0x10000 := length_zeros _
  have hstrict : (pageKernel 0x10000000 0x10000).Strict 0x10000000
      (emptyHeap 0x10000).s_heap.length := by
    rw [hheap]
    exact pageKernel_strict (by decide)
  have hrun := loadTarget_head 0x1000 0x10000 (pageKernel 0x10000000 0x10000) (fun _ => 0x8000000)
    0x10000000 [] (by decide) targetHeader_overlappedHead rfl (by decide) (by decide)
    (if_neg (by decide)) rfl
    (by decide)
  refine ⟨_, _, _, _, _, hstrict, hrun, ?_⟩
  intro hin
  -- the first byte of the page is in both
  have hcode : 0 ∈ overlappedHeader.segment 0 := Set.mem_Ico.mpr (by decide)
  have hread : 0 ∈ overlappedHeader.segment 1 := Set.mem_Ico.mpr (by decide)
  exact Set.disjoint_left.mp (hin.disjoint 0 1 (by decide)) hcode hread

end Samples

end Forwarder
