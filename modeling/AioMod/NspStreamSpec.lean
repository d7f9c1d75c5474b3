/-
# The package is consumed exactly

A run of the streaming installer takes its entries in order, and each byte of the stream once.
The invariant of the loop over the entries says how far the stream was read, and that what was
registered so far has received its own part of the package, from its first byte on.
-/
import AioMod.NspStream
import AioMod.NspManifestSpec

namespace NspStream

open ByteImage
open Nsp (NspEntryInfo NspManifest Diagnostic)
open NspJournal (NcmId PlannedContent)
open Throws

/-! ## Writes in order -/

/-- What was written, one piece behind the other. -/
def joined (writes : List (ℕ × Bytes)) : Bytes := writes.flatMap Prod.snd

/-- Each piece begins where the one before it ended, the first at `n`. -/
def InOrder : ℕ → List (ℕ × Bytes) → Prop
  | _, [] => True
  | n, w :: rest => w.1 = n ∧ InOrder (n + w.2.length) rest

theorem joined_append_single (writes : List (ℕ × Bytes)) (w : ℕ × Bytes) :
    joined (writes ++ [w]) = joined writes ++ w.2 := by
  simp [joined]

theorem inOrder_append_single {n : ℕ} {writes : List (ℕ × Bytes)} {w : ℕ × Bytes}
    (h : InOrder n writes) (hw : w.1 = n + (joined writes).length) :
    InOrder n (writes ++ [w]) := by
  induction writes generalizing n with
  | nil => exact ⟨hw, trivial⟩
  | cons x writes ih =>
    obtain ⟨hx, hrest⟩ := h
    refine ⟨hx, ih hrest ?_⟩
    rw [hw, joined, List.flatMap_cons, List.length_append, ← Nat.add_assoc]
    rfl

/-- These bytes were received, in order. -/
structure Received (data : Bytes) (writes : List (ℕ × Bytes)) : Prop where
  inOrder : InOrder 0 writes
  joined : joined writes = data

/-- The next piece is received. -/
theorem Received.snoc {data more : Bytes} {writes : List (ℕ × Bytes)} (h : Received data writes) :
    Received (data ++ more) (writes ++ [(data.length, more)]) := by
  constructor
  · apply inOrder_append_single h.inOrder
    rw [h.joined, Nat.zero_add]
  · rw [joined_append_single, h.joined]

theorem received_nil : Received [] [] := ⟨trivial, rfl⟩

/-! ## What a call can do -/

section rules

variable {stream : Bytes} {α : Type} {Q : α → State → Prop} {E : Failure → State → Prop}
  {s : State}

/-- A condition that is tested. -/
theorem wpx_require {c : Prop} [Decidable c] {code : Nsp.ErrorCode} {technical : Bytes}
    {Q : Unit → State → Prop} (hQ : c → Q () s) (hE : ∀ d, E (.stop d) s) :
    wpx (ncm stream) Q E (require c code technical) s :=
  Throws.wpx_require.mpr ⟨hQ, fun _ => hE _⟩

/-- A call that leaves everything as it is. -/
theorem wpx_query {fn : Fn} {Q : fn.Res → State → Prop}
    (hfn : ∀ r s', ncm stream s fn r s' → s' = s) (hQ : ∀ r, ncm stream s fn r s → Q r s) :
    wpx (ncm stream) Q E (call fn) s := by
  refine wpx_call.mpr fun r s' hs => ?_
  obtain rfl := hfn r s' hs
  exact hQ r hs

/-- A call whose result is tested, and which changes nothing where it fails. -/
theorem wpx_checked {β : Type} (fn : Fn) (result : fn.Res → ℕ) {code : Nsp.ErrorCode}
    {place : String} {k : fn.Res → Installer β} {Q : β → State → Prop}
    (hfail : ∀ r s', ncm stream s fn r s' → result r ≠ 0 → s' = s) (hE : ∀ d, E (.stop d) s)
    (hQ : ∀ r s', ncm stream s fn r s' → result r = 0 → wpx (ncm stream) Q E (k r) s') :
    wpx (ncm stream) Q E (call fn >>= fun r => check (result r) code place >>= fun _ => k r) s := by
  rw [wpx_bind]
  refine wpx_call.mpr fun r s' hs => ?_
  rw [wpx_bind]
  refine Throws.wpx_require.mpr ⟨hQ r s' hs, fun hr => ?_⟩
  obtain rfl := hfail r s' hs hr
  exact hE _

/-- A difference that is one. -/
theorem wpx_sub {a b : ℕ} {Q : ℕ → State → Prop} (h : b ≤ a) (hQ : Q (a - b) s) :
    wpx (ncm stream) Q E (sub a b) s := by
  unfold sub
  rw [wpx_bind]
  exact Throws.wpx_require.mpr ⟨fun _ => (wpx_pure _).mpr hQ, fun hn => absurd h hn⟩

/-- A sum that stays in its type. -/
theorem wpx_add {a b : ℕ} {Q : ℕ → State → Prop} (h : a + b < 2 ^ 64) (hQ : Q (a + b) s) :
    wpx (ncm stream) Q E (add a b) s := by
  unfold add
  rw [wpx_bind]
  exact Throws.wpx_require.mpr ⟨fun _ => (wpx_pure _).mpr hQ, fun hn => absurd h hn⟩

end rules

/-! ## Reading on -/

section consume

variable {stream : Bytes} {α : Type} {E : Failure → State → Prop}

/-- The bytes of the stream from `start` that were delivered so far are followed by the next. -/
theorem slice_add (bs : Bytes) (start done n : ℕ) :
    slice bs start (done + n) = slice bs start done ++ slice bs (start + done) n := by
  rw [slice, slice, slice, List.take_add, List.drop_drop]

/-- A sink keeps what it says of the bytes it was given, and leaves the stream alone. -/
def Keeps (stream : Bytes) (E : Failure → State → Prop) (J : Bytes → α → Storage → Prop)
    (bytes : ℕ) (sink : α → Bytes → ℕ → Installer α) : Prop :=
  ∀ got data a s, J got a s.storage → got.length + data.length ≤ bytes →
    wpx (ncm stream) (fun a' s' => s'.pos = s.pos ∧ J (got ++ data) a' s'.storage) E
      (sink a data got.length) s

/-- The rounds of the loop: `got` is what the sink was given before. -/
theorem wpx_consumeLoop {J : Bytes → α → Storage → Prop} {bytes start : ℕ} {stage : Bytes}
    {sink : α → Bytes → ℕ → Installer α} (hsink : Keeps stream E J bytes sink)
    (hE : ∀ got a s d, J got a s.storage → E (.stop d) s) (hlt : start + bytes < 2 ^ 64)
    {fuel : ℕ} {a : α} {s : State} {got : Bytes}
    (hgot : got = slice stream start got.length) (hle : got.length ≤ bytes)
    (hfuel : bytes ≤ got.length + fuel) (hpos : s.pos = start + got.length)
    (hin : s.pos ≤ stream.length) (hJ : J got a s.storage) :
    wpx (ncm stream) (fun r s' => r.1 = start + bytes ∧ s'.pos = start + bytes ∧
        start + bytes ≤ stream.length ∧ J (slice stream start bytes) r.2 s'.storage) E
      (consumeLoop bytes sink stage fuel got.length (start + got.length) a) s := by
  induction fuel generalizing a s got with
  | zero =>
    have heq : got.length = bytes := by omega
    rw [consumeLoop, wpx_pure]
    rw [heq] at hgot hpos ⊢
    exact ⟨rfl, hpos, hpos ▸ hin, hgot ▸ hJ⟩
  | succ fuel ih =>
    rw [consumeLoop]
    by_cases hmore : got.length < bytes
    · rw [if_pos hmore, wpx_bind]
      refine wpx_query (fun _ _ h => h) fun interrupt _ => ?_
      rw [wpx_bind]
      refine wpx_require (fun _ => ?_) fun d => hE got a s d hJ
      rw [wpx_bind]
      refine wpx_sub hmore.le ?_
      rw [wpx_bind]
      refine wpx_call.mpr fun r s' hread => ?_
      cases r with
      | none =>
        obtain ⟨pos, rfl⟩ := hread
        rw [wpx_throw]
        exact hE got a _ _ hJ
      | some data =>
        obtain ⟨hdata, rfl⟩ := hread
        obtain ⟨hbound, rfl⟩ := Nsp.readExact_eq_some.mp hdata
        have hwant : 0 < min COPY_BUFFER_SIZE (bytes - got.length) := by
          have : 0 < COPY_BUFFER_SIZE := by decide
          omega
        have hrest : min COPY_BUFFER_SIZE (bytes - got.length) ≤ bytes - got.length :=
          Nat.min_le_right _ _
        generalize min COPY_BUFFER_SIZE (bytes - got.length) = want at *
        have hlength : (slice stream s.pos want).length = want := by
          rw [length_slice]
          omega
        dsimp only
        rw [wpx_bind]
        refine wpx_conseq (hsink got (slice stream s.pos want) a _ hJ (by omega))
          (fun a' s' hs' => ?_) fun _ _ h => h
        obtain ⟨hpos', hJ'⟩ := hs'
        rw [wpx_bind]
        refine wpx_add (by omega) ?_
        rw [wpx_bind]
        refine wpx_add (by omega) ?_
        have hnext : (got ++ slice stream s.pos want).length = got.length + want := by
          rw [List.length_append, hlength]
        have hgot' : got ++ slice stream s.pos want
            = slice stream start (got ++ slice stream s.pos want).length := by
          rw [hnext, slice_add, ← hgot, hpos]
        -- the bytes of this round stand behind those of the rounds before
        have hround := ih hgot' (by omega) (by omega) (by rw [hpos', hnext]; dsimp only; omega)
          (by rw [hpos']; exact hbound) hJ'
        rw [hnext, ← Nat.add_assoc] at hround
        exact hround
    · have heq : got.length = bytes := by omega
      rw [if_neg hmore, wpx_pure]
      rw [heq] at hgot hpos ⊢
      exact ⟨rfl, hpos, hpos ▸ hin, hgot ▸ hJ⟩

/-- So many bytes of the stream go into the sink, from where it stands. -/
theorem wpx_consumeBytes {J : Bytes → α → Storage → Prop} {bytes : ℕ} {stage : Bytes}
    {sink : α → Bytes → ℕ → Installer α} (hsink : Keeps stream E J bytes sink)
    (hE : ∀ got a s d, J got a s.storage → E (.stop d) s) {a : α} {s : State}
    (hlt : s.pos + bytes < 2 ^ 64) (hin : s.pos ≤ stream.length) (hJ : J [] a s.storage) :
    wpx (ncm stream) (fun r s' => r.1 = s.pos + bytes ∧ s'.pos = s.pos + bytes ∧
        s.pos + bytes ≤ stream.length ∧ J (slice stream s.pos bytes) r.2 s'.storage) E
      (consumeBytes s.pos bytes sink stage a) s :=
  wpx_consumeLoop hsink hE hlt (show [] = slice stream s.pos ([] : Bytes).length by simp [slice])
    (Nat.zero_le _) (by simp) rfl hin hJ

/-- Bytes that are skipped leave the card as it is. -/
theorem wpx_skipBytes {bytes : ℕ} {stage : Bytes} {s : State} {Q : ℕ → State → Prop}
    (hE : ∀ d s', s'.storage = s.storage → E (.stop d) s') (hlt : s.pos + bytes < 2 ^ 64)
    (hin : s.pos ≤ stream.length)
    (hQ : s.pos + bytes ≤ stream.length →
      Q (s.pos + bytes) { s with pos := s.pos + bytes }) :
    wpx (ncm stream) Q E (skipBytes s.pos bytes stage) s := by
  unfold skipBytes
  rw [wpx_bind]
  have hsink : Keeps stream E (fun _ (_ : Unit) st => st = s.storage) bytes
      fun u _ _ => return u := by
    intro got data a s' hJ hle
    rw [wpx_pure]
    exact ⟨rfl, hJ⟩
  refine wpx_conseq (wpx_consumeBytes hsink (fun _ _ s' d hJ => hE d s' hJ) hlt hin rfl)
    (fun r s' hs' => ?_) fun _ _ h => h
  obtain ⟨hr, hpos, hend, hstorage⟩ := hs'
  rw [wpx_pure, hr]
  obtain rfl : s' = { s with pos := s.pos + bytes } := by
    cases s'
    cases hpos
    cases hstorage
    rfl
  exact hQ hend

end consume

/-! ## A placeholder is filled -/

namespace Storage

/-- A placeholder is being filled. -/
def filling (st : Storage) (ph : NcmId) (size : ℕ) (writes : List (ℕ × Bytes)) : Storage :=
  { st with placeholders := st.placeholders ++ [⟨ph, size, writes⟩] }

/-- There is one more content. -/
def withContent (st : Storage) (c : Content) : Storage :=
  { st with contents := st.contents ++ [c] }

variable {st : Storage} {ph : NcmId} (hfree : ∀ p ∈ st.placeholders, p.id ≠ ph) {size : ℕ}
  {writes : List (ℕ × Bytes)}

include hfree in
/-- A write finds the placeholder. -/
theorem write_filling (offset : ℕ) (data : Bytes) :
    (st.filling ph size writes).write ph offset data
      = st.filling ph size (writes ++ [(offset, data)]) := by
  have hothers : (st.placeholders.map fun p =>
      if p.id = ph then { p with writes := p.writes ++ [(offset, data)] } else p)
      = st.placeholders := by
    rw [List.map_congr_left fun p hp => if_neg (hfree p hp), List.map_id']
  unfold filling write
  dsimp only
  rw [List.map_append, hothers, List.map_singleton, if_pos rfl]

include hfree in
/-- Registered, it is a content, and no placeholder any more. -/
theorem register_filling (content : NcmId) :
    (st.filling ph size writes).register content ph = st.withContent ⟨content, writes⟩ := by
  have hnone : (st.placeholders.filter fun p => p.id = ph) = [] := by
    rw [List.filter_eq_nil_iff]
    intro p hp
    rw [decide_eq_true_eq]
    exact hfree p hp
  have hall : (st.placeholders.filter fun p => p.id ≠ ph) = st.placeholders := by
    rw [List.filter_eq_self]
    intro p hp
    rw [decide_eq_true_eq]
    exact hfree p hp
  unfold filling register withContent
  dsimp only
  rw [List.filter_append, List.filter_append, hnone, hall]
  simp

end Storage

/-! ## What an entry leaves behind -/

/-- An NCA that is not on the card yet. -/
def isNew (st : Storage) (e : NspEntryInfo) : Bool := e.isNca && !st.has (contentId e)

/-- A content holds an entry of the package. -/
structure Holds (stream : Bytes) (e : NspEntryInfo) (c : Content) : Prop where
  id : c.id = contentId e
  received : Received (slice stream e.offset e.size) c.writes

theorem nothing_new (stream : Bytes) {st : Storage} {e : NspEntryInfo} (h : isNew st e = false) :
    List.Forall₂ (Holds stream) ([e].filter (isNew st)) [] := by
  rw [List.filter_cons_of_neg (by rw [h]; decide)]
  exact .nil

/-- What is kept of an entry in memory. -/
def auxOf (stream : Bytes) (e : NspEntryInfo) : List BufferedAuxFile :=
  if !e.isNca && (e.isTicket || e.isCert) then [⟨e, slice stream e.offset e.size⟩] else []

/-- What a plan says of a content, and what the installer leaves as it is. -/
def planKey (p : PlannedContent) : NcmId × Bool := (p.content_id, p.preExisting)

theorem map_planKey_modify (plan : List PlannedContent) (i : ℕ)
    {f : PlannedContent → PlannedContent} (hf : ∀ p, planKey (f p) = planKey p) :
    (plan.modify i f).map planKey = plan.map planKey := by
  induction plan generalizing i with
  | nil => simp
  | cons p plan ih =>
    cases i with
    | zero => simp [hf]
    | succ i => simp [ih]

/-- The state behind an entry, the stream having come to its beginning before. -/
structure Behind (stream : Bytes) (st₀ : Storage) (e : NspEntryInfo) (v : Vars) (s : State)
    (v' : Vars) (s' : State) : Prop where
  offset : v'.streamOffset = e.offset + e.size
  pos : s'.pos = v'.streamOffset
  inStream : v'.streamOffset ≤ stream.length
  plan : v'.plan.map planKey = v.plan.map planKey
  now : v'.installedNow ≤ v.installedNow + e.size
  auxTotal : v'.auxTotal ≤ STREAM_MAX_AUX_TOTAL
  aux : v'.aux = v.aux ++ auxOf stream e
  placeholders : s'.storage.placeholders = s.storage.placeholders
  contents : ∃ new, s'.storage.contents = s.storage.contents ++ new ∧
    List.Forall₂ (Holds stream) ([e].filter (isNew st₀)) new

section entry

variable {stream displayName : Bytes} {st₀ : Storage} {E : Failure → State → Prop} {v : Vars}
  {e : NspEntryInfo} {s : State}

/-- Between two entries. -/
structure Ready (stream : Bytes) (v : Vars) (s : State) : Prop where
  pos : s.pos = v.streamOffset
  inStream : v.streamOffset ≤ stream.length
  now : v.installedNow ≤ v.streamOffset
  auxTotal : v.auxTotal ≤ STREAM_MAX_AUX_TOTAL

/-- Where the data of an entry begins. -/
structure Before (stream : Bytes) (e : NspEntryInfo) (v : Vars) (s : State) : Prop
    extends Ready stream v s where
  offset : v.streamOffset = e.offset
  room : e.offset + e.size < 2 ^ 64

/-- An entry that is skipped. -/
theorem wpx_skipEntry (h : Before stream e v s)
    (hE : ∀ d s', s'.storage.contents = s.storage.contents → E (.stop d) s')
    (hnew : isNew st₀ e = false) (haux : auxOf stream e = []) (stage : Bytes) :
    wpx (ncm stream) (Behind stream st₀ e v s) E
      (do
        let streamOffset ← skipBytes v.streamOffset e.size stage
        return { v with streamOffset }) s := by
  have hpos : s.pos = e.offset := h.pos.trans h.offset
  have hroom := h.room
  rw [wpx_bind, ← h.pos]
  refine wpx_skipBytes (fun d s' hs' => hE d s' (congrArg Storage.contents hs')) (by omega)
    (h.pos ▸ h.inStream) fun hend => ?_
  rw [wpx_pure]
  exact {
    offset := by rw [← hpos]
    pos := rfl
    inStream := hend
    plan := rfl
    now := Nat.le_add_right _ _
    auxTotal := h.auxTotal
    aux := by rw [haux, List.append_nil]
    placeholders := rfl
    contents := ⟨[], by rw [List.append_nil], nothing_new stream hnew⟩ }

/-- What a placeholder is given is counted, and is what it receives. -/
theorem keeps_toPlaceholder {st : Storage} {ph : NcmId} (size n : ℕ) {bytes : ℕ}
    (hfree : ∀ p ∈ st.placeholders, p.id ≠ ph) (hn : n + bytes < 2 ^ 64)
    (hE : ∀ d s', s'.storage.contents = st.contents → E (.stop d) s') :
    Keeps stream E (fun got k st' => k = n + got.length ∧
        ∃ writes, Received got writes ∧ st' = st.filling ph size writes) bytes
      (toPlaceholder ph) := by
  intro got data k s hJ hle
  obtain ⟨rfl, writes, hwrites, hst⟩ := hJ
  unfold toPlaceholder
  refine wpx_checked (.WritePlaceHolder ph got.length data) (fun rc => rc)
    (fun rc s' hs' hrc => Eq.trans hs' (if_neg hrc)) (fun d => hE d s (by rw [hst]; rfl))
    fun rc s' hs' hrc => ?_
  obtain rfl := Eq.trans hs' (if_pos hrc)
  refine wpx_add (by omega) ⟨rfl, ?_, writes ++ [(got.length, data)], hwrites.snoc, ?_⟩
  · rw [List.length_append, Nat.add_assoc]
  · dsimp only
    rw [hst, Storage.write_filling hfree]

/-- An NCA that is new is registered with its part of the package. -/
theorem wpx_installContent (h : Before stream e v s)
    (hE : ∀ d s', s'.storage.contents = s.storage.contents → E (.stop d) s')
    (hnew : isNew st₀ e = true) (i : ℕ) :
    wpx (ncm stream) (Behind stream st₀ e v s) E (installContent displayName v e i) s := by
  have hpos : s.pos = e.offset := h.pos.trans h.offset
  have hroom := h.room
  have hnow := h.now
  have hoffset := h.offset
  have hnca : e.isNca = true := by
    unfold isNew at hnew
    rw [Bool.and_eq_true] at hnew
    exact hnew.1
  unfold installContent
  refine wpx_checked .GeneratePlaceHolderId Prod.fst (fun _ _ hs _ => hs) (fun d => hE d s rfl)
    fun r s₀ hs₀ _ => ?_
  obtain rfl : s₀ = s := hs₀
  refine wpx_checked (.CreatePlaceHolder (contentId e) r.2 e.size) (fun rc => rc)
    (fun rc s' hs' hrc => (if_neg hrc).mp hs') (fun d => hE d s₀ rfl) fun rc s₁ hs₁ hrc => ?_
  obtain ⟨hfree, rfl⟩ := (if_pos hrc).mp hs₁
  rw [wpx_bind]
  refine wpx_query (fun _ _ h => h) fun _ _ => ?_
  rw [wpx_bind, ← h.pos]
  refine wpx_conseq (wpx_consumeBytes (s := { s₀ with storage := s₀.storage.create r.2 e.size })
    (keeps_toPlaceholder e.size v.installedNow hfree (by omega) hE) (fun got k s' d hJ => ?_)
    (by dsimp only; omega) (h.pos ▸ h.inStream) ⟨rfl, [], received_nil, rfl⟩)
    (fun r' s₂ hs₂ => ?_) fun _ _ h => h
  · obtain ⟨-, writes, -, hst⟩ := hJ
    exact hE d s' (by rw [hst]; rfl)
  obtain ⟨hoff, hpos₂, hend, hr, writes, hwrites, hst⟩ := hs₂
  dsimp only at hoff hpos₂ hend hr hwrites
  refine wpx_checked (.Register (contentId e) r.2) (fun rc => rc)
    (fun rc s' hs' hrc => Eq.trans hs' (if_neg hrc))
    (fun d => hE d s₂ (by rw [hst]; rfl)) fun rc s₃ hs₃ hrc => ?_
  obtain rfl := Eq.trans hs₃ (if_pos hrc)
  rw [wpx_bind]
  refine wpx_query (fun _ _ h => h) fun _ _ => ?_
  rw [wpx_pure]
  -- the placeholder is gone, and its bytes are those of the content
  have hregistered : s₂.storage.register (contentId e) r.2
      = s₀.storage.withContent ⟨contentId e, writes⟩ := by
    rw [hst, Storage.register_filling hfree]
  exact {
    offset := by rw [hoff, ← hpos]
    pos := hpos₂.trans hoff.symm
    inStream := hoff ▸ hend
    plan := by
      dsimp only
      rw [map_planKey_modify, map_planKey_modify, map_planKey_modify]
      all_goals exact fun _ => rfl
    now := by
      dsimp only
      rw [hr, length_slice]
      omega
    auxTotal := h.auxTotal
    aux := by
      rw [auxOf, hnca]
      exact (List.append_nil _).symm
    placeholders := by
      dsimp only
      rw [hregistered]
      rfl
    contents := by
      refine ⟨[⟨contentId e, writes⟩], ?_, ?_⟩
      · dsimp only
        rw [hregistered]
        rfl
      · rw [List.filter_cons_of_pos hnew]
        exact .cons ⟨rfl, hpos ▸ hwrites⟩ .nil }

/-- What a buffer of zeros is filled with. -/
theorem keeps_toBuffer {size bytes : ℕ} (hsize : bytes ≤ size) (hlt : bytes < 2 ^ 64) :
    Keeps stream E (fun got f st' => f.copied = got.length ∧
        f.bytes = got ++ zeros (size - got.length) ∧ st' = s.storage) bytes toBuffer := by
  intro got data f s' hJ hle
  obtain ⟨hcopied, hbytes, hst⟩ := hJ
  unfold toBuffer
  rw [wpx_bind]
  refine wpx_add (by omega) ((wpx_pure _).mpr ⟨rfl, ?_, ?_, hst⟩)
  · rw [List.length_append, hcopied]
  · dsimp only
    rw [hcopied, hbytes, List.take_left, List.drop_append, List.drop_eq_nil_of_le (by omega),
      List.nil_append, List.length_append, zeros, List.drop_replicate]
    congr 2
    omega

/-- A ticket or a certificate is kept as it is in the package. -/
theorem wpx_bufferAux (h : Before stream e v s)
    (hE : ∀ d s', s'.storage.contents = s.storage.contents → E (.stop d) s')
    (hnca : e.isNca = false) (haux : (e.isTicket || e.isCert) = true) :
    wpx (ncm stream) (Behind stream st₀ e v s) E (bufferAux v e) s := by
  have hpos : s.pos = e.offset := h.pos.trans h.offset
  have hroom := h.room
  unfold bufferAux
  rw [wpx_bind]
  refine wpx_require (fun hfile => ?_) fun d => hE d s rfl
  have htotal : STREAM_MAX_AUX_FILE ≤ STREAM_MAX_AUX_TOTAL := by decide
  have hmax : STREAM_MAX_AUX_TOTAL < 2 ^ 64 := by decide
  rw [wpx_bind]
  refine wpx_sub (by omega) ?_
  rw [wpx_bind]
  refine wpx_require (fun hfits => ?_) fun d => hE d s rfl
  rw [wpx_bind, ← h.pos]
  refine wpx_conseq (wpx_consumeBytes (keeps_toBuffer (s := s) le_rfl (by omega))
    (fun got f s' d hJ => hE d s' (by rw [hJ.2.2])) (by omega) (h.pos ▸ h.inStream)
    ⟨rfl, by simp, rfl⟩) (fun r s' hs' => ?_) fun _ _ h => h
  obtain ⟨hoff, hpos', hend, -, hbytes, hst⟩ := hs'
  rw [wpx_bind]
  refine wpx_add (by omega) ((wpx_pure _).mpr ?_)
  exact {
    offset := by rw [hoff, ← hpos]
    pos := hpos'.trans hoff.symm
    inStream := hoff ▸ hend
    plan := rfl
    now := Nat.le_add_right _ _
    auxTotal := by
      dsimp only
      omega
    aux := by
      have hfull : e.size - (slice stream s.pos e.size).length = 0 := by
        rw [length_slice]
        omega
      rw [hfull, zeros_zero, List.append_nil] at hbytes
      unfold auxOf
      rw [hnca, haux, hbytes, hpos]
      rfl
    placeholders := by rw [hst]
    contents := ⟨[], by rw [hst, List.append_nil],
      nothing_new stream (by rw [isNew, hnca, Bool.false_and])⟩ }

/-- What the plan says of the entries. -/
def planOf (st : Storage) (entries : List NspEntryInfo) : List (NcmId × Bool) :=
  (entries.filter fun e => e.isNca && e.contentId.isSome).map fun e =>
    (contentId e, st.has (contentId e))

/-- What is found in the plan is what was on the card at the beginning. -/
theorem findPlan_some {plan : List PlannedContent} {entries : List NspEntryInfo} {id : NcmId}
    {p : PlannedContent} {i : ℕ} (hplan : plan.map planKey = planOf st₀ entries)
    (h : findPlan plan id = some (p, i)) : p.preExisting = st₀.has id := by
  have hid : p.content_id = id := by simpa using List.find?_some h
  have hp : p ∈ plan := List.fst_mem_of_mem_zipIdx (List.mem_of_find?_eq_some h)
  have hkey : planKey p ∈ planOf st₀ entries := hplan ▸ List.mem_map_of_mem hp
  obtain ⟨e, -, he⟩ := List.mem_map.mp hkey
  obtain ⟨hcontent, hhas⟩ := Prod.mk.inj he
  rw [← hhas, hcontent, hid]

/-- The data of an entry. -/
theorem wpx_streamData {entries : List NspEntryInfo} (h : Before stream e v s)
    (hE : ∀ d s', s'.storage.contents = s.storage.contents → E (.stop d) s')
    (hplan : v.plan.map planKey = planOf st₀ entries) :
    wpx (ncm stream) (Behind stream st₀ e v s) E (streamData displayName v e) s := by
  unfold streamData
  by_cases hnca : e.isNca = true
  · have haux : auxOf stream e = [] := by
      rw [auxOf, hnca]
      rfl
    rw [if_pos hnca]
    cases hfind : findPlan v.plan (contentId e) with
    | none =>
      dsimp only
      rw [wpx_throw]
      exact hE _ s rfl
    | some x =>
      have hpre := findPlan_some hplan hfind
      dsimp only
      rw [hpre]
      by_cases hhas : st₀.has (contentId e) = true
      · rw [if_pos hhas]
        exact wpx_skipEntry h hE (by rw [isNew, hhas, Bool.not_true, Bool.and_false]) haux _
      · rw [if_neg hhas]
        rw [Bool.not_eq_true] at hhas
        exact wpx_installContent h hE (by rw [isNew, hnca, hhas]; rfl) x.2
  · rw [if_neg hnca]
    rw [Bool.not_eq_true] at hnca
    by_cases haux : (e.isTicket || e.isCert) = true
    · rw [if_pos haux]
      exact wpx_bufferAux h hE hnca haux
    · rw [if_neg haux]
      rw [Bool.not_eq_true] at haux
      exact wpx_skipEntry h hE (by rw [isNew, hnca, Bool.false_and])
        (by rw [auxOf, haux, Bool.and_false]; rfl) _

/-- An entry, from wherever the stream stands: it begins there or further on. -/
theorem wpx_streamEntry {entries : List NspEntryInfo} (h : Ready stream v s)
    (hroom : e.offset + e.size < 2 ^ 64)
    (hE : ∀ d s', s'.storage.contents = s.storage.contents → E (.stop d) s')
    (hplan : v.plan.map planKey = planOf st₀ entries) :
    wpx (ncm stream)
      (fun v' s' => v.streamOffset ≤ e.offset ∧ Behind stream st₀ e v s v' s') E
      (streamEntry displayName v e) s := by
  have hpos := h.pos
  have hnow := h.now
  unfold streamEntry
  rw [wpx_bind]
  refine wpx_require (fun hle => ?_) fun d => hE d s rfl
  by_cases hgap : v.streamOffset < e.offset
  · rw [if_pos hgap, wpx_bind]
    refine wpx_sub hle ?_
    rw [wpx_bind, ← h.pos]
    refine wpx_skipBytes (fun d s' hs' => hE d s' (congrArg Storage.contents hs')) (by omega)
      (h.pos ▸ h.inStream) fun hend => ?_
    have hto : s.pos + (e.offset - s.pos) = e.offset := by omega
    rw [hto] at hend ⊢
    have hbefore : Before stream e { v with streamOffset := e.offset } { s with pos := e.offset } :=
      { pos := rfl, inStream := hend, now := hnow.trans hle, auxTotal := h.auxTotal,
        offset := rfl, room := hroom }
    refine wpx_conseq (wpx_streamData hbefore (fun d s' hs' => hE d s' hs') hplan)
      (fun v' s' h' => ⟨hpos.trans_le hle, ?_⟩) fun _ _ h => h
    exact ⟨h'.offset, h'.pos, h'.inStream, h'.plan, h'.now, h'.auxTotal, h'.aux, h'.placeholders,
      h'.contents⟩
  · rw [if_neg hgap]
    have hbefore : Before stream e v s := { h with offset := by omega, room := hroom }
    refine wpx_conseq (wpx_streamData hbefore hE hplan) (fun v' s' h' => ⟨hle, h'⟩) fun _ _ h => h

end entry

/-! ## The loop over the entries -/

/-- The contents on the card are those of the beginning and, behind them, one for each of these
entries that is new. -/
def Filled (stream : Bytes) (st₀ : Storage) (entries : List NspEntryInfo)
    (contents : List Content) : Prop :=
  ∃ new, contents = st₀.contents ++ new ∧
    List.Forall₂ (Holds stream) (entries.filter (isNew st₀)) new

/-- The entries follow each other in the package. -/
def Apart (entries : List NspEntryInfo) : Prop :=
  entries.Pairwise fun e f => e.offset + e.size ≤ f.offset

/-- Between two entries, these having been taken. -/
structure Streamed (stream : Bytes) (st₀ : Storage) (manifest : NspManifest)
    (taken : List NspEntryInfo) (v : Vars) (s : State) : Prop extends Ready stream v s where
  le : v.streamOffset ≤ manifest.packageSize
  ends : ∀ e ∈ taken, e.offset + e.size ≤ v.streamOffset
  apart : Apart taken
  plan : v.plan.map planKey = planOf st₀ manifest.entries
  aux : v.aux = taken.flatMap (auxOf stream)
  placeholders : s.storage.placeholders = st₀.placeholders
  contents : Filled stream st₀ taken s.storage.contents

/-- The end of a run that stops: with a diagnostic, and with the first entries taken, up to an
overlap at most. -/
def Stopped (stream : Bytes) (st₀ : Storage) (manifest : NspManifest) (e : Failure) (s : State) :
    Prop :=
  e ≠ .wrapped ∧ ∃ taken, taken <+: physical manifest ∧ Apart taken ∧
    Filled stream st₀ taken s.storage.contents

section loop

variable {stream displayName : Bytes} {st₀ : Storage} {manifest : NspManifest} {v : Vars}
  {s : State}

theorem Streamed.stopped {taken : List NspEntryInfo} (htaken : taken <+: physical manifest)
    (h : Streamed stream st₀ manifest taken v s) {d : Diagnostic} {s' : State}
    (hs' : s'.storage.contents = s.storage.contents) :
    Stopped stream st₀ manifest (.stop d) s' :=
  ⟨Failure.noConfusion, taken, htaken, h.apart, hs' ▸ h.contents⟩

/-- One more entry is taken. -/
theorem wpx_streamEntry_streamed {taken : List NspEntryInfo} {e : NspEntryInfo}
    (htaken : taken <+: physical manifest) (hsize : manifest.packageSize < 2 ^ 64)
    (hin : e.offset + e.size ≤ manifest.packageSize)
    (h : Streamed stream st₀ manifest taken v s) :
    wpx (ncm stream) (Streamed stream st₀ manifest (taken ++ [e])) (Stopped stream st₀ manifest)
      (streamEntry displayName v e) s := by
  refine wpx_conseq (wpx_streamEntry h.toReady (by omega)
    (fun d s' hs' => h.stopped htaken hs') h.plan) (fun v' s' hs' => ?_) fun _ _ h => h
  obtain ⟨hle, hb⟩ := hs'
  have hoffset := hb.offset
  have hnow := hb.now
  have hnow₀ := h.now
  obtain ⟨before, hcontents, hbefore⟩ := h.contents
  obtain ⟨new, hcontents', hnew⟩ := hb.contents
  exact {
    pos := hb.pos
    inStream := hb.inStream
    now := by omega
    auxTotal := hb.auxTotal
    le := by omega
    ends := by
      intro f hf
      rcases List.mem_append.mp hf with hf | hf
      · have := h.ends f hf
        omega
      · rw [List.mem_singleton.mp hf]
        omega
    apart := by
      -- the stream is behind all the entries taken, and does not go back
      rw [Apart, List.pairwise_append]
      refine ⟨h.apart, List.pairwise_singleton _ _, ?_⟩
      intro f hf g hg
      rw [List.mem_singleton.mp hg]
      exact (h.ends f hf).trans hle
    plan := hb.plan.trans h.plan
    aux := by rw [hb.aux, h.aux, List.flatMap_append, List.flatMap_singleton]
    placeholders := hb.placeholders.trans h.placeholders
    contents := by
      refine ⟨before ++ new, by rw [hcontents', hcontents, List.append_assoc], ?_⟩
      rw [List.filter_append]
      exact List.rel_append hbefore hnew }

/-- What is left of the package. -/
theorem wpx_finish (hsize : manifest.packageSize < 2 ^ 64)
    (h : Streamed stream st₀ manifest (physical manifest) v s) :
    wpx (ncm stream)
      (fun v' s' => Streamed stream st₀ manifest (physical manifest) v' s' ∧
        s'.pos = manifest.packageSize) (Stopped stream st₀ manifest)
      (finish manifest v) s := by
  have hle := h.le
  have hpos := h.pos
  unfold finish
  by_cases hmore : v.streamOffset < manifest.packageSize
  · rw [if_pos hmore, wpx_bind]
    refine wpx_sub hle ?_
    rw [wpx_bind, ← h.pos]
    refine wpx_skipBytes (fun d s' hs' => h.stopped List.prefix_rfl (congrArg Storage.contents hs'))
      (by omega) (h.pos ▸ h.inStream) fun hend => ?_
    have hto : s.pos + (manifest.packageSize - s.pos) = manifest.packageSize := by omega
    rw [hto] at hend ⊢
    rw [wpx_pure]
    exact ⟨{ h with
      pos := rfl
      inStream := hend
      now := h.now.trans hle
      le := le_rfl
      ends := fun e he => (h.ends e he).trans hle }, rfl⟩
  · rw [if_neg hmore, wpx_pure]
    exact ⟨h, by omega⟩

/-! ## The whole run -/

/-- The plan is made from what is on the card. -/
theorem wpx_plan {E : Failure → State → Prop} (hE : ∀ d, E (.stop d) s)
    {entries : List NspEntryInfo} (hsizes : ∀ e ∈ entries, e.size < 2 ^ 64) :
    wpx (ncm stream)
      (fun planned s' => planned.1.map planKey = planOf s.storage entries ∧
        planned.2 < 2 ^ 64 ∧ s' = s) E
      (entries.foldlM planEntry ([], 0)) s := by
  refine wpx_foldlM (fun pre (planned : List PlannedContent × ℕ) s' =>
    planned.1.map planKey = planOf s.storage pre ∧ planned.2 < 2 ^ 64 ∧ s' = s) entries ?_
    (fun _ _ h => h) ⟨rfl, by norm_num, rfl⟩
  rintro pre e post planned s' hsplit ⟨hkeys, hbytes, rfl⟩
  have hsize := hsizes e (hsplit ▸ List.mem_append_right pre List.mem_cons_self)
  have hkeep : planOf s'.storage (pre ++ [e]) = planOf s'.storage pre ++ planOf s'.storage [e] := by
    rw [planOf, List.filter_append, List.map_append]
    rfl
  rw [hkeep]
  have htest : (!e.isNca || e.contentId.isNone) = !(e.isNca && e.contentId.isSome) := by
    rw [Bool.not_and, Option.not_isSome]
  unfold planEntry
  rw [htest]
  cases hplanned : e.isNca && e.contentId.isSome with
  | false =>
    have hnone : planOf s'.storage [e] = [] := by
      rw [planOf, List.filter_cons_of_neg (by rw [hplanned]; decide)]
      rfl
    rw [if_pos Bool.not_false, wpx_pure, hnone, List.append_nil]
    exact ⟨hkeys, hbytes, rfl⟩
  | true =>
    have hone : planOf s'.storage [e] = [(contentId e, s'.storage.has (contentId e))] := by
      rw [planOf, List.filter_cons_of_pos (by exact hplanned)]
      rfl
    rw [Bool.not_true, if_neg Bool.false_ne_true, hone]
    refine wpx_checked (.Has (contentId e)) Prod.fst (fun _ _ hs _ => hs.1) hE
      fun r s₁ hs₁ hr => ?_
    obtain ⟨rfl, hhas⟩ := hs₁
    rw [hhas hr]
    dsimp only
    by_cases hexists : s₁.storage.has (contentId e) = true
    · rw [if_pos hexists, wpx_pure]
      exact ⟨by rw [List.map_append, hkeys]; rfl, hbytes, rfl⟩
    · rw [if_neg hexists, wpx_bind]
      refine wpx_sub (by omega) ?_
      rw [wpx_bind]
      refine wpx_require (fun hfits => ?_) hE
      rw [wpx_bind]
      refine wpx_add (by omega) ?_
      rw [wpx_pure]
      exact ⟨by rw [List.map_append, hkeys]; rfl, by dsimp only; omega, rfl⟩

/-- The test of the space. -/
theorem wpx_checkSpace {E : Failure → State → Prop} (hE : ∀ d, E (.stop d) s) {n : ℕ}
    {Q : Unit → State → Prop} (hQ : Q () s) : wpx (ncm stream) Q E (checkSpace n) s := by
  unfold checkSpace
  rw [wpx_bind]
  refine wpx_query (fun _ _ h => h) fun r _ => ?_
  split_ifs with hknown
  · have hreserve : STREAM_INSTALL_SPACE_RESERVE ≤ 2 ^ 64 - 1 := by decide
    generalize STREAM_INSTALL_SPACE_RESERVE = reserve at hreserve
    rw [wpx_bind]
    refine wpx_sub hreserve ?_
    dsimp only
    split_ifs with hmuch
    · rw [wpx_bind, wpx_pure]
      exact wpx_require (fun _ => hQ) hE
    · have hsum : n + reserve < 2 ^ 64 := by omega
      rw [wpx_bind]
      exact wpx_add hsum (wpx_require (fun _ => hQ) hE)
  · rw [wpx_pure]
    exact hQ

/-- The services are opened. -/
theorem wpx_openContext {E : Failure → State → Prop} (hE : ∀ d, E (.stop d) s)
    {Q : Unit → State → Prop} (hQ : Q () s) : wpx (ncm stream) Q E openContext s := by
  unfold openContext
  refine wpx_checked .ncmInitialize (fun rc => rc) (fun _ _ hs _ => hs) hE fun _ s₁ hs₁ _ => ?_
  obtain rfl : s₁ = s := hs₁
  refine wpx_checked .ncmOpenContentStorage (fun rc => rc) (fun _ _ hs _ => hs) hE
    fun _ s₂ hs₂ _ => ?_
  obtain rfl : s₂ = s₁ := hs₂
  rw [wpx_bind]
  refine wpx_query (fun _ _ h => h) fun rc _ => ?_
  exact wpx_require (fun _ => hQ) hE

end loop

/-! ## The manifest of a package of known size -/

/-- The entries lie in the package, behind the tables, of which the stream has been read. -/
structure Accepted (packageSize : ℕ) (stream : Bytes) (manifest : NspManifest)
    (consumed : ℕ) : Prop where
  size : manifest.packageSize = packageSize
  tables : consumed = Nsp.dataStart stream
  inStream : consumed ≤ stream.length
  nonempty : manifest.entries ≠ []
  inside : ∀ e ∈ manifest.entries, consumed ≤ e.offset ∧ e.offset + e.size ≤ packageSize

section accepted

variable {packageSize : ℕ} (hknown : packageSize ≠ 0)

include hknown in
/-- An entry that is noted lies in the package. -/
theorem streamEntry_inside {stringTableSize dataStart : ℕ} {strings : Bytes}
    {acc : NspManifest × ℕ} {e : Nsp.Pfs0Entry} (ho : e.offset < 2 ^ 64) (hs : e.size < 2 ^ 64)
    {out : NspManifest} {least : ℕ} {w w' : Bool}
    (h : Nsp.streamEntry packageSize stringTableSize dataStart strings acc e w
      = .ok ((out, least), w')) :
    out.packageSize = acc.1.packageSize ∧ ∃ info : NspEntryInfo,
      out.entries = acc.1.entries ++ [info] ∧ dataStart ≤ info.offset ∧
        info.offset + info.size ≤ packageSize := by
  obtain ⟨acc, least₀⟩ := acc
  simp only [Nsp.streamEntry, Nsp.bind_ok, Nsp.refuse_ok, Nsp.require_ok, Nsp.pure_ok,
    Nsp.streamCheckedAdd, Nsp.checkedAdd_ok ho, Nsp.checkedAdd_ok hs] at h
  obtain ⟨_, _, ⟨-, rfl⟩, _, _, ⟨-, rfl⟩, _, _, ⟨rfl, rfl⟩, off, _, ⟨hoff, rfl⟩, _, _,
    ⟨rfl, rfl⟩, fin, _, ⟨hfin, rfl⟩, _, _, ⟨hend, rfl⟩, out₁, _, hpush, hres, rfl⟩ := h
  split_ifs at hoff hfin
  obtain rfl := Option.some.inj hoff
  obtain rfl := Option.some.inj hfin
  cases hres
  refine ⟨Nsp.push_packageSize hpush, _, Nsp.push_entries hpush, Nat.le_add_right _ _, ?_⟩
  have hfits : dataStart + e.offset + e.size ≤ packageSize :=
    not_lt.mp fun hlt => hend ⟨hknown, hlt⟩
  exact hfits

include hknown in
/-- So does every one. -/
theorem streamLoop_inside {stringTableSize dataStart : ℕ} {strings : Bytes}
    {raw : List Nsp.Pfs0Entry} (hraw : ∀ e ∈ raw, e.offset < 2 ^ 64 ∧ e.size < 2 ^ 64)
    {acc : NspManifest × ℕ} {out : NspManifest} {least : ℕ} {w w' : Bool}
    (h : raw.foldlM (Nsp.streamEntry packageSize stringTableSize dataStart strings) acc w
      = .ok ((out, least), w')) :
    out.packageSize = acc.1.packageSize ∧ ∃ infos : List NspEntryInfo,
      out.entries = acc.1.entries ++ infos ∧ infos.length = raw.length ∧
        ∀ e ∈ infos, dataStart ≤ e.offset ∧ e.offset + e.size ≤ packageSize := by
  induction raw generalizing acc w with
  | nil =>
    rw [List.foldlM_nil, Nsp.pure_ok] at h
    obtain ⟨rfl, -⟩ := h
    exact ⟨rfl, [], (List.append_nil _).symm, rfl, by simp⟩
  | cons e raw ih =>
    rw [List.foldlM_cons, Nsp.bind_ok] at h
    obtain ⟨⟨out₁, least₁⟩, w₁, hentry, hrest⟩ := h
    obtain ⟨ho, hs⟩ := hraw e List.mem_cons_self
    obtain ⟨hsize₁, info, hadd, hfits⟩ := streamEntry_inside hknown ho hs hentry
    obtain ⟨hsize, infos, hadds, hlength, hall⟩ :=
      ih (fun x hx => hraw x (List.mem_cons_of_mem _ hx)) hrest
    refine ⟨hsize.trans hsize₁, info :: infos, ?_, ?_, ?_⟩
    · rw [hadds, hadd, List.append_assoc]
      rfl
    · rw [List.length_cons, hlength, List.length_cons]
    · intro x hx
      rcases List.mem_cons.mp hx with rfl | hx
      · exact hfits
      · exact hall x hx

include hknown in
/-- What is accepted for a package of known size, whatever the stream holds. -/
theorem parseStreamManifest_accepted {stream : Bytes} {manifest : NspManifest} {consumed : ℕ}
    {w w' : Bool}
    (h : Nsp.parseStreamManifest packageSize stream w = .ok ((manifest, consumed), w')) :
    Accepted packageSize stream manifest consumed := by
  simp only [Nsp.parseStreamManifest] at h
  simp only [↓Nsp.refuse_bind_ok, ↓Nsp.require_bind_ok, Nsp.bind_ok, Nsp.pure_ok] at h
  obtain ⟨bs, hread, c₀, w₁, h₀, hmagic, hlim, n, w₂, hn, hmax, es, hes, c₁, w₃, h₁, k, w₄, hk,
    tab, htab, c₂, w₅, h₂, ⟨out, least⟩, w₆, hloop, -, -, -, -, hres, rfl⟩ := h
  obtain ⟨-, rfl⟩ := Nsp.readExact_eq_some.mp hread
  obtain ⟨hfiles, hstrings⟩ := Nsp.limits.mp hlim
  obtain ⟨-, rfl⟩ :=
    (Nsp.arith_exact ((Nsp.padded_lt hstrings).trans (by norm_num))).mp hk
  obtain ⟨rfl, rfl, rfl, rfl, rfl⟩ := Nsp.consumed_ok hfiles.2 h₀ hn h₁ h₂
  obtain ⟨-, rfl⟩ := Nsp.readExact_eq_some.mp hes
  obtain ⟨ht, rfl⟩ := Nsp.readExact_eq_some.mp htab
  obtain ⟨hsize, infos, hadds, hlength, hall⟩ :=
    streamLoop_inside hknown (fun e he => Nsp.rawEntries_lt (B := stream) he) hloop
  rw [if_neg hknown] at hres
  cases hres
  refine ⟨hsize, rfl, ht, ?_, ?_⟩
  · rw [hadds]
    have hraw := Nsp.length_rawEntries stream
    intro hnil
    have hinfos : infos = [] := hnil
    rw [hinfos, List.length_nil] at hlength
    have hfiles := hfiles.1
    omega
  · intro e he
    rw [hadds] at he
    exact hall e he

end accepted

/-! ## The package is consumed exactly -/

/-- Two entries have a byte in common. -/
def Overlap (e f : NspEntryInfo) : Prop :=
  max e.offset f.offset < min (e.offset + e.size) (f.offset + f.size)

instance (e f : NspEntryInfo) : Decidable (Overlap e f) := inferInstanceAs (Decidable (_ < _))

theorem overlap_comm {e f : NspEntryInfo} (h : Overlap e f) : Overlap f e := by
  unfold Overlap at h ⊢
  omega

/-- The entries of a package that was taken in its order have no byte in common. -/
theorem not_overlap_of_apart {manifest : NspManifest}
    (h : Apart (physical manifest)) : manifest.entries.Pairwise fun e f => ¬Overlap e f := by
  have hphysical : (physical manifest).Pairwise fun e f => ¬Overlap e f := by
    refine h.imp fun {e f} hle hover => ?_
    unfold Overlap at hover
    omega
  have hperm : (physical manifest).Perm manifest.entries := List.perm_insertionSort _ _
  exact (hperm.pairwise_iff fun hnot hover => hnot (overlap_comm hover)).mp hphysical

section run

variable {packageSize : ℕ} {stream displayName : Bytes} {manifest : NspManifest} {consumed : ℕ}
  {st : Storage}

theorem Accepted.consumed_le (h : Accepted packageSize stream manifest consumed) :
    consumed ≤ packageSize := by
  obtain ⟨e, he⟩ := List.exists_mem_of_ne_nil _ h.nonempty
  obtain ⟨hbegin, hend⟩ := h.inside e he
  omega

/-- The run of the installer from the manifest to the end of the stream. -/
theorem wpx_streamPackage (h : Accepted packageSize stream manifest consumed)
    (hsize : packageSize < 2 ^ 64) :
    wpx (ncm stream)
      (fun v s => Streamed stream st manifest (physical manifest) v s ∧ s.pos = packageSize)
      (Stopped stream st manifest) (streamPackage displayName manifest consumed)
      ⟨consumed, st⟩ := by
  have hbegin : ∀ d, Stopped stream st manifest (.stop d) ⟨consumed, st⟩ := fun d =>
    ⟨Failure.noConfusion, [], List.nil_prefix, .nil, [], (List.append_nil _).symm, .nil⟩
  have hinside : ∀ e ∈ manifest.entries, e.offset + e.size ≤ packageSize :=
    fun e he => (h.inside e he).2
  unfold streamPackage
  rw [wpx_bind]
  refine wpx_require (fun _ => ?_) hbegin
  rw [wpx_bind]
  refine wpx_openContext hbegin ?_
  rw [wpx_bind]
  refine wpx_conseq (wpx_plan hbegin fun e he => ?_) (fun planned s hs => ?_) fun _ _ h => h
  · have := hinside e he
    omega
  obtain ⟨hplan, -, rfl⟩ := hs
  rw [wpx_bind]
  refine wpx_checkSpace hbegin ?_
  rw [wpx_bind]
  refine wpx_query (fun _ _ h => h) fun _ _ => ?_
  rw [wpx_bind, ← h.size]
  have hstart : Streamed stream st manifest [] { streamOffset := consumed, plan := planned.1 }
      ⟨consumed, st⟩ :=
    { pos := rfl, inStream := h.inStream, now := Nat.zero_le _, auxTotal := Nat.zero_le _
      le := h.size ▸ h.consumed_le, ends := by simp, apart := .nil, plan := hplan, aux := rfl
      placeholders := rfl, contents := ⟨[], (List.append_nil _).symm, .nil⟩ }
  refine wpx_foldlM (Streamed stream st manifest) (physical manifest) ?_ ?_ hstart
  · intro taken e rest v s hsplit hstreamed
    have hphysical : e ∈ physical manifest :=
      hsplit ▸ List.mem_append_right taken List.mem_cons_self
    have he : e ∈ manifest.entries := (List.mem_insertionSort _).mp hphysical
    refine wpx_streamEntry_streamed ⟨e :: rest, hsplit.symm⟩ ?_ ?_ hstreamed
    · rw [h.size]
      exact hsize
    · rw [h.size]
      exact hinside e he
  · intro v s hstreamed
    exact wpx_finish (by rw [h.size]; exact hsize) hstreamed

/-- **The package is consumed exactly.**  Whatever the services answer, no difference and no sum
leaves its type, and what a run has registered are the contents of the first new entries in the
order of the offsets, none of which begins before the end of one before it, each with its own bytes
of the package, which it received one piece behind the other.  A run that succeeds has read the
package and no more, has registered all new entries and left no placeholder, and the package had no
overlapping entries. -/
theorem streamed_exactly (hknown : packageSize ≠ 0) (hsize : packageSize < 2 ^ 64) {w w' : Bool}
    (haccepted : Nsp.parseStreamManifest packageSize stream w = .ok ((manifest, consumed), w'))
    {r : Except Failure Vars} {s : State}
    (hrun : Ends (ncm stream) (streamPackage displayName manifest consumed) ⟨consumed, st⟩ r s) :
    r ≠ .error .wrapped ∧
    (∃ taken, taken <+: physical manifest ∧ Apart taken ∧
      Filled stream st taken s.storage.contents) ∧
    ∀ v, r = .ok v → s.pos = packageSize ∧ packageSize ≤ stream.length ∧
      Filled stream st (physical manifest) s.storage.contents ∧
      s.storage.placeholders = st.placeholders ∧
      manifest.entries.Pairwise fun e f => ¬Overlap e f := by
  have hmanifest := parseStreamManifest_accepted hknown haccepted
  have hends := wpx_sound (wpx_streamPackage hmanifest hsize) hrun
  cases r with
  | error e =>
    obtain ⟨hnot, hfilled⟩ := hends
    refine ⟨fun h => hnot (Except.error.inj h), hfilled, ?_⟩
    intro v hv
    cases hv
  | ok v =>
    obtain ⟨hstreamed, hpos⟩ := hends
    refine ⟨?_, ⟨_, List.prefix_rfl, hstreamed.apart, hstreamed.contents⟩, fun _ _ => ?_⟩
    · intro h
      cases h
    · refine ⟨hpos, ?_, hstreamed.contents, hstreamed.placeholders,
        not_overlap_of_apart hstreamed.apart⟩
      rw [← hpos, hstreamed.pos]
      exact hstreamed.inStream

end run

/-! ## A gap and an overlap -/

/-- A package with a CNMT and another NCA of two bytes each, the second at `offset`. -/
def pairPackage (offset : ℕ) : Bytes :=
  [80, 70, 83, 48] ++ le 4 2 ++ le 4 79 ++ le 4 0 ++
    (le 8 0 ++ le 8 2 ++ le 4 0 ++ le 4 0) ++ (le 8 offset ++ le 8 2 ++ le 4 42 ++ le 4 0) ++
    (List.replicate 32 48 ++ [46, 99, 110, 109, 116, 46, 110, 99, 97, 0]) ++
    (List.replicate 32 49 ++ [46, 110, 99, 97, 0]) ++ [1, 2, 3, 4, 5, 6]

def pairManifest (offset : ℕ) : NspManifest := Nsp.tally 149 (Nsp.listed (pairPackage offset))

/-- Everything works, and the free space is not known. -/
def allWorks (stream : Bytes) (s : State) : (fn : Fn) → fn.Res × State
  | .Has id => ((0, s.storage.has id), s)
  | .nsGetFreeSpaceSize => ((1, 0), s)
  | .saveJournal _ => ((), s)
  | .getInterupt => (false, s)
  | .readExact size =>
    match Nsp.readExact stream s.pos size with
    | some data => (some data, { s with pos := s.pos + size })
    | none => (none, s)
  | .GeneratePlaceHolderId => ((0, toNcmId []), s)
  | .CreatePlaceHolder _ ph size =>
    if ∀ p ∈ s.storage.placeholders, p.id ≠ ph then
      (0, { s with storage := s.storage.create ph size })
    else (1, s)
  | .WritePlaceHolder ph offset data => (0, { s with storage := s.storage.write ph offset data })
  | .Register content ph => (0, { s with storage := s.storage.register content ph })
  | .ncmInitialize => (0, s)
  | .ncmOpenContentStorage => (0, s)
  | .ncmOpenContentMetaDatabase => (0, s)

theorem ncm_allWorks (stream : Bytes) (s : State) (fn : Fn) :
    ncm stream s fn (allWorks stream s fn).1 (allWorks stream s fn).2 := by
  cases fn with
  | Has id => exact ⟨rfl, fun _ => rfl⟩
  | readExact size =>
    cases hread : Nsp.readExact stream s.pos size with
    | none =>
      simp only [allWorks, hread]
      exact ⟨s.pos, rfl⟩
    | some data =>
      simp only [allWorks, hread]
      exact ⟨hread, rfl⟩
  | CreatePlaceHolder content ph size =>
    by_cases hfree : ∀ p ∈ s.storage.placeholders, p.id ≠ ph
    · simp only [allWorks, if_pos hfree]
      exact ⟨hfree, rfl⟩
    · simp only [allWorks, if_neg hfree]
      rfl
  | WritePlaceHolder ph offset data => exact (if_pos rfl).symm
  | Register content ph => exact (if_pos rfl).symm
  | _ => rfl

/-- The run on a card with nothing on it. -/
def pairRun (offset : ℕ) : Except Failure Vars × State :=
  exec (I := FnI) (allWorks (pairPackage offset)) (streamPackage [] (pairManifest offset) 143)
    ⟨143, ⟨[], []⟩⟩

theorem pairRun_ends (offset : ℕ) :
    Ends (ncm (pairPackage offset)) (streamPackage [] (pairManifest offset) 143) ⟨143, ⟨[], []⟩⟩
      (pairRun offset).1 (pairRun offset).2 :=
  exec_ends (ncm_allWorks (pairPackage offset)) _ _

set_option maxRecDepth 8000 in
/-- A gap of one byte between the entries, and one byte behind them. -/
theorem streamed_exactly_gap : (pairRun 3).2.pos = 149 ∧
    Filled (pairPackage 3) ⟨[], []⟩ (physical (pairManifest 3)) (pairRun 3).2.storage.contents := by
  have haccepted : Nsp.parseStreamManifest 149 (pairPackage 3) false
      = .ok ((pairManifest 3, 143), false) := by rfl
  obtain ⟨-, -, hsuccess⟩ :=
    streamed_exactly (by decide) (by norm_num) haccepted (pairRun_ends 3)
  have hok : (pairRun 3).1.toOption.isSome = true := by decide
  cases hr : (pairRun 3).1 with
  | error e =>
    rw [hr] at hok
    cases hok
  | ok v =>
    obtain ⟨hpos, -, hfilled, -⟩ := hsuccess v hr
    exact ⟨hpos, hfilled⟩

set_option maxRecDepth 8000 in
/-- The first of two entries that overlap is registered before the second is rejected. -/
theorem overlap_after_first : ¬∀ (packageSize : ℕ) (stream : Bytes) (manifest : NspManifest)
    (consumed : ℕ) (w : Bool), packageSize ≠ 0 → packageSize < 2 ^ 64 →
    Nsp.parseStreamManifest packageSize stream false = .ok ((manifest, consumed), w) →
    ∀ (displayName : Bytes) (st : Storage) (r : Except Failure Vars) (s : State),
      Ends (ncm stream) (streamPackage displayName manifest consumed) ⟨consumed, st⟩ r s →
      (∀ v, r = .ok v → s.pos = packageSize) ∧
        (¬(manifest.entries.Pairwise fun e f => ¬Overlap e f) →
          s.storage.contents.length = st.contents.length) := by
  intro h
  have haccepted : Nsp.parseStreamManifest 149 (pairPackage 1) false
      = .ok ((pairManifest 1, 143), false) := by rfl
  have hover : ¬((pairManifest 1).entries.Pairwise fun e f => ¬Overlap e f) := by decide
  have hcontents := (h 149 (pairPackage 1) (pairManifest 1) 143 false (by decide) (by norm_num)
    haccepted [] ⟨[], []⟩ _ _ (pairRun_ends 1)).2 hover
  exact absurd hcontents (by decide)

end NspStream
