/-
# What installing a port leaves

A download that comes to its end leaves the bytes of the server in the file, which is listed as a
port if its name has the extension of one.  One that breaks off leaves the folder as it was only if
it does so before the file is opened, or if the file held just those bytes before.
-/
import AioMod.PortInstall
import AioMod.PortUninstallSpec

namespace PortInstall

open Explorer Throws TextLines Extract PortUninstall

namespace Download

variable {d : Download} {url : Bytes}

/-! ## The buffer -/

/-- The bytes behind a cipher, from the given position on. -/
def decipher (d : Download) (url : Bytes) : ℕ → Bytes → Bytes
  | _, [] => []
  | i, b :: bs => (b ^^^ d.key url i) :: d.decipher url (i + 1) bs

@[simp] theorem length_decipher (i : ℕ) (bs : Bytes) :
    (d.decipher url i bs).length = bs.length := by
  induction bs generalizing i with
  | nil => rfl
  | cons b bs ih => simp [decipher, ih]

/-- A buffer that is not full, behind whole buffers in the file. -/
structure Chunk.Open (c : Chunk) : Prop where
  fits : c.data.length < _1MiB
  out : c.out.length = c.writes * _1MiB
  received : c.received = c.writes * _1MiB + c.data.length
  fine : c.write_failed = false

theorem open_empty : Chunk.Open {} := ⟨by decide, rfl, rfl, rfl⟩

/-- The writes from the `m`-th on work for `total` bytes. -/
def WritesWork (d : Download) (m total : ℕ) : Prop :=
  ∀ j, m ≤ j → j < total / _1MiB → d.fwrite j = none

/-- The chunk after `all` was received: the whole buffers are in the file. -/
structure Received (d : Download) (m : ℕ) (all : Bytes) (c : Chunk) : Prop where
  isOpen : Chunk.Open c
  out : c.out = all.take (all.length / _1MiB * _1MiB)
  data : c.data = all.drop (all.length / _1MiB * _1MiB)
  writes : c.writes = all.length / _1MiB
  work : d.WritesWork m all.length

/-- The chunk after the first write that failed. -/
structure Broken (d : Download) (m : ℕ) (all : Bytes) (c : Chunk) (i n : ℕ) : Prop where
  failed : c.write_failed = true
  first : m ≤ i
  within : i < all.length / _1MiB
  short : d.fwrite i = some n
  before : ∀ j, m ≤ j → j < i → d.fwrite j = none
  out : c.out = all.take (i * _1MiB + min n _1MiB)

/-- One write more. -/
theorem Received.cons {m : ℕ} {all : Bytes} {c : Chunk} (h : d.Received (m + 1) all c)
    (hm : d.fwrite m = none) : d.Received m all c := by
  refine { h with work := ?_ }
  intro j hj hj'
  by_cases heq : j = m
  · rw [heq]
    exact hm
  · exact h.work j (by omega) hj'

theorem Broken.cons {m : ℕ} {all : Bytes} {c : Chunk} {i n : ℕ} (h : d.Broken (m + 1) all c i n)
    (hm : d.fwrite m = none) : d.Broken m all c i n := by
  have hfirst := h.first
  refine { h with first := by omega, before := ?_ }
  intro j hj hj'
  by_cases heq : j = m
  · rw [heq]
    exact hm
  · exact h.before j (by omega) hj'

/-- What the loop of the callback comes to. -/
theorem receive_spec (bs : Bytes) {c : Chunk} (hc : Chunk.Open c) {all : Bytes}
    (hall : c.out ++ c.data ++ d.decipher url c.received bs = all) :
    d.Received c.writes all (d.receive url bs c) ∨
      ∃ i n, d.Broken c.writes all (d.receive url bs c) i n := by
  have hpos : 0 < _1MiB := by decide
  induction bs generalizing c with
  | nil =>
    left
    rw [decipher, List.append_nil] at hall
    have hlen : all.length / _1MiB = c.writes := by
      rw [← hall, List.length_append, hc.out, Nat.add_comm, Nat.add_mul_div_right _ _ hpos,
        Nat.div_eq_of_lt hc.fits, Nat.zero_add]
    refine ⟨hc, ?_, ?_, hlen.symm, ?_⟩
    · rw [hlen, ← hall, ← hc.out, List.take_left]
      rfl
    · rw [hlen, ← hall, ← hc.out, List.drop_left]
      rfl
    · intro j hj hj'
      rw [hlen] at hj'
      omega
  | cons b bs ih =>
    have hfits := hc.fits
    have hout := hc.out
    have hreceived := hc.received
    have hall₁ : c.out ++ (c.data ++ [b ^^^ d.key url c.received]) ++
        d.decipher url (c.received + 1) bs = all := by
      rw [← hall, decipher]
      simp
    have hlen₁ : (c.data ++ [b ^^^ d.key url c.received]).length = c.data.length + 1 := by simp
    unfold receive
    dsimp only
    -- only the length of the buffer and what all of it adds up to matter
    generalize c.data ++ [b ^^^ d.key url c.received] = data at hall₁ hlen₁
    split
    · rename_i hfull
      unfold flush
      dsimp only
      cases hwrite : d.fwrite c.writes with
      | none =>
        dsimp only
        rw [hc.fine, if_neg (by simp)]
        have hopen : Chunk.Open
            { out := c.out ++ data, writes := c.writes + 1, received := c.received + 1 } := by
          refine ⟨hpos, ?_, ?_, rfl⟩
          · dsimp only
            rw [List.length_append, hfull, hout, Nat.succ_mul]
          · dsimp only
            rw [List.length_nil, Nat.succ_mul]
            omega
        rcases ih hopen (by simpa using hall₁) with h | ⟨i, n, h⟩
        · exact .inl (h.cons hwrite)
        · exact .inr ⟨i, n, h.cons hwrite⟩
      -- a short write ends the transfer, with the front of this buffer in the file
      | some n =>
        dsimp only
        rw [if_pos rfl]
        refine .inr ⟨c.writes, n, rfl, le_rfl, ?_, hwrite, fun j hj hj' => by omega, ?_⟩
        · rw [Nat.lt_iff_add_one_le, Nat.le_div_iff_mul_le hpos, ← hall₁, List.length_append,
            List.length_append, hfull, hout, Nat.succ_mul]
          omega
        · dsimp only
          rw [← hall₁, List.append_assoc, ← hout, List.take_length_add_append,
            List.take_append_of_le_length (by rw [hfull]; exact min_le_right _ _), ← hfull,
            ← List.take_eq_take_min]
    · rename_i hfull
      have hopen : Chunk.Open { c with data := data, received := c.received + 1 } := by
        refine ⟨?_, hout, ?_, hc.fine⟩
        · dsimp only
          omega
        · dsimp only
          omega
      exact ih hopen hall₁

/-! ## The transfer -/

/-- The bytes that are handed over before the user cancels. -/
def stream : List Callback → Bytes
  | [] => []
  | callback :: callbacks =>
    if callback.interrupted then [] else callback.contents ++ stream callbacks

/-- The user does not cancel during the transfer. -/
def Uninterrupted (callbacks : List Callback) : Prop :=
  ∀ callback ∈ callbacks, callback.interrupted = false

instance (callbacks : List Callback) : Decidable (Uninterrupted callbacks) :=
  inferInstanceAs (Decidable (∀ _ ∈ callbacks, _))

theorem uninterrupted_cons {callback : Callback} {callbacks : List Callback} :
    Uninterrupted (callback :: callbacks) ↔
      callback.interrupted = false ∧ Uninterrupted callbacks := List.forall_mem_cons

theorem stream_eq {callbacks : List Callback} (h : Uninterrupted callbacks) :
    stream callbacks = callbacks.flatMap Callback.contents := by
  induction callbacks with
  | nil => rfl
  | cons callback callbacks ih =>
    obtain ⟨hfirst, hrest⟩ := uninterrupted_cons.mp h
    rw [stream, hfirst, if_neg (by simp), ih hrest]
    rfl

theorem receive_cons (x : UInt8) (a : Bytes) (c : Chunk) : d.receive url (x :: a) c =
    if (c.data ++ [x ^^^ d.key url c.received]).length = _1MiB then
      if (d.flush { c with
          data := c.data ++ [x ^^^ d.key url c.received]
          received := c.received + 1 }).write_failed then
        d.flush
          { c with data := c.data ++ [x ^^^ d.key url c.received], received := c.received + 1 }
      else d.receive url a (d.flush { c with
        data := c.data ++ [x ^^^ d.key url c.received], received := c.received + 1 })
    else d.receive url a { c with
      data := c.data ++ [x ^^^ d.key url c.received], received := c.received + 1 } := rfl

theorem receive_append (a b : Bytes) {c : Chunk} (hc : c.write_failed = false) :
    d.receive url (a ++ b) c =
      if (d.receive url a c).write_failed then d.receive url a c
      else d.receive url b (d.receive url a c) := by
  induction a generalizing c with
  | nil =>
    have hnil : d.receive url [] c = c := by simp [receive]
    rw [hnil, hc]
    rfl
  | cons x a ih =>
    rw [List.cons_append, receive_cons, receive_cons]
    by_cases hfull : (c.data ++ [x ^^^ d.key url c.received]).length = _1MiB
    · simp only [if_pos hfull]
      generalize d.flush _ = c₁ at ih ⊢
      cases hfailed : c₁.write_failed with
      | true => simp [hfailed]
      | false => simpa using ih hfailed
    · simp only [if_neg hfull]
      exact ih hc

/-- The callbacks one after the other are the loop over all that is handed over. -/
theorem perform_eq (callbacks : List Callback) {c : Chunk} (hc : c.write_failed = false) :
    d.perform url callbacks c = (d.receive url (stream callbacks) c,
      !(d.receive url (stream callbacks) c).write_failed &&
        decide (Uninterrupted callbacks) && d.complete) := by
  induction callbacks generalizing c with
  | nil =>
    simp [perform, stream, receive, hc, Uninterrupted]
  | cons callback callbacks ih =>
    unfold perform stream
    split
    · rename_i hint
      simp [Uninterrupted, hint, receive]
    · rename_i hint
      dsimp only
      have hfirst : callback.interrupted = false := by simpa using hint
      rw [receive_append _ _ hc]
      split
      · rename_i hfailed
        simp [hfailed]
      · rename_i hfine
        rw [ih (by simpa using hfine)]
        simp only [uninterrupted_cons, hfirst, true_and]

/-- All bytes that are handed over, deciphered. -/
def served (d : Download) (url : Bytes) : Bytes :=
  d.decipher url 0 (d.callbacks.flatMap Callback.contents)

/-- Those of them that are handed over before the user cancels. -/
def got (d : Download) (url : Bytes) : Bytes := d.decipher url 0 (stream d.callbacks)

theorem got_eq (h : Uninterrupted d.callbacks) : d.got url = d.served url := by
  rw [got, served, stream_eq h]

/-- The chunk at the end, and whether the transfer came to its end. -/
def ended (d : Download) (url : Bytes) : Chunk × Bool :=
  let (c, ok) := d.perform url d.callbacks {}
  (d.finish c ok, ok)

/-- The transfer comes to its end unless a write fails, and the status says success. -/
def Arrives (d : Download) : Prop :=
  Uninterrupted d.callbacks ∧ d.complete = true ∧ success d.status

instance (d : Download) : Decidable d.Arrives := inferInstanceAs (Decidable (_ ∧ _ ∧ _))

/-- The number of bytes that are written: whole buffers up to the first write that fails, and what
that one comes to; the rest only where the transfer comes to its end. -/
inductive Written (d : Download) (url : Bytes) : ℕ → Prop where
  | buffer {i n : ℕ} (hi : i < (d.got url).length / _1MiB) (hn : d.fwrite i = some n)
      (hbefore : ∀ j < i, d.fwrite j = none) : Written d url (i * _1MiB + min n _1MiB)
  | rest {n : ℕ} (hbuffers : ∀ j < (d.got url).length / _1MiB, d.fwrite j = none)
      (harrives : d.Arrives) (hrest : (d.got url).length % _1MiB ≠ 0)
      (hn : d.fwrite ((d.got url).length / _1MiB) = some n) :
      Written d url ((d.got url).length / _1MiB * _1MiB + n)
  | whole (hbuffers : ∀ j, j * _1MiB < (d.got url).length → d.fwrite j = none)
      (harrives : d.Arrives) : Written d url (d.got url).length
  | cut (hbuffers : ∀ j < (d.got url).length / _1MiB, d.fwrite j = none)
      (hcut : ¬d.Arrives) : Written d url ((d.got url).length / _1MiB * _1MiB)

/-- Some number of bytes is written. -/
theorem exists_written (d : Download) (url : Bytes) : ∃ n, d.Written url n := by
  by_cases hbuffers : ∀ j < (d.got url).length / _1MiB, d.fwrite j = none
  · by_cases harrives : d.Arrives
    · by_cases hrest : (d.got url).length % _1MiB ≠ 0 ∧
        d.fwrite ((d.got url).length / _1MiB) ≠ none
      · obtain ⟨n, hn⟩ := Option.ne_none_iff_exists'.mp hrest.2
        exact ⟨_, .rest hbuffers harrives hrest.1 hn⟩
      · refine ⟨_, .whole ?_ harrives⟩
        intro j hj
        by_cases hlt : j < (d.got url).length / _1MiB
        · exact hbuffers j hlt
        · have hdiv := Nat.div_add_mod (d.got url).length _1MiB
          have hle : (d.got url).length / _1MiB * _1MiB ≤ j * _1MiB :=
            Nat.mul_le_mul_right _ (by omega)
          have hmod : (d.got url).length % _1MiB ≠ 0 := by
            rw [Nat.mul_comm] at hdiv
            omega
          have heq : j = (d.got url).length / _1MiB := by
            have hpos : 0 < _1MiB := by decide
            have := (Nat.le_div_iff_mul_le hpos).mpr hj.le
            omega
          by_contra hne
          exact hrest ⟨hmod, heq ▸ hne⟩
    · exact ⟨_, .cut hbuffers harrives⟩
  · have hex : ∃ j, j < (d.got url).length / _1MiB ∧ d.fwrite j ≠ none := by
      push Not at hbuffers
      exact hbuffers
    obtain ⟨n, hn⟩ := Option.ne_none_iff_exists'.mp (Nat.find_spec hex).2
    refine ⟨_, .buffer (Nat.find_spec hex).1 hn ?_⟩
    intro j hj
    by_contra hne
    have hlt := (Nat.find_spec hex).1
    exact Nat.find_min hex hj ⟨by omega, hne⟩

/-- What the callbacks come to. -/
theorem received_or_broken (d : Download) (url : Bytes) :
    d.Received 0 (d.got url) (d.receive url (stream d.callbacks) {}) ∨
      ∃ i n, d.Broken 0 (d.got url) (d.receive url (stream d.callbacks) {}) i n :=
  receive_spec (stream d.callbacks) open_empty rfl

theorem ended_eq (d : Download) (url : Bytes) : d.ended url =
    (d.finish (d.receive url (stream d.callbacks) {})
      (!(d.receive url (stream d.callbacks) {}).write_failed &&
        decide (Uninterrupted d.callbacks) && d.complete),
      !(d.receive url (stream d.callbacks) {}).write_failed &&
        decide (Uninterrupted d.callbacks) && d.complete) := by
  unfold ended
  rw [perform_eq d.callbacks rfl]

/-- The end of a transfer in which no write failed on the way. -/
theorem ended_received {c : Chunk} (h : d.Received 0 (d.got url) c)
    (hc : d.receive url (stream d.callbacks) {} = c) :
    d.ended url = (if d.Arrives ∧ c.data ≠ [] then d.flush c else c,
      decide (Uninterrupted d.callbacks) && d.complete) := by
  rw [ended_eq, hc, h.isOpen.fine]
  simp only [Bool.not_false, Bool.true_and, finish, Arrives, Bool.and_eq_true, decide_eq_true_eq,
    and_assoc]

/-- The end of a transfer in which a write failed on the way. -/
theorem ended_broken {c : Chunk} {i n : ℕ} (h : d.Broken 0 (d.got url) c i n)
    (hc : d.receive url (stream d.callbacks) {} = c) : d.ended url = (c, false) := by
  rw [ended_eq, hc, h.failed]
  simp [finish]

/-- What is in the file at the end. -/
theorem Written.out {n : ℕ} (hn : d.Written url n) :
    (d.ended url).1.out = (d.got url).take n := by
  have hpos : 0 < _1MiB := by decide
  generalize hc : d.receive url (stream d.callbacks) {} = c
  have hspec := d.received_or_broken url
  rw [hc] at hspec
  have hdiv := Nat.div_add_mod (d.got url).length _1MiB
  rw [Nat.mul_comm] at hdiv
  -- either every buffer was written, or one was not and the transfer ended there
  rcases hspec with h | ⟨i, k, h⟩
  · rw [ended_received h hc]
    have hdata := h.data
    have hlen := congrArg List.length hdata
    rw [List.length_drop] at hlen
    cases hn with
    | buffer hi hn hbefore =>
      have hnone := h.work _ (Nat.zero_le _) hi
      rw [hnone] at hn
      cases hn
    | rest hbuffers harrives hrest hn =>
      have hne : c.data ≠ [] := by
        intro hnil
        rw [hnil, List.length_nil] at hlen
        omega
      dsimp only
      rw [if_pos ⟨harrives, hne⟩, flush, h.writes, hn]
      dsimp only
      rw [h.out, hdata, ← List.take_add]
    | whole hbuffers harrives =>
      dsimp only
      rw [List.take_length]
      by_cases hne : c.data = []
      · rw [if_neg (fun hx => hx.2 hne), h.out]
        rw [hne, List.length_nil] at hlen
        exact List.take_of_length_le (by omega)
      · have hlast : d.fwrite c.writes = none := by
          rw [h.writes]
          apply hbuffers
          have hlpos := List.length_pos_of_ne_nil hne
          omega
        rw [if_pos ⟨harrives, hne⟩, flush, hlast]
        dsimp only
        rw [h.out, hdata, List.take_append_drop]
    | cut hbuffers hcut =>
      dsimp only
      rw [if_neg (fun hx => hcut hx.1), h.out]
  · rw [ended_broken h hc]
    have hfirst := h.within
    have hshort := h.short
    cases hn with
    | buffer hi hn hbefore =>
      rename_i i' n'
      -- the first write that fails is the same one
      have heq : i = i' := by
        rcases Nat.lt_trichotomy i i' with hlt | heq | hlt
        · rw [hbefore i hlt] at hshort
          cases hshort
        · exact heq
        · rw [h.before i' (Nat.zero_le _) hlt] at hn
          cases hn
      subst heq
      rw [hn] at hshort
      cases hshort
      exact h.out
    | rest hbuffers _ _ _ =>
      rw [hbuffers i hfirst] at hshort
      cases hshort
    | whole hbuffers _ =>
      have hlt : i * _1MiB < (d.got url).length := by
        have hmul := (Nat.le_div_iff_mul_le hpos).mp hfirst
        rw [Nat.succ_mul] at hmul
        omega
      rw [hbuffers i hlt] at hshort
      cases hshort
    | cut hbuffers _ =>
      rw [hbuffers i hfirst] at hshort
      cases hshort

/-- All writes work that the bytes need. -/
def AllWritten (d : Download) (url : Bytes) : Prop :=
  ∀ j, j * _1MiB < (d.got url).length → d.fwrite j = none

/-- When the transfer is a success. -/
theorem success_iff (d : Download) (url : Bytes) :
    success (d.result (d.ended url).1 (d.ended url).2) ↔
      d.Arrives ∧ d.AllWritten url ∧ d.closes = true ∧ d.interruptedAfter = false := by
  have hpos : 0 < _1MiB := by decide
  have hzero : ¬success 0 := by decide
  have hresult : ∀ (c : Chunk) (ok : Bool), success (d.result c ok) ↔
      d.interruptedAfter = false ∧ c.write_failed = false ∧ d.closes = true ∧ ok = true ∧
        success d.status := by
    intro c ok
    unfold result
    cases d.interruptedAfter with
    | true => simp [hzero]
    | false =>
      cases c.write_failed with
      | true => simp [hzero]
      | false =>
        cases d.closes with
        | false => simp [hzero]
        | true =>
          cases ok with
          | false => simp [hzero]
          | true =>
            by_cases hs : success d.status
            · simp [hs]
            · simp [hs, hzero]
  rw [hresult]
  generalize hc : d.receive url (stream d.callbacks) {} = c
  have hspec := d.received_or_broken url
  rw [hc] at hspec
  rcases hspec with h | ⟨i, k, h⟩
  · rw [ended_received h hc]
    have hlen := congrArg List.length h.data
    rw [List.length_drop] at hlen
    have hdiv := Nat.div_add_mod (d.got url).length _1MiB
    rw [Nat.mul_comm] at hdiv
    -- the buffers are written, and so is the rest unless its write fails
    have hall : d.AllWritten url ↔ (c.data ≠ [] → d.fwrite c.writes = none) := by
      constructor
      · intro hall hne
        rw [h.writes]
        apply hall
        have hlpos := List.length_pos_of_ne_nil hne
        omega
      · intro hlast j hj
        by_cases hlt : j < (d.got url).length / _1MiB
        · exact h.work j (Nat.zero_le _) hlt
        · have hle : (d.got url).length / _1MiB * _1MiB ≤ j * _1MiB :=
            Nat.mul_le_mul_right _ (by omega)
          have hj' := (Nat.le_div_iff_mul_le hpos).mpr hj.le
          have heq : j = (d.got url).length / _1MiB := by omega
          rw [heq, ← h.writes]
          apply hlast
          rintro hnil
          rw [hnil, List.length_nil] at hlen
          omega
    by_cases harrives : d.Arrives
    · have hok : (decide (Uninterrupted d.callbacks) && d.complete) = true := by
        rw [decide_eq_true harrives.1, harrives.2.1]
        rfl
      have hfine : (if d.Arrives ∧ c.data ≠ [] then d.flush c else c).write_failed = false ↔
          d.AllWritten url := by
        rw [hall]
        by_cases hne : c.data = []
        · rw [if_neg fun hx => hx.2 hne, h.isOpen.fine]
          simp [hne]
        · rw [if_pos ⟨harrives, hne⟩, flush]
          cases hw : d.fwrite c.writes with
          | none => simp [h.isOpen.fine]
          | some n => simp [hne]
      dsimp only
      rw [hfine, hok]
      constructor
      · rintro ⟨h₁, h₂, h₃, -, -⟩
        exact ⟨harrives, h₂, h₃, h₁⟩
      · rintro ⟨-, h₂, h₃, h₁⟩
        exact ⟨h₁, h₂, h₃, rfl, harrives.2.2⟩
    · constructor
      · rintro ⟨-, -, -, hok, hs⟩
        rw [Bool.and_eq_true, decide_eq_true_eq] at hok
        exact absurd ⟨hok.1, hok.2, hs⟩ harrives
      · rintro ⟨ha, -⟩
        exact absurd ha harrives
  · rw [ended_broken h hc]
    constructor
    · rintro ⟨-, hfine, -⟩
      rw [h.failed] at hfine
      cases hfine
    · rintro ⟨-, hall, -⟩
      have hmul := (Nat.le_div_iff_mul_le hpos).mp h.within
      rw [Nat.succ_mul] at hmul
      have hnone := hall i (by omega)
      rw [h.short] at hnone
      cases hnone

end Download

/-! ## The name -/

/-- The characters that a name of a file is made of. -/
def NameChar (c : UInt8) : Prop := c ≠ 47 ∧ c ≠ 58

theorem nameChar_sanitize {value : Bytes} {c : UInt8} (h : c ∈ sanitizeFilename value) :
    NameChar c := by
  have hmap := (List.dropWhile_sublist _).subset h
  obtain ⟨x, -, rfl⟩ := List.mem_map.mp hmap
  split
  · rename_i hx
    constructor
    · rintro rfl
      exact absurd hx (by decide)
    · rintro rfl
      exact absurd hx (by decide)
  · exact ⟨by decide, by decide⟩

theorem toNat_of_ofNat {c : UInt8} {k : ℕ} (hk : k < 256)
    (h : Char.ofNat c.toNat = Char.ofNat k) : c.toNat = k := by
  have hc := c.toNat_lt
  have hchar := congrArg Char.toNat h
  rw [Char.toNat_ofNat, Char.toNat_ofNat] at hchar
  have hvalid : c.toNat.isValidChar := .inl (by omega)
  have hvalid' : k.isValidChar := .inl (by omega)
  rwa [if_pos hvalid, if_pos hvalid'] at hchar

theorem legal_name {b : Bytes} (hne : b ≠ []) (h : ∀ c ∈ b, NameChar c) : Legal (name b) := by
  have hno : ∀ k : UInt8, (∀ c ∈ b, c ≠ k) → Char.ofNat k.toNat ∉ (name b).toList := by
    intro k hk hmem
    rw [name, String.toList_ofList] at hmem
    obtain ⟨c, hc, heq⟩ := List.mem_map.mp hmem
    exact hk c hc (UInt8.toNat_inj.mp (toNat_of_ofNat k.toNat_lt heq))
  refine ⟨?_, hno 47 fun c hc => (h c hc).1, hno 58 fun c hc => (h c hc).2⟩
  intro hempty
  have hlist := congrArg String.toList hempty
  rw [name, String.toList_ofList] at hlist
  exact hne (List.map_eq_nil_iff.mp hlist)

/-- The name of the file, whatever the address is like. -/
theorem legal_destination (label url : Bytes) :
    ∃ n, Legal n ∧ destination label url = SwitchFolder ++ [n] := by
  refine ⟨_, legal_name ?_ ?_, rfl⟩
  · unfold filenameFromUrl
    dsimp only
    split
    · exact List.append_ne_nil_of_right_ne_nil _ (by decide)
    · assumption
  · intro c hc
    unfold filenameFromUrl at hc
    dsimp only at hc
    split at hc
    · rcases List.mem_append.mp hc with hc | hc
      · exact nameChar_sanitize hc
      · have hdot : ascii ".nro" = [46, 110, 114, 111] := by decide
        rw [hdot] at hc
        simp only [List.mem_cons, List.not_mem_nil, or_false] at hc
        rcases hc with rfl | rfl | rfl | rfl
        all_goals exact ⟨by decide, by decide⟩
    · exact nameChar_sanitize hc

/-! ## The card -/

section card

variable {fold : Name → Name} {v w : Volume fold} {label url : Bytes} {d : Download}

theorem key_switch (fold : Name → Name) : key fold SwitchFolder = [fold "switch"] := by
  simp [key, SwitchFolder]

/-- `createTree` of the folder. -/
theorem createSwitch (v : Volume fold) :
    (v.kind SwitchFolder = some false ∧ v.mkdirs (prefixes SwitchFolder) = (false, v)) ∨
    (v.kind SwitchFolder = some true ∧ v.mkdirs (prefixes SwitchFolder) = (true, v)) ∨
    (v.kind SwitchFolder = none ∧ ∃ w, v.mkdirs (prefixes SwitchFolder) = (true, w) ∧
      w.kind SwitchFolder = some true ∧ v.SameBut w (· = key fold SwitchFolder)) := by
  have hprefixes : prefixes SwitchFolder = [SwitchFolder] := rfl
  rw [hprefixes, Volume.mkdirs, Volume.mkdir]
  by_cases hnone : v.tree.get (key fold SwitchFolder) = none
  · right
    right
    have hput : v.tree.CanPut (key fold SwitchFolder) := by
      refine ⟨by simp [key_switch], ?_, by rw [hnone]; simp⟩
      rw [key_switch]
      exact v.tree.root
    have hall : v.tree.get (key fold SwitchFolder) = none ∧ v.tree.CanPut (key fold SwitchFolder) ∧
        Legal (lastName SwitchFolder) := ⟨hnone, hput, by decide⟩
    refine ⟨by rw [Volume.kind, hnone]; rfl, v.put (key fold SwitchFolder) (lastName SwitchFolder)
      .dir hput (spells_last hall.2.2 hput.1), ?_, ?_, ?_⟩
    · rw [dif_pos hall, if_pos rfl, Volume.mkdirs]
    · have hat := v.at_put (key fold SwitchFolder) (lastName SwitchFolder) .dir hput
        (spells_last hall.2.2 hput.1) (key fold SwitchFolder)
      rw [if_pos rfl] at hat
      obtain ⟨e, he, heq⟩ := Option.map_eq_some_iff.mp hat
      rw [Volume.kind, he, (Prod.mk.inj heq).2]
      rfl
    · intro q hq
      rw [Volume.at_put, if_neg hq]
  · rw [dif_neg fun h => hnone h.1]
    dsimp only
    cases hkind : v.kind SwitchFolder with
    | none => exact absurd (Option.map_eq_none_iff.mp hkind) hnone
    | some isDir =>
      cases isDir with
      | false => exact .inl ⟨rfl, by simp⟩
      | true => exact .inr (.inl ⟨rfl, by simp [Volume.mkdirs]⟩)

/-- A file may be put directly below the folder unless a folder stands there. -/
theorem setFile_destination (hdir : v.kind SwitchFolder = some true) (b : Bytes) :
    (∃ w, v.setFile (destination label url) b = some w) ↔
      v.kind (destination label url) ≠ some true := by
  obtain ⟨n, hlegal, hdest⟩ := legal_destination label url
  have hkey : key fold (destination label url) = key fold SwitchFolder ++ [fold n] := by
    rw [hdest, Volume.key_append, Volume.key_singleton hlegal.1]
  have hlast : lastName (destination label url) = n := by
    rw [hdest, lastName, List.filter_append, List.filter_singleton]
    simp [hlegal.1]
  have hkind : v.kind (destination label url) = some true ↔
      v.tree.get (key fold (destination label url)) = some .dir := by
    unfold Volume.kind
    cases hget : v.tree.get (key fold (destination label url)) with
    | none => simp
    | some e => cases e <;> simp [Entry.isDir]
  have hparent : v.tree.get (key fold SwitchFolder) = some .dir := by
    unfold Volume.kind at hdir
    cases hget : v.tree.get (key fold SwitchFolder) with
    | none => simp [hget] at hdir
    | some e =>
      rw [hget] at hdir
      cases e with
      | dir => rfl
      | file b => simp [Entry.isDir] at hdir
  unfold Volume.setFile
  constructor
  · rintro ⟨w, hw⟩ hd
    split at hw
    · rename_i hput
      exact hput.1.2.2 (hkind.mp hd)
    · cases hw
  · intro hd
    have hput : v.tree.CanPut (key fold (destination label url)) ∧
        Legal (lastName (destination label url)) := by
      refine ⟨⟨by rw [hkey]; simp, ?_, fun h => hd (hkind.mpr h)⟩, by rwa [hlast]⟩
      rw [hkey, List.dropLast_concat]
      exact hparent
    rw [dif_pos hput]
    exact ⟨_, rfl⟩

/-! ### The listing -/

/-- A listing shows a file. -/
def Lists (v : Volume fold) (p : FsPath) : Prop :=
  ∀ r v', Ends (Explorer.card False) findInstalledPorts v r v' →
    ∃ ports, r = .ok ports ∧ ∃ port ∈ ports, key fold port.nro = key fold p

/-- The bytes of a port. -/
def IsNro (b : Bytes) : Prop :=
  hasNroHeader (some (b.take (Forwarder.sizeof_NroStart + Forwarder.sizeof_NroHeader))) = true

/-- A file with the bytes of a port directly below the folder is listed exactly if the name it has
there has the extension. -/
theorem lists_iff {n spelled : Name} {b : Bytes} (hdir : w.kind SwitchFolder = some true)
    (hlegal : Legal n)
    (hat : w.at_ (key fold (SwitchFolder ++ [n])) = some (spelled, .file b)) (hb : IsNro b) :
    Lists w (SwitchFolder ++ [n]) ↔ hasNroExtension [spelled] = true := by
  have hkey : key fold (SwitchFolder ++ [n]) = key fold SwitchFolder ++ [fold n] := by
    rw [Volume.key_append, Volume.key_singleton hlegal.1]
  have hget : w.tree.get (key fold (SwitchFolder ++ [n])) = some (.file b) := by
    obtain ⟨e, he, heq⟩ := Option.map_eq_some_iff.mp hat
    rw [he, (Prod.mk.inj heq).2]
  have hspelled : w.spelling (key fold (SwitchFolder ++ [n])) = spelled := by
    obtain ⟨e, he, heq⟩ := Option.map_eq_some_iff.mp hat
    exact (Prod.mk.inj heq).1
  -- the listed path is the folder with the name on the card
  have hpath : w.pathBelow SwitchFolder (key fold (SwitchFolder ++ [n])) =
      SwitchFolder ++ [spelled] := by
    have happ := Volume.pathBelow_append (v := w) (p := SwitchFolder) [] (fold n)
    rw [List.append_nil, Volume.pathBelow_self, ← hkey, hspelled] at happ
    exact happ
  have hne : w.tree.get (key fold (SwitchFolder ++ [n])) ≠ none := by
    rw [hget]
    simp
  have hpre : key fold SwitchFolder <+: key fold (SwitchFolder ++ [n]) :=
    Volume.key_prefix (List.prefix_append _ _)
  have hkeypath : key fold (SwitchFolder ++ [spelled]) = key fold (SwitchFolder ++ [n]) := by
    rw [← hpath, Volume.key_pathBelow hne hpre]
  constructor
  · intro hlists
    have hrun := exec_ends (card_answer False) findInstalledPorts w
    obtain ⟨ports, hok, port, hport, hkeyport⟩ := hlists _ _ hrun
    rw [hok] at hrun
    have hlisted : Listed w port := (wpx_sound findInstalledPorts_spec hrun).2.1 port hport
    obtain ⟨⟨q, hq, -, hqget, hnro⟩, -⟩ := Volume.mem_descendants.mp hlisted.below
    have hqkey : q = key fold (SwitchFolder ++ [n]) := by
      rw [← hkeyport, hnro, Volume.key_pathBelow hqget hq]
    have hext := hlisted.genuine.valid.extension
    rwa [hnro, hqkey, hpath, hasNroExtension_append] at hext
  · intro hext r v' hrun
    have hspec := wpx_sound findInstalledPorts_spec hrun
    cases r with
    | error e =>
      rcases hspec with hF | hkind
      · exact hF.elim
      · exact absurd hdir hkind
    | ok ports =>
      obtain ⟨-, -, hall⟩ := hspec
      have hmem : SwitchFolder ++ [spelled] ∈ w.descendants SwitchFolder (some AppFolder) := by
        refine Volume.mem_descendants.mpr ⟨⟨_, hpre, ?_, hne, hpath.symm⟩, ?_⟩
        · rw [hkey]
          simp
        · rintro s hs ⟨hbelow, hother⟩
          cases hs
          exact hother (hbelow.eq_of_length (by simp [AppFolder, SwitchFolder])).symm
      have hvalid : ValidNro w (SwitchFolder ++ [spelled]) := by
        refine ⟨by rwa [hasNroExtension_append], ?_, ?_, ?_, ?_⟩
        · intro heq
          have hlen := congrArg List.length heq
          simp [SwitchFolder, AppNro, AppFolder] at hlen
        · rw [List.dropLast_concat]
          exact .inl rfl
        · rw [Volume.kind, hkeypath, hget]
          rfl
        · unfold HasHeader
          rw [Volume.contents_eq_some.mpr (by rw [hkeypath]; exact hget)]
          exact hb
      rcases hall _ hmem hvalid with hF | ⟨port, hport, hnro⟩
      · exact hF.elim
      · exact ⟨ports, rfl, port, hport, by rw [hnro, hkeypath]⟩

/-! ### The installation -/

/-- Nothing goes wrong: the transfer comes to its end with a status of success, all writes and the
closing work, and the user does not cancel. -/
structure Works (d : Download) (url : Bytes) : Prop where
  ready : d.ready url = true
  opens : d.opens = true
  arrives : d.Arrives
  written : d.AllWritten url
  closes : d.closes = true
  kept : d.interruptedAfter = false

/-- A file may stand at the destination. -/
def Openable (v : Volume fold) (label url : Bytes) : Prop :=
  v.kind SwitchFolder ≠ some false ∧ v.kind (destination label url) ≠ some true

/-- The name that the file has on the card. -/
def nameOnCard (v : Volume fold) (p : FsPath) : Name :=
  if v.tree.get (key fold p) = none then lastName p else v.spelling (key fold p)

/-- An installation that fails changes nothing; one that succeeds with a port has put its bytes into
one file, which is listed. -/
structure AllOrNothing (label url : Bytes) (d : Download) (v : Volume fold) : Prop where
  failed : ¬Download.success (install label url d v).1 →
    ∀ q, key fold SwitchFolder <+: q → (install label url d v).2.at_ q = v.at_ q
  installed : Download.success (install label url d v).1 → IsNro (d.served url) →
    (∀ q, q ≠ key fold (destination label url) →
      (q = key fold SwitchFolder → v.tree.get q ≠ none) →
      (install label url d v).2.at_ q = v.at_ q) ∧
    (install label url d v).2.contents (destination label url) = some (d.served url) ∧
    Lists (install label url d v).2 (destination label url)

/-- What that takes: a download that fails does so before a file is opened, or finds the file with
the very bytes that it writes; the file of one that works has the extension on the card. -/
structure Clean (label url : Bytes) (d : Download) (v : Volume fold) : Prop where
  failed : ¬(Works d url ∧ Openable v label url) → v.kind SwitchFolder = some false ∨
    v.kind SwitchFolder = some true ∧
      (d.ready url = true → d.opens = true → Openable v label url →
        ∃ n, d.Written url n ∧
          v.contents (destination label url) = some ((d.got url).take n))
  named : Works d url → Openable v label url → IsNro (d.served url) →
    hasNroExtension [nameOnCard v (destination label url)] = true

theorem kind_of_at {p : FsPath} (h : w.at_ (key fold p) = v.at_ (key fold p)) :
    w.kind p = v.kind p := by
  rw [Volume.kind, Volume.kind, Volume.get_of_at h]

theorem nameOnCard_of_at {p : FsPath} (h : w.at_ (key fold p) = v.at_ (key fold p)) :
    nameOnCard w p = nameOnCard v p := by
  have hget := Volume.get_of_at h
  unfold nameOnCard
  rw [hget]
  split
  · rfl
  · rename_i hne
    obtain ⟨e, he⟩ := Option.ne_none_iff_exists'.mp hne
    rw [Volume.at_, Volume.at_, hget, he] at h
    exact (Prod.mk.inj (Option.some.inj h)).1

theorem key_destination_ne (fold : Name → Name) (label url : Bytes) :
    key fold SwitchFolder ≠ key fold (destination label url) := by
  obtain ⟨n, hlegal, hdest⟩ := legal_destination label url
  rw [hdest, Volume.key_append, Volume.key_singleton hlegal.1]
  simp

/-- Opening a file and writing it. -/
theorem setFile_twice {p : FsPath} {b : Bytes} {u : Volume fold} (h : v.setFile p [] = some u) :
    ∃ w, u.setFile p b = some w ∧ v.SameBut w (· = key fold p) ∧
      w.at_ (key fold p) = some (nameOnCard v p, .file b) := by
  obtain ⟨w, hw⟩ := Volume.setFile_again h b
  refine ⟨w, hw, (Volume.sameBut_setFile h).trans (Volume.sameBut_setFile hw), ?_⟩
  have hu := (Volume.setFile_eq_some h).2.2 (key fold p)
  have hat := (Volume.setFile_eq_some hw).2.2 (key fold p)
  have hget := Volume.contents_eq_some.mp (Volume.contents_setFile h)
  rw [if_pos rfl] at hu hat
  rw [hat, hget, if_neg (by simp)]
  rw [Volume.at_, hget] at hu
  rw [(Prod.mk.inj (Option.some.inj hu)).1]
  rfl

/-- What an installation comes to. -/
theorem install_cases (label url : Bytes) (d : Download) (v : Volume fold) :
    (v.kind SwitchFolder = some false ∧ install label url d v = (0, v)) ∨
    (v.kind SwitchFolder ≠ some false ∧
      ¬(d.ready url = true ∧ d.opens = true ∧ Openable v label url) ∧
      ∃ w, install label url d v = (0, w) ∧ w.kind SwitchFolder = some true ∧
        (v.kind SwitchFolder = some true → w = v)) ∨
    (d.ready url = true ∧ d.opens = true ∧ Openable v label url ∧
      ∃ w, install label url d v = (d.result (d.ended url).1 (d.ended url).2, w) ∧
        w.kind SwitchFolder = some true ∧
        (∀ q, q ≠ key fold (destination label url) →
          (q = key fold SwitchFolder → v.tree.get q ≠ none) → w.at_ q = v.at_ q) ∧
        w.at_ (key fold (destination label url)) =
          some (nameOnCard v (destination label url), .file (d.ended url).1.out)) := by
  have hswitch : (v.kind SwitchFolder = some false ∧
        v.mkdirs (prefixes SwitchFolder) = (false, v)) ∨
      (v.kind SwitchFolder ≠ some false ∧ ∃ u, v.mkdirs (prefixes SwitchFolder) = (true, u) ∧
        u.kind SwitchFolder = some true ∧ v.SameBut u (· = key fold SwitchFolder) ∧
        (v.kind SwitchFolder ≠ none → u = v)) := by
    rcases createSwitch v with h | ⟨hkind, hmk⟩ | ⟨hkind, u, hmk, hu, hsame⟩
    · exact .inl h
    · exact .inr ⟨by rw [hkind]; simp, v, hmk, hkind, .refl _ _, fun _ => rfl⟩
    · exact .inr ⟨by rw [hkind]; simp, u, hmk, hu, hsame, fun hne => absurd hkind hne⟩
  rcases hswitch with ⟨hkind, hmk⟩ | ⟨hkind, u, hmk, hu, hsame, heq⟩
  · left
    refine ⟨hkind, ?_⟩
    rw [install, hmk]
    rfl
  · right
    have hkindu := kind_of_at (hsame _ (key_destination_ne fold label url).symm)
    have hname := nameOnCard_of_at (hsame _ (key_destination_ne fold label url).symm)
    -- without a download and a place for it only the folder is made
    have hstop : ¬(d.ready url = true ∧ d.opens = true ∧ Openable v label url) →
        install label url d v = (0, u) := by
      intro hnot
      rw [install, hmk]
      dsimp only
      rw [if_pos rfl, Download.downloadFile]
      by_cases hready : d.ready url = true
      · rw [if_pos hready]
        by_cases hopens : d.opens = true
        · have hno : u.setFile (destination label url) [] = none := by
            by_contra hsome
            obtain ⟨w, hw⟩ := Option.ne_none_iff_exists'.mp hsome
            have hdir := (setFile_destination hu []).mp ⟨w, hw⟩
            rw [hkindu] at hdir
            exact hnot ⟨hready, hopens, hkind, hdir⟩
          rw [if_pos hopens, hno]
        · rw [if_neg hopens]
      · rw [if_neg hready]
    by_cases hgo : d.ready url = true ∧ d.opens = true ∧ Openable v label url
    · right
      refine ⟨hgo.1, hgo.2.1, hgo.2.2, ?_⟩
      obtain ⟨w₀, hw₀⟩ := (setFile_destination hu []).mpr (by rw [hkindu]; exact hgo.2.2.2)
      obtain ⟨w, hw, hframe, hat⟩ := setFile_twice (b := (d.ended url).1.out) hw₀
      refine ⟨w, ?_, ?_, ?_, ?_⟩
      · rw [install, hmk]
        dsimp only
        rw [if_pos rfl, Download.downloadFile, if_pos hgo.1, if_pos hgo.2.1, hw₀]
        dsimp only
        show (d.result (d.ended url).1 (d.ended url).2,
          (w₀.setFile (destination label url) (d.ended url).1.out).getD w₀) = _
        rw [hw]
        rfl
      · rw [kind_of_at (hframe _ (key_destination_ne fold label url)), hu]
      · intro q hq hswitch
        rw [hframe q hq]
        by_cases hqs : q = key fold SwitchFolder
        · have hne := hswitch hqs
          rw [heq ?_]
          intro hnone
          rw [hqs] at hne
          exact hne (Option.map_eq_none_iff.mp hnone)
        · exact hsame q hqs
      · rw [hat, hname]
    · left
      refine ⟨hkind, hgo, u, hstop hgo, hu, ?_⟩
      intro htrue
      exact heq (by rw [htrue]; simp)

theorem not_success_zero : ¬Download.success 0 := by decide

/-- The status is one of success exactly if nothing goes wrong. -/
theorem works_iff (hready : d.ready url = true) (hopens : d.opens = true) :
    Download.success (d.result (d.ended url).1 (d.ended url).2) ↔ Works d url := by
  rw [Download.success_iff]
  constructor
  · rintro ⟨ha, hw, hc, hk⟩
    exact ⟨hready, hopens, ha, hw, hc, hk⟩
  · intro h
    exact ⟨h.arrives, h.written, h.closes, h.kept⟩

/-- Where all went well the file has what was sent. -/
theorem out_eq_served (h : Works d url) : (d.ended url).1.out = d.served url := by
  rw [(Download.Written.whole h.written h.arrives).out, List.take_length,
    Download.got_eq h.arrives.1]

/-- The installation of a port is all or nothing exactly under that condition. -/
theorem allOrNothing_iff (label url : Bytes) (d : Download) (v : Volume fold) :
    AllOrNothing label url d v ↔ Clean label url d v := by
  rcases install_cases label url d v with ⟨hkind, hinst⟩ | ⟨hkind, hno, w, hinst, hw, hsame⟩ |
    ⟨hready, hopens, hopen, w, hinst, hw, hframe, hat⟩
  · -- a file stands at the place of the folder
    constructor
    · intro _
      exact ⟨fun _ => .inl hkind, fun _ hopen => absurd hkind hopen.1⟩
    · intro _
      refine ⟨fun _ _ _ => by rw [hinst], ?_⟩
      rw [hinst]
      exact fun hs => absurd hs not_success_zero
  · -- the file is not opened
    constructor
    · intro h
      refine ⟨fun _ => .inr ⟨?_, fun h₁ h₂ h₃ => absurd ⟨h₁, h₂, h₃⟩ hno⟩, ?_⟩
      · have hfailed := h.failed
        rw [hinst] at hfailed
        rw [← kind_of_at (hfailed not_success_zero _ (List.prefix_refl _)), hw]
      · intro hworks hopen
        exact absurd ⟨hworks.ready, hworks.opens, hopen⟩ hno
    · intro h
      have hnot : ¬(Works d url ∧ Openable v label url) :=
        fun hx => hno ⟨hx.1.ready, hx.1.opens, hx.2⟩
      have htrue := ((h.failed hnot).resolve_left hkind).1
      refine ⟨fun _ _ _ => by rw [hinst, hsame htrue], ?_⟩
      rw [hinst]
      exact fun hs => absurd hs not_success_zero
  -- the file is opened, and holds what was written of it
  · have hcontents : w.contents (destination label url) = some (d.ended url).1.out := by
      rw [Volume.contents_eq_some]
      obtain ⟨e, he, heq⟩ := Option.map_eq_some_iff.mp hat
      rw [he, (Prod.mk.inj heq).2]
    by_cases hworks : Works d url
    · have hs := (works_iff hready hopens).mpr hworks
      have hout := out_eq_served hworks
      have hlists : IsNro (d.served url) → (Lists w (destination label url) ↔
          hasNroExtension [nameOnCard v (destination label url)] = true) := by
        intro hnro
        obtain ⟨n, hlegal, hdest⟩ := legal_destination label url
        rw [hout] at hat
        rw [hdest] at hat ⊢
        exact lists_iff hw hlegal hat hnro
      constructor
      · intro h
        refine ⟨fun hnot => absurd ⟨hworks, hopen⟩ hnot, ?_⟩
        intro _ _ hnro
        have hinstalled := h.installed
        rw [hinst] at hinstalled
        exact (hlists hnro).mp (hinstalled hs hnro).2.2
      · intro h
        refine ⟨?_, ?_⟩
        · rw [hinst]
          exact fun hnot => absurd hs hnot
        · rw [hinst]
          intro _ hnro
          refine ⟨hframe, by rw [hcontents, hout], (hlists hnro).mpr ?_⟩
          exact h.named hworks hopen hnro
    · have hs : ¬Download.success (d.result (d.ended url).1 (d.ended url).2) :=
        fun hs => hworks ((works_iff hready hopens).mp hs)
      have hswitch : key fold SwitchFolder <+: key fold (destination label url) := by
        obtain ⟨n, -, hdest⟩ := legal_destination label url
        rw [hdest]
        exact Volume.key_prefix (List.prefix_append _ _)
      constructor
      · intro h
        have hfailed := h.failed
        rw [hinst] at hfailed
        refine ⟨fun _ => .inr ⟨?_, fun _ _ _ => ?_⟩, fun hx => absurd hx hworks⟩
        · rw [← kind_of_at (hfailed hs _ (List.prefix_refl _)), hw]
        · obtain ⟨n, hn⟩ := Download.exists_written d url
          refine ⟨n, hn, ?_⟩
          rw [← hn.out, ← hcontents]
          exact (Volume.contents_of_at (hfailed hs _ hswitch)).symm
      · intro h
        obtain ⟨htrue, hsaved⟩ := (h.failed fun hx => hworks hx.1).resolve_left hopen.1
        obtain ⟨n, hn, hb⟩ := hsaved hready hopens hopen
        rw [← hn.out, Volume.contents_eq_some] at hb
        refine ⟨?_, ?_⟩
        · rw [hinst]
          intro _ q _
          by_cases hq : q = key fold (destination label url)
          · rw [hq, hat, Volume.at_, hb, nameOnCard, if_neg (by rw [hb]; simp)]
            rfl
          · apply hframe q hq
            rintro rfl hnone
            rw [Volume.kind, hnone] at htrue
            cases htrue
        · rw [hinst]
          exact fun hx => absurd hx hs

end card

/-- A card with a port. -/
def portInstalled : Volume id :=
  let v := ((Volume.empty : Volume id).mkdir ["switch"]).2
  (v.setFile ["switch", "game.nro"] [7]).getD v

/-- A download of which nothing arrives. -/
def brokenOff : Download where
  init := true
  mega_url := none
  mega_node_key := none
  checkSize := true
  interrupted := false
  opens := true
  callbacks := []
  complete := false
  status := 200
  fwrite _ := none
  closes := true
  interruptedAfter := false

set_option maxRecDepth 4000 in
/-- A port that is installed is emptied by a download that breaks off. -/
theorem port_emptied :
    ¬AllOrNothing (ascii "Game") (ascii "server/game.nro") brokenOff portInstalled ∧
      portInstalled.contents ["switch", "game.nro"] = some [7] ∧
      (install (ascii "Game") (ascii "server/game.nro") brokenOff portInstalled).2.contents
        ["switch", "game.nro"] = some [] := by
  refine ⟨?_, by decide, by decide⟩
  intro h
  exact absurd (h.failed (by decide) ["switch", "game.nro"] (by decide)) (by decide)

end PortInstall
