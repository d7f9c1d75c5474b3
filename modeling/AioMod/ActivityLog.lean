/-
# The activity log

`Add`, `ScrollOlder`, `ScrollNewer` and `Draw` of `activity_log.cpp`.  The scroll position is a
distance from the newest line.  Below `MAX_ENTRIES` lines a new line moves it along, and the lines on
the screen stay; in a full log the evicted line takes that back, and every new line moves them by one.
-/
import Mathlib.Data.List.DropRight
import Mathlib.Tactic

namespace ActivityLog

/-! ## The code -/

/-- The colour of a line. -/
inductive Tone where
  | Normal | Muted | Success | Warning | Error
  deriving DecidableEq

/-- A line of the log. -/
structure Entry where
  tag : String
  text : String
  tone : Tone
  deriving DecidableEq

def MAX_ENTRIES : ℕ := 500

/-- `g_entries`, `g_offset_from_tail` and `g_visible_capacity`. -/
structure Log where
  entries : List Entry
  offset_from_tail : ℕ
  visible_capacity : ℕ

/-- The log when the program starts. -/
def init : Log := ⟨[], 0, 1⟩

/-- `activity_log::Add`.  The position is at most the number of lines, so it does not wrap. -/
def Add (entry : Entry) (s : Log) : Log :=
  let offset :=
    if s.offset_from_tail ≠ 0 ∧ s.entries ≠ [] then s.offset_from_tail + 1 else s.offset_from_tail
  let entries := s.entries ++ [entry]
  if entries.length > MAX_ENTRIES then
    { s with
      entries := entries.tail
      offset_from_tail := if offset ≠ 0 then offset - 1 else offset }
  else
    { s with entries := entries, offset_from_tail := offset }

/-- The largest position that a log of `total` lines has, `capacity` of them on the screen. -/
def max_offset (total capacity : ℕ) : ℕ := if total > capacity then total - capacity else 0

/-- `activity_log::ScrollOlder`; the sum of the two `size_t` wraps. -/
def ScrollOlder (lines : ℕ) (s : Log) : Log :=
  { s with
    offset_from_tail := min ((s.offset_from_tail + lines) % 2 ^ 64)
      (max_offset s.entries.length s.visible_capacity) }

@[simp] theorem ScrollOlder_entries (lines : ℕ) (s : Log) :
    (ScrollOlder lines s).entries = s.entries := rfl

@[simp] theorem ScrollOlder_capacity (lines : ℕ) (s : Log) :
    (ScrollOlder lines s).visible_capacity = s.visible_capacity := rfl

/-- `activity_log::ScrollNewer` -/
def ScrollNewer (lines : ℕ) (s : Log) : Log :=
  { s with
    offset_from_tail := if lines ≥ s.offset_from_tail then 0 else s.offset_from_tail - lines }

/-- What `Draw` tells the page. -/
structure DrawInfo where
  first : ℕ
  last : ℕ
  total : ℕ
  following_tail : Bool

/-- `activity_log::Draw` in a view that is `rows` lines high: the log afterwards, the lines on the
screen and the answer. -/
def Draw (rows : ℕ) (s : Log) : Log × List Entry × DrawInfo :=
  let capacity := max 1 rows
  let total := s.entries.length
  let offset := min s.offset_from_tail (max_offset total capacity)
  let stop := if total > offset then total - offset else 0
  let start := if stop > capacity then stop - capacity else 0
  let visible := (s.entries.drop start).take (stop - start)
  ({ s with offset_from_tail := offset, visible_capacity := capacity }, visible,
    { first := if visible = [] then 0 else start + 1
      last := stop
      total := total
      following_tail := decide (offset = 0) })

/-- A call. -/
inductive Op where
  | Add (entry : Entry)
  | ScrollOlder (lines : ℕ)
  | ScrollNewer (lines : ℕ)
  | Draw (rows : ℕ)

/-- What a call leaves. -/
def step (s : Log) : Op → Log
  | .Add entry => Add entry s
  | .ScrollOlder lines => ScrollOlder lines s
  | .ScrollNewer lines => ScrollNewer lines s
  | .Draw rows => (Draw rows s).1

/-- The log after some calls. -/
def run (ops : List Op) : Log := ops.foldl step init

/-! ## What every run keeps -/

/-- The lines that the calls add. -/
def added (ops : List Op) : List Entry :=
  ops.filterMap fun
    | .Add entry => some entry
    | _ => none

/-- The position leaves a screen full of lines. -/
structure Placed (s : Log) : Prop where
  length_le : s.entries.length ≤ MAX_ENTRIES
  capacity_pos : 0 < s.visible_capacity
  offset_le : s.offset_from_tail ≤ s.entries.length - s.visible_capacity

theorem max_offset_eq (total capacity : ℕ) : max_offset total capacity = total - capacity := by
  unfold max_offset
  split <;> omega

theorem placed_init : Placed init := ⟨Nat.zero_le _, Nat.one_pos, le_rfl⟩

/-- Nothing is evicted before the log is full. -/
theorem Add_of_lt (entry : Entry) {s : Log} (h : s.entries.length < MAX_ENTRIES) :
    Add entry s = { s with
      entries := s.entries ++ [entry]
      offset_from_tail :=
        if s.offset_from_tail ≠ 0 ∧ s.entries ≠ [] then s.offset_from_tail + 1
        else s.offset_from_tail } := by
  unfold Add
  apply if_neg
  rw [List.length_append, List.length_singleton]
  omega

/-- In a full log the position stays where it is. -/
theorem Add_of_eq (entry : Entry) {s : Log} (h : s.entries.length = MAX_ENTRIES) :
    Add entry s = { s with entries := s.entries.tail ++ [entry] } := by
  have hne : s.entries ≠ [] := by
    intro hnil
    rw [hnil] at h
    exact absurd h (by decide)
  have hfull : (s.entries ++ [entry]).length > MAX_ENTRIES := by
    rw [List.length_append, List.length_singleton]
    omega
  unfold Add
  dsimp only
  rw [if_pos hfull, List.tail_append_of_ne_nil hne]
  by_cases hzero : s.offset_from_tail = 0
  · have hoffset : ¬(s.offset_from_tail ≠ 0 ∧ s.entries ≠ []) := fun h => h.1 hzero
    rw [if_neg hoffset, if_neg (not_not_intro hzero)]
  · have hoffset : s.offset_from_tail ≠ 0 ∧ s.entries ≠ [] := ⟨hzero, hne⟩
    rw [if_pos hoffset, if_pos (Nat.succ_ne_zero _), Nat.add_sub_cancel]

theorem Add_entries (entry : Entry) {s : Log} (h : s.entries.length ≤ MAX_ENTRIES) :
    (Add entry s).entries = (s.entries ++ [entry]).rtake MAX_ENTRIES := by
  unfold List.rtake
  rw [List.length_append, List.length_singleton]
  rcases Nat.lt_or_eq_of_le h with hlt | heq
  · rw [Add_of_lt entry hlt, show s.entries.length + 1 - MAX_ENTRIES = 0 by omega, List.drop_zero]
  · rw [Add_of_eq entry heq, heq, Nat.add_sub_cancel_left, List.drop_one,
      List.tail_append_of_ne_nil]
    intro hnil
    rw [hnil] at heq
    exact absurd heq (by decide)

theorem placed_Add (entry : Entry) {s : Log} (h : Placed s) : Placed (Add entry s) := by
  have hoffset := h.offset_le
  have hcapacity := h.capacity_pos
  rcases Nat.lt_or_eq_of_le h.length_le with hlt | heq
  · rw [Add_of_lt entry hlt]
    constructor
    · show (s.entries ++ [entry]).length ≤ _
      rw [List.length_append, List.length_singleton]
      omega
    · exact hcapacity
    · show (if s.offset_from_tail ≠ 0 ∧ s.entries ≠ [] then s.offset_from_tail + 1
        else s.offset_from_tail) ≤ (s.entries ++ [entry]).length - s.visible_capacity
      rw [List.length_append, List.length_singleton]
      split
      · rename_i hscrolled
        have hpos := hscrolled.1
        omega
      · omega
  · rw [Add_of_eq entry heq]
    have hlength : (s.entries.tail ++ [entry]).length = s.entries.length := by
      rw [List.length_append, List.length_tail, List.length_singleton, heq]
      rfl
    constructor
    · show (s.entries.tail ++ [entry]).length ≤ _
      omega
    · exact hcapacity
    · show s.offset_from_tail ≤ (s.entries.tail ++ [entry]).length - s.visible_capacity
      omega

/-- Every call keeps the position in place. -/
theorem placed_step (op : Op) {s : Log} (h : Placed s) : Placed (step s op) := by
  have hoffset := h.offset_le
  cases op with
  | Add entry => exact placed_Add entry h
  | ScrollOlder lines =>
    refine ⟨h.length_le, h.capacity_pos, ?_⟩
    show min _ (max_offset s.entries.length s.visible_capacity) ≤ _
    rw [max_offset_eq]
    exact Nat.min_le_right ..
  | ScrollNewer lines =>
    refine ⟨h.length_le, h.capacity_pos, ?_⟩
    show (if lines ≥ s.offset_from_tail then 0 else s.offset_from_tail - lines)
      ≤ s.entries.length - s.visible_capacity
    split <;> omega
  | Draw rows =>
    refine ⟨h.length_le, ?_, ?_⟩
    · show 0 < max 1 rows
      omega
    · show min s.offset_from_tail (max_offset s.entries.length (max 1 rows))
        ≤ s.entries.length - max 1 rows
      rw [max_offset_eq]
      exact Nat.min_le_right ..

theorem run_append (ops more : List Op) : run (ops ++ more) = more.foldl step (run ops) := by
  unfold run
  exact List.foldl_append

theorem run_snoc (ops : List Op) (op : Op) : run (ops ++ [op]) = step (run ops) op :=
  run_append ops [op]

theorem placed_run (ops : List Op) : Placed (run ops) := by
  induction ops using List.reverseRecOn with
  | nil => exact placed_init
  | append_singleton ops op ih =>
    rw [run_snoc]
    exact placed_step op ih

theorem rtake_append_rtake {α : Type} (n : ℕ) (l r : List α) :
    (l.rtake n ++ r).rtake n = (l ++ r).rtake n := by
  unfold List.rtake
  rw [← List.drop_append_of_le_length (Nat.sub_le ..), List.drop_drop, List.length_drop,
    List.length_append]
  congr 1
  omega

/-- The log holds the last lines that were added. -/
theorem run_entries (ops : List Op) : (run ops).entries = (added ops).rtake MAX_ENTRIES := by
  induction ops using List.reverseRecOn with
  | nil => rfl
  | append_singleton ops op ih =>
    rw [run_snoc]
    unfold added
    rw [List.filterMap_append]
    cases op with
    | Add entry =>
      show (Add entry (run ops)).entries = (added ops ++ [entry]).rtake MAX_ENTRIES
      rw [Add_entries entry (placed_run ops).length_le, ih, rtake_append_rtake]
    | ScrollOlder lines =>
      show (run ops).entries = (added ops ++ []).rtake MAX_ENTRIES
      rw [ih, List.append_nil]
    | ScrollNewer lines =>
      show (run ops).entries = (added ops ++ []).rtake MAX_ENTRIES
      rw [ih, List.append_nil]
    | Draw rows =>
      show (run ops).entries = (added ops ++ []).rtake MAX_ENTRIES
      rw [ih, List.append_nil]

/-! ## The lines on the screen -/

/-- How many lines are no longer kept. -/
def evicted (ops : List Op) : ℕ := (added ops).length - (run ops).entries.length

/-- The lines on the screen, each with its number in the order of their addition. -/
def shown (rows : ℕ) (ops : List Op) : List (Entry × ℕ) :=
  let (_, visible, info) := Draw rows (run ops)
  visible.zipIdx (evicted ops + (info.first - 1))

/-- Lines are added. -/
def adds (entries : List Entry) : List Op := entries.map Op.Add

/-- None of the lines on the screen is evicted when `entries` are added. -/
def NoneEvicted (rows : ℕ) (ops : List Op) (entries : List Entry) : Prop :=
  ∀ l ∈ shown rows ops, evicted (ops ++ adds entries) ≤ l.2

/-- Where the lines on the screen end. -/
def stop (s : Log) : ℕ := s.entries.length - s.offset_from_tail

/-- Where they start. -/
def start (s : Log) : ℕ := stop s - s.visible_capacity

/-- The lines that a view as high as the last one shows. -/
def window (s : Log) : List Entry := (s.entries.drop (start s)).take (stop s - start s)

theorem Draw_placed {s : Log} (h : Placed s) {rows : ℕ} (hrows : max 1 rows = s.visible_capacity) :
    Draw rows s = (s, window s,
      { first := if window s = [] then 0 else start s + 1
        last := stop s
        total := s.entries.length
        following_tail := decide (s.offset_from_tail = 0) }) := by
  have hoffset : min s.offset_from_tail (max_offset s.entries.length s.visible_capacity)
      = s.offset_from_tail := by
    rw [max_offset_eq]
    exact Nat.min_eq_left h.offset_le
  have hstop : (if s.entries.length > s.offset_from_tail
      then s.entries.length - s.offset_from_tail else 0) = stop s := by
    unfold stop
    split <;> omega
  have hstart : (if stop s > s.visible_capacity then stop s - s.visible_capacity else 0)
      = start s := by
    unfold start
    split <;> omega
  unfold Draw
  simp only [hrows, hoffset, hstop, hstart]
  rfl

/-- Where the user is scrolled up, a screen full of lines is shown. -/
theorem window_length {s : Log} (h : Placed s) (hpos : 0 < s.offset_from_tail) :
    (window s).length = s.visible_capacity := by
  have hoffset := h.offset_le
  unfold window
  rw [List.length_take, List.length_drop]
  unfold start stop
  omega

theorem window_ne_nil {s : Log} (h : Placed s) (hpos : 0 < s.offset_from_tail) :
    window s ≠ [] := by
  intro hnil
  have hlength := window_length h hpos
  rw [hnil] at hlength
  exact absurd hlength (Nat.ne_of_lt h.capacity_pos)

theorem shown_eq {ops : List Op} {rows : ℕ} (hrows : max 1 rows = (run ops).visible_capacity)
    (hpos : 0 < (run ops).offset_from_tail) :
    shown rows ops = (window (run ops)).zipIdx (evicted ops + start (run ops)) := by
  have hplaced := placed_run ops
  unfold shown
  rw [Draw_placed hplaced hrows]
  dsimp only
  rw [if_neg (window_ne_nil hplaced hpos), Nat.add_sub_cancel]

/-- A scrolled position follows its lines, counted from the oldest line that is kept. -/
theorem Add_scrolled (entry : Entry) {s : Log} (h : Placed s) (hpos : 0 < s.offset_from_tail) :
    stop (Add entry s) = stop s ∧ 0 < (Add entry s).offset_from_tail ∧
      (Add entry s).visible_capacity = s.visible_capacity := by
  have hoffset := h.offset_le
  rcases Nat.lt_or_eq_of_le h.length_le with hlt | heq
  · have hne : s.entries ≠ [] := by
      intro hnil
      rw [hnil] at hoffset
      exact absurd hoffset (by rw [List.length_nil]; omega)
    rw [Add_of_lt entry hlt, if_pos ⟨by omega, hne⟩]
    refine ⟨?_, Nat.succ_pos _, rfl⟩
    unfold stop
    dsimp only
    rw [List.length_append, List.length_singleton]
    omega
  · rw [Add_of_eq entry heq]
    refine ⟨?_, hpos, rfl⟩
    unfold stop
    dsimp only
    rw [List.length_append, List.length_tail, List.length_singleton, heq]
    rfl

theorem adds_scrolled (entries : List Entry) {s : Log} (h : Placed s)
    (hpos : 0 < s.offset_from_tail) :
    stop ((adds entries).foldl step s) = stop s ∧
      0 < ((adds entries).foldl step s).offset_from_tail ∧
      ((adds entries).foldl step s).visible_capacity = s.visible_capacity := by
  induction entries generalizing s with
  | nil => exact ⟨rfl, hpos, rfl⟩
  | cons entry entries ih =>
    obtain ⟨hstop, hpos', hcapacity⟩ := Add_scrolled entry h hpos
    obtain ⟨hstop', hpos'', hcapacity'⟩ := ih (placed_Add entry h) hpos'
    exact ⟨hstop'.trans hstop, hpos'', hcapacity'.trans hcapacity⟩

theorem added_adds (entries : List Entry) : added (adds entries) = entries := by
  unfold added adds
  rw [List.filterMap_map]
  exact List.filterMap_some

theorem added_append (ops more : List Op) : added (ops ++ more) = added ops ++ added more :=
  List.filterMap_append

theorem length_run (ops : List Op) :
    (run ops).entries.length = min MAX_ENTRIES (added ops).length := by
  rw [run_entries]
  unfold List.rtake
  rw [List.length_drop]
  omega

theorem evicted_adds (ops : List Op) (entries : List Entry) :
    evicted (ops ++ adds entries)
      = evicted ops + ((run ops).entries.length + entries.length - MAX_ENTRIES) := by
  unfold evicted
  rw [length_run, length_run, added_append, added_adds, List.length_append]
  omega

/-- With the position at the newest line, this line is on the screen. -/
theorem Draw_newest (rows : ℕ) {s : Log} (h : s.offset_from_tail = 0) :
    (Draw rows s).2.1.getLast? = s.entries.getLast? := by
  have hstop : (if s.entries.length > 0 then s.entries.length - 0 else 0) = s.entries.length := by
    split <;> omega
  have hstart : (if s.entries.length > max 1 rows then s.entries.length - max 1 rows else 0)
      = s.entries.length - max 1 rows := by
    split <;> omega
  unfold Draw
  simp only [h, Nat.zero_min, hstop, hstart]
  rw [List.take_of_length_le (by rw [List.length_drop]), List.getLast?_drop]
  split
  · have hnil : s.entries = [] := List.length_eq_zero_iff.mp (by omega)
    rw [hnil]
    rfl
  · rfl

/-- The same lines are on the screen exactly until the log overflows. -/
theorem shown_adds {ops : List Op} {rows : ℕ} (hrows : max 1 rows = (run ops).visible_capacity)
    (hpos : 0 < (run ops).offset_from_tail) (entries : List Entry) :
    shown rows (ops ++ adds entries) = shown rows ops ↔
      (run ops).entries.length + entries.length ≤ MAX_ENTRIES := by
  have hplaced := placed_run ops
  obtain ⟨hstop, hpos', hcapacity⟩ := adds_scrolled entries hplaced hpos
  rw [← run_append] at hstop hpos' hcapacity
  have hstart : start (run (ops ++ adds entries)) = start (run ops) := by
    unfold start
    rw [hstop, hcapacity]
  rw [shown_eq (hrows.trans hcapacity.symm) hpos', shown_eq hrows hpos, hstart, evicted_adds]
  constructor
  · intro h
    by_contra hover
    obtain ⟨l, ls, hcons⟩ := List.exists_cons_of_ne_nil (window_ne_nil (placed_run _) hpos')
    obtain ⟨m, ms, hcons'⟩ := List.exists_cons_of_ne_nil (window_ne_nil hplaced hpos)
    rw [hcons, hcons', List.zipIdx_cons, List.zipIdx_cons] at h
    have hnumber := congrArg Prod.snd (List.cons.inj h).1
    dsimp only at hnumber
    omega
  · intro hfits
    have hentries : (run (ops ++ adds entries)).entries = (run ops).entries ++ entries := by
      rw [run_entries, added_append, added_adds, ← rtake_append_rtake, ← run_entries]
      unfold List.rtake
      rw [List.length_append, Nat.sub_eq_zero_of_le hfits, List.drop_zero]
    have hwindow : window (run (ops ++ adds entries)) = window (run ops) := by
      have hstart_le : start (run ops) ≤ (run ops).entries.length := by
        unfold start stop
        omega
      unfold window
      rw [hentries, hstart, hstop, List.drop_append_of_le_length hstart_le,
        List.take_append_of_le_length]
      rw [List.length_drop]
      unfold stop
      omega
    rw [hwindow, Nat.sub_eq_zero_of_le hfits, Nat.add_zero]

/-- The log holds the last `MAX_ENTRIES` lines; the newest one is on the screen where the position is
there; and a reader who is scrolled up keeps his lines, none of them being evicted, exactly until the
log overflows. -/
theorem log_stays_iff (ops : List Op) :
    (run ops).entries = (added ops).rtake MAX_ENTRIES ∧
    (∀ rows, (run ops).offset_from_tail = 0 →
      (Draw rows (run ops)).2.1.getLast? = (added ops).getLast?) ∧
    ∀ rows entries, 0 < (run ops).offset_from_tail → max 1 rows = (run ops).visible_capacity →
      NoneEvicted rows ops entries →
        (shown rows (ops ++ adds entries) = shown rows ops ↔
          (run ops).entries.length + entries.length ≤ MAX_ENTRIES) := by
  refine ⟨run_entries ops, ?_, ?_⟩
  · intro rows hoffset
    rw [Draw_newest rows hoffset, run_entries]
    unfold List.rtake
    rw [List.getLast?_drop]
    split
    · rename_i hall
      have hnil : added ops = [] := by
        apply List.length_eq_zero_iff.mp
        unfold MAX_ENTRIES at hall
        omega
      rw [hnil]
      rfl
    · rfl
  · intro rows entries hpos hrows _
    exact shown_adds hrows hpos entries

/-! ## A full log -/

/-- At the newest line, added lines leave the position there. -/
theorem adds_following (entries : List Entry) {s : Log} (h : Placed s)
    (hoffset : s.offset_from_tail = 0) :
    ((adds entries).foldl step s).offset_from_tail = 0 ∧
      ((adds entries).foldl step s).visible_capacity = s.visible_capacity := by
  induction entries generalizing s with
  | nil => exact ⟨hoffset, rfl⟩
  | cons entry entries ih =>
    have hstep : (Add entry s).offset_from_tail = 0 ∧
        (Add entry s).visible_capacity = s.visible_capacity := by
      rcases Nat.lt_or_eq_of_le h.length_le with hlt | heq
      · rw [Add_of_lt entry hlt, if_neg (fun hscrolled => hscrolled.1 hoffset)]
        exact ⟨hoffset, rfl⟩
      · rw [Add_of_eq entry heq]
        exact ⟨hoffset, rfl⟩
    obtain ⟨hoffset', hcapacity⟩ := ih (placed_Add entry h) hstep.1
    exact ⟨hoffset', hcapacity.trans hstep.2⟩

/-- A line with the text `text`. -/
def line (text : String) : Entry := ⟨"[DATA]", text, .Muted⟩

/-- `MAX_ENTRIES` lines. -/
def lines : List Entry := List.replicate 499 (line "old") ++ [line "new"]

theorem length_lines : lines.length = MAX_ENTRIES := by
  unfold lines
  rw [List.length_append, List.length_replicate]
  rfl

theorem drop_lines : lines.drop 498 = [line "old", line "new"] := by
  unfold lines
  rw [List.drop_append_of_le_length (by rw [List.length_replicate]; decide), List.drop_replicate]
  rfl

/-- They fill a log that is seen through a view of one line; one step up. -/
def reading : List Op := [.Draw 1] ++ adds lines ++ [.ScrollOlder 1]

theorem added_reading : added reading = lines := by
  unfold reading
  rw [added_append, added_append, added_adds]
  show [] ++ lines ++ [] = lines
  rw [List.nil_append, List.append_nil]

theorem entries_reading : (run reading).entries = lines := by
  rw [run_entries, added_reading]
  unfold List.rtake
  rw [length_lines, Nat.sub_self, List.drop_zero]

theorem position_reading :
    (run reading).offset_from_tail = 1 ∧ (run reading).visible_capacity = 1 := by
  obtain ⟨hoffset, hcapacity⟩ := adds_following lines (placed_run [.Draw 1]) rfl
  have hentries := entries_reading
  have hlast : ∀ s, step s (.ScrollOlder 1) = ScrollOlder 1 s := fun _ => rfl
  unfold reading at hentries ⊢
  rw [run_snoc, hlast] at hentries ⊢
  rw [← run_append] at hoffset hcapacity
  rw [ScrollOlder_entries] at hentries
  rw [ScrollOlder_capacity]
  refine ⟨?_, hcapacity⟩
  unfold ScrollOlder
  dsimp only
  rw [hoffset, hcapacity, hentries, length_lines, max_offset_eq]
  decide

theorem moved_of_full {ops : List Op} (hadded : added ops = lines)
    (hentries : (run ops).entries = lines) (hoffset : (run ops).offset_from_tail = 1)
    (hcapacity : (run ops).visible_capacity = 1) :
    NoneEvicted 1 ops [line "newest"] ∧ shown 1 ops = [(line "old", 498)] ∧
      shown 1 (ops ++ adds [line "newest"]) = [(line "new", 499)] := by
  have hplaced := placed_run ops
  have hpos : 0 < (run ops).offset_from_tail := by omega
  have hstop : stop (run ops) = 499 := by
    unfold stop
    rw [hentries, length_lines, hoffset]
    decide
  have hstart : start (run ops) = 498 := by
    unfold start
    rw [hstop, hcapacity]
  have hevicted : evicted ops = 0 := by
    unfold evicted
    rw [hentries, hadded, Nat.sub_self]
  have hbefore : shown 1 ops = [(line "old", 498)] := by
    rw [shown_eq hcapacity.symm hpos]
    unfold window
    rw [hevicted, hstart, hstop, hentries, drop_lines]
    rfl
  obtain ⟨hstop', hpos', hcapacity'⟩ := adds_scrolled [line "newest"] hplaced hpos
  rw [← run_append] at hstop' hpos' hcapacity'
  have hevicted' : evicted (ops ++ adds [line "newest"]) = 1 := by
    rw [evicted_adds, hentries, hevicted, length_lines]
    decide
  have hafter : shown 1 (ops ++ adds [line "newest"]) = [(line "new", 499)] := by
    have hstart' : start (run (ops ++ adds [line "newest"])) = 498 := by
      unfold start
      rw [hstop', hcapacity', hstop, hcapacity]
    rw [shown_eq (hcapacity'.trans hcapacity).symm hpos', hevicted']
    unfold window
    rw [hstart', hstop', hstop, run_entries, added_append, added_adds, hadded]
    unfold List.rtake
    rw [List.length_append, length_lines, List.length_singleton, Nat.add_sub_cancel_left,
      List.drop_drop, Nat.add_comm 1 498, ← List.drop_drop,
      List.drop_append_of_le_length (by rw [length_lines]; decide), drop_lines]
    rfl
  refine ⟨?_, hbefore, hafter⟩
  intro l hl
  rw [hbefore, List.mem_singleton] at hl
  rw [hl, hevicted']
  decide

/-- In a full log a new line moves the reader by one, although none of his lines is evicted. -/
theorem reader_is_moved :
    0 < (run reading).offset_from_tail ∧ max 1 1 = (run reading).visible_capacity ∧
      NoneEvicted 1 reading [line "newest"] ∧
      shown 1 reading = [(line "old", 498)] ∧
      shown 1 (reading ++ adds [line "newest"]) = [(line "new", 499)] := by
  obtain ⟨hoffset, hcapacity⟩ := position_reading
  exact ⟨by omega, hcapacity.symm, moved_of_full added_reading entries_reading hoffset hcapacity⟩

end ActivityLog
