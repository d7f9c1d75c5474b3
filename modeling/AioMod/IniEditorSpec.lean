/-
# What the text editor keeps

The lines of a loaded file, written again, are the file exactly if the file has line endings of one
kind only and no carriage return at its end.  The cursor stays on the screen exactly as long as no
line is deleted that is the last of the file and the first on the screen.
-/
import AioMod.IniEditor

namespace IniEditor

open TextLines

namespace IniEditorView

/-! ## Loading -/

/-- What a file that is loaded is like, and what the editor makes of it. -/
structure Loaded (contents : Bytes) (e : IniEditorView) : Prop where
  lines : e.lines = if (getlines LF contents).map popCR = [] then [[]]
    else (getlines LF contents).map popCR
  crlf : e.crlf = decide ([CR, LF] <:+: contents)
  trailingNewline : e.trailingNewline = endsWith LF contents
  length : e.lines.length ≤ maxLines
  cursor : e.cursor = 0
  first : e.first = 0

theorem loaded_of_load {file : FsPath} {contents : Bytes} {e : IniEditorView}
    (h : load file contents = .ok e) : Loaded contents e := by
  unfold load at h
  dsimp only at h
  generalize hlines : (if (getlines LF contents).map popCR = [] then [[]]
    else (getlines LF contents).map popCR) = lines at h
  split_ifs at h with h₁ h₂ h₃ h₄
  cases h
  exact ⟨hlines.symm, rfl, rfl, not_lt.mp h₄, rfl, rfl⟩

theorem Loaded.length_pos {contents : Bytes} {e : IniEditorView} (h : Loaded contents e) :
    0 < e.lines.length := by
  rw [h.lines]
  split
  · simp
  · rename_i hne
    exact List.length_pos_iff.mpr hne

/-! ## Lines and carriage returns -/

theorem popCR_eq_self {l : Bytes} : popCR l = l ↔ l.getLast? ≠ some CR := by
  unfold popCR
  split
  · rename_i h
    simp only [h, ne_eq, not_true_eq_false, iff_false]
    intro heq
    have hlen := congrArg List.length heq
    rw [List.length_dropLast] at hlen
    have hnil : l = [] := List.length_eq_zero_iff.mp (by omega)
    rw [hnil] at h
    cases h
  · rename_i h
    simp [h]

theorem popCR_append_eq {l : Bytes} : popCR l ++ [CR] = l ↔ l.getLast? = some CR := by
  unfold popCR
  split
  · rename_i h
    simp only [h, iff_true]
    exact List.dropLast_append_getLast? CR h
  · rename_i h
    simp only [h, iff_false]
    intro heq
    have hlen := congrArg List.length heq
    simp at hlen

theorem notMem_popCR {l : Bytes} (h : LF ∉ l) : LF ∉ popCR l := by
  unfold popCR
  split
  · intro hmem
    exact h (List.dropLast_subset l hmem)
  · exact h

/-- Whether a text ends with a carriage return shows in its last line. -/
theorem getLast_append_terminator (l p : Bytes) :
    (l ++ LF :: p).getLast? = some CR ↔ p.getLast? = some CR := by
  cases p with
  | nil => simp [LF, CR]
  | cons c p =>
    rw [List.getLast?_append, List.getLast?_cons_of_ne_nil (List.cons_ne_nil c p),
      List.getLast?_eq_getLast_of_ne_nil (List.cons_ne_nil c p)]
    rfl

/-- The line endings are of one kind, and no carriage return ends the text. -/
def OneEnding (contents : Bytes) : Prop :=
  contents.getLast? ≠ some CR ∧
    ((∀ p q, contents = p ++ LF :: q → p.getLast? = some CR) ∨
      ∀ p q, contents = p ++ LF :: q → p.getLast? ≠ some CR)

/-- `\r\n` occurs where a line that is terminated ends with a carriage return. -/
theorem crlf_iff {contents : Bytes} :
    [CR, LF] <:+: contents ↔ ¬∀ p q, contents = p ++ LF :: q → p.getLast? ≠ some CR := by
  constructor
  · rintro ⟨s, t, rfl⟩ h
    exact h (s ++ [CR]) t (by simp) (by simp)
  · intro h
    push Not at h
    obtain ⟨p, q, rfl, hp⟩ := h
    have hp' := List.dropLast_append_getLast? CR hp
    exact ⟨p.dropLast, q, by rw [← hp']; simp⟩

/-- The last line without a terminator ends as the text does. -/
theorem unterminated_iff {contents : Bytes} :
    (∀ l ∈ unterminated (endsWith LF contents) (getlines LF contents), l.getLast? ≠ some CR) ↔
      contents.getLast? ≠ some CR := by
  by_cases hnil : contents = []
  · subst hnil
    simp [unterminated, endsWith]
  · cases hends : endsWith LF contents with
    | true =>
      have hlast : contents.getLast? = some LF := by simpa [endsWith] using hends
      simp [unterminated, hlast, LF, CR]
    | false =>
      obtain ⟨ls, l, hls, -, hl⟩ := getLast_getlines hends hnil
      simp [unterminated, hls, hl]

theorem getlines_notMem (contents : Bytes) : ∀ l ∈ getlines LF contents, LF ∉ l :=
  fun _ h => notMem_of_mem_getlines h

/-- The lines, written again with one ending. -/
theorem join_popCR_iff {contents : Bytes} {crlf : Bool} :
    join (if crlf then [CR, LF] else [LF]) (endsWith LF contents)
        ((getlines LF contents).map popCR) = contents ↔
      (∀ p q, contents = p ++ LF :: q → (p.getLast? = some CR ↔ crlf = true)) ∧
        contents.getLast? ≠ some CR := by
  have hno := getlines_notMem contents
  have hno' : ∀ l ∈ getlines LF contents, LF ∉ popCR l := fun l h => notMem_popCR (hno l h)
  have hread : join [LF] (endsWith LF contents) (getlines LF contents) = contents :=
    join_getlines contents
  have hsplit : (∀ p q, join [LF] (endsWith LF contents) (getlines LF contents) = p ++ LF :: q →
      (p.getLast? = some CR ↔ crlf = true)) ↔
        ∀ l ∈ terminated (endsWith LF contents) (getlines LF contents),
          (l.getLast? = some CR ↔ crlf = true) :=
    forall_split_iff (fun l p => by rw [getLast_append_terminator]) hno
  rw [hread] at hsplit
  rw [hsplit, ← unterminated_iff]
  cases crlf with
  | true =>
    have hcr : LF ∉ [CR] := by simp [LF, CR]
    have h := join_map_iff (endsWith LF contents) hcr hno hno'
    rw [hread] at h
    simp only [popCR_append_eq, popCR_eq_self] at h
    simpa using h
  | false =>
    have h := join_map_iff (endsWith LF contents) List.not_mem_nil hno hno'
    rw [hread] at h
    simp only [List.append_nil, popCR_eq_self] at h
    simpa using h

theorem serialized_eq_iff {contents : Bytes} {e : IniEditorView} (h : Loaded contents e) :
    e.serialized = contents ↔ OneEnding contents := by
  have hlines : e.serialized = join (if e.crlf then [CR, LF] else [LF]) (endsWith LF contents)
      ((getlines LF contents).map popCR) := by
    unfold serialized
    rw [h.lines, h.trailingNewline]
    by_cases hnil : contents = []
    · subst hnil
      rfl
    · have hne : (getlines LF contents).map popCR ≠ [] := by
        simpa using mt getlines_eq_nil.mp hnil
      rw [if_neg hne]
  rw [hlines, join_popCR_iff, OneEnding, and_comm]
  refine and_congr_right fun _ => ?_
  have hcrlf : e.crlf = true ↔ ¬∀ p q, contents = p ++ LF :: q → p.getLast? ≠ some CR := by
    rw [h.crlf, decide_eq_true_eq, crlf_iff]
  constructor
  · intro hall
    cases he : e.crlf with
    | true =>
      rw [he] at hall
      exact .inl fun p q hpq => (hall p q hpq).mpr rfl
    | false =>
      rw [he] at hall
      exact .inr fun p q hpq hp => Bool.noConfusion ((hall p q hpq).mp hp)
  · rintro (hall | hnone) p q hpq
    · simp only [hall p q hpq, true_iff]
      rw [hcrlf]
      intro hno
      exact hno p q hpq (hall p q hpq)
    · simp only [hnone p q hpq, false_iff]
      rw [hcrlf]
      exact fun hno => hno hnone

/-! ## Replacing a line -/

/-- The text in front of a line of the file. -/
def LineStart (index : ℕ) (before : Bytes) : Prop :=
  before.count LF = index ∧ (before = [] ∨ before.getLast? = some LF)

/-- The file is written as it was read, and with one line replaced but for that line. -/
structure Preserves (contents : Bytes) (e : IniEditorView) : Prop where
  serialized : e.serialized = contents
  replaced : ∀ index line, e.lines[index]? = some line → ∀ updated : Bytes,
    ∃ before after, contents = before ++ line ++ after ∧ LineStart index before ∧
      (after = [] ∨ [LF] <+: after ∨ [CR, LF] <+: after) ∧
      { e with lines := e.lines.set index updated }.serialized = before ++ updated ++ after

theorem lineStart_of_lines {eol : Bytes} (heol : eol = [LF] ∨ eol = [CR, LF]) {ls : List Bytes}
    (hls : ∀ l ∈ ls, LF ∉ l) : LineStart ls.length (ls.flatMap fun l => l ++ eol) := by
  have hcount : eol.count LF = 1 := by
    rcases heol with rfl | rfl
    · decide
    · decide
  have hlast : eol.getLast? = some LF := by
    rcases heol with rfl | rfl
    · rfl
    · rfl
  constructor
  · induction ls with
    | nil => rfl
    | cons l ls ih =>
      have hl : l.count LF = 0 := List.count_eq_zero.mpr (hls l List.mem_cons_self)
      have ih := ih fun l h => hls l (List.mem_cons_of_mem _ h)
      rw [List.flatMap_cons, List.count_append, List.count_append, hl, hcount, ih,
        List.length_cons]
      omega
  · rcases List.eq_nil_or_concat' ls with rfl | ⟨ls, l, rfl⟩
    · exact .inl rfl
    · refine .inr ?_
      rw [List.flatMap_append, List.flatMap_singleton, List.getLast?_append, List.getLast?_append,
        hlast]
      rfl

/-- Where one line stands in the written text. -/
theorem exists_serialized_middle (e : IniEditorView) {index : ℕ} {line : Bytes}
    (h : e.lines[index]? = some line) :
    ∃ after, (after = [] ∨ [LF] <+: after ∨ [CR, LF] <+: after) ∧ ∀ updated : Bytes,
      { e with lines := e.lines.set index updated }.serialized
        = ((e.lines.take index).flatMap fun l => l ++ if e.crlf then [CR, LF] else [LF])
          ++ updated ++ after := by
  obtain ⟨hlt, rfl⟩ := List.getElem?_eq_some_iff.mp h
  refine ⟨if e.lines.drop (index + 1) = [] then
      (if e.trailingNewline then (if e.crlf then [CR, LF] else [LF]) else [])
    else (if e.crlf then [CR, LF] else [LF]) ++
      join (if e.crlf then [CR, LF] else [LF]) e.trailingNewline (e.lines.drop (index + 1)), ?_, ?_⟩
  · split
    · split
      · cases e.crlf <;> simp
      · exact .inl rfl
    · cases e.crlf <;> simp
  · intro updated
    unfold serialized
    dsimp only
    rw [List.set_eq_take_append_cons_drop, if_pos hlt, join_middle]

/-- The editor keeps what it does not edit exactly when the line endings are of one kind and no
carriage return ends the file. -/
theorem preserves_iff (file : FsPath) (contents : Bytes) (e : IniEditorView)
    (h : load file contents = .ok e) : Preserves contents e ↔ OneEnding contents := by
  have hl := loaded_of_load h
  rw [← serialized_eq_iff hl]
  constructor
  · intro hp
    exact hp.serialized
  · intro hs
    refine ⟨hs, ?_⟩
    intro index line hline updated
    obtain ⟨after, hafter, hset⟩ := exists_serialized_middle e hline
    obtain ⟨hlt, hget⟩ := List.getElem?_eq_some_iff.mp hline
    refine ⟨_, after, ?_, ?_, hafter, hset updated⟩
    · rw [← hset line, ← hget, List.set_getElem_self]
      exact hs.symm
    · have hlen : (e.lines.take index).length = index := by
        rw [List.length_take]
        omega
      have hno : ∀ l ∈ e.lines.take index, LF ∉ l := by
        intro l hmem
        have hmem := List.mem_of_mem_take hmem
        rw [hl.lines] at hmem
        split at hmem
        · rw [List.mem_singleton.mp hmem]
          simp
        · obtain ⟨l', hl', rfl⟩ := List.mem_map.mp hmem
          exact notMem_popCR (getlines_notMem contents l' hl')
      have heol : (if e.crlf then [CR, LF] else [LF]) = [LF] ∨
          (if e.crlf then [CR, LF] else [LF]) = [CR, LF] := by
        cases e.crlf <;> simp
      have hstart := lineStart_of_lines heol hno
      rw [hlen] at hstart
      exact hstart

/-- Line endings of both kinds. -/
def mixedFile : Bytes := [97, 13, 10, 98, 10]

/-- A file with both kinds of line endings is not written as it was read. -/
theorem mixed_endings_change : ∃ e, load ["a.txt"] mixedFile = .ok e ∧ ¬Preserves mixedFile e := by
  refine ⟨{ file := ["a.txt"], lines := [[97], [98]], crlf := true, trailingNewline := true
            jsonFile := false, status := "/a.txt" }, by decide, ?_⟩
  intro hp
  exact absurd hp.serialized (by decide)

theorem preserves_iff_lf : ∃ e, load ["a.txt"] [97, 10, 98] = .ok e ∧ Preserves [97, 10, 98] e := by
  refine ⟨{ file := ["a.txt"], lines := [[97], [98]], crlf := false, trailingNewline := false
            jsonFile := false, status := "/a.txt" }, by decide, ?_⟩
  refine (preserves_iff ["a.txt"] [97, 10, 98] _ (by decide)).mpr ⟨by decide, .inr ?_⟩
  intro p q hpq hp
  have hmem : CR ∈ [97, 10, 98] := by
    rw [hpq]
    exact List.mem_append_left _ (List.mem_of_getLast? hp)
  exact absurd hmem (by decide)

/-! ## The cursor -/

/-- What the user does. -/
inductive Action where
  | move (amount : ℤ)
  | edit (updated : Option Bytes)
  | insertLine (added : Option Bytes)
  | deleteLine (confirmed : Bool)

def step (e : IniEditorView) : Action → IniEditorView
  | .move amount => e.move amount
  | .edit updated => e.edit updated
  | .insertLine added => e.insertLine added
  | .deleteLine confirmed => e.deleteLine confirmed

/-- The editor after some actions. -/
def run (e : IniEditorView) (actions : List Action) : IniEditorView := actions.foldl step e

/-- The cursor is on a line that is shown. -/
structure Valid (e : IniEditorView) : Prop where
  length_pos : 1 ≤ e.lines.length
  length_le : e.lines.length ≤ maxLines
  cursor_lt : e.cursor < e.lines.length
  first_le : e.first ≤ e.cursor
  cursor_lt_first : e.cursor < e.first + rows

/-- The action does not delete the last line while it is the only one that is shown. -/
def Meets (e : IniEditorView) (a : Action) : Prop :=
  match a with
  | .deleteLine true => ¬(e.cursor + 1 = e.lines.length ∧ e.cursor = e.first ∧ 1 < e.lines.length)
  | _ => True

/-- A valid cursor is drawn. -/
theorem Valid.drawn {e : IniEditorView} (h : Valid e) : e.cursor ∈ e.drawn := by
  unfold IniEditorView.drawn
  rw [List.mem_filter, List.mem_range'_1]
  exact ⟨⟨h.first_le, h.cursor_lt_first⟩, decide_eq_true h.cursor_lt⟩

theorem clamp_bounds (value : ℤ) {high : ℤ} (h : 0 ≤ high) :
    0 ≤ clamp value 0 high ∧ clamp value 0 high ≤ high := by
  unfold clamp
  split_ifs
  · omega
  · omega
  · omega

theorem Valid.move {e : IniEditorView} (h : Valid e) (amount : ℤ) : Valid (e.move amount) := by
  have hpos := h.length_pos
  have hhigh : (0 : ℤ) ≤ e.lines.length - 1 := by omega
  obtain ⟨h₁, h₂⟩ := clamp_bounds (e.cursor + amount) hhigh
  unfold IniEditorView.move
  dsimp only
  generalize (clamp (e.cursor + amount) 0 (e.lines.length - 1)) = c at h₁ h₂
  refine ⟨h.length_pos, h.length_le, ?_, ?_, ?_⟩
  · dsimp only
    omega
  · dsimp only [rows]
    split_ifs
    all_goals omega
  · dsimp only [rows]
    split_ifs
    all_goals omega

theorem Valid.edit {e : IniEditorView} (h : Valid e) (updated : Option Bytes) :
    Valid (e.edit updated) := by
  unfold IniEditorView.edit
  split
  · split_ifs
    · exact h
    · exact h
    · refine ⟨?_, ?_, ?_, h.first_le, h.cursor_lt_first⟩
      · rw [List.length_set]
        exact h.length_pos
      · rw [List.length_set]
        exact h.length_le
      · rw [List.length_set]
        exact h.cursor_lt
    · exact h
  · exact h

theorem Valid.insertLine {e : IniEditorView} (h : Valid e) (added : Option Bytes) :
    Valid (e.insertLine added) := by
  unfold IniEditorView.insertLine
  split
  · exact h
  · rename_i hfull
    cases added with
    | none => exact h
    | some added =>
      dsimp only
      split
      · exact h
      · have hlen : (e.lines.insertIdx (e.cursor + 1) added).length = e.lines.length + 1 :=
          List.length_insertIdx_of_le_length (Nat.succ_le_of_lt h.cursor_lt) added
        have hc := h.cursor_lt
        have hf := h.first_le
        have hr := h.cursor_lt_first
        unfold rows at hr
        refine ⟨?_, ?_, ?_, ?_, ?_⟩
        · rw [hlen]
          omega
        · rw [hlen]
          omega
        · rw [hlen]
          show e.cursor + 1 < e.lines.length + 1
          omega
        · show (if e.first + 14 ≤ e.cursor + 1 then e.cursor + 1 - 13 else e.first) ≤ e.cursor + 1
          split
          · omega
          · omega
        · show e.cursor + 1 <
            (if e.first + 14 ≤ e.cursor + 1 then e.cursor + 1 - 13 else e.first) + 14
          split
          · omega
          · omega

/-- A deletion keeps the cursor on the screen unless it deletes the last line and that is the first
one shown. -/
theorem Valid.deleteLine_iff {e : IniEditorView} (h : Valid e) :
    Valid (e.deleteLine true) ↔ Meets e (.deleteLine true) := by
  have hpos := h.length_pos
  have hle := h.length_le
  have hc := h.cursor_lt
  have hf := h.first_le
  have hr := h.cursor_lt_first
  unfold rows at hr
  have hlen : (if e.lines.length = 1 then e.lines.set 0 [] else e.lines.eraseIdx e.cursor).length
      = if e.lines.length = 1 then 1 else e.lines.length - 1 := by
    split
    · rename_i hone
      rw [List.length_set, hone]
    · rw [List.length_eraseIdx, if_pos hc]
  unfold IniEditorView.deleteLine Meets
  rw [if_pos rfl]
  dsimp only
  generalize (if e.lines.length = 1 then e.lines.set 0 [] else e.lines.eraseIdx e.cursor) = lines
    at hlen
  constructor
  · rintro ⟨-, -, -, hfirst, -⟩ ⟨hlast, htop, hmore⟩
    dsimp only at hfirst
    rw [if_neg (show ¬e.lines.length = 1 by omega)] at hlen
    rw [if_pos (by omega)] at hfirst
    omega
  · intro hmeets
    refine ⟨?_, ?_, ?_, ?_, ?_⟩
    · dsimp only
      split_ifs at hlen
      all_goals omega
    · dsimp only
      split_ifs at hlen
      all_goals omega
    · dsimp only
      split_ifs at hlen ⊢
      all_goals omega
    · dsimp only
      split_ifs at hlen ⊢
      all_goals omega
    · dsimp only [rows]
      split_ifs at hlen ⊢
      all_goals omega

theorem Valid.step_iff {e : IniEditorView} (h : Valid e) (a : Action) :
    Valid (step e a) ↔ Meets e a := by
  cases a with
  | move amount => exact iff_of_true (h.move amount) trivial
  | edit updated => exact iff_of_true (h.edit updated) trivial
  | insertLine added => exact iff_of_true (h.insertLine added) trivial
  | deleteLine confirmed =>
    cases confirmed with
    | true => exact h.deleteLine_iff
    | false => exact iff_of_true h trivial

theorem Loaded.valid {contents : Bytes} {e : IniEditorView} (h : Loaded contents e) : Valid e where
  length_pos := h.length_pos
  length_le := h.length
  cursor_lt := by
    rw [h.cursor]
    exact h.length_pos
  first_le := by
    rw [h.first]
    exact Nat.zero_le _
  cursor_lt_first := by
    rw [h.cursor, h.first]
    decide

/-- The cursor is valid after every action exactly as long as the actions meet the condition. -/
theorem valid_run_iff {e : IniEditorView} (h : Valid e) (actions : List Action) :
    (∀ n ≤ actions.length, Valid (run e (actions.take n))) ↔
      ∀ n a, actions[n]? = some a → Meets (run e (actions.take n)) a := by
  have hnext : ∀ n a, actions[n]? = some a →
      run e (actions.take (n + 1)) = step (run e (actions.take n)) a := by
    intro n a ha
    unfold run
    rw [List.take_add_one, ha]
    exact List.foldl_concat step e a _
  constructor
  · intro hv n a ha
    have hn : n < actions.length := (List.getElem?_eq_some_iff.mp ha).1
    rw [← (hv n hn.le).step_iff a, ← hnext n a ha]
    exact hv (n + 1) hn
  · intro hm n
    induction n with
    | zero => exact fun _ => h
    | succ n ih =>
      intro hn
      have ha : actions[n]? = some actions[n] := List.getElem?_eq_getElem hn
      rw [hnext n _ ha, (ih (Nat.le_of_succ_le hn)).step_iff]
      exact hm n _ ha

/-- From a loaded file on, the cursor is on a line that is drawn, and there are between 1 and 2000
lines, exactly as long as no line is deleted that is the last one and the first one shown. -/
theorem cursor_visible_iff (file : FsPath) (contents : Bytes) (e : IniEditorView)
    (h : load file contents = .ok e) (actions : List Action) :
    (∀ n ≤ actions.length, Valid (run e (actions.take n)) ∧
        (run e (actions.take n)).cursor ∈ (run e (actions.take n)).drawn) ↔
      ∀ n a, actions[n]? = some a → Meets (run e (actions.take n)) a := by
  rw [← valid_run_iff (loaded_of_load h).valid actions]
  constructor
  · intro hv n hn
    exact (hv n hn).1
  · intro hv n hn
    exact ⟨hv n hn, (hv n hn).drawn⟩

/-- The editor with a file of fifteen empty lines. -/
def fifteenLines : IniEditorView where
  file := ["a.txt"]
  lines := List.replicate 15 []
  crlf := false
  trailingNewline := true
  jsonFile := false
  status := "/a.txt"

/-- To the last line, and then that line is deleted again and again. -/
def deleteFromTheEnd : List Action :=
  List.replicate 14 (.move 1) ++ List.replicate 14 (.deleteLine true)

set_option maxRecDepth 4000 in
/-- The line under the cursor is not on the screen. -/
theorem deleted_from_the_end : load ["a.txt"] (List.replicate 15 10) = .ok fifteenLines ∧
    (run fifteenLines deleteFromTheEnd).cursor < (run fifteenLines deleteFromTheEnd).first ∧
    ¬∀ n ≤ deleteFromTheEnd.length, Valid (run fifteenLines (deleteFromTheEnd.take n)) ∧
      (run fifteenLines (deleteFromTheEnd.take n)).cursor ∈
        (run fifteenLines (deleteFromTheEnd.take n)).drawn := by
  have hhidden : (run fifteenLines deleteFromTheEnd).cursor <
      (run fifteenLines deleteFromTheEnd).first := by decide
  refine ⟨by decide, hhidden, ?_⟩
  intro h
  have hv := (h deleteFromTheEnd.length le_rfl).1.first_le
  rw [List.take_length] at hv
  omega

theorem cursor_visible_iff_move : Valid (run fifteenLines [.move 1, .deleteLine true]) ∧
    (run fifteenLines [.move 1, .deleteLine true]).cursor ∈
      (run fifteenLines [.move 1, .deleteLine true]).drawn := by
  refine (cursor_visible_iff ["a.txt"] (List.replicate 15 10) fifteenLines (by decide)
    [.move 1, .deleteLine true]).mpr ?_ 2 (by decide)
  intro n a ha
  rcases n with _ | _ | n
  · obtain rfl : Action.move 1 = a := by simpa using ha
    trivial
  · obtain rfl : Action.deleteLine true = a := by simpa using ha
    show ¬((run fifteenLines [.move 1]).cursor + 1 = (run fifteenLines [.move 1]).lines.length ∧
      (run fifteenLines [.move 1]).cursor = (run fifteenLines [.move 1]).first ∧
      1 < (run fifteenLines [.move 1]).lines.length)
    decide
  · cases ha

end IniEditorView

end IniEditor
