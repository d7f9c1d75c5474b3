/-
# What extracting leaves alone

The list of what is preserved reads the same with either line ending exactly if no blank line has
one.
-/
import AioMod.Extract

namespace Extract

open Explorer Throws TextLines IniEditor

/-! ## The endings of the lines of the list -/

/-- A line of text, without what could end it. -/
structure Line where
  text : Bytes
  noLF : LF ∉ text
  noCR : text.getLast? ≠ some CR

/-- The lines in a file, with a line end after the last one only if `trailing`. -/
def written (eol : Bytes) (trailing : Bool) (lines : List Line) : Bytes :=
  join eol trailing (lines.map Line.text)

theorem popCR_text (l : Line) : popCR l.text = l.text := if_neg l.noCR

theorem popCR_append_CR (l : Bytes) : popCR (l ++ [CR]) = l := by
  simp [popCR]

theorem noLF_of_mem {lines : List Line} : ∀ l ∈ lines.map Line.text, LF ∉ l := by
  intro l hl
  obtain ⟨l, -, rfl⟩ := List.mem_map.mp hl
  exact l.noLF

theorem popCR_of_mem {lines : List Line} {l : Bytes} (hl : l ∈ lines.map Line.text) :
    popCR l = l := by
  obtain ⟨l, -, rfl⟩ := List.mem_map.mp hl
  exact popCR_text l

theorem mem_readLineByLine {contents x : Bytes} :
    x ∈ readLineByLine (some contents) ↔ ∃ l ∈ getlines LF contents, l ≠ [] ∧ popCR l = x := by
  simp only [readLineByLine, Option.getD_some, List.mem_toFinset, List.mem_map, List.mem_filter,
    decide_eq_true_eq, List.length_pos_iff, and_assoc]

/-- What is read of a file whose lines end with `e` and a line feed. -/
theorem mem_written {e : Bytes} (he : LF ∉ e) {trailing : Bool} {lines : List Line} {x : Bytes} :
    x ∈ readLineByLine (some (written (e ++ [LF]) trailing lines)) ↔
      (∃ l ∈ terminated trailing (lines.map Line.text), l ++ e ≠ [] ∧ popCR (l ++ e) = x) ∨
        x ∈ unterminated trailing (lines.map Line.text) ∧ x ≠ [] := by
  rw [mem_readLineByLine, written, getlines_join_ending he noLF_of_mem]
  have hpop : ∀ l ∈ unterminated trailing (lines.map Line.text), popCR l = l :=
    fun l hl => popCR_of_mem ((mem_iff_terminated trailing).mpr (.inr hl))
  constructor
  · rintro ⟨l, hl, hne, rfl⟩
    rcases List.mem_append.mp hl with hl | hl
    · obtain ⟨l', hl', rfl⟩ := List.mem_map.mp hl
      exact .inl ⟨l', hl', hne, rfl⟩
    · have hl' := Option.mem_toList.mp (List.mem_filter.mp hl).1
      rw [hpop l hl']
      exact .inr ⟨hl', hne⟩
  · rintro (⟨l, hl, hne, rfl⟩ | ⟨hx, hne⟩)
    · exact ⟨l ++ e, List.mem_append_left _ (List.mem_map_of_mem hl), hne, rfl⟩
    · refine ⟨x, List.mem_append_right _ ?_, hne, hpop x hx⟩
      exact List.mem_filter.mpr ⟨Option.mem_toList.mpr hx, decide_eq_true hne⟩

theorem mem_written_lf {trailing : Bool} {lines : List Line} {x : Bytes} :
    x ∈ readLineByLine (some (written [LF] trailing lines)) ↔
      x ∈ lines.map Line.text ∧ x ≠ [] := by
  refine Iff.trans (mem_written List.not_mem_nil) ?_
  have hmem : x ∈ lines.map Line.text ↔ _ := mem_iff_terminated trailing
  rw [hmem]
  simp only [List.append_nil]
  have hpop : ∀ l ∈ terminated trailing (lines.map Line.text), popCR l = l :=
    fun l hl => popCR_of_mem ((mem_iff_terminated trailing).mpr (.inl hl))
  constructor
  · rintro (⟨l, hl, hne, rfl⟩ | ⟨hx, hne⟩)
    · rw [hpop l hl]
      exact ⟨.inl hl, hne⟩
    · exact ⟨.inr hx, hne⟩
  · rintro ⟨hx | hx, hne⟩
    · exact .inl ⟨x, hx, hne, hpop x hx⟩
    · exact .inr ⟨hx, hne⟩

/-- A carriage return makes a blank line count. -/
theorem mem_written_crlf {trailing : Bool} {lines : List Line} {x : Bytes} :
    x ∈ readLineByLine (some (written [CR, LF] trailing lines)) ↔
      x ∈ terminated trailing (lines.map Line.text) ∨ x ∈ lines.map Line.text ∧ x ≠ [] := by
  have hcr : LF ∉ [CR] := by decide
  refine Iff.trans (mem_written hcr) ?_
  have hmem : x ∈ lines.map Line.text ↔ _ := mem_iff_terminated trailing
  rw [hmem]
  constructor
  · rintro (⟨l, hl, -, rfl⟩ | ⟨hx, hne⟩)
    · rw [popCR_append_CR]
      exact .inl hl
    · exact .inr ⟨.inr hx, hne⟩
  · rintro (hx | ⟨hx | hx, hne⟩)
    · exact .inl ⟨x, hx, by simp, popCR_append_CR x⟩
    · exact .inl ⟨x, hx, by simp, popCR_append_CR x⟩
    · exact .inr ⟨hx, hne⟩

/-- With either ending the lines of the list mean the same: the same prefixes, of which none is
blank, and with them the same runs of `extract` on every card, whatever calls fail. -/
def EndingsAgree (trailing : Bool) (lines : List Line) : Prop :=
  readLineByLine (some (written [LF] trailing lines)) =
      readLineByLine (some (written [CR, LF] trailing lines)) ∧
    (∀ eol ∈ [[LF], [CR, LF]], [] ∉ readLineByLine (some (written eol trailing lines))) ∧
    ∀ (env : Env) (archive : List ZipEntry) (workingPath : Bytes) (preserveInis : Bool)
      (fold : Name → Name) (F : Prop) (v : Volume fold) (out : Option (Except String Bool))
      (v' : Volume fold),
      Run (card F) (extract env (some (written [LF] trailing lines)) archive workingPath
          preserveInis).run v out v' ↔
        Run (card F) (extract env (some (written [CR, LF] trailing lines)) archive workingPath
          preserveInis).run v out v'

/-- The ending of the lines does not matter exactly if no line with an ending is blank. -/
theorem endingsAgree_iff (trailing : Bool) (lines : List Line) :
    EndingsAgree trailing lines ↔ [] ∉ terminated trailing (lines.map Line.text) := by
  constructor
  · rintro ⟨-, hblank, -⟩ hmem
    exact hblank [CR, LF] (by simp) (mem_written_crlf.mpr (.inl hmem))
  · intro hno
    have hset : readLineByLine (some (written [LF] trailing lines)) =
        readLineByLine (some (written [CR, LF] trailing lines)) := by
      ext x
      rw [mem_written_lf, mem_written_crlf]
      constructor
      · exact .inr
      · rintro (hx | hx)
        · refine ⟨(mem_iff_terminated trailing).mpr (.inl hx), ?_⟩
          rintro rfl
          exact hno hx
        · exact hx
    have hlf : [] ∉ readLineByLine (some (written [LF] trailing lines)) :=
      fun hmem => (mem_written_lf.mp hmem).2 rfl
    refine ⟨hset, ?_, ?_⟩
    · intro eol heol
      rcases List.mem_pair.mp heol with rfl | rfl
      · exact hlf
      · rwa [← hset]
    · intro env archive workingPath preserveInis fold F v out v'
      unfold extract
      rw [hset]

/-- A line, and a blank line. -/
def lineAndBlank : List Line := [⟨[97], by decide, by decide⟩, ⟨[], by decide, by decide⟩]

/-- A card with one file. -/
def oneFile : Volume id := ((Volume.empty : Volume id).setFile ["f"] [0]).getD .empty

def onConsole : Env where
  cwd := []
  appPath := ascii "/switch/aio-switch-updater-mod/aio-switch-updater-mod.nro"
  running_cfw := .ams
  rebootPayload := false

/-- An archive with another file of the same name. -/
def otherFile : List ZipEntry :=
  [{ filename := [102], uncompressed_size := 1, chunks := [[1]]
     nonempty := nil_not_mem_singleton }]

/-- What is in the file after the extraction. -/
def extractedOver (preserve : Bytes) : Option Bytes :=
  (exec answer (extract onConsole (some preserve) otherFile [SLASH] false) oneFile).2.contents ["f"]

/-- A blank line that ends with a carriage return keeps every file. -/
theorem blank_line_preserves_all : ¬EndingsAgree true lineAndBlank ∧
    extractedOver (written [LF] true lineAndBlank) = some [1] ∧
    extractedOver (written [CR, LF] true lineAndBlank) = some [0] := by
  refine ⟨?_, by decide, by decide⟩
  rintro ⟨-, hblank, -⟩
  exact hblank [CR, LF] (by decide) (by decide)

end Extract
