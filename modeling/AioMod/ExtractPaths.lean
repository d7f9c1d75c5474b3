/-
# Where the entries of an archive lead

The normal form of a path is kept as a stack of components, from which `..` takes one.  The name of
an entry has no such component, so that below an absolute path it only adds its own components: an
entry leads into the folder the archive is extracted to.
-/
import AioMod.ExtractRun

namespace Extract

open Explorer Throws TextLines IniEditor

/-! ## The stack of components -/

/-- One component and the stack, below a root. -/
def push (stack : List Bytes) (c : Bytes) : List Bytes :=
  if c = [] ∨ c = ascii "." then stack else if c = ascii ".." then stack.tail else c :: stack

/-- The components of the normal form of an absolute path. -/
def normalComponents (path : Bytes) : List Bytes := ((components path).foldl push []).reverse

/-- A component that stays in a path. -/
def Real (c : Bytes) : Prop := c ≠ [] ∧ c ≠ ascii "." ∧ c ≠ ascii ".."

instance (c : Bytes) : Decidable (Real c) := inferInstanceAs (Decidable (_ ∧ _ ∧ _))

theorem push_real {stack : List Bytes} {c : Bytes} (h : Real c) : push stack c = c :: stack := by
  unfold push
  rw [if_neg (by rintro (heq | heq) <;> [exact h.1 heq; exact h.2.1 heq]), if_neg h.2.2]

/-- What is on the stack was pushed or there before, and is real. -/
theorem mem_foldl_push {c : Bytes} (cs : List Bytes) :
    ∀ {stack : List Bytes}, c ∈ cs.foldl push stack → c ∈ stack ∨ (c ∈ cs ∧ Real c) := by
  induction cs with
  | nil => exact fun h => Or.inl h
  | cons d cs ih =>
    intro stack h
    rw [List.foldl_cons] at h
    rcases ih h with hmem | ⟨hmem, hreal⟩
    · unfold push at hmem
      split at hmem
      · exact Or.inl hmem
      split at hmem
      · exact Or.inl (List.mem_of_mem_tail hmem)
      · rename_i hempty hup
        rcases List.mem_cons.mp hmem with rfl | hmem
        · refine Or.inr ⟨List.mem_cons_self, fun h => hempty (Or.inl h), fun h => hempty (Or.inr h),
            hup⟩
        · exact Or.inl hmem
    · exact Or.inr ⟨List.mem_cons_of_mem _ hmem, hreal⟩

/-- The first part of the fold of `normalStep` is the stack. -/
theorem foldl_normalStep (cs : List Bytes) :
    ∀ {stack : List Bytes} {ended : Bool}, ascii ".." ∉ stack →
      (cs.foldl (normalStep true) (stack, ended)).1 = cs.foldl push stack := by
  induction cs with
  | nil => exact fun _ => rfl
  | cons c cs ih =>
    intro stack ended hstack
    rw [List.foldl_cons, List.foldl_cons]
    have hstep : ∃ ended', normalStep true (stack, ended) c = (push stack c, ended') ∧
        ascii ".." ∉ push stack c := by
      unfold normalStep push
      by_cases hempty : c = [] ∨ c = ascii "."
      · rw [if_pos hempty, if_pos hempty]
        exact ⟨true, rfl, hstack⟩
      · rw [if_neg hempty, if_neg hempty]
        by_cases hup : c = ascii ".."
        · rw [if_pos hup, if_pos hup]
          cases stack with
          | nil => exact ⟨true, rfl, hstack⟩
          | cons d ds =>
            have hd : d ≠ ascii ".." := fun heq => hstack (by rw [heq]; exact List.mem_cons_self)
            exact ⟨true, if_neg hd, fun hmem => hstack (List.mem_cons_of_mem _ hmem)⟩
        · rw [if_neg hup, if_neg hup]
          refine ⟨false, rfl, fun hmem => ?_⟩
          rcases List.mem_cons.mp hmem with heq | hmem
          · exact hup heq.symm
          · exact hstack hmem
    obtain ⟨ended', heq, hnew⟩ := hstep
    rw [heq]
    exact ih hnew

/-- Without `..` the components that are real are put on the stack. -/
theorem foldl_push_eq (cs : List Bytes) :
    ∀ {stack : List Bytes}, ascii ".." ∉ cs →
      cs.foldl push stack = (cs.filter (Real ·)).reverse ++ stack := by
  induction cs with
  | nil => exact fun _ => rfl
  | cons c cs ih =>
    intro stack hup
    have hc : c ≠ ascii ".." := fun heq => hup (by rw [heq]; exact List.mem_cons_self)
    rw [List.foldl_cons, ih fun hmem => hup (List.mem_cons_of_mem _ hmem)]
    by_cases hreal : Real c
    · rw [push_real hreal, List.filter_cons, if_pos (decide_eq_true hreal), List.reverse_cons,
        List.append_assoc]
      rfl
    · have hpush : push stack c = stack := by
        unfold push
        apply if_pos
        by_contra hno
        exact hreal ⟨fun h => hno (Or.inl h), fun h => hno (Or.inr h), hc⟩
      rw [hpush, List.filter_cons, if_neg (by simpa using hreal)]

/-! ## Normal forms -/

theorem mem_components {path c : Bytes} (h : c ∈ components path) : SLASH ∉ c := by
  unfold components at h
  rcases List.mem_append.mp h with hmem | hmem
  · exact notMem_of_mem_getlines hmem
  · split at hmem
    · rw [List.mem_singleton.mp hmem]
      exact List.not_mem_nil
    · cases hmem

/-- The components of a normal form are real, and have no separator in them. -/
theorem mem_normalComponents {path c : Bytes} (h : c ∈ normalComponents path) :
    Real c ∧ SLASH ∉ c := by
  unfold normalComponents at h
  rw [List.mem_reverse] at h
  rcases mem_foldl_push _ h with hnil | ⟨hmem, hreal⟩
  · cases hnil
  · exact ⟨hreal, mem_components hmem⟩

/-- Whether the normal form of an absolute path ends in a separator, but for the root. -/
def endsOpen (path : Bytes) : Bool := ((components path).foldl (normalStep true) ([], false)).2

theorem lexically_normal_eq {path : Bytes} (h : path.head? = some SLASH) :
    lexically_normal path = SLASH :: join [SLASH] (endsOpen path) (normalComponents path) := by
  have hne : path ≠ [] := by
    rintro rfl
    cases h
  have hroot : ascii ".." ∉ ([] : List Bytes) := List.not_mem_nil
  have hstack : ((components path).foldl (normalStep true) ([], false)).1
      = (components path).foldl push [] := foldl_normalStep (components path) hroot
  have hup : ((components path).foldl push []).head? ≠ some (ascii "..") := by
    intro heq
    rcases mem_foldl_push _ (List.mem_of_head? heq) with hnil | ⟨-, hreal⟩
    · cases hnil
    · exact hreal.2.2 rfl
  have habsolute : decide (path.head? = some SLASH) = true := decide_eq_true h
  unfold lexically_normal
  dsimp only
  rw [if_neg hne, habsolute, hstack, decide_eq_true hup, Bool.and_true, if_pos rfl]
  exact if_neg (List.cons_ne_nil _ _)

/-- A path without components is that of the root. -/
theorem place_lexically_normal (cwd : FsPath) {path : Bytes} (h : path.head? = some SLASH) :
    place cwd (lexically_normal path) = "" :: (normalComponents path).map name := by
  have hlines : getlines SLASH (join [SLASH] (endsOpen path) (normalComponents path))
      = normalComponents path := by
    apply getlines_join
    · exact fun c hc => (mem_normalComponents hc).2
    · intro _ hlast
      exact (mem_normalComponents (List.mem_of_getLast? hlast)).1.1 rfl
  rw [lexically_normal_eq h]
  unfold place
  have hhead : (SLASH :: join [SLASH] (endsOpen path) (normalComponents path)).head? = some SLASH :=
    rfl
  rw [if_pos hhead, getlines_terminator, hlines]
  rfl

/-- A text of some length is a name of some length. -/
theorem name_ne_empty {c : Bytes} (h : c ≠ []) : name c ≠ "" := by
  intro heq
  have hlen := congrArg (fun n : Name => n.toList.length) heq
  simp only [name, String.toList_ofList, List.length_map] at hlen
  exact h (List.length_eq_zero_iff.mp hlen)

variable {fold : Name → Name}

/-- Where the normal form of an absolute path leads. -/
theorem key_lexically_normal (cwd : FsPath) {path : Bytes} (h : path.head? = some SLASH) :
    key fold (place cwd (lexically_normal path))
      = (normalComponents path).map fun c => fold (name c) := by
  rw [place_lexically_normal cwd h]
  unfold key
  have hfilter : ("" :: (normalComponents path).map name).filter (fun n => n ≠ "")
      = (normalComponents path).map name := by
    rw [List.filter_cons, if_neg (by simp), List.filter_eq_self]
    intro n hn
    obtain ⟨c, hc, rfl⟩ := List.mem_map.mp hn
    exact decide_eq_true (name_ne_empty (mem_normalComponents hc).1.1)
  rw [hfilter, List.map_map]
  rfl

/-! ## The entries -/

/-- A separator behind a path that has none there adds no component. -/
theorem getlines_terminated {text : Bytes} (h : endsWith SLASH text = false) (hne : text ≠ []) :
    getlines SLASH (text ++ [SLASH]) = getlines SLASH text := by
  induction text with
  | nil => exact absurd rfl hne
  | cons c cs ih =>
    by_cases hcs : cs = []
    · subst hcs
      have hc : c ≠ SLASH := by simpa [endsWith] using h
      simp [getlines, hc]
    · have hlast : (c :: cs).getLast? = cs.getLast? := by
        rw [List.getLast?_cons, List.getLast?_eq_getLast_of_ne_nil hcs]
        rfl
      have hends : endsWith SLASH cs = false := by
        unfold endsWith at h ⊢
        rw [← hlast]
        exact h
      rw [List.cons_append, getlines, getlines, ih hends hcs]

/-- The components of a path and of a name below it. -/
theorem components_slash {base : Bytes} (hbase : base ≠ []) (entry : Bytes) :
    components (slash base entry) = getlines SLASH base ++ (getlines SLASH entry ++
      if endsWith SLASH (slash base entry) then [[]] else []) := by
  have hlines : getlines SLASH (slash base entry)
      = getlines SLASH base ++ getlines SLASH entry := by
    unfold slash
    by_cases hlast : base.getLast? = some SLASH
    · rw [if_pos (Or.inr hlast)]
      obtain ⟨p, rfl⟩ := List.getLast?_eq_some_iff.mp hlast
      rw [List.append_assoc]
      exact getlines_append_terminated SLASH p entry
    · rw [if_neg (not_or.mpr ⟨hbase, hlast⟩), getlines_append_terminated,
        getlines_terminated (decide_eq_false hlast) hbase]
  unfold components
  rw [hlines, List.append_assoc]

/-- An empty component is not put on the stack. -/
theorem foldl_push_ending (path : Bytes) (stack : List Bytes) :
    (if endsWith SLASH path then [[]] else []).foldl push stack = stack := by
  split <;> rfl

/-- Below an absolute path a name adds its components. -/
theorem normalComponents_slash {base entry : Bytes} (hbase : base ≠ [])
    (hup : ascii ".." ∉ getlines SLASH entry) :
    normalComponents (slash base entry)
      = normalComponents base ++ (getlines SLASH entry).filter (Real ·) := by
  have hcomponents : (components base).foldl push [] = (getlines SLASH base).foldl push [] := by
    unfold components
    rw [List.foldl_append, foldl_push_ending]
  unfold normalComponents
  rw [components_slash hbase, List.foldl_append, List.foldl_append, foldl_push_ending,
    hcomponents, foldl_push_eq _ hup, List.reverse_append, List.reverse_reverse]

theorem head_slash {base : Bytes} (h : base.head? = some SLASH) (entry : Bytes) :
    (slash base entry).head? = some SLASH := by
  cases base with
  | nil => cases h
  | cons c p =>
    obtain rfl : c = SLASH := Option.some_inj.mp h
    unfold slash
    split <;> rfl

/-- Where an entry goes below an absolute path. -/
theorem key_target (cwd : FsPath) {workingPath entryName : Bytes}
    (hroot : workingPath.head? = some SLASH) (hup : ascii ".." ∉ getlines SLASH entryName) :
    key fold (place cwd (target workingPath entryName))
      = (normalComponents workingPath).map (fun c => fold (name c)) ++
        ((getlines SLASH entryName).filter (Real ·)).map fun c => fold (name c) := by
  have hbase : workingPath ≠ [] := by
    rintro rfl
    cases hroot
  have hslash := head_slash hroot entryName
  have hplace : place cwd (target workingPath entryName)
      = place cwd (lexically_normal (slash workingPath entryName)) := by
    unfold target
    dsimp only
    split
    · rename_i hopen
      have hne : lexically_normal (slash workingPath entryName) ≠ [] := by
        rw [lexically_normal_eq hslash]
        exact List.cons_ne_nil _ _
      have hhead : (lexically_normal (slash workingPath entryName) ++ [SLASH]).head?
          = (lexically_normal (slash workingPath entryName)).head? := by
        rw [lexically_normal_eq hslash]
        rfl
      unfold place
      rw [hhead, getlines_terminated (decide_eq_false hopen.2) hne]
    · rfl
  rw [hplace, key_lexically_normal cwd hslash, normalComponents_slash hbase hup, List.map_append]

/-- A normal form is the name of a file if it is not the root and does not end in a separator. -/
theorem isFile_lexically_normal {path : Bytes} (h : path.head? = some SLASH) :
    IsFile (lexically_normal path) ↔ endsOpen path = false ∧ normalComponents path ≠ [] := by
  rw [lexically_normal_eq h]
  unfold IsFile
  rcases List.eq_nil_or_concat (normalComponents path) with hnil | ⟨cs, c, hcs⟩
  · rw [hnil]
    simp
  · rw [List.concat_eq_append] at hcs
    have hc : c ∈ normalComponents path := by
      rw [hcs]
      exact List.mem_append_right _ (List.mem_singleton_self c)
    obtain ⟨hreal, hslash⟩ := mem_normalComponents hc
    have hne : normalComponents path ≠ [] := List.ne_nil_of_mem hc
    have hjoin : SLASH :: join [SLASH] (endsOpen path) (normalComponents path)
        = (SLASH :: cs.flatMap fun l => l ++ [SLASH]) ++ c ++
          if endsOpen path then [SLASH] else [] := by
      rw [hcs, join_middle, if_pos rfl]
      rfl
    rw [hjoin]
    cases hopen : endsOpen path with
    | true =>
      refine iff_of_false (fun hno => ?_) (by rintro ⟨⟨⟩, -⟩)
      exact hno (List.getLast?_concat)
    | false =>
      have hlast : ((SLASH :: cs.flatMap fun l => l ++ [SLASH]) ++ c ++ []).getLast?
          = c.getLast? := by
        rw [List.append_nil, List.getLast?_append_of_ne_nil _ hreal.1]
      refine iff_of_true ?_ ⟨rfl, hne⟩
      show ((SLASH :: cs.flatMap fun l => l ++ [SLASH]) ++ c ++ []).getLast? ≠ some SLASH
      rw [hlast]
      exact fun heq => hslash (List.mem_of_getLast? heq)

/-- An entry goes to a file if its name does not end in a separator, nor in a last component `.`. -/
theorem isFile_target {workingPath entryName : Bytes} (hroot : workingPath.head? = some SLASH)
    (hsafe : safeName entryName) :
    IsFile (target workingPath entryName) ↔
      IsFile entryName ∧ (getlines SLASH entryName).getLast? ≠ some (ascii ".") := by
  have hbase : workingPath ≠ [] := by
    rintro rfl
    cases hroot
  have hne : entryName ≠ [] := hsafe.1
  have hup : ascii ".." ∉ getlines SLASH entryName := hsafe.2.2.2.2.2.2
  have hslash := head_slash hroot entryName
  by_cases hopen : entryName.getLast? = some SLASH
  · refine iff_of_false (fun hfile => ?_) (fun h => h.1 hopen)
    apply hfile
    unfold target
    dsimp only
    split
    · exact List.getLast?_concat
    · rename_i hno
      by_contra hlast
      exact hno ⟨hopen, hlast⟩
  · have htarget : target workingPath entryName = lexically_normal (slash workingPath entryName) :=
      if_neg fun h => hopen h.1
    obtain ⟨ls, l, hls, hl, -⟩ := getLast_getlines (decide_eq_false hopen) hne
    have hlast : (slash workingPath entryName).getLast? = entryName.getLast? := by
      unfold slash
      split
      · exact List.getLast?_append_of_ne_nil _ hne
      · rw [List.getLast?_append_of_ne_nil _ (List.cons_ne_nil _ _), List.getLast?_cons,
          List.getLast?_eq_getLast_of_ne_nil hne]
        rfl
    have hends : endsWith SLASH (slash workingPath entryName) = false := by
      unfold endsWith
      rw [hlast]
      exact decide_eq_false hopen
    have hcomponents : components (slash workingPath entryName)
        = (getlines SLASH workingPath ++ ls) ++ [l] := by
      rw [components_slash hbase, hends, if_neg (by decide), List.append_nil, hls,
        List.append_assoc]
    have hlup : l ≠ ascii ".." := by
      rintro rfl
      apply hup
      rw [hls]
      exact List.mem_append_right _ (List.mem_singleton_self _)
    -- the last component stands after normalizing, unless it is a dot
    have hopen' : endsOpen (slash workingPath entryName) = false ↔ l ≠ ascii "." := by
      unfold endsOpen
      rw [hcomponents, List.foldl_append, List.foldl_cons, List.foldl_nil]
      unfold normalStep
      by_cases hdot : l = ascii "."
      · rw [if_pos (Or.inr hdot)]
        simp [hdot]
      · rw [if_neg (not_or.mpr ⟨hl, hdot⟩), if_neg hlup]
        simp [hdot]
    rw [htarget, isFile_lexically_normal hslash, hopen', hls, List.getLast?_concat]
    constructor
    · rintro ⟨hdot, -⟩
      exact ⟨hopen, fun heq => hdot (Option.some_inj.mp heq)⟩
    · rintro ⟨-, hdot⟩
      have hdot' : l ≠ ascii "." := fun heq => hdot (congrArg some heq)
      refine ⟨hdot', ?_⟩
      rw [normalComponents_slash hbase hup, hls]
      apply List.ne_nil_of_mem (a := l)
      rw [List.mem_append, List.mem_filter]
      exact Or.inr ⟨List.mem_append_right _ (List.mem_singleton_self l),
        decide_eq_true ⟨hl, hdot', hlup⟩⟩

end Extract
