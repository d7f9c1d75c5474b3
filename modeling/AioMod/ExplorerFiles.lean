/-
# Writing files on the card

What the calls that open, read and write a file can do, on a card whose calls fail where they may.
-/
import AioMod.ExplorerOps

namespace Explorer

variable {fold : Name → Name}

namespace Volume

variable {v v' : Volume fold} {p : FsPath} {b : Bytes}

/-- Nothing but what `changed` allows is different. -/
def SameBut (v v' : Volume fold) (changed : FsPath → Prop) : Prop :=
  ∀ q, ¬changed q → v'.at_ q = v.at_ q

theorem SameBut.refl (v : Volume fold) (changed : FsPath → Prop) : v.SameBut v changed :=
  fun _ _ => rfl

theorem SameBut.trans {v'' : Volume fold} {changed : FsPath → Prop} (h : v.SameBut v' changed)
    (h' : v'.SameBut v'' changed) : v.SameBut v'' changed :=
  fun q hq => (h' q hq).trans (h q hq)

theorem SameBut.mono {changed changed' : FsPath → Prop} (h : v.SameBut v' changed)
    (hsub : ∀ q, changed q → changed' q) : v.SameBut v' changed' :=
  fun q hq => h q fun hc => hq (hsub q hc)

/-- What is in a file, by what stands at its place. -/
theorem contents_of_at (h : v'.at_ (key fold p) = v.at_ (key fold p)) :
    v'.contents p = v.contents p := by
  unfold contents
  rw [get_of_at h]

theorem contents_eq_some : v.contents p = some b ↔ v.tree.get (key fold p) = some (.file b) := by
  unfold contents
  split
  · rename_i heq
    rw [heq]
    simp
  · rename_i hno
    constructor
    · intro h
      cases h
    · exact fun h => absurd h (hno b)

theorem setFile_eq_some (h : v.setFile p b = some v') :
    v.tree.CanPut (key fold p) ∧ Legal (lastName p) ∧
      ∀ q, v'.at_ q = if q = key fold p
        then some (if v.tree.get (key fold p) = none then lastName p
          else v.spelling (key fold p), .file b)
        else v.at_ q := by
  unfold setFile at h
  split at h
  · rename_i hput
    cases h
    exact ⟨hput.1, hput.2, v.at_put _ _ _ hput.1 _⟩
  · cases h

theorem contents_setFile (h : v.setFile p b = some v') : v'.contents p = some b := by
  have hat := (setFile_eq_some h).2.2 (key fold p)
  rw [if_pos rfl] at hat
  rw [contents_eq_some]
  obtain ⟨e, he, heq⟩ := Option.map_eq_some_iff.mp hat
  rw [he, (Prod.mk.inj heq).2]

theorem sameBut_setFile (h : v.setFile p b = some v') : v.SameBut v' (· = key fold p) := by
  intro q hq
  rw [(setFile_eq_some h).2.2 q, if_neg hq]

/-- Where a file may be put it may be put again. -/
theorem setFile_again (h : v.setFile p b = some v') (b' : Bytes) :
    ∃ v'', v'.setFile p b' = some v'' := by
  obtain ⟨⟨hne, hdir, -⟩, hlegal, -⟩ := setFile_eq_some h
  have hput : v'.tree.CanPut (key fold p) := by
    refine ⟨hne, ?_, ?_⟩
    · rw [get_of_at (sameBut_setFile h _ ?_)]
      · exact hdir
      · intro heq
        have hlen := congrArg List.length heq
        have hpos := List.length_pos_of_ne_nil hne
        rw [List.length_dropLast] at hlen
        omega
    · rw [contents_eq_some.mp (contents_setFile h)]
      simp
  unfold setFile
  rw [dif_pos ⟨hput, hlegal⟩]
  exact ⟨_, rfl⟩

/-- Writing what is there changes nothing. -/
theorem at_setFile_same (h : v.setFile p b = some v') (hb : v.contents p = some b) (q : FsPath) :
    v'.at_ q = v.at_ q := by
  rw [(setFile_eq_some h).2.2 q]
  by_cases hq : q = key fold p
  · have hget := contents_eq_some.mp hb
    rw [if_pos hq, if_neg (by rw [hget]; simp), hq, at_, hget]
    rfl
  · rw [if_neg hq]

end Volume

/-! ## Calls that may fail -/

/-- The calls work, or fail where `may` lets them. -/
def failing (may : Volume fold → Fn → Prop) : Machine FsI (Volume fold) := fun v fn r v' =>
  card False v fn r v' ∨ may v fn ∧ Stops v fn r v'

section calls

variable {may : Volume fold → Fn → Prop} {v v' : Volume fold} {p : FsPath}

theorem answer_ofstream (h : v.setFile p [] = some v') :
    answer v (.ofstream p) = (true, v') := by
  simp only [answer, h]

theorem answer_ofstream_none (h : v.setFile p [] = none) :
    answer v (.ofstream p) = (false, v) := by
  simp only [answer, h]

theorem answer_write {data : Bytes}
    (h : ((v.contents p).bind fun b => v.setFile p (b ++ data)) = some v') :
    answer v (.write p data) = (true, v') := by
  simp only [answer, h]

theorem answer_write_none {data : Bytes}
    (h : ((v.contents p).bind fun b => v.setFile p (b ++ data)) = none) :
    answer v (.write p data) = (false, v) := by
  simp only [answer, h]

theorem failing_of_card {fn : Fn} {r : fn.Res} (h : card False v fn r v') : failing may v fn r v' :=
  .inl h

theorem failing_exists {r : Option Bool} (h : failing may v (.exists_ p) r v') :
    v' = v ∧ ∀ there, r = some there → there = (v.tree.get (key fold p)).isSome := by
  rcases h with h | ⟨-, rfl, rfl⟩
  · obtain ⟨rfl, rfl | ⟨hF, -⟩⟩ := card_exists h
    · exact ⟨rfl, fun there hthere => (Option.some.inj hthere).symm⟩
    · exact hF.elim
  · exact ⟨rfl, by rintro there ⟨⟩⟩

theorem failing_ifstream {r : Bool} (h : failing may v (.ifstream p) r v') :
    v' = v ∧ (r = (v.contents p).isSome ∨ may v (.ifstream p) ∧ r = false) := by
  rcases h with (⟨r₀, h, hr⟩ | ⟨hF, -⟩) | ⟨hmay, rfl, rfl⟩
  · obtain ⟨rfl, rfl⟩ := Prod.mk.inj h
    exact ⟨rfl, .inl hr⟩
  · exact hF.elim
  · exact ⟨rfl, .inr ⟨hmay, rfl⟩⟩

theorem failing_ofstream {r : Bool} (h : failing may v (.ofstream p) r v') :
    (r = true ∧ v.setFile p [] = some v') ∨
    (r = false ∧ v' = v ∧ (may v (.ofstream p) ∨ v.setFile p [] = none)) ∨
    (r = false ∧ v.setFile p [] = some v' ∧ may v (.ofstream p)) := by
  rcases h with (⟨r₀, h, hr⟩ | ⟨hF, -⟩) | ⟨hmay, rfl, rfl | hset⟩
  · rw [show r = r₀ from hr]
    cases hset : v.setFile p [] with
    | none =>
      rw [answer_ofstream_none hset] at h
      obtain ⟨rfl, rfl⟩ := Prod.mk.inj h
      exact .inr (.inl ⟨rfl, rfl, .inr rfl⟩)
    | some w =>
      rw [answer_ofstream hset] at h
      obtain ⟨rfl, rfl⟩ := Prod.mk.inj h
      exact .inl ⟨rfl, rfl⟩
  · exact hF.elim
  · exact .inr (.inl ⟨rfl, rfl, .inl hmay⟩)
  · exact .inr (.inr ⟨rfl, hset, hmay⟩)

theorem failing_read {offset size : ℕ} {r : Option Bytes}
    (h : failing may v (.read p offset size) r v') :
    v' = v ∧ (r = ((v.contents p).map fun b => (b.drop offset).take size) ∨
      may v (.read p offset size) ∧ r = none) := by
  rcases h with h | ⟨hmay, rfl, rfl⟩
  · obtain ⟨rfl, rfl | ⟨hF, -⟩⟩ := card_read h
    · exact ⟨rfl, .inl rfl⟩
    · exact hF.elim
  · exact ⟨rfl, .inr ⟨hmay, rfl⟩⟩

theorem failing_write {data : Bytes} {r : Bool} (h : failing may v (.write p data) r v') :
    (r = true ∧ ∃ b, v.contents p = some b ∧ v.setFile p (b ++ data) = some v') ∨
    (r = false ∧ (may v (.write p data) ∨ ∀ b, v.contents p = some b →
      v.setFile p (b ++ data) = none) ∧
      (v' = v ∨ ∃ n b, v.contents p = some b ∧ v.setFile p (b ++ data.take n) = some v')) := by
  rcases h with (⟨r₀, h, hr⟩ | ⟨hF, -⟩) | ⟨hmay, rfl, hv⟩
  · rw [show r = r₀ from hr]
    cases hb : v.contents p with
    | none =>
      rw [answer_write_none (by rw [hb]; rfl)] at h
      obtain ⟨rfl, rfl⟩ := Prod.mk.inj h
      exact .inr ⟨rfl, .inr (by rintro b ⟨⟩), .inl rfl⟩
    | some b =>
      cases hset : v.setFile p (b ++ data) with
      | none =>
        rw [answer_write_none (by rw [hb]; exact hset)] at h
        obtain ⟨rfl, rfl⟩ := Prod.mk.inj h
        refine .inr ⟨rfl, .inr ?_, .inl rfl⟩
        rintro b' ⟨⟩
        exact hset
      | some w =>
        rw [answer_write (by rw [hb]; exact hset)] at h
        obtain ⟨rfl, rfl⟩ := Prod.mk.inj h
        exact .inl ⟨rfl, b, rfl, hset⟩
  · exact hF.elim
  · exact .inr ⟨rfl, .inl hmay, hv⟩

/-- A write changes its file only. -/
theorem sameBut_write {data : Bytes} {r : Bool} (h : failing may v (.write p data) r v') :
    v.SameBut v' (· = key fold p) := by
  rcases failing_write h with ⟨-, b, -, hset⟩ | ⟨-, -, rfl | ⟨n, b, -, hset⟩⟩
  · exact Volume.sameBut_setFile hset
  · exact .refl _ _
  · exact Volume.sameBut_setFile hset

theorem sameBut_ofstream {r : Bool} (h : failing may v (.ofstream p) r v') :
    v.SameBut v' (· = key fold p) := by
  rcases failing_ofstream h with ⟨-, hset⟩ | ⟨-, rfl, -⟩ | ⟨-, hset, -⟩
  · exact Volume.sameBut_setFile hset
  · exact .refl _ _
  · exact Volume.sameBut_setFile hset

theorem wpx_failing {fn : Fn} {Q : fn.Res → Volume fold → Prop} {E : String → Volume fold → Prop} :
    Throws.wpx (failing may) Q E (fs fn) v ↔ ∀ r v', failing may v fn r v' → Q r v' :=
  Throws.wpx_call

end calls

end Explorer
