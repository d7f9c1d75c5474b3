/-
# Copying by a list

`copyFiles` of `fs.cpp`: each line of a list names a source and a destination.  A line that is not
reported has been carried out provided that nothing comes between: the source is a file, and
another one than the destination, the destination can be opened, and no call fails.
-/
import AioMod.Extract
import AioMod.ExplorerFiles

namespace CopyFiles

open Explorer Throws TextLines IniEditor Extract

/-! ## The code -/

def BAR : UInt8 := 124

/-- `splitString` -/
def splitString (s : Bytes) (delimiter : UInt8) : List Bytes := getlines delimiter s

/-- The message at the end. -/
def report (error : Bytes) : Bytes :=
  if error = [] then ascii "menus/common/all_done"
  else ascii "menus/tools/batch_copy_not_found" ++ error

/-- The source that a line names; a carriage return at its end does not belong to it. -/
def source (str : Bytes) : Option Bytes := (splitString (popCR str) BAR)[0]?

/-- The destination that a line names. -/
def destination (str : Bytes) : Option Bytes := (splitString (popCR str) BAR)[1]?

variable {fold : Name → Name}

section proof

variable {cwd : FsPath} {may : Volume fold → Explorer.Fn → Prop} {str : Bytes} {v : Volume fold}

/-- Copying, where nothing is in the way. -/
theorem copyFile_spec {s d b : Bytes} (hb : v.contents (place cwd s) = some b)
    (hlen : b.length ≤ 2 ^ 64)
    (hsame : key fold (place cwd s) = key fold (place cwd d) → b = [])
    (hopen : v.setFile (place cwd d) [] ≠ none)
    (hcalls : ∀ u : Volume fold, ¬may u (.ifstream (place cwd s)) ∧
      ¬may u (.ofstream (place cwd d)) ∧ ¬may u (.read (place cwd s) 0 (2 ^ 64)) ∧
      ∀ data, ¬may u (.write (place cwd d) data)) (E : String → Volume fold → Prop) :
    wpx (failing may) (fun _ v' => v.SameBut v' (· = key fold (place cwd d)) ∧
      v'.contents (place cwd d) = some b ∧
      (key fold (place cwd s) = key fold (place cwd d) → ∀ q, v'.at_ q = v.at_ q)) E
      (copyFile cwd s d) v := by
  rw [copyFile, wpx_bind, wpx_failing]
  intro src v₁ h₁
  obtain ⟨rfl, hsrc⟩ := failing_ifstream h₁
  replace hsrc : src = true := by
    rcases hsrc with hsrc | ⟨hmay, -⟩
    · rw [hsrc, hb]
      rfl
    · exact absurd hmay (hcalls _).1
  rw [wpx_bind, wpx_failing]
  intro dst v₂ h₂
  rcases failing_ofstream h₂ with ⟨rfl, hset⟩ | ⟨-, -, hmay | hnone⟩ | ⟨-, -, hmay⟩
  · rw [if_pos ⟨hsrc, rfl⟩, wpx_bind, wpx_failing]
    intro data v₃ h₃
    obtain ⟨rfl, hdata⟩ := failing_read h₃
    -- the source still holds its bytes, as it is another file, or there are none
    have hb₂ : v₃.contents (place cwd s) = some b := by
      by_cases heq : key fold (place cwd s) = key fold (place cwd d)
      · have hnil := Volume.contents_setFile hset
        rw [Volume.contents_eq_some] at hnil ⊢
        rw [heq, hsame heq]
        exact hnil
      · rw [Volume.contents_of_at (Volume.sameBut_setFile hset _ heq), hb]
    replace hdata : data = some b := by
      rcases hdata with hdata | ⟨hmay, -⟩
      · rw [hdata, hb₂, Option.map_some, List.drop_zero, List.take_of_length_le hlen]
      · exact absurd hmay (hcalls _).2.2.1
    subst hdata
    dsimp only
    rw [wpx_bind, wpx_failing]
    intro r v₄ h₄
    rw [wpx_pure]
    have hframe := (Volume.sameBut_setFile hset).trans (sameBut_write h₄)
    rcases failing_write h₄ with ⟨-, b', hb', hset'⟩ | ⟨-, hmay | hno, -⟩
    · rw [Volume.contents_setFile hset] at hb'
      obtain rfl := Option.some.inj hb'
      refine ⟨hframe, Volume.contents_setFile hset', ?_⟩
      intro heq q
      obtain rfl := hsame heq
      have hd : v₁.contents (place cwd d) = some [] := by
        rw [Volume.contents_eq_some] at hb ⊢
        rw [← heq]
        exact hb
      rw [Volume.at_setFile_same hset' (Volume.contents_setFile hset),
        Volume.at_setFile_same hset hd]
    · exact absurd hmay ((hcalls _).2.2.2 _)
    · obtain ⟨v₅, hset'⟩ := Volume.setFile_again hset ([] ++ b)
      rw [hno [] (Volume.contents_setFile hset)] at hset'
      cases hset'
  · exact absurd hmay (hcalls _).2.1
  · exact absurd hnone hopen
  · exact absurd hmay (hcalls _).2.1

end proof

end CopyFiles
