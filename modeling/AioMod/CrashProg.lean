/-
# Programs that can be cut between any two operations

A program is a tree of calls to the operations of an interface.  A machine says
which results and successor states a call may have; a run of a program either
returns a value or is cut before some call, leaving the state as it is.  The
predicate `wp` is the weakest precondition for both ends of a run: a
postcondition for the runs that return, and a crash condition that holds in
every state at which the run can be cut.

Nothing here depends on a particular interface.
-/
import Mathlib

/-! ## Programs -/

/-- An interface: the operations a program may call, and what each returns. -/
structure Interface where
  Op : Type
  Res : Op → Type

/-- A program over `I` returning an `α`: either it is finished, or it calls an
operation and goes on with the result. -/
inductive Prog (I : Interface) (α : Type) : Type where
  | ret (a : α) : Prog I α
  | call (o : I.Op) (k : I.Res o → Prog I α) : Prog I α

namespace Prog

variable {I : Interface} {α β γ σ : Type}

/-- Sequencing. -/
def bind : Prog I α → (α → Prog I β) → Prog I β
  | .ret a, f => f a
  | .call o k, f => .call o fun r => (k r).bind f

/-- The program that makes one call and returns its result. -/
def op (o : I.Op) : Prog I (I.Res o) := .call o .ret

instance : Monad (Prog I) where
  pure := .ret
  bind := .bind

@[simp] theorem pure_eq (a : α) : (pure a : Prog I α) = .ret a := rfl

@[simp] theorem bind_eq (p : Prog I α) (f : α → Prog I β) : p >>= f = p.bind f := rfl

@[simp] theorem ret_bind (a : α) (f : α → Prog I β) : (Prog.ret a : Prog I α).bind f = f a := rfl

@[simp] theorem call_bind (o : I.Op) (k : I.Res o → Prog I α) (f : α → Prog I β) :
    (Prog.call o k).bind f = .call o fun r => (k r).bind f := rfl

end Prog

/-! ## Machines and runs -/

/-- A machine for `I` with states `σ`: the results and successor states each
call may have.  It need be neither total nor deterministic. -/
def Machine (I : Interface) (σ : Type) : Type := σ → (o : I.Op) → I.Res o → σ → Prop

/-- `Run M p s out s'`: from `s` the program `p` can end in `s'`, either by
returning (`out = some a`) or by being cut before a call (`out = none`). -/
inductive Run {I : Interface} {σ α : Type} (M : Machine I σ) :
    Prog I α → σ → Option α → σ → Prop where
  | ret (a : α) (s : σ) : Run M (.ret a) s (some a) s
  | cut (p : Prog I α) (s : σ) : Run M p s none s
  | call {o : I.Op} {k : I.Res o → Prog I α} {s s' s'' : σ} {r : I.Res o} {out : Option α}
      (h : M s o r s') (hk : Run M (k r) s' out s'') : Run M (.call o k) s out s''

/-- The weakest precondition of `p` for the postcondition `Q` and the crash
condition `C`: every run from here that returns ends in `Q`, and `C` holds
wherever the run can be cut. -/
def wp {I : Interface} {σ α : Type} (M : Machine I σ) (C : σ → Prop) (Q : α → σ → Prop) :
    Prog I α → σ → Prop
  | .ret a, s => C s ∧ Q a s
  | .call o k, s => C s ∧ ∀ r s', M s o r s' → wp M C Q (k r) s'

section wp

variable {I : Interface} {α β σ : Type} {M M' : Machine I σ} {C C' : σ → Prop}
  {Q Q' : α → σ → Prop} {s s' : σ}

@[simp] theorem wp_ret (a : α) : wp M C Q (.ret a) s ↔ C s ∧ Q a s := Iff.rfl

theorem wp_call (o : I.Op) (k : I.Res o → Prog I α) :
    wp M C Q (.call o k) s ↔ C s ∧ ∀ r s', M s o r s' → wp M C Q (k r) s' := Iff.rfl

theorem wp_op (o : I.Op) {Q : I.Res o → σ → Prop} :
    wp M C Q (Prog.op o) s ↔ C s ∧ ∀ r s', M s o r s' → C s' ∧ Q r s' := Iff.rfl

/-- The crash condition holds where a program starts. -/
theorem wp_crash {p : Prog I α} (h : wp M C Q p s) : C s := by
  cases p with
  | ret a => exact h.1
  | call o k => exact h.1

/-- Sequencing: the second program is proved from whatever the first returns. -/
theorem wp_bind {p : Prog I β} {f : β → Prog I α} :
    wp M C Q (p.bind f) s ↔ wp M C (fun b => wp M C Q (f b)) p s := by
  induction p generalizing s with
  | ret b => exact ⟨fun h => ⟨wp_crash h, h⟩, fun h => h.2⟩
  | call o k ih =>
    simp only [Prog.call_bind, wp_call]
    exact and_congr_right fun _ => forall_congr' fun r => forall_congr' fun s' =>
      imp_congr_right fun _ => ih r

/-- Consequence, for both conditions and for a machine with fewer steps. -/
theorem wp_mono {p : Prog I α} (h : wp M C Q p s) (hM : ∀ s o r s', M' s o r s' → M s o r s')
    (hC : ∀ s, C s → C' s) (hQ : ∀ a s, Q a s → Q' a s) : wp M' C' Q' p s := by
  induction p generalizing s with
  | ret a => exact ⟨hC _ h.1, hQ _ _ h.2⟩
  | call o k ih => exact ⟨hC _ h.1, fun r s' hs => ih r (h.2 r s' (hM _ _ _ _ hs))⟩

/-- Consequence on one machine; the crash condition holds at the end as well. -/
theorem wp_conseq {p : Prog I α} (h : wp M C Q p s) (hC : ∀ s, C s → C' s)
    (hQ : ∀ a s, C s → Q a s → Q' a s) : wp M C' Q' p s := by
  induction p generalizing s with
  | ret a => exact ⟨hC _ h.1, hQ _ _ h.1 h.2⟩
  | call o k ih => exact ⟨hC _ h.1, fun r s' hs => ih r (h.2 r s' hs)⟩

/-- `wp` speaks about exactly the runs. -/
theorem wp_iff_run {p : Prog I α} :
    wp M C Q p s ↔
      (∀ s', Run M p s none s' → C s') ∧ (∀ a s', Run M p s (some a) s' → C s' ∧ Q a s') := by
  constructor
  · intro h
    have key : ∀ out s', Run M p s out s' → C s' ∧ ∀ a, out = some a → Q a s' := by
      intro out s' hr
      induction hr with
      | ret a s => exact ⟨h.1, fun b hb => by cases hb; exact h.2⟩
      | cut p s => exact ⟨wp_crash h, fun b hb => by cases hb⟩
      | call hm _ ih => exact ih (h.2 _ _ hm)
    exact ⟨fun s' hr => (key _ _ hr).1, fun a s' hr => ⟨(key _ _ hr).1, (key _ _ hr).2 a rfl⟩⟩
  · rintro ⟨hC, hQ⟩
    induction p generalizing s with
    | ret a => exact hQ a s (.ret a s)
    | call o k ih =>
      refine ⟨hC s (.cut _ _), fun r s' hm => ih r (fun s'' hr => hC s'' (.call hm hr)) ?_⟩
      exact fun a s'' hr => hQ a s'' (.call hm hr)

theorem wp_sound {p : Prog I α} (h : wp M C Q p s) {a : α} (hr : Run M p s (some a) s') :
    Q a s' :=
  ((wp_iff_run.mp h).2 a s' hr).2

theorem wp_cut {p : Prog I α} (h : wp M C Q p s) (hr : Run M p s none s') : C s' :=
  (wp_iff_run.mp h).1 s' hr

/-- A run that returned could have been cut after its last call. -/
theorem Run.cut_of_some {p : Prog I α} {a : α} (h : Run M p s (some a) s') :
    Run M p s none s' := by
  generalize ho : some a = out at h
  induction h with
  | ret b s => exact .cut _ _
  | cut p s => exact .cut _ _
  | call hm _ ih => exact .call hm (ih ho)

/-- The crash condition holds wherever a run ends. -/
theorem wp_end {p : Prog I α} (h : wp M C Q p s) {out : Option α} (hr : Run M p s out s') :
    C s' := by
  cases out with
  | none => exact wp_cut h hr
  | some a => exact wp_cut h hr.cut_of_some

theorem Run.bind {p : Prog I β} {f : β → Prog I α} {b : β} {s'' : σ} {out : Option α}
    (h : Run M p s (some b) s') (hf : Run M (f b) s' out s'') : Run M (p.bind f) s out s'' := by
  generalize ho : some b = o at h
  induction h with
  | ret c s => cases ho; exact hf
  | cut p s => cases ho
  | call hm _ ih => exact .call hm (ih hf ho)

theorem Run.bind_cut {p : Prog I β} {f : β → Prog I α} (h : Run M p s none s') :
    Run M (p.bind f) s none s' := by
  generalize ho : none = o at h
  induction h with
  | ret c s => cases ho
  | cut p s => exact .cut _ _
  | call hm _ ih => exact .call hm (ih ho)

end wp

/-! ## Programs restricted to some calls -/

section calls

variable {I : Interface} {α β σ : Type} {M : Machine I σ} {P : I.Op → Prop}

/-- Every call `p` can make satisfies `P`. -/
def Prog.Calls (P : I.Op → Prop) : Prog I α → Prop
  | .ret _ => True
  | .call o k => P o ∧ ∀ r, (k r).Calls P

theorem Prog.calls_bind {p : Prog I β} {f : β → Prog I α} (hp : p.Calls P)
    (hf : ∀ b, (f b).Calls P) : (p.bind f).Calls P := by
  induction p with
  | ret b => exact hf b
  | call o k ih => exact ⟨hp.1, fun r => ih r (hp.2 r)⟩

/-- What every allowed call preserves, the program preserves. -/
theorem wp_of_calls {p : Prog I α} (hp : p.Calls P) {J : σ → Prop}
    (hstep : ∀ s o r s', P o → J s → M s o r s' → J s') {s : σ} (hs : J s) :
    wp M J (fun _ => J) p s := by
  induction p generalizing s with
  | ret a => exact ⟨hs, hs⟩
  | call o k ih => exact ⟨hs, fun r s' hm => ih r (hp.2 r) (hstep s o r s' hp.1 hs hm)⟩

end calls

/-! ## Loops -/

section loops

variable {I : Interface} {α β σ : Type} {M : Machine I σ} {C : σ → Prop} {s : σ}

/-- Run `body` on the elements of a list in order, until it asks to stop. -/
def Prog.untilSome (body : β → Prog I (Option α)) : List β → Prog I (Option α)
  | [] => .ret none
  | b :: bs => (body b).bind fun
    | some a => .ret (some a)
    | none => Prog.untilSome body bs

/-- The loop rule: an invariant indexed by the elements done so far. -/
theorem wp_untilSome {body : β → Prog I (Option α)} {Q : Option α → σ → Prop}
    (inv : List β → σ → Prop) (l : List β)
    (hbody : ∀ pre b post s, l = pre ++ b :: post → inv pre s →
      wp M C (fun r s' => match r with
        | some a => Q (some a) s'
        | none => inv (pre ++ [b]) s') (body b) s)
    (hend : ∀ s, inv l s → C s ∧ Q none s) (h0 : inv [] s) :
    wp M C Q (Prog.untilSome body l) s := by
  have go : ∀ post pre s, l = pre ++ post → inv pre s →
      wp M C Q (Prog.untilSome body post) s := by
    intro post
    induction post with
    | nil =>
      intro pre s hl hi
      rw [List.append_nil] at hl
      exact hend s (hl ▸ hi)
    | cons b post ih =>
      intro pre s hl hi
      rw [Prog.untilSome, wp_bind]
      have hcrash := wp_iff_run.mp (hbody pre b post s hl hi)
      refine wp_iff_run.mpr ⟨hcrash.1, fun r s' hr => ⟨(hcrash.2 r s' hr).1, ?_⟩⟩
      have hq := (hcrash.2 r s' hr).2
      cases r with
      | some a => exact ⟨(hcrash.2 _ s' hr).1, hq⟩
      | none => exact ih (pre ++ [b]) s' (by simp [hl]) hq
  exact go l [] s rfl h0

/-- A loop makes the calls of its body. -/
theorem Prog.calls_untilSome {P : I.Op → Prop} {body : β → Prog I (Option α)}
    (h : ∀ b, (body b).Calls P) (l : List β) : (Prog.untilSome body l).Calls P := by
  induction l with
  | nil => exact trivial
  | cons b l ih =>
    refine Prog.calls_bind (h b) fun r => ?_
    cases r with
    | none => exact ih
    | some a => exact trivial

end loops

/-! ## Histories of cut runs -/

section histories

variable {I : Interface} {α σ : Type} {M : Machine I σ}

/-- `Relaunch M p cond s s'`: `p` was started any number of times, each time in a
state satisfying `cond` and each time cut, leading from `s` to `s'`. -/
def Relaunch (M : Machine I σ) (p : Prog I α) (cond : σ → Prop) : σ → σ → Prop :=
  Relation.ReflTransGen fun s s' => cond s ∧ Run M p s none s'

/-- The recovery rule: when every launch from the invariant (and `cond`) keeps
the invariant as its crash condition, the invariant holds at every relaunch. -/
theorem Relaunch.invariant {p : Prog I α} {cond inv : σ → Prop} {Q : α → σ → Prop} {s s' : σ}
    (h : Relaunch M p cond s s') (hs : inv s)
    (hp : ∀ s, cond s → inv s → wp M inv Q p s) : inv s' := by
  induction h with
  | refl => exact hs
  | tail _ hstep ih => exact wp_cut (hp _ hstep.1 ih) hstep.2

end histories

/-! ## Running a program on a schedule -/

section schedules

variable {I : Interface} {α σ : Type} {M : Machine I σ}

/-- Run `p`, call number `i` being answered by `sched i`; the run is cut at the
first call left unanswered. -/
def Prog.follow (sched : ℕ → σ → (o : I.Op) → Option (I.Res o × σ)) :
    Prog I α → ℕ → σ → Option α × σ
  | .ret a, _, s => (some a, s)
  | .call o k, i, s =>
    match sched i s o with
    | none => (none, s)
    | some (r, s') => (k r).follow sched (i + 1) s'

/-- A schedule whose answers are steps of the machine gives a run of it. -/
theorem Prog.follow_run {sched : ℕ → σ → (o : I.Op) → Option (I.Res o × σ)}
    (hsched : ∀ i s o r s', sched i s o = some (r, s') → M s o r s') (p : Prog I α) (i : ℕ)
    (s : σ) : Run M p s (p.follow sched i s).1 (p.follow sched i s).2 := by
  induction p generalizing i s with
  | ret a => exact .ret a s
  | call o k ih =>
    simp only [Prog.follow]
    cases h : sched i s o with
    | none => exact .cut _ _
    | some x => exact .call (hsched i s o x.1 x.2 h) (ih x.1 (i + 1) x.2)

/-- The first `n` calls are answered by `f`, and none behind them. -/
def Prog.firstCalls (n : ℕ) (f : σ → (o : I.Op) → I.Res o × σ) (i : ℕ) (s : σ) (o : I.Op) :
    Option (I.Res o × σ) :=
  if i < n then some (f s o) else none

/-- Where `f` answers as the machine can, the program can be cut behind any number of calls. -/
theorem Prog.follow_firstCalls {f : σ → (o : I.Op) → I.Res o × σ}
    (hf : ∀ s o, M s o (f s o).1 (f s o).2) (n : ℕ) (p : Prog I α) (s : σ) :
    Run M p s (p.follow (firstCalls n f) 0 s).1 (p.follow (firstCalls n f) 0 s).2 := by
  apply follow_run
  intro i s o r s' h
  unfold firstCalls at h
  split at h
  · rw [Option.some.injEq] at h
    have hstep := hf s o
    rwa [h] at hstep
  · cases h

end schedules

/-! ## A bounded number of failures -/

section limited

variable {I : Interface} {α σ : Type} {works fails : Machine I σ}

/-- A machine whose calls work or fail, with the number of failures that are left. -/
def Machine.limited (works fails : Machine I σ) : Machine I (σ × ℕ) := fun s o r s' =>
  works s.1 o r s'.1 ∧ s'.2 = s.2 ∨ fails s.1 o r s'.1 ∧ s.2 = s'.2 + 1

/-- A run in which calls fail has a number of failures. -/
theorem Run.limited {M : Machine I σ} (hM : ∀ s o r s', M s o r s' → works s o r s' ∨ fails s o r s')
    {p : Prog I α} {s s' : σ} {out : Option α} (h : Run M p s out s') :
    ∃ n, Run (Machine.limited works fails) p (s, n) out (s', 0) := by
  induction h with
  | ret a s => exact ⟨0, .ret a (s, 0)⟩
  | cut p s => exact ⟨0, .cut p (s, 0)⟩
  | call hm _ ih =>
    obtain ⟨n, hr⟩ := ih
    rcases hM _ _ _ _ hm with hw | hf
    · exact ⟨n, .call (.inl ⟨hw, rfl⟩ : Machine.limited works fails (_, n) _ _ (_, n)) hr⟩
    · exact ⟨n + 1, .call (.inr ⟨hf, rfl⟩ : Machine.limited works fails (_, n + 1) _ _ (_, n)) hr⟩

end limited
