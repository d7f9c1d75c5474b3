/-
# Labelled step functions and their runs

A system steps by actions; a step that is enabled shows a label.  A trace is the
list of labels a run shows.  The rule for invariants lets the invariant speak of
the trace as well as of the state, so that a property of a whole run is proved
one step at a time.  What its labels carry is gathered along a trace.  A call
that is open is found in the trace by its opening label and by the absence of
any label of the same side since.  Two objects that answer every call alike,
whichever calls came before, are compared by a relation between their states.

Nothing here depends on a particular system.
-/
import Mathlib

namespace Traces

variable {σ α ε : Type}

/-- The traces of the runs from an initial state. -/
inductive Trace (step : σ → α → Option (ε × σ)) (init : σ → Prop) : List ε → σ → Prop where
  | nil {s : σ} (h : init s) : Trace step init [] s
  | snoc {t : List ε} {s s' : σ} {a : α} {e : ε} (h : Trace step init t s)
      (hs : step s a = some (e, s')) : Trace step init (t ++ [e]) s'

variable {step : σ → α → Option (ε × σ)} {init : σ → Prop}

/-- What holds at the start and is kept by every step holds along every run. -/
theorem Trace.invariant {I : List ε → σ → Prop} (h0 : ∀ s, init s → I [] s)
    (hstep : ∀ t s a e s', I t s → step s a = some (e, s') → I (t ++ [e]) s')
    {t : List ε} {s : σ} (h : Trace step init t s) : I t s := by
  induction h with
  | nil h => exact h0 _ h
  | snoc _ hs ih => exact hstep _ _ _ _ _ ih hs

/-- A run up to one of its labels, and the step that showed it. -/
theorem Trace.split {t : List ε} {s : σ} (h : Trace step init t s) :
    ∀ {t₁ : List ε} {e : ε} {t₂ : List ε}, t = t₁ ++ e :: t₂ →
      ∃ s₁ a s₂, Trace step init t₁ s₁ ∧ step s₁ a = some (e, s₂) := by
  induction h with
  | nil _ =>
    intro t₁ e t₂ ht
    simp at ht
  | @snoc t s s' a e h hs ih =>
    intro t₁ e₁ t₂ ht
    rcases List.eq_nil_or_concat t₂ with rfl | ⟨t₃, e₃, rfl⟩
    · -- the label is the last one
      obtain ⟨rfl, he⟩ := List.append_inj' ht rfl
      cases he
      exact ⟨s, a, s', h, hs⟩
    · have ht' : t ++ [e] = (t₁ ++ e₁ :: t₃) ++ [e₃] := by simpa using ht
      obtain ⟨ht', -⟩ := List.append_inj' ht' rfl
      exact ih ht'

/-- Run a list of actions. -/
def exec (step : σ → α → Option (ε × σ)) : List α → List ε → σ → Option (List ε × σ)
  | [], t, s => some (t, s)
  | a :: as, t, s => (step s a).bind fun r => exec step as (t ++ [r.1]) r.2

/-- What a list of actions shows is a trace. -/
theorem Trace.exec (as : List α) : ∀ {t t' : List ε} {s s' : σ}, Trace step init t s →
    exec step as t s = some (t', s') → Trace step init t' s' := by
  induction as with
  | nil =>
    intro t t' s s' h he
    cases he
    exact h
  | cons a as ih =>
    intro t t' s s' h he
    rw [Traces.exec, Option.bind_eq_some_iff] at he
    obtain ⟨⟨e, s₁⟩, hs, he⟩ := he
    exact ih (h.snoc hs) he

/-- Steps by actions of one kind lead from a state to another, and show these labels. -/
inductive Steps (step : σ → α → Option (ε × σ)) (p : α → Prop) : σ → List ε → σ → Prop where
  | refl (s : σ) : Steps step p s [] s
  | head {s s₁ s₂ : σ} {a : α} {e : ε} {t : List ε} (ha : p a) (hs : step s a = some (e, s₁))
      (h : Steps step p s₁ t s₂) : Steps step p s (e :: t) s₂

/-! ## What labels carry -/

/-- What the labels of a trace carry, one behind the other. -/
def carried {β : Type} (f : ε → List β) (t : List ε) : List β := t.flatMap f

@[simp] theorem carried_nil {β : Type} (f : ε → List β) : carried f [] = [] := rfl

@[simp] theorem carried_append {β : Type} (f : ε → List β) (t u : List ε) :
    carried f (t ++ u) = carried f t ++ carried f u := List.flatMap_append

@[simp] theorem carried_single {β : Type} (f : ε → List β) (e : ε) : carried f [e] = f e :=
  List.flatMap_singleton f e

/-! ## Waiting -/

/-- A wake-up: what is asleep goes on where it is woken to, the rest stays where it is. -/
def wake {ι : Type} [DecidableEq ι] (asleep woken loc : ι) : ι :=
  if loc = asleep then woken else loc

theorem wake_ne_asleep {ι : Type} [DecidableEq ι] {asleep woken : ι} (h : woken ≠ asleep)
    (loc : ι) : wake asleep woken loc ≠ asleep := by
  unfold wake
  split
  · exact h
  · assumption

/-- Who is found elsewhere has not been woken. -/
theorem eq_of_wake {ι : Type} [DecidableEq ι] {asleep woken loc l : ι}
    (h : wake asleep woken loc = l) (hl : l ≠ woken) : loc = l := by
  unfold wake at h
  split at h
  · exact absurd h.symm hl
  · exact h

/-! ## Open calls -/

/-- The label `call` is followed by `t'`, and no label in `t'` belongs to the side `p`. -/
def Open (p : ε → Bool) (call : ε) (t t' : List ε) : Prop :=
  ∃ t₀, t = t₀ ++ call :: t' ∧ ∀ e ∈ t', p e = false

theorem Open.start (p : ε → Bool) (call : ε) (t : List ε) : Open p call (t ++ [call]) [] :=
  ⟨t, rfl, by simp⟩

theorem Open.snoc {p : ε → Bool} {call : ε} {t t' : List ε} (h : Open p call t t') {e : ε}
    (he : p e = false) : Open p call (t ++ [e]) (t' ++ [e]) := by
  obtain ⟨t₀, rfl, hq⟩ := h
  refine ⟨t₀, by simp, fun x hx => ?_⟩
  rcases List.mem_append.mp hx with hx | hx
  · exact hq x hx
  · rw [List.mem_singleton.mp hx]
    exact he

/-- What no label carries has not been carried since either. -/
theorem Open.carried_eq_nil {β : Type} {f : ε → List β} {p : ε → Bool} {call : ε} {t t' : List ε}
    (h : Open p call t t') (hnone : carried f t = []) : carried f t' = [] := by
  obtain ⟨t₀, rfl, -⟩ := h
  rw [← List.singleton_append, carried_append, carried_append] at hnone
  exact (List.append_eq_nil_iff.mp (List.append_eq_nil_iff.mp hnone).2).2

/-! ## Objects that answer alike -/

section answers

variable {ι ω τ : Type}

/-- What an object answers to a sequence of calls. -/
def answers (call : ι → σ → ω × σ) : List ι → σ → List ω
  | [], _ => []
  | i :: is, s => (call i s).1 :: answers call is (call i s).2

/-- Objects in related states answer every sequence of calls alike. -/
theorem answers_eq {call : ι → σ → ω × σ} {call' : ι → τ → ω × τ} {R : σ → τ → Prop}
    (h : ∀ i s t, R s t → (call i s).1 = (call' i t).1 ∧ R (call i s).2 (call' i t).2)
    (is : List ι) {s : σ} {t : τ} (hR : R s t) : answers call is s = answers call' is t := by
  induction is generalizing s t with
  | nil => rfl
  | cons i is ih =>
    obtain ⟨hanswer, hnext⟩ := h i s t hR
    rw [answers, answers, hanswer, ih hnext]

end answers

end Traces
