/-
# Programs that run programs

A program over one interface is run over another one by giving a program for each of its calls.
What a machine says of the given programs is a machine for the calls, and what holds of the runs of
the first program on that machine holds where the given programs are run.  Two machines are compared
by a map of their states.  Nothing depends on a particular interface.
-/
import AioMod.ThrowProg

/-! ## Handlers -/

namespace Prog

variable {I J : Interface} {α β : Type}

theorem bind_assoc {γ : Type} (p : Prog I β) (f : β → Prog I γ) (g : γ → Prog I α) :
    (p.bind f).bind g = p.bind fun b => (f b).bind g := by
  induction p with
  | ret b => rfl
  | call o k ih => exact congrArg (Prog.call o) (funext ih)

/-- Run a program, each call of which is made by the program `h` has for it. -/
def handle (h : (o : I.Op) → Prog J (I.Res o)) : Prog I α → Prog J α
  | .ret a => .ret a
  | .call o k => (h o).bind fun r => (k r).handle h

theorem handle_bind (h : (o : I.Op) → Prog J (I.Res o)) (p : Prog I β) (f : β → Prog I α) :
    (p.bind f).handle h = (p.handle h).bind fun b => (f b).handle h := by
  induction p with
  | ret b => rfl
  | call o k ih =>
    show (h o).bind (fun r => ((k r).bind f).handle h) = _
    rw [show (fun r => ((k r).bind f).handle h) = _ from funext ih]
    exact (bind_assoc _ _ _).symm

/-- A handled program makes the calls of the programs it is handled by. -/
theorem calls_handle {h : (o : I.Op) → Prog J (I.Res o)} {P : I.Op → Prop} {P' : J.Op → Prop}
    (hh : ∀ o, P o → (h o).Calls P') {p : Prog I α} (hp : p.Calls P) : (p.handle h).Calls P' := by
  induction p with
  | ret a => exact trivial
  | call o k ih =>
    apply calls_bind (hh o hp.1)
    intro r
    exact ih r (hp.2 r)

theorem Calls.mono {P P' : I.Op → Prop} (h : ∀ o, P o → P' o) {p : Prog I α}
    (hp : p.Calls P) : p.Calls P' := by
  induction p with
  | ret a => exact trivial
  | call o k ih => exact ⟨h o hp.1, fun r => ih r (hp.2 r)⟩

end Prog

section handlers

variable {I J : Interface} {α σ τ : Type} {C : σ → Prop} {Q Q' : α → σ → Prop} {s : σ}

/-- The programs a program is handled by do what the machine `M'` says of its calls. -/
theorem wp_handle {M : Machine J σ} {M' : Machine I σ} {h : (o : I.Op) → Prog J (I.Res o)}
    (hh : ∀ s o, C s → wp M C (fun r s' => M' s o r s') (h o) s) {p : Prog I α}
    (hp : wp M' C Q p s) : wp M C Q (p.handle h) s := by
  induction p generalizing s with
  | ret a => exact hp
  | call o k ih =>
    apply wp_bind.mpr
    refine wp_conseq (hh s o hp.1) (fun _ hC => hC) ?_
    intro r s' _ hstep
    exact ih r (hp.2 r s' hstep)

/-- What holds on a machine holds on one that it simulates in the states that its steps keep. -/
theorem wp_comap_of {M : Machine I τ} {M' : Machine I σ} {K : τ → Prop} (f : τ → σ)
    (hf : ∀ t o r t', K t → M t o r t' → M' (f t) o r (f t') ∧ K t') {p : Prog I α} {t : τ}
    (hp : wp M' C Q p (f t)) (hK : K t) :
    wp M (fun t => C (f t)) (fun a t => Q a (f t)) p t := by
  induction p generalizing t with
  | ret a => exact hp
  | call o k ih =>
    refine ⟨hp.1, fun r t' ht => ?_⟩
    obtain ⟨hstep, hK'⟩ := hf t o r t' hK ht
    exact ih r (hp.2 r _ hstep) hK'

/-- What holds on a machine holds on one that it simulates. -/
theorem wp_comap {M : Machine I τ} {M' : Machine I σ} (f : τ → σ)
    (hf : ∀ t o r t', M t o r t' → M' (f t) o r (f t')) {p : Prog I α} {t : τ}
    (hp : wp M' C Q p (f t)) : wp M (fun t => C (f t)) (fun a t => Q a (f t)) p t :=
  wp_comap_of (K := fun _ => True) f (fun _ _ _ _ _ ht => ⟨hf _ _ _ _ ht, trivial⟩) hp trivial

theorem wp_top {M : Machine I σ} (p : Prog I α) (s : σ) :
    wp M (fun _ => True) (fun _ _ => True) p s := by
  induction p generalizing s with
  | ret a => exact ⟨trivial, trivial⟩
  | call o k ih => exact ⟨trivial, fun r s' _ => ih r s'⟩

/-- What every step keeps holds at the end as well. -/
theorem wp_frame {M : Machine I σ} {K : σ → Prop}
    (hK : ∀ s o r s', K s → M s o r s' → K s') {p : Prog I α} (h : wp M C Q p s) (hs : K s) :
    wp M C (fun a s' => Q a s' ∧ K s') p s := by
  induction p generalizing s with
  | ret a => exact ⟨h.1, h.2, hs⟩
  | call o k ih => exact ⟨h.1, fun r s' hstep => ih r (h.2 r s' hstep) (hK s o r s' hs hstep)⟩

end handlers

/-! ## Programs that throw -/

namespace Throws

variable {I J : Interface} {ε ε' α β σ τ : Type}

/-- Run a program that throws, each call of which is made by the program `h` has for it. -/
def handle (h : (o : I.Op) → Prog J (I.Res o)) (p : Throws I ε α) : Throws J ε α :=
  ExceptT.mk (p.run.handle h)

/-- Make the calls of a program that does not throw. -/
def lift (p : Prog I α) : Throws I ε α := ExceptT.mk (p.bind fun a => .ret (.ok a))

@[simp] theorem pure_bind (a : β) (f : β → Throws I ε α) :
    (pure a : Throws I ε β) >>= f = f a := rfl

@[simp] theorem throw_bind (e : ε) (f : β → Throws I ε α) :
    (throw e : Throws I ε β) >>= f = throw e := rfl

section equations

variable (h : (o : I.Op) → Prog J (I.Res o))

@[simp] theorem handle_pure (a : α) : handle h (pure a : Throws I ε α) = pure a := rfl

@[simp] theorem handle_throw (e : ε) : handle h (throw e : Throws I ε α) = throw e := rfl

@[simp] theorem handle_call (o : I.Op) : handle h (call o : Throws I ε _) = lift (h o) := rfl

theorem handle_bind (p : Throws I ε β) (f : β → Throws I ε α) :
    handle h (p >>= f) = handle h p >>= fun b => handle h (f b) := by
  apply (Prog.handle_bind h p.run _).trans
  apply congrArg
  funext r
  cases r with
  | ok b => rfl
  | error e => rfl

@[simp] theorem handle_require (c : Prop) [Decidable c] (e : ε) :
    handle h (require c e : Throws I ε Unit) = require c e := by
  unfold require
  split <;> rfl

@[simp] theorem handle_ite (c : Prop) [Decidable c] (p q : Throws I ε α) :
    handle h (if c then p else q) = if c then handle h p else handle h q := by
  split <;> rfl

theorem handle_foldlM (body : α → β → Throws I ε α) (l : List β) (a : α) :
    handle h (l.foldlM body a) = l.foldlM (fun a b => handle h (body a b)) a := by
  induction l generalizing a with
  | nil => rfl
  | cons b l ih =>
    rw [List.foldlM_cons, handle_bind, List.foldlM_cons]
    exact congrArg _ (funext ih)

end equations

section rules

variable {M : Machine I σ} {C : σ → Prop} {Q Q' : α → σ → Prop} {E E' : ε → σ → Prop} {s : σ}

theorem wpc_throw (e : ε) : wpc M C Q E (throw e : Throws I ε α) s ↔ C s ∧ E e s := Iff.rfl

/-- Consequence, for the crash condition as well. -/
theorem wpc_weaken {C' : σ → Prop} {p : Throws I ε α} (h : wpc M C Q E p s) (hC : ∀ s, C s → C' s)
    (hQ : ∀ a s, C s → Q a s → Q' a s) (hE : ∀ e s, C s → E e s → E' e s) :
    wpc M C' Q' E' p s := by
  refine wp_conseq h hC fun r s hCs hr => ?_
  cases r with
  | ok a => exact hQ a s hCs hr
  | error e => exact hE e s hCs hr

theorem wpc_lift {p : Prog I α} (h : wp M C Q p s) : wpc M C Q E (lift p : Throws I ε α) s := by
  apply wp_bind.mpr
  exact wp_conseq h (fun _ hC => hC) fun a s' hC hQ => ⟨hC, hQ⟩

/-- The rule of a loop over a list that carries a value. -/
theorem wpc_foldlM {body : α → β → Throws I ε α} (inv : List β → α → σ → Prop) (l : List β)
    (hbody : ∀ pre b post a s, l = pre ++ b :: post → inv pre a s →
      wpc M C (fun a' => inv (pre ++ [b]) a') E (body a b) s)
    (hend : ∀ a s, inv l a s → C s ∧ Q a s) {a : α} (h0 : inv [] a s) :
    wpc M C Q E (l.foldlM body a) s := by
  have go : ∀ post pre a s, l = pre ++ post → inv pre a s →
      wpc M C Q E (post.foldlM body a) s := by
    intro post
    induction post with
    | nil =>
      intro pre a s hl hi
      rw [List.append_nil] at hl
      rw [List.foldlM_nil, wpc_pure]
      exact hend a s (hl ▸ hi)
    | cons b post ih =>
      intro pre a s hl hi
      rw [List.foldlM_cons]
      apply wpc_bind
      refine wpc_conseq (hbody pre b post a s hl hi) ?_ (fun _ _ _ h => h)
      intro a' s' _ hs'
      exact ih (pre ++ [b]) a' s' (by simp [hl]) hs'
  exact go l [] a s rfl h0

/-- The rule of a loop over a list. -/
theorem wpc_forEach {body : β → Throws I ε Unit} {Q : Unit → σ → Prop} (inv : List β → σ → Prop)
    (l : List β)
    (hbody : ∀ pre b post s, l = pre ++ b :: post → inv pre s →
      wpc M C (fun _ => inv (pre ++ [b])) E (body b) s)
    (hend : ∀ s, inv l s → C s ∧ Q () s) (h0 : inv [] s) : wpc M C Q E (forEach body l) s := by
  have go : ∀ post pre s, l = pre ++ post → inv pre s → wpc M C Q E (forEach body post) s := by
    intro post
    induction post with
    | nil =>
      intro pre s hl hi
      rw [List.append_nil] at hl
      exact hend s (hl ▸ hi)
    | cons b post ih =>
      intro pre s hl hi
      apply wpc_bind
      refine wpc_conseq (hbody pre b post s hl hi) ?_ (fun _ _ _ h => h)
      intro _ s' _ hs'
      exact ih (pre ++ [b]) s' (by simp [hl]) hs'
  exact go l [] s rfl h0

theorem forEach_map {γ : Type} (body : β → Throws I ε Unit) (f : γ → β) (l : List γ) :
    forEach body (l.map f) = forEach (fun c => body (f c)) l := by
  induction l with
  | nil => rfl
  | cons c l ih =>
    rw [List.map_cons, forEach, forEach, ih]

/-- What the calls of a program keep holds wherever it ends. -/
theorem wpc_of_calls {P : I.Op → Prop} {p : Throws I ε α} (hp : p.run.Calls P)
    (hstep : ∀ s o r s', P o → C s → M s o r s' → C s') (hs : C s) :
    wpc M C (fun _ => C) (fun _ => C) p s := by
  refine wp_conseq (wp_of_calls hp hstep hs) (fun _ h => h) ?_
  intro r s' _ hC
  cases r with
  | ok a => exact hC
  | error e => exact hC

end rules

/-! ## The calls of a program that throws -/

section calls

variable {P : I.Op → Prop}

theorem calls_pure (a : α) : (pure a : Throws I ε α).run.Calls P := trivial

theorem calls_bind {p : Throws I ε β} {f : β → Throws I ε α} (hp : p.run.Calls P)
    (hf : ∀ b, (f b).run.Calls P) : (p >>= f).run.Calls P := by
  apply Prog.calls_bind hp
  intro r
  cases r with
  | ok b => exact hf b
  | error e => exact trivial

theorem calls_call {o : I.Op} (h : P o) : (call o : Throws I ε _).run.Calls P :=
  ⟨h, fun _ => trivial⟩

theorem calls_require (c : Prop) [Decidable c] (e : ε) :
    (require c e : Throws I ε Unit).run.Calls P := by
  unfold require
  split <;> exact trivial

theorem calls_ite {c : Prop} [Decidable c] {p q : Throws I ε α} (hp : c → p.run.Calls P)
    (hq : ¬c → q.run.Calls P) : (if c then p else q).run.Calls P := by
  split
  · rename_i h
    exact hp h
  · rename_i h
    exact hq h

theorem calls_lift {p : Prog I α} (hp : p.Calls P) : (lift p : Throws I ε α).run.Calls P :=
  Prog.calls_bind hp fun _ => trivial

theorem calls_forEach {body : β → Throws I ε Unit} (l : List β)
    (hbody : ∀ b ∈ l, (body b).run.Calls P) : (forEach body l).run.Calls P := by
  induction l with
  | nil => exact trivial
  | cons b l ih =>
    apply calls_bind (hbody b List.mem_cons_self)
    intro _
    exact ih fun b hb => hbody b (List.mem_cons_of_mem _ hb)

end calls

end Throws
