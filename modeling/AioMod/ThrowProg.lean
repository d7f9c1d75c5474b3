/-
# Programs that throw

A program over an interface may end with an exception instead of a value.  The weakest
precondition of such a program has one postcondition for each end.  A program is run to its end
here, whatever its calls return; nothing depends on a particular interface.
-/
import AioMod.CrashProg

/-! ## Programs and their two ends -/

/-- A program over `I` that returns an `α` or throws an `ε`. -/
abbrev Throws (I : Interface) (ε α : Type) : Type := ExceptT ε (Prog I) α

namespace Throws

variable {I : Interface} {ε α β σ : Type}

/-- A call. -/
def call (o : I.Op) : Throws I ε (I.Res o) := ExceptT.mk ((Prog.op o).bind fun r => .ret (.ok r))

/-- Throw unless the condition holds. -/
def require (c : Prop) [Decidable c] (e : ε) : Throws I ε Unit := if c then pure () else throw e

/-- Run the body on each element of a list. -/
def forEach (body : β → Throws I ε Unit) : List β → Throws I ε Unit
  | [] => pure ()
  | b :: bs => do
    body b
    forEach body bs

/-- The body on each element of a list, and the list of the results that are there. -/
def collect (body : β → Throws I ε (Option α)) : List β → Throws I ε (List α)
  | [] => pure []
  | b :: bs => do
    let a ← body b
    let as ← collect body bs
    pure (a.toList ++ as)

/-- A postcondition for each end. -/
def ends (Q : α → σ → Prop) (E : ε → σ → Prop) : Except ε α → σ → Prop
  | .ok a, s => Q a s
  | .error e, s => E e s

/-- The weakest precondition: `Q` where the program returns, `E` where it throws. -/
def wpx (M : Machine I σ) (Q : α → σ → Prop) (E : ε → σ → Prop) (p : Throws I ε α) (s : σ) :
    Prop :=
  wp M (fun _ => True) (ends Q E) p.run s

/-- The program can end so. -/
def Ends (M : Machine I σ) (p : Throws I ε α) (s : σ) (r : Except ε α) (s' : σ) : Prop :=
  Run M p.run s (some r) s'

/-- The end of a program whose calls are answered by `f`. -/
def exec (f : σ → (o : I.Op) → I.Res o × σ) (p : Throws I ε α) (s : σ) : Except ε α × σ :=
  go p.run s
where
  go : Prog I (Except ε α) → σ → Except ε α × σ
    | .ret r, s => (r, s)
    | .call o k, s => go (k (f s o).1) (f s o).2

section rules

variable {M M' : Machine I σ} {Q Q' : α → σ → Prop} {E E' : ε → σ → Prop} {s s' : σ}

@[simp] theorem wpx_pure (a : α) : wpx M Q E (pure a : Throws I ε α) s ↔ Q a s :=
  and_iff_right trivial

@[simp] theorem wpx_throw (e : ε) : wpx M Q E (throw e : Throws I ε α) s ↔ E e s :=
  and_iff_right trivial

/-- Sequencing. -/
theorem wpx_bind {p : Throws I ε β} {f : β → Throws I ε α} :
    wpx M Q E (p >>= f) s ↔ wpx M (fun b => wpx M Q E (f b)) E p s := by
  have hpost : (fun r => wp M (fun _ => True) (ends Q E) (ExceptT.bindCont f r))
      = ends (fun b => wpx M Q E (f b)) E := by
    funext r s'
    cases r with
    | ok b => rfl
    | error e => exact propext (and_iff_right trivial)
  refine (wp_bind (p := p.run)).trans ?_
  rw [hpost]
  rfl

/-- A handler. -/
theorem wpx_catch {p : Throws I ε α} {h : ε → Throws I ε α} :
    wpx M Q E (tryCatch p h) s ↔ wpx M Q (fun e => wpx M Q E (h e)) p s := by
  let cont : Except ε α → Prog I (Except ε α) := fun
    | .ok a => .ret (.ok a)
    | .error e => (h e).run
  have hpost : (fun r => wp M (fun _ => True) (ends Q E) (cont r))
      = ends Q (fun e => wpx M Q E (h e)) := by
    funext r s'
    cases r with
    | ok a => exact propext (and_iff_right trivial)
    | error e => rfl
  have hcatch : (tryCatch p h : Throws I ε α).run = p.run.bind cont := by
    show Prog.bind p.run _ = Prog.bind p.run cont
    congr 1
  rw [wpx, hcatch, wp_bind, hpost]
  rfl

/-- A call. -/
theorem wpx_call {o : I.Op} {Q : I.Res o → σ → Prop} :
    wpx M Q E (call o : Throws I ε _) s ↔ ∀ r s', M s o r s' → Q r s' := by
  show wp M (fun _ => True) (ends Q E) (.call o fun r => .ret (.ok r)) s ↔ _
  simp only [wp_call, wp_ret, true_and]
  rfl

theorem wpx_require {c : Prop} [Decidable c] {e : ε} {Q : Unit → σ → Prop} :
    wpx M Q E (require c e : Throws I ε Unit) s ↔ (c → Q () s) ∧ (¬ c → E e s) := by
  by_cases hc : c
  · simp [require, hc]
  · simp [require, hc]

/-- Consequence, for both ends and for a machine with fewer steps. -/
theorem wpx_mono {p : Throws I ε α} (h : wpx M Q E p s)
    (hM : ∀ s o r s', M' s o r s' → M s o r s') (hQ : ∀ a s, Q a s → Q' a s)
    (hE : ∀ e s, E e s → E' e s) : wpx M' Q' E' p s := by
  refine wp_mono h hM (fun _ h => h) fun r s hr => ?_
  cases r with
  | ok a => exact hQ a s hr
  | error e => exact hE e s hr

/-- Consequence on one machine. -/
theorem wpx_conseq {p : Throws I ε α} (h : wpx M Q E p s) (hQ : ∀ a s, Q a s → Q' a s)
    (hE : ∀ e s, E e s → E' e s) : wpx M Q' E' p s :=
  wpx_mono h (fun _ _ _ _ h => h) hQ hE

/-- Every end is described. -/
theorem wpx_sound {p : Throws I ε α} (h : wpx M Q E p s) {r : Except ε α}
    (hr : Ends M p s r s') : ends Q E r s' := wp_sound h hr

/-- Where `f` answers as the machine can, the program can end as it says. -/
theorem exec_ends {f : σ → (o : I.Op) → I.Res o × σ} (hf : ∀ s o, M s o (f s o).1 (f s o).2)
    (p : Throws I ε α) (s : σ) : Ends M p s (exec f p s).1 (exec f p s).2 := by
  have hgo : ∀ (p : Prog I (Except ε α)) s,
      Run M p s (some (exec.go f p s).1) (exec.go f p s).2 := by
    intro p
    induction p with
    | ret r => exact fun s => .ret r s
    | call o k ih => exact fun s => .call (hf s o) (ih _ _)
  exact hgo p.run s

/-- The rule of a loop over a list: an invariant indexed by the elements done so far, kept by the
body where it returns. -/
theorem wpx_forEach {body : β → Throws I ε Unit} {Q : Unit → σ → Prop} (inv : List β → σ → Prop)
    (l : List β)
    (hbody : ∀ pre b post s, l = pre ++ b :: post → inv pre s →
      wpx M (fun _ => inv (pre ++ [b])) E (body b) s)
    (hend : ∀ s, inv l s → Q () s) (h0 : inv [] s) : wpx M Q E (forEach body l) s := by
  have go : ∀ post pre s, l = pre ++ post → inv pre s → wpx M Q E (forEach body post) s := by
    intro post
    induction post with
    | nil =>
      intro pre s hl hi
      rw [List.append_nil] at hl
      rw [forEach, wpx_pure]
      exact hend s (hl ▸ hi)
    | cons b post ih =>
      intro pre s hl hi
      rw [forEach, wpx_bind]
      refine wpx_conseq (hbody pre b post s hl hi) (fun _ s' hs' => ?_) (fun _ _ h => h)
      exact ih (pre ++ [b]) s' (by simp [hl]) hs'
  exact go l [] s rfl h0

/-- The rule of a loop over a list that carries a value. -/
theorem wpx_foldlM {body : α → β → Throws I ε α} {Q : α → σ → Prop} (inv : List β → α → σ → Prop)
    (l : List β)
    (hbody : ∀ pre b post a s, l = pre ++ b :: post → inv pre a s →
      wpx M (fun a' => inv (pre ++ [b]) a') E (body a b) s)
    (hend : ∀ a s, inv l a s → Q a s) {a : α} (h0 : inv [] a s) :
    wpx M Q E (l.foldlM body a) s := by
  have go : ∀ post pre a s, l = pre ++ post → inv pre a s →
      wpx M Q E (post.foldlM body a) s := by
    intro post
    induction post with
    | nil =>
      intro pre a s hl hi
      rw [List.append_nil] at hl
      rw [List.foldlM_nil, wpx_pure]
      exact hend a s (hl ▸ hi)
    | cons b post ih =>
      intro pre a s hl hi
      rw [List.foldlM_cons, wpx_bind]
      refine wpx_conseq (hbody pre b post a s hl hi) (fun a' s' hs' => ?_) (fun _ _ h => h)
      exact ih (pre ++ [b]) a' s' (by simp [hl]) hs'
  exact go l [] a s rfl h0

/-- The rule of a loop that collects: what is collected comes from some element, and what the body
comes to for an element is collected; the state keeps an invariant. -/
theorem wpx_collect {body : β → Throws I ε (Option α)} {Q : List α → σ → Prop}
    (inv : σ → Prop) (R : β → Option α → Prop) (l : List β)
    (hbody : ∀ b ∈ l, ∀ s, inv s → wpx M (fun a s' => inv s' ∧ R b a) E (body b) s)
    (hend : ∀ as s, inv s → (∀ a ∈ as, ∃ b ∈ l, R b (some a)) →
      (∀ b ∈ l, ∃ a, R b a ∧ ∀ x ∈ a, x ∈ as) → Q as s) (h0 : inv s) :
    wpx M Q E (collect body l) s := by
  induction l generalizing s Q with
  | nil =>
    rw [collect, wpx_pure]
    exact hend [] s h0 (by simp) (by simp)
  | cons b l ih =>
    rw [collect, wpx_bind]
    refine wpx_conseq (hbody b List.mem_cons_self s h0) (fun a s' h => ?_) (fun _ _ h => h)
    rw [wpx_bind]
    refine ih (fun b hb => hbody b (List.mem_cons_of_mem _ hb)) (fun as s'' hs hin hall => ?_) h.1
    rw [wpx_pure]
    refine hend _ _ hs (fun x hx => ?_) (fun c hc => ?_)
    · rcases List.mem_append.mp hx with hx | hx
      · refine ⟨b, List.mem_cons_self, ?_⟩
        rw [← Option.mem_toList.mp hx]
        exact h.2
      · obtain ⟨c, hc, hR⟩ := hin x hx
        exact ⟨c, List.mem_cons_of_mem _ hc, hR⟩
    · rcases List.mem_cons.mp hc with rfl | hc
      · exact ⟨a, h.2, fun x hx => List.mem_append_left _ (Option.mem_toList.mpr hx)⟩
      · obtain ⟨a', hR, hx⟩ := hall c hc
        exact ⟨a', hR, fun x hx' => List.mem_append_right _ (hx x hx')⟩

end rules

/-! ## Programs that are cut -/

/-- The weakest precondition with a crash condition. -/
def wpc (M : Machine I σ) (C : σ → Prop) (Q : α → σ → Prop) (E : ε → σ → Prop)
    (p : Throws I ε α) (s : σ) : Prop :=
  wp M C (ends Q E) p.run s

section crashes

variable {M : Machine I σ} {C : σ → Prop} {Q Q' : α → σ → Prop} {E E' : ε → σ → Prop} {s s' : σ}

theorem wpc_pure (a : α) : wpc M C Q E (pure a : Throws I ε α) s ↔ C s ∧ Q a s := Iff.rfl

/-- Sequencing. -/
theorem wpc_bind {p : Throws I ε β} {f : β → Throws I ε α}
    (h : wpc M C (fun b => wpc M C Q E (f b)) E p s) : wpc M C Q E (p >>= f) s := by
  refine (wp_bind (p := p.run)).mpr ?_
  refine wp_conseq h (fun _ h => h) fun r s' hC hr => ?_
  cases r with
  | ok b => exact hr
  | error e => exact ⟨hC, hr⟩

/-- A handler. -/
theorem wpc_catch {p : Throws I ε α} {h : ε → Throws I ε α}
    (hp : wpc M C Q (fun e => wpc M C Q E (h e)) p s) : wpc M C Q E (tryCatch p h) s := by
  let cont : Except ε α → Prog I (Except ε α) := fun
    | .ok a => .ret (.ok a)
    | .error e => (h e).run
  have hcatch : (tryCatch p h : Throws I ε α).run = p.run.bind cont := by
    show Prog.bind p.run _ = Prog.bind p.run cont
    congr 1
  rw [wpc, hcatch, wp_bind]
  refine wp_conseq hp (fun _ h => h) fun r s' hC hr => ?_
  cases r with
  | ok a => exact ⟨hC, hr⟩
  | error e => exact hr

/-- A call. -/
theorem wpc_call {o : I.Op} {Q : I.Res o → σ → Prop} (hC : C s)
    (hQ : ∀ r s', M s o r s' → C s' ∧ Q r s') : wpc M C Q E (call o : Throws I ε _) s :=
  ⟨hC, fun r s' hs => hQ r s' hs⟩

theorem wpc_require {c : Prop} [Decidable c] {e : ε} {Q : Unit → σ → Prop} (hC : C s)
    (hQ : c → Q () s) (hE : ¬c → E e s) : wpc M C Q E (require c e : Throws I ε Unit) s := by
  unfold require
  split
  · rename_i hc
    exact ⟨hC, hQ hc⟩
  · rename_i hc
    exact ⟨hC, hE hc⟩

/-- Consequence. -/
theorem wpc_conseq {p : Throws I ε α} (h : wpc M C Q E p s) (hQ : ∀ a s, C s → Q a s → Q' a s)
    (hE : ∀ e s, C s → E e s → E' e s) : wpc M C Q' E' p s := by
  refine wp_conseq h (fun _ h => h) fun r s hC hr => ?_
  cases r with
  | ok a => exact hQ a s hC hr
  | error e => exact hE e s hC hr

end crashes

end Throws
