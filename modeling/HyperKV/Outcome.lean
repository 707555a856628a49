import Mathlib.Data.List.Forall2

namespace Outcome

variable {ε ε' α β σ : Type}

/-- A computation returns a value satisfying `P`, or stops with a fault that
    `tolerated` admits. With nothing tolerated this is total correctness. -/
def Ensures (tolerated : ε → Prop) (x : Except ε α) (P : α → Prop) : Prop :=
  match x with
  | .ok a => P a
  | .error e => tolerated e

instance (tolerated : ε → Prop) (x : Except ε α) (P : α → Prop) [DecidablePred tolerated] [DecidablePred P] :
    Decidable (Ensures tolerated x P) :=
  match x with
  | .ok a => inferInstanceAs (Decidable (P a))
  | .error e => inferInstanceAs (Decidable (tolerated e))

/-- Tolerating every fault leaves partial correctness. -/
def AnyFault (_ : ε) : Prop := True

/-- Tolerating none is total correctness. -/
def NoFault (_ : ε) : Prop := False

variable {tolerated : ε → Prop} {P Q : α → Prop}

@[simp] theorem ensures_ok {a : α} : Ensures tolerated (.ok a) P ↔ P a := Iff.rfl

@[simp] theorem ensures_error {e : ε} : Ensures tolerated (.error e) P ↔ tolerated e := Iff.rfl

theorem Ensures.of_eq_ok {x : Except ε α} {a : α} (h : Ensures tolerated x P) (hx : x = .ok a) :
    P a := by
  subst hx
  exact h

theorem ensures_iff {x : Except ε α} :
    Ensures tolerated x P ↔ (∀ a, x = .ok a → P a) ∧ ∀ e, x = .error e → tolerated e := by
  cases x <;> simp

/-- With no tolerated fault, the computation returns. -/
theorem Ensures.exists_ok {x : Except ε α} (h : Ensures tolerated x P) (hnone : ∀ e, ¬ tolerated e) :
    ∃ a, x = .ok a ∧ P a := by
  cases x with
  | ok a => exact ⟨a, rfl, h⟩
  | error e => exact absurd h (hnone e)

theorem Ensures.mono {x : Except ε α} (h : Ensures tolerated x P) (hPQ : ∀ a, P a → Q a) :
    Ensures tolerated x Q := by
  cases x with
  | ok a => exact hPQ a h
  | error e => exact h

/-- Weakening when the reason also needs to know which value was returned. -/
theorem Ensures.mono_eq {x : Except ε α} (h : Ensures tolerated x P) (hPQ : ∀ a, x = .ok a → P a → Q a) :
    Ensures tolerated x Q := by
  cases x with
  | ok a => exact hPQ a rfl h
  | error e => exact h

theorem Ensures.tolerate {tolerated' : ε → Prop} {x : Except ε α} (h : Ensures tolerated x P)
    (hfault : ∀ e, tolerated e → tolerated' e) : Ensures tolerated' x P := by
  cases x with
  | ok a => exact h
  | error e => exact hfault e h

theorem Ensures.anyFault {x : Except ε α} (h : Ensures tolerated x P) : Ensures AnyFault x P :=
  h.tolerate (fun _ _ => trivial)

/-- A partial-correctness fact joins a specification of the same computation. -/
theorem Ensures.and {x : Except ε α} (h : Ensures tolerated x P) (h' : Ensures AnyFault x Q) :
    Ensures tolerated x (fun a => P a ∧ Q a) := by
  cases x with
  | ok a => exact ⟨h, h'⟩
  | error e => exact h

/-- Nothing is asked of the value, and every fault is admitted. -/
theorem ensures_any (x : Except ε α) : Ensures AnyFault x (fun _ => True) := by
  cases x <;> trivial

/-- The sequencing rule. -/
theorem Ensures.bind {x : Except ε α} {f : α → Except ε β} {R : β → Prop}
    (hx : Ensures tolerated x P) (hf : ∀ a, P a → Ensures tolerated (f a) R) :
    Ensures tolerated (x >>= f) R := by
  cases x with
  | ok a => exact hf a hx
  | error e => exact hx

/-- Sequencing when the continuation also needs to know which value was returned. -/
theorem Ensures.bind_eq {x : Except ε α} {f : α → Except ε β} {R : β → Prop}
    (hx : Ensures tolerated x P) (hf : ∀ a, x = .ok a → P a → Ensures tolerated (f a) R) :
    Ensures tolerated (x >>= f) R := by
  cases x with
  | ok a => exact hf a rfl hx
  | error e => exact hx

theorem ensures_map {x : Except ε α} {f : α → β} {R : β → Prop} :
    Ensures tolerated (f <$> x) R ↔ Ensures tolerated x (fun a => R (f a)) := by
  cases x <;> exact Iff.rfl

theorem Ensures.map {x : Except ε α} {f : α → β} {R : β → Prop}
    (hx : Ensures tolerated x (fun a => R (f a))) : Ensures tolerated (f <$> x) R :=
  ensures_map.mpr hx

theorem ensures_mapError {f : ε → ε'} {tolerated : ε' → Prop} {x : Except ε α} :
    Ensures tolerated (x.mapError f) P ↔ Ensures (fun e => tolerated (f e)) x P := by
  cases x <;> exact Iff.rfl

/-- What holds of a wrapped result holds of the result. -/
theorem Ensures.of_return {x : Except ε α} {f : α → β} {R : β → Prop}
    (h : Ensures tolerated (x >>= fun a => pure (f a)) R) : Ensures tolerated x (fun a => R (f a)) := by
  cases x with
  | ok a => exact h
  | error e => exact h

/-- Sequencing when nothing is known of the first computation. -/
theorem Ensures.bind_any {x : Except ε α} {f : α → Except ε β} {R : β → Prop}
    (hf : ∀ a, Ensures AnyFault (f a) R) : Ensures AnyFault (x >>= f) R :=
  (ensures_any x).bind (fun a _ => hf a)

@[simp] theorem ok_bind (a : α) (f : α → Except ε β) : (Except.ok a >>= f) = f a := rfl

@[simp] theorem error_bind (e : ε) (f : α → Except ε β) : (Except.error e >>= f) = Except.error e := rfl

/-- The loop rule: an invariant indexed by the elements still to be processed
    that every step keeps holds of the final accumulator. -/
theorem Ensures.foldlM (inv : List α → σ → Prop) {f : σ → α → Except ε σ}
    (hstep : ∀ a rest s, inv (a :: rest) s → Ensures tolerated (f s a) (inv rest)) :
    ∀ (l : List α) (s : σ), inv l s → Ensures tolerated (l.foldlM f s) (inv []) := by
  intro l
  induction l with
  | nil => intro s hs; exact hs
  | cons a rest ih =>
    intro s hs
    rw [List.foldlM_cons]
    exact (hstep a rest s hs).bind (fun s' hs' => ih s' hs')

/-- The rule for a list of independent computations. -/
theorem Ensures.mapM {f : α → Except ε β} {R : α → β → Prop} (l : List α)
    (h : ∀ a ∈ l, Ensures tolerated (f a) (R a)) : Ensures tolerated (l.mapM f) (List.Forall₂ R l) := by
  induction l with
  | nil => exact List.Forall₂.nil
  | cons a l ih =>
    rw [List.mapM_cons]
    refine (h a List.mem_cons_self).bind (fun b hb => ?_)
    refine (ih (fun a' ha' => h a' (List.mem_cons_of_mem _ ha'))).bind (fun bs hbs => ?_)
    exact List.Forall₂.cons hb hbs

/-- The rule for what all the results have in common. -/
theorem Ensures.mapM_forall {f : α → Except ε β} {Q : β → Prop} (l : List α)
    (h : ∀ a ∈ l, Ensures tolerated (f a) Q) : Ensures tolerated (l.mapM f) (fun bs => ∀ b ∈ bs, Q b) := by
  refine (Ensures.mapM (R := fun _ b => Q b) l h).mono ?_
  intro bs hbs
  clear h
  induction hbs with
  | nil => exact List.forall_mem_nil Q
  | cons hb _ ih => exact List.forall_mem_cons.mpr ⟨hb, ih⟩

/-- The rule for computations that are known to return the values of a function. -/
theorem Ensures.mapM_eq {f : α → Except ε β} {g : α → β} (l : List α)
    (h : ∀ a ∈ l, Ensures tolerated (f a) (fun b => b = g a)) :
    Ensures tolerated (l.mapM f) (fun bs => bs = l.map g) := by
  refine (Ensures.mapM l h).mono ?_
  intro bs hbs
  clear h
  induction hbs with
  | nil => rfl
  | cons hb _ ih => rw [hb, ih, List.map_cons]

/-- Every step of a run meets a condition on the state before it. A run ends
    where a step faults. -/
def meets (step : σ → α → Except ε σ) (cond : σ → α → Bool) : σ → List α → Bool
  | _, [] => true
  | s, a :: rest => cond s a &&
    match step s a with
    | .ok s' => meets step cond s' rest
    | .error _ => true

/-- The simulation rule: what relates a state to an abstract one, and is kept by
    every step that meets the condition, relates the states after whole runs. -/
theorem Ensures.simulate {τ : Type} {step : σ → α → Except ε σ} {cond : σ → α → Bool} (R : σ → τ → Prop)
    (spec : τ → α → τ)
    (hstep : ∀ s t a, R s t → cond s a → Ensures tolerated (step s a) (fun s' => R s' (spec t a))) :
    ∀ (l : List α) (s : σ) (t : τ), R s t → meets step cond s l →
      Ensures tolerated (l.foldlM step s) (fun s' => R s' (l.foldl spec t)) := by
  intro l
  induction l with
  | nil => intro s t hR _; exact hR
  | cons a rest ih =>
    intro s t hR hmeets
    simp only [meets, Bool.and_eq_true] at hmeets
    rw [List.foldlM_cons]
    refine (hstep s t a hR hmeets.1).bind_eq ?_
    intro s' hs' hR'
    rw [hs'] at hmeets
    exact ih s' (spec t a) hR' hmeets.2

/-- The invariant rule for runs whose steps meet a condition. -/
theorem Ensures.invariant {step : σ → α → Except ε σ} {cond : σ → α → Bool} (inv : σ → Prop)
    (hstep : ∀ s a, inv s → cond s a → Ensures tolerated (step s a) inv) (l : List α) (s : σ) (hs : inv s)
    (hmeets : meets step cond s l) : Ensures tolerated (l.foldlM step s) inv :=
  Ensures.simulate (fun s (_ : Unit) => inv s) (fun _ _ => ()) (fun s _ a => hstep s a) l s () hs hmeets

theorem meets_cons {step : σ → α → Except ε σ} {cond : σ → α → Bool} {a : α} {rest : List α} {s : σ} :
    meets step cond s (a :: rest) ↔
      cond s a ∧ Ensures AnyFault (step s a) (fun s' => meets step cond s' rest) := by
  rw [meets, Bool.and_eq_true]
  cases step s a with
  | ok s' => exact Iff.rfl
  | error e => exact and_congr_right (fun _ => iff_of_true rfl trivial)

theorem meets_append {step : σ → α → Except ε σ} {cond : σ → α → Bool} (l l' : List α) (s : σ) :
    meets step cond s (l ++ l') ↔ meets step cond s l ∧
      Ensures AnyFault (l.foldlM step s) (fun s' => meets step cond s' l') := by
  induction l generalizing s with
  | nil => exact (and_iff_right rfl).symm
  | cons a rest ih =>
    rw [List.cons_append, meets_cons, meets_cons, List.foldlM_cons, and_assoc]
    cases step s a with
    | error e => exact and_congr_right (fun _ => (and_iff_right trivial).symm)
    | ok s' => exact and_congr_right (fun _ => ih s')

/-- The invariant rule for the condition itself: an invariant that implies it,
    and that every step keeps, makes it hold at every step of the run. -/
theorem meets_of_invariant {step : σ → α → Except ε σ} {cond : σ → α → Bool} (inv : List α → σ → Prop)
    (hstep : ∀ a rest s, inv (a :: rest) s → cond s a ∧ Ensures AnyFault (step s a) (inv rest)) :
    ∀ (l : List α) (s : σ), inv l s → meets step cond s l := by
  intro l
  induction l with
  | nil => intro s _; rfl
  | cons a rest ih =>
    intro s hs
    obtain ⟨hcond, hnext⟩ := hstep a rest s hs
    exact meets_cons.mpr ⟨hcond, hnext.mono (fun s' hs' => ih s' hs')⟩

/-- A condition that another implies wherever an invariant holds. -/
theorem meets_mono {step : σ → α → Except ε σ} {cond cond' : σ → α → Bool} (inv : σ → Prop)
    (hkeeps : ∀ s a, inv s → Ensures AnyFault (step s a) inv) (himp : ∀ s a, inv s → cond s a → cond' s a)
    {l : List α} {s : σ} (hs : inv s) (h : meets step cond s l) : meets step cond' s l := by
  refine meets_of_invariant (fun rest s => inv s ∧ meets step cond s rest) ?_ l s ⟨hs, h⟩
  rintro a rest s ⟨hs, hrest⟩
  rw [meets_cons] at hrest
  exact ⟨himp s a hs hrest.1, (hkeeps s a hs).and hrest.2⟩

theorem meets_true {step : σ → α → Except ε σ} (l : List α) (s : σ) : meets step (fun _ _ => true) s l :=
  meets_of_invariant (fun _ _ => True) (fun _ _ s _ => ⟨rfl, ensures_any (step s _)⟩) l s trivial

/-- Two steps that are the same under the condition make the same runs. -/
theorem foldlM_eq_of_meets {step step' : σ → α → Except ε σ} {cond : σ → α → Bool}
    (hsame : ∀ s a, cond s a → step' s a = step s a) (l : List α) (s : σ) (hmeets : meets step cond s l) :
    l.foldlM step' s = l.foldlM step s := by
  induction l generalizing s with
  | nil => rfl
  | cons a rest ih =>
    rw [meets_cons] at hmeets
    rw [List.foldlM_cons, List.foldlM_cons, hsame s a hmeets.1]
    cases hstep : step s a with
    | error e => rfl
    | ok s' =>
      rw [hstep] at hmeets
      exact ih s' hmeets.2

/-- Two steps that are the same wherever an invariant holds, which may speak of the
    inputs to come, make the same runs. -/
theorem foldlM_eq_of_invariant {step step' : σ → α → Except ε σ} (inv : List α → σ → Prop)
    (hstep : ∀ a rest s, inv (a :: rest) s →
      step' s a = step s a ∧ Ensures AnyFault (step s a) (inv rest)) (l : List α) (s : σ)
    (hs : inv l s) : l.foldlM step' s = l.foldlM step s := by
  induction l generalizing s with
  | nil => rfl
  | cons a rest ih =>
    obtain ⟨hsame, hnext⟩ := hstep a rest s hs
    rw [List.foldlM_cons, List.foldlM_cons, hsame]
    cases htaken : step s a with
    | error e => rfl
    | ok s' => exact ih s' (hnext.of_eq_ok htaken)

end Outcome
