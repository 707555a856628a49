import HyperKV.Outcome

namespace Outcome

variable {ε α β σ : Type} {x' x : Except ε α} {P Q : α → Prop}

/-- Two computations do the same, and `P` holds of what they return. -/
structure Same (x' x : Except ε α) (P : α → Prop) : Prop where
  eq : x' = x
  ensures : Ensures AnyFault x P

theorem Ensures.same (h : Ensures AnyFault x P) : Same x x P := ⟨rfl, h⟩

theorem Same.mono (h : Same x' x P) (hPQ : ∀ a, P a → Q a) : Same x' x Q := ⟨h.eq, h.ensures.mono hPQ⟩

theorem Same.and (h : Same x' x P) (h' : Ensures AnyFault x Q) : Same x' x (fun a => P a ∧ Q a) :=
  ⟨h.eq, h.ensures.and h'⟩

theorem Same.bind {f' f : α → Except ε β} {R : β → Prop} (hx : Same x' x P)
    (hf : ∀ a, P a → Same (f' a) (f a) R) : Same (x' >>= f') (x >>= f) R := by
  obtain ⟨rfl, hx⟩ := hx
  refine ⟨?_, hx.bind fun a ha => (hf a ha).ensures⟩
  cases x' with
  | error e => rfl
  | ok a => exact (hf a hx).eq

/-- After a computation that both begin with. -/
theorem Ensures.bind_same {f' f : α → Except ε β} {R : β → Prop} (hx : Ensures AnyFault x P)
    (hf : ∀ a, P a → Same (f' a) (f a) R) : Same (x >>= f') (x >>= f) R := hx.same.bind hf

theorem Same.map {f : α → β} {R : β → Prop} (hx : Same x' x (fun a => R (f a))) :
    Same (f <$> x') (f <$> x) R := ⟨congrArg (f <$> ·) hx.eq, Ensures.map hx.ensures⟩

theorem Same.mapError {ε' : Type} (f : ε → ε') (hx : Same x' x P) :
    Same (x'.mapError f) (x.mapError f) P :=
  ⟨congrArg (Except.mapError f) hx.eq, ensures_mapError.mpr hx.ensures⟩

theorem Same.ite {c : Prop} [Decidable c] {y' y : Except ε α} (hthen : c → Same x' x P)
    (helse : ¬ c → Same y' y P) : Same (if c then x' else y') (if c then x else y) P := by
  split
  · rename_i hc
    exact hthen hc
  · rename_i hc
    exact helse hc

/-- The loop rule, with an invariant indexed by the elements still to be processed. -/
theorem Same.foldlM (inv : List α → σ → Prop) {f' f : σ → α → Except ε σ}
    (hstep : ∀ a rest s, inv (a :: rest) s → Same (f' s a) (f s a) (inv rest)) (l : List α) (s : σ)
    (hs : inv l s) : Same (l.foldlM f' s) (l.foldlM f s) (inv []) := by
  induction l generalizing s with
  | nil => exact Ensures.same hs
  | cons a rest ih =>
    rw [List.foldlM_cons, List.foldlM_cons]
    exact (hstep a rest s hs).bind ih

end Outcome
