import Mathlib.Data.List.Forall2
import Mathlib.Data.Set.Function
import Mathlib.Logic.Function.Basic

namespace KeyedStore

variable {K V A B : Type}

/-- A store: the value of each key that is present. -/
abbrev Store (K V : Type) := K → Option V

/-- An operation answers, and leaves a store. -/
abbrev Operation (K V A : Type) := Store K V → A × Store K V

/-- Answering from the store as it is. -/
def ask (f : Store K V → A) : Operation K V A := fun s => (f s, s)

/-- Reading and replacing what one key holds. -/
def focus [DecidableEq K] (key : K) (f : Option V → A × Option V) : Operation K V A :=
  fun s => ((f (s key)).1, Function.update s key (f (s key)).2)

/-- One operation, with its answer turned into another. -/
def Operation.map (f : A → B) (op : Operation K V A) : Operation K V B :=
  fun s => (f (op s).1, (op s).2)

/-- The operations of a list, one after the other, with their answers. -/
def each (op : A → Operation K V B) : List A → Operation K V (List B)
  | [], s => ([], s)
  | a :: l, s => ((op a s).1 :: (each op l (op a s).2).1, (each op l (op a s).2).2)

/-- An operation changes no key outside a set, and its effect on the set and its
    answer depend on nothing outside it. -/
structure Local (S : Set K) (op : Operation K V A) : Prop where
  frame : ∀ s, Set.EqOn (op s).2 s Sᶜ
  answer : ∀ {s t : Store K V}, Set.EqOn s t S → (op s).1 = (op t).1
  effect : ∀ {s t : Store K V}, Set.EqOn s t S → Set.EqOn (op s).2 (op t).2 S

variable {S T : Set K} {op : Operation K V A}

theorem local_ask {f : Store K V → A} (hf : ∀ {s t : Store K V}, Set.EqOn s t S → f s = f t) :
    Local S (ask f) where
  frame _ _ _ := rfl
  answer hst := hf hst
  effect hst := hst

theorem Local.map (h : Local S op) (f : A → B) : Local S (op.map f) where
  frame := h.frame
  answer hst := congrArg f (h.answer hst)
  effect := h.effect

theorem local_focus [DecidableEq K] {key : K} (hkey : key ∈ S) (f : Option V → A × Option V) :
    Local S (focus key f) where
  frame s k hk := by
    have hne : k ≠ key := fun heq => hk (heq ▸ hkey)
    exact Function.update_of_ne hne _ _
  answer {s t} hst := by
    change (f (s key)).1 = (f (t key)).1
    rw [hst hkey]
  effect {s t} hst k hk := by
    change Function.update s key (f (s key)).2 k = Function.update t key (f (t key)).2 k
    by_cases heq : k = key
    · subst heq
      rw [Function.update_self, Function.update_self, hst hkey]
    · rw [Function.update_of_ne heq, Function.update_of_ne heq]
      exact hst hk

/-- A condition that reads the set decides between operations on the set. -/
theorem Local.ite {c : Store K V → Bool} {op' : Operation K V A} (h : Local S op) (h' : Local S op')
    (hc : ∀ {s t : Store K V}, Set.EqOn s t S → c s = c t) :
    Local S (fun s => if c s then op s else op' s) where
  frame s := by
    split
    · exact h.frame s
    · exact h'.frame s
  answer {s t} hst := by
    rw [hc hst]
    split
    · exact h.answer hst
    · exact h'.answer hst
  effect {s t} hst := by
    rw [hc hst]
    split
    · exact h.effect hst
    · exact h'.effect hst

theorem local_each {op : A → Operation K V B} {l : List A} (h : ∀ a ∈ l, Local S (op a)) :
    Local S (each op l) := by
  induction l with
  | nil => exact local_ask (fun _ => rfl)
  | cons a l ih =>
    have ha := h a List.mem_cons_self
    have hl := ih (fun b hb => h b (List.mem_cons_of_mem a hb))
    refine ⟨fun s k hk => ?_, fun hst => ?_, fun hst => ?_⟩
    · exact (hl.frame _ hk).trans (ha.frame s hk)
    · exact congrArg₂ List.cons (ha.answer hst) (hl.answer (ha.effect hst))
    · exact hl.effect (ha.effect hst)

/-! ## Operations on different keys -/

/-- What an operation elsewhere leaves is, on the set, what was there. -/
theorem Local.apart (h : Local T op) (hST : S ⊆ Tᶜ) (s : Store K V) : Set.EqOn (op s).2 s S :=
  (h.frame s).mono hST

/-- The operations that a predicate picks work on a set of keys, the others
    outside it. -/
def Splits (S : Set K) (mine : A → Bool) (op : A → Operation K V B) (l : List A) : Prop :=
  ∀ a ∈ l, (mine a → Local S (op a)) ∧ (mine a = false → Local Sᶜ (op a))

/-- The operations on a set of keys answer as they do without the others, and
    leave the same behind: induction along the list, from any two stores that
    agree on the set. -/
theorem each_filter {mine : A → Bool} {op : A → Operation K V B} {l : List A} (h : Splits S mine op l) :
    ∀ {s t : Store K V}, Set.EqOn s t S →
      (l.zip (each op l s).1).filter (fun p => mine p.1) =
        (l.filter mine).zip (each op (l.filter mine) t).1 ∧
      Set.EqOn (each op l s).2 (each op (l.filter mine) t).2 S := by
  induction l with
  | nil => exact fun hst => ⟨rfl, hst⟩
  | cons a l ih =>
    intro s t hst
    obtain ⟨hmine, hother⟩ := h a List.mem_cons_self
    have hl : Splits S mine op l := fun b hb => h b (List.mem_cons_of_mem a hb)
    cases ha : mine a with
    | true =>
      obtain ⟨hanswers, hstores⟩ := ih hl ((hmine ha).effect hst)
      rw [List.filter_cons_of_pos ha]
      refine ⟨?_, hstores⟩
      rw [each, each, List.zip_cons_cons, List.zip_cons_cons, List.filter_cons, if_pos ha, hanswers,
        (hmine ha).answer hst]
    | false =>
      have hsame : Set.EqOn (op a s).2 t S :=
        ((hother ha).apart (compl_compl S).ge s).trans hst
      obtain ⟨hanswers, hstores⟩ := ih hl hsame
      have hno : ¬ mine a = true := by rw [ha]; exact Bool.false_ne_true
      rw [List.filter_cons_of_neg hno]
      refine ⟨?_, hstores⟩
      rw [each, List.zip_cons_cons, List.filter_cons, if_neg hno, hanswers]

theorem length_each (op : A → Operation K V B) (l : List A) (s : Store K V) :
    (each op l s).1.length = l.length := by
  induction l generalizing s with
  | nil => rfl
  | cons a l ih => exact congrArg (· + 1) (ih _)

theorem each_append (op : A → Operation K V B) (l l' : List A) (s : Store K V) :
    (each op (l ++ l') s).1 = (each op l s).1 ++ (each op l' (each op l s).2).1 := by
  induction l generalizing s with
  | nil => rfl
  | cons a l ih => exact congrArg ((op a s).1 :: ·) (ih _)

/-- What belongs to the elements that a predicate picks, in a list beside theirs. -/
def picked (mine : A → Bool) (l : List A) (bs : List B) : List B :=
  ((l.zip bs).filter fun p => mine p.1).map Prod.snd

theorem picked_cons {mine : A → Bool} {a : A} {l : List A} {b : B} {bs : List B} :
    picked mine (a :: l) (b :: bs) = if mine a then b :: picked mine l bs else picked mine l bs := by
  rw [picked, List.zip_cons_cons, List.filter_cons]
  split <;> rfl

theorem picked_map {C : Type} (mine : A → Bool) (l : List A) (bs : List B) (f : B → C) :
    picked mine l (bs.map f) = (picked mine l bs).map f := by
  induction l generalizing bs with
  | nil => rfl
  | cons a l ih =>
    cases bs with
    | nil => rfl
    | cons b bs =>
      rw [List.map_cons, picked_cons, picked_cons, ih]
      split <;> rfl

/-- A list beside itself. -/
theorem picked_self (mine : A → Bool) (l : List A) : picked mine l l = l.filter mine := by
  induction l with
  | nil => rfl
  | cons a l ih => rw [picked_cons, ih, List.filter_cons]

theorem forall₂_picked {C : Type} {R : B → C → Prop} {bs : List B} {cs : List C}
    (h : List.Forall₂ R bs cs)
    (mine : A → Bool) (l : List A) : List.Forall₂ R (picked mine l bs) (picked mine l cs) := by
  induction h generalizing l with
  | nil => cases l <;> exact List.Forall₂.nil
  | cons hbc _ ih =>
    cases l with
    | nil => exact List.Forall₂.nil
    | cons a l =>
      rw [picked_cons, picked_cons]
      split
      · exact List.Forall₂.cons hbc (ih l)
      · exact ih l

/-- The operations on a set of keys are answered as without the others. -/
theorem Splits.answers {mine : A → Bool} {op : A → Operation K V B} {l : List A} (h : Splits S mine op l)
    (s : Store K V) :
    (each op (l.filter mine) s).1 = picked mine l (each op l s).1 ∧
      Set.EqOn (each op l s).2 (each op (l.filter mine) s).2 S := by
  obtain ⟨hanswers, hstores⟩ := each_filter h (Set.eqOn_refl s S)
  refine ⟨?_, hstores⟩
  rw [picked, hanswers, List.map_snd_zip]
  exact (length_each op (l.filter mine) s).le

/-- Operations that are given by something else. -/
theorem each_map {C : Type} (op : A → Operation K V B) (f : C → A) (l : List C) (s : Store K V) :
    each op (l.map f) s = each (fun c => op (f c)) l s := by
  induction l generalizing s with
  | nil => rfl
  | cons c l ih => rw [List.map_cons, each, each, ih]

end KeyedStore
