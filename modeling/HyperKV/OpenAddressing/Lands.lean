import HyperKV.OpenAddressing.Insert

open Outcome

namespace OpenAddressing

namespace Scheme

variable {K α : Type} [DecidableEq K] (S : Scheme K α)

def growLands (resizeLands : Table α → Int → Bool) (t : Table α) (x : α) : Bool :=
  match S.findSpot t (S.key x) with
  | .ok (some (.free p)) =>
    match S.grow (S.place t p x).used t.size with
    | none => true
    | some asked => resizeLands (S.place t p x) asked
  | _ => true

/-- A resize whose nesting is bounded by `depth` drops no item: every insertion
    it makes, and every insertion of a resize nested in it, finds its spot. -/
def rehashLands (spot : Table α → K → Bool) : Nat → Table α → Int → Bool
  | 0, _, _ => true
  | depth + 1, t, asked =>
    match S.capacity asked with
    | none => true
    | some n => meets (fun acc x => Prod.fst <$> S.insert depth acc x)
        (fun acc x => spot acc (S.key x) && S.growLands (rehashLands spot depth) acc x)
        (Table.empty n) t.items

/-- An insertion drops nothing: it finds a spot, and so do all the insertions of
    the resize it may trigger. -/
def lands (depth : Nat) (t : Table α) (x : α) : Bool :=
  S.hasSpot t (S.key x) && S.growLands (S.rehashLands S.hasSpot depth) t x

/-- A removal drops nothing but the item it removes. -/
def shrinkLands (spot : Table α → K → Bool) (depth : Nat) (t : Table α) (k : K) : Bool :=
  match S.search t k with
  | .ok (some (p, _)) =>
    match S.shrink (S.clear t p).used t.size with
    | none => true
    | some asked => S.rehashLands spot (depth + 1) (S.clear t p) asked
  | _ => true

/-- A comparison of item lists that rehashes carry over, when `spot` holds at
    each of their insertions: the item goes in, or need not. -/
structure Carries (spot : Table α → K → Bool) (R : List α → List α → Prop) : Prop where
  perm : ∀ {l l'}, l.Perm l' → R l l'
  trans : ∀ {l l' l''}, R l l' → R l' l'' → R l l''
  cons : ∀ {l l'} (x : α), R l l' → R (x :: l) (x :: l')
  refused : ∀ {t x}, spot t (S.key x) → S.Refused t x → R t.items (x :: t.items)

variable {S} {overflow : Prop} {Sized : Nat → Prop} {t : Table α} {spot : Table α → K → Bool}
  {R : List α → List α → Prop}

section Growth

variable {resize : Table α → Int → Except Fault (Table α)} {resizeLands : Table α → Int → Bool} {x : α}

/-- An insertion that takes a slot has its item, whatever the growth behind it. -/
theorem insertWith_grown (hR : S.Carries spot R)
    (hresize : ∀ t asked, resizeLands t asked →
      Ensures AnyFault (resize t asked) (fun t' => R t'.items t.items))
    (hgrow : S.growLands resizeLands t x) :
    Ensures AnyFault (S.insertWith resize t x) (fun r => match r with
      | (t', false) => t' = t ∧ S.Refused t x
      | (t', true) => R t'.items (x :: t.items)) := by
  refine (insertWith_cases resize t x).mono ?_
  rintro ⟨t', taken⟩ hr
  cases taken with
  | false => exact hr
  | true =>
    obtain ⟨p, hfound, htakes, hgrown⟩ := hr
    have hplace : R (S.place t p x).items (x :: t.items) := hR.perm htakes.items_place
    simp only [growLands, hfound] at hgrow
    simp only [resizeUp, place_size] at hgrown
    cases hasked : S.grow (S.place t p x).used t.size with
    | none =>
      rw [hasked] at hgrown
      cases hgrown
      exact hplace
    | some asked =>
      rw [hasked] at hgrow hgrown
      exact hR.trans ((hresize _ _ hgrow).of_eq_ok hgrown) hplace

theorem insertWith_carries (hR : S.Carries spot R)
    (hresize : ∀ t asked, resizeLands t asked →
      Ensures AnyFault (resize t asked) (fun t' => R t'.items t.items))
    (hspot : spot t (S.key x)) (hgrow : S.growLands resizeLands t x) :
    Ensures AnyFault (S.insertWith resize t x) (fun r => R r.1.items (x :: t.items)) := by
  refine (insertWith_grown hR hresize hgrow).mono ?_
  rintro ⟨t', taken⟩ hr
  cases taken with
  | true => exact hr
  | false =>
    obtain ⟨rfl, hrefused⟩ := hr
    exact hR.refused hspot hrefused

end Growth

/-- The induction is on the nesting: the insertions of a resize land one level
    below it. -/
theorem rehash_carries (hR : S.Carries spot R) (depth : Nat) :
    ∀ (t : Table α) (asked : Int), S.rehashLands spot depth t asked →
      Ensures AnyFault (S.nestedResize depth t asked) (fun t' => R t'.items t.items) := by
  induction depth with
  | zero => exact fun _ _ _ => trivial
  | succ depth ih =>
    intro t asked hlands
    simp only [rehashLands] at hlands
    simp only [nestedResize, resize, resizeWith]
    cases hn : S.capacity asked with
    | none => exact hR.perm (List.Perm.refl _)
    | some n =>
      rw [hn] at hlands
      -- the items gone in so far, last first, stand for those of the new table
      refine (Ensures.simulate (fun acc done => R acc.items done) (fun done x => x :: done) ?_
        t.items (Table.empty n) [] (hR.perm (by simp)) hlands).bind ?_
      · intro acc done x hacc hx
        simp only [Bool.and_eq_true] at hx
        rw [insert_eq]
        exact Ensures.map ((insertWith_carries hR ih hx.1 hx.2).mono
          (fun _ hr => hR.trans hr (hR.cons x hacc)))
      · intro new hnew
        rw [List.foldl_flip_cons_eq_append', List.append_nil] at hnew
        exact hR.trans hnew (hR.perm (List.reverse_perm _))

theorem shrink_carries (hR : S.Carries spot R) {depth : Nat} {k : K} {p : Nat} {x : α}
    (hfound : S.search t k = .ok (some (p, x))) (hlands : S.shrinkLands spot depth t k) :
    Ensures AnyFault (S.resizeDown (S.resize depth) (S.clear t p))
      (fun t' => R t'.items (S.clear t p).items) := by
  simp only [shrinkLands, hfound] at hlands
  simp only [resizeDown, clear_size]
  cases hshrink : S.shrink (S.clear t p).used t.size with
  | none => exact hR.perm (List.Perm.refl _)
  | some asked =>
    rw [hshrink] at hlands
    exact rehash_carries hR (depth + 1) _ _ hlands

/-- Where every insertion finds a spot, a rehash keeps exactly the items. -/
theorem mem_carries (hinj : S.checks → Function.Injective S.key) :
    S.Carries S.hasSpot (fun l l' => ∀ y, y ∈ l ↔ y ∈ l') where
  perm h _ := h.mem_iff
  trans h h' y := (h y).trans (h' y)
  cons x h y := by rw [List.mem_cons, List.mem_cons, h y]
  refused {t x} hspot hrefused y := by
    obtain ⟨_, hnone | ⟨hchecks, z, hz, hkey⟩⟩ := hrefused
    · rw [hnone] at hspot
      cases hspot
    · rw [List.mem_cons]
      exact (or_iff_right_of_imp (fun heq => heq ▸ hinj hchecks hkey ▸ hz)).symm

variable (hS : S.Lawful overflow Sized) (depth : Nat)
include hS

/-- An insertion that drops nothing. -/
theorem lands_ensures (ht : S.Findable t) (hsized : Sized t.size) {x : α}
    (hlands : S.lands (depth + 1) t x) :
    Ensures (Overflows overflow) (S.insert (depth + 1) t x) (fun r => S.Inserted Sized t x r.1 r.2 ∧
      ∀ y, y ∈ r.1.items ↔ y = x ∨ y ∈ t.items) := by
  rw [lands, Bool.and_eq_true] at hlands
  have hmem := mem_carries hS.checks_inj
  refine (insert_ensures hS depth ht hsized x).and ?_
  rw [insert_eq]
  exact (insertWith_carries hmem (rehash_carries hmem (depth + 1)) hlands.1 hlands.2).mono
    (fun _ hr y => (hr y).trans List.mem_cons)

/-- A removal that drops nothing but the removed item. -/
theorem shrinkLands_ensures (ht : S.Findable t) (hsized : Sized t.size) {k : K}
    (hlands : S.shrinkLands S.hasSpot (depth + 1) t k) :
    Ensures (Overflows overflow) (S.remove (depth + 1) t k) (fun r => match r with
      | (t', false) => t' = t ∧ ∀ x ∈ t.items, S.key x ≠ k
      | (t', true) => ∃ p x, t.slots[p]? = some (.live x) ∧ S.key x = k ∧
          S.Resized Sized (S.clear t p) t' ∧ ∀ y, y ∈ t'.items ↔ y ∈ (S.clear t p).items) := by
  refine (search_ensures hS ht k).bind_eq ?_
  intro r hfound hr
  cases r with
  | none => exact ⟨rfl, hr⟩
  | some found =>
    obtain ⟨p, x⟩ := found
    have hmem := shrink_carries (mem_carries hS.checks_inj) hfound hlands
    refine ((resizeDown_ensures hS depth ht.clear (by rwa [clear_size])).and hmem).bind ?_
    rintro t' ⟨hresized, hkept⟩
    exact ⟨p, x, hr.1, hr.2, hresized, hkept⟩

end Scheme

end OpenAddressing
