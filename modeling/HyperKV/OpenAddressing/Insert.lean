import HyperKV.OpenAddressing.Place

open Outcome

namespace OpenAddressing

namespace Scheme

variable {K α : Type} {S : Scheme K α} {overflow : Prop} {Sized : Nat → Prop} {t : Table α}

private theorem rebuild_spec {ins : Table α → α → Except Fault (Table α × Bool)} {n : Nat} (hn : Sized n)
    (hins : ∀ acc x, S.Findable acc → Sized acc.size →
      Ensures AnyFault (ins acc x) (fun r => S.Inserted Sized acc x r.1 r.2)) :
    Ensures AnyFault (rebuild ins t n) (S.Resized Sized t) := by
  -- the new table only holds items already taken over from the old one
  refine (Ensures.foldlM (fun rest acc => S.Findable acc ∧ Sized acc.size ∧
    ∃ done, t.items = done ++ rest ∧ acc.items.Subperm done) ?_ t.items (Table.empty n)
    ⟨findable_empty n, by rwa [Table.empty_size], [], rfl, by simp⟩).bind ?_
  · rintro x rest acc ⟨hfind, hsized, done, hdone, hsub⟩
    refine Ensures.map ((hins acc x hfind hsized).mono ?_)
    rintro ⟨acc', taken⟩ h
    refine ⟨h.findable, h.sized, done ++ [x], by simp [hdone], ?_⟩
    exact h.subperm.trans
      (((List.subperm_cons x).mpr hsub).trans (List.perm_append_singleton x done).symm.subperm)
  · rintro new ⟨hfind, hsized, done, hdone, hsub⟩
    rw [List.append_nil] at hdone
    exact ⟨hfind, hsized, hdone ▸ hsub, rfl⟩

private theorem resizeWith_spec {ins : Table α → α → Except Fault (Table α × Bool)} {asked : Int}
    (ht : S.Findable t) (hsized : Sized t.size) (hcapacity : ∀ m, S.capacity asked = some m → Sized m)
    (hins : ∀ acc x, S.Findable acc → Sized acc.size →
      Ensures AnyFault (ins acc x) (fun r => S.Inserted Sized acc x r.1 r.2)) :
    Ensures AnyFault (S.resizeWith ins t asked) (S.Resized Sized t) := by
  unfold resizeWith
  cases hm : S.capacity asked with
  | none => exact ⟨ht, hsized, List.Subperm.refl _, rfl⟩
  | some m => exact rebuild_spec (hcapacity m hm) hins

variable [DecidableEq K]

/-- An insertion loop that takes no slot met none, or an equal item first. -/
def Refused (S : Scheme K α) (t : Table α) (x : α) : Prop :=
  (∀ p, S.findSpot t (S.key x) ≠ .ok (some (.free p))) ∧
    (S.hasSpot t (S.key x) = false ∨ S.checks ∧ ∃ y ∈ t.items, S.key y = S.key x)

/-- An insertion either leaves the table alone, or takes a slot and lets the
    table grow. -/
theorem insertWith_cases (resize : Table α → Int → Except Fault (Table α)) (t : Table α) (x : α) :
    Ensures AnyFault (S.insertWith resize t x) (fun r => match r with
      | (t', false) => t' = t ∧ S.Refused t x
      | (t', true) => ∃ p, S.findSpot t (S.key x) = .ok (some (.free p)) ∧ S.TakesSlot t (S.key x) p ∧
          S.resizeUp resize (S.place t p x) = .ok t') := by
  refine (findSpot_spec t (S.key x)).anyFault.bind_eq ?_
  intro r hfound hr
  cases r with
  | none => exact ⟨rfl, by simp [hfound], Or.inl (not_hasSpot hr)⟩
  | some spot =>
    cases spot with
    | equal => exact ⟨rfl, by simp [hfound], Or.inr hr⟩
    | free p =>
      refine Ensures.bind_eq (P := fun _ => True) (by cases S.resizeUp resize _ <;> trivial) ?_
      intro t' ht' _
      exact ⟨p, hfound, hr, ht'⟩

private theorem insertWith_spec {resize : Table α → Int → Except Fault (Table α)} (x : α)
    (ht : S.Findable t) (hsized : Sized t.size)
    (hresize : ∀ p asked, S.TakesSlot t (S.key x) p → S.grow (S.place t p x).used t.size = some asked →
      Ensures AnyFault (resize (S.place t p x) asked) (S.Resized Sized (S.place t p x))) :
    Ensures AnyFault (S.insertWith resize t x) (fun r => S.Inserted Sized t x r.1 r.2) := by
  refine (insertWith_cases resize t x).mono ?_
  rintro ⟨t', taken⟩ hr
  cases taken with
  | false =>
    obtain ⟨rfl, _⟩ := hr
    exact ⟨ht, hsized, (List.sublist_cons_self x _).subperm, fun _ => rfl, by simp, by simp⟩
  | true =>
    obtain ⟨p, _, htakes, hgrown⟩ := hr
    have hplaced : S.Resized Sized (S.place t p x) t' := by
      simp only [resizeUp, place_size] at hgrown
      cases hgrow : S.grow (S.place t p x).used t.size with
      | none =>
        rw [hgrow] at hgrown
        cases hgrown
        exact ⟨htakes.findable_place ht, by rwa [place_size], List.Subperm.refl _, rfl⟩
      | some asked =>
        rw [hgrow] at hgrown
        exact (hresize p asked htakes hgrow).of_eq_ok hgrown
    exact ⟨hplaced.findable, hplaced.sized, hplaced.subperm.trans htakes.items_place.subperm, by simp,
      fun _ => ⟨p, htakes⟩, fun _ => hplaced.used⟩

private theorem insert_inserted (hS : S.Lawful overflow Sized) (depth : Nat) : ∀ (t : Table α) (x : α),
    S.Findable t → Sized t.size →
    Ensures AnyFault (S.insert depth t x) (fun r => S.Inserted Sized t x r.1 r.2) := by
  induction depth with
  | zero =>
    intro t x ht hsized
    exact insertWith_spec x ht hsized (fun _ _ _ _ => trivial)
  | succ depth ih =>
    intro t x ht hsized
    refine insertWith_spec x ht hsized (fun p asked htakes hgrow => ?_)
    refine resizeWith_spec (htakes.findable_place ht) (by rwa [place_size]) ?_ ih
    intro m hm
    exact (hS.grow_capacity hsized hgrow hm).1

/-! ## Faults -/

/-- A search of a lawful table, which faults only for a key that is not there. -/
theorem search_missed (hS : S.Lawful overflow Sized) (ht : S.Findable t) (k : K) :
    Ensures (fun e => Overflows overflow e ∧ ∀ x ∈ t.items, S.key x ≠ k) (S.search t k) (fun r => match r with
      | some (p, x) => t.slots[p]? = some (.live x) ∧ S.key x = k
      | none => ∀ x ∈ t.items, S.key x ≠ k) :=
  (search_spec ht k).tolerate (fun _ he => ⟨hS.probe_fault he.1, he.2⟩)

theorem search_ensures (hS : S.Lawful overflow Sized) (ht : S.Findable t) (k : K) :
    Ensures (Overflows overflow) (S.search t k) (fun r => match r with
      | some (p, x) => t.slots[p]? = some (.live x) ∧ S.key x = k
      | none => ∀ x ∈ t.items, S.key x ≠ k) :=
  (search_missed hS ht k).tolerate (fun _ => And.left)

theorem findSpot_ensures (hS : S.Lawful overflow Sized) (t : Table α) (k : K) :
    Ensures (Overflows overflow) (S.findSpot t k) (fun r => match r with
      | some (.free p) => S.TakesSlot t k p
      | some .equal => S.checks ∧ ∃ x ∈ t.items, S.key x = k
      | none => ∀ i < t.size, ∃ q y, S.slotAt t k i = some (q, .live y) ∧ ¬ (S.checks ∧ S.key y = k)) :=
  (findSpot_spec t k).tolerate (fun _ => hS.probe_fault)

/-- In a table less than half full after it, an insertion triggers no resize,
    whatever nesting is left. -/
theorem insert_no_grow (hS : S.Lawful overflow Sized) (depth : Nat) (x : α) (hsized : Sized t.size)
    (hused : 0 ≤ t.used) (hroom : 2 * (t.used + 1) ≤ t.size) :
    Ensures (Overflows overflow) (S.insert depth t x) (fun r => r.1.size = t.size ∧
      t.used ≤ r.1.used ∧ r.1.used ≤ t.used + 1) := by
  rw [insert_eq]
  refine (findSpot_ensures hS t (S.key x)).bind ?_
  intro r _
  have hsame : t.size = t.size ∧ t.used ≤ t.used ∧ t.used ≤ t.used + 1 := ⟨rfl, by omega, by omega⟩
  cases r with
  | none => exact hsame
  | some spot =>
    cases spot with
    | equal => exact hsame
    | free p =>
      obtain ⟨hplaced, hnone⟩ := place_no_grow hS p x hsized hused hroom
      rw [← place_size (S := S) p x] at hnone
      simp only [resizeUp, hnone]
      have hgrew : t.used ≤ (S.place t p x).used := by omega
      exact ⟨place_size p x, hgrew, Int.le_of_eq hplaced⟩

theorem rebuild_no_grow (hS : S.Lawful overflow Sized) (depth : Nat) {n : Nat} (hn : Sized n)
    (hroom : 2 * t.items.length ≤ n) :
    Ensures (Overflows overflow) (rebuild (S.insert depth) t n) (fun t' => t'.used = t.used ∧ t'.size = n) := by
  have hused : (Table.empty n : Table α).used = 0 := Table.empty_used n
  refine (Ensures.foldlM
    (fun rest acc => acc.size = n ∧ 0 ≤ acc.used ∧ 2 * (acc.used + (rest.length : Int)) ≤ n) ?_ t.items
    (Table.empty n) ⟨Table.empty_size n, by omega, by omega⟩).bind (fun new hnew => ⟨rfl, hnew.1⟩)
  rintro x rest acc ⟨hsize, hused, hleft⟩
  rw [List.length_cons] at hleft
  refine Ensures.map ((insert_no_grow hS depth x (by rwa [hsize]) hused (by omega)).mono ?_)
  rintro ⟨acc', taken⟩ ⟨hsize', hlow, hhigh⟩
  simp only at hsize' hlow hhigh ⊢
  exact ⟨by omega, by omega, by omega⟩

/-- One level of nesting is enough for every insertion: the resize it may
    trigger reinserts into a table that is at most half full. -/
private theorem insert_total (hS : S.Lawful overflow Sized) (depth : Nat) (x : α) (hsized : Sized t.size) :
    Ensures (Overflows overflow) (S.insert (depth + 1) t x) (fun _ => True) := by
  refine (findSpot_ensures hS t (S.key x)).bind ?_
  intro r _
  cases r with
  | none => trivial
  | some spot =>
    cases spot with
    | equal => trivial
    | free p =>
      refine Ensures.bind (P := fun _ => True) ?_ (fun _ _ => trivial)
      unfold resizeUp
      cases hgrow : S.grow (S.place t p x).used (S.place t p x).size with
      | none => trivial
      | some asked =>
        simp only [resizeWith]
        cases hm : S.capacity asked with
        | none => trivial
        | some m =>
          rw [place_size] at hgrow
          obtain ⟨hsized', hdouble⟩ := hS.grow_capacity hsized hgrow hm
          have hlen := Table.length_items_le (S.place t p x)
          rw [place_size] at hlen
          exact (rebuild_no_grow hS depth hsized' (by omega)).mono (fun _ _ => trivial)

/-- The specification of an insertion. -/
theorem insert_ensures (hS : S.Lawful overflow Sized) (depth : Nat) (ht : S.Findable t)
    (hsized : Sized t.size) (x : α) :
    Ensures (Overflows overflow) (S.insert (depth + 1) t x) (fun r => S.Inserted Sized t x r.1 r.2) :=
  ((insert_total hS depth x hsized).and (insert_inserted hS (depth + 1) t x ht hsized)).mono (fun _ h => h.2)

/-- The specification of a resize down, where nothing is known about how full
    the smaller table gets: its insertions may themselves resize. -/
theorem resizeDown_ensures (hS : S.Lawful overflow Sized) (depth : Nat) (ht : S.Findable t)
    (hsized : Sized t.size) :
    Ensures (Overflows overflow) (S.resizeDown (S.resize (depth + 1)) t) (S.Resized Sized t) := by
  unfold resizeDown
  cases hshrink : S.shrink t.used t.size with
  | none => exact ⟨ht, hsized, List.Subperm.refl _, rfl⟩
  | some asked =>
    have hcapacity : ∀ m, S.capacity asked = some m → Sized m :=
      fun m hm => hS.shrink_capacity hsized hshrink hm
    have htotal : Ensures (Overflows overflow) (S.resize (depth + 1) t asked) (fun _ => True) := by
      simp only [resize, resizeWith]
      cases hm : S.capacity asked with
      | none => trivial
      | some m =>
        refine (Ensures.foldlM (fun _ acc => S.Findable acc ∧ Sized acc.size) ?_ t.items (Table.empty m)
          ⟨findable_empty m, by simpa using hcapacity m hm⟩).bind (fun _ _ => trivial)
        rintro x rest acc ⟨hfind, hacc⟩
        exact Ensures.map ((insert_ensures hS depth hfind hacc x).mono (fun _ h => ⟨h.findable, h.sized⟩))
    exact (htotal.and (resizeWith_spec ht hsized hcapacity (insert_inserted hS (depth + 1)))).mono
      (fun _ h => h.2)

/-- What a removal of `k` does: nothing when no live item has the key, else it
    vacates the slot of one such item `x` and may resize. -/
def Removed (S : Scheme K α) (Sized : Nat → Prop) (t : Table α) (k : K) (t' : Table α) : Bool → Prop
  | false => t' = t ∧ ∀ x ∈ t.items, S.key x ≠ k
  | true => ∃ p x, t.slots[p]? = some (.live x) ∧ S.key x = k ∧ S.Resized Sized (S.clear t p) t'

theorem remove_ensures (hS : S.Lawful overflow Sized) (depth : Nat) (ht : S.Findable t)
    (hsized : Sized t.size) (k : K) :
    Ensures (Overflows overflow) (S.remove (depth + 1) t k) (fun r => S.Removed Sized t k r.1 r.2) := by
  refine (search_ensures hS ht k).bind ?_
  intro r hr
  cases r with
  | none => exact ⟨rfl, hr⟩
  | some found =>
    obtain ⟨p, x⟩ := found
    refine (resizeDown_ensures hS depth ht.clear (by rwa [clear_size])).bind ?_
    intro t' ht'
    exact ⟨p, x, hr.1, hr.2, ht'⟩

end Scheme

end OpenAddressing
