import HyperKV.OpenAddressing.Counted

open Outcome

namespace OpenAddressing

namespace Scheme

variable {K α : Type} [DecidableEq K] (S : Scheme K α)

/-- An insertion of `x` does not grow the table. -/
def steady (t : Table α) (x : α) : Bool := S.growLands (fun _ _ => false) t x

/-- None of the insertions that a resize makes grows the new table. -/
def resizeSteady (t : Table α) (asked : Int) : Bool :=
  match S.capacity asked with
  | none => true
  | some n => meets (fun acc x => Prod.fst <$> S.insert 0 acc x) S.steady (Table.empty n) t.items

/-- The same of the resize that a removal may trigger. -/
def shrinkSteady (t : Table α) (k : K) : Bool :=
  match S.search t k with
  | .ok (some (p, _)) =>
    match S.shrink (S.clear t p).used t.size with
    | none => true
    | some asked => S.resizeSteady (S.clear t p) asked
  | _ => true

/-- No operation on the table makes a resize inside a resize. -/
structure Unnested (t : Table α) : Prop where
  grow : ∀ x, S.growLands S.resizeSteady t x
  shrink : ∀ k, S.shrinkSteady t k

variable {S} {overflow : Prop} {Sized : Nat → Prop} {t : Table α}

/-! ## The nesting that operations need -/

/-- Only the resize that the insertion asks for matters. -/
theorem insertWith_congr {resize resize' : Table α → Int → Except Fault (Table α)} {x : α}
    (hsame : ∀ p asked, S.findSpot t (S.key x) = .ok (some (.free p)) →
      S.grow (S.place t p x).used t.size = some asked →
      resize' (S.place t p x) asked = resize (S.place t p x) asked) :
    S.insertWith resize' t x = S.insertWith resize t x := by
  unfold insertWith
  cases hfound : S.findSpot t (S.key x) with
  | error e => rfl
  | ok r =>
    cases r with
    | none => rfl
    | some spot =>
      cases spot with
      | equal => rfl
      | free p =>
        have hgrown : S.resizeUp resize' (S.place t p x) = S.resizeUp resize (S.place t p x) := by
          unfold resizeUp
          rw [place_size]
          cases hgrow : S.grow (S.place t p x).used t.size with
          | none => rfl
          | some asked => exact hsame p asked hfound hgrow
        simp only [ok_bind, hgrown]

theorem insert_of_steady {x : α} (h : S.steady t x) (depth : Nat) : S.insert depth t x = S.insert 0 t x := by
  rw [insert_eq, insert_eq]
  apply insertWith_congr
  intro p asked hfound hgrow
  simp only [steady, growLands, hfound, hgrow] at h
  cases h

theorem resize_of_steady {asked : Int} (h : S.resizeSteady t asked) (depth : Nat) :
    S.resize depth t asked = S.resize 0 t asked := by
  unfold resizeSteady at h
  unfold resize resizeWith
  cases hn : S.capacity asked with
  | none => rfl
  | some n =>
    rw [hn] at h
    unfold rebuild
    have hsteps : ∀ acc x, S.steady acc x → Prod.fst <$> S.insert depth acc x = Prod.fst <$> S.insert 0 acc x :=
      fun acc x hx => congrArg (Prod.fst <$> ·) (insert_of_steady hx depth)
    simp only [foldlM_eq_of_meets hsteps t.items _ h]

/-- An insertion nests two deep: the resize it asks for, and the insertions of
    that resize. -/
theorem Unnested.insert_depth (h : S.Unnested t) (depth : Nat) (x : α) :
    S.insert (depth + 1) t x = S.insert 1 t x := by
  rw [insert_eq, insert_eq]
  apply insertWith_congr
  intro p asked hfound hgrow
  have hresize := h.grow x
  simp only [growLands, hfound, hgrow] at hresize
  exact resize_of_steady hresize depth

/-- A removal needs no nesting below its own resize. -/
theorem Unnested.remove_depth (h : S.Unnested t) (depth : Nat) (k : K) :
    S.remove depth t k = S.remove 0 t k := by
  have hshrink := h.shrink k
  unfold remove
  cases hfound : S.search t k with
  | error e => rfl
  | ok r =>
    cases r with
    | none => rfl
    | some found =>
      simp only [shrinkSteady, hfound] at hshrink
      have hresize : S.resizeDown (S.resize depth) (S.clear t found.1) =
          S.resizeDown (S.resize 0) (S.clear t found.1) := by
        unfold resizeDown
        rw [clear_size]
        cases hasked : S.shrink (S.clear t found.1).used t.size with
        | none => rfl
        | some asked =>
          rw [hasked] at hshrink
          exact resize_of_steady hshrink depth
      simp only [ok_bind, hresize]

/-! ## Room -/

theorem steady_of_room (hS : S.Lawful overflow Sized) (x : α) (hsized : Sized t.size) (hused : 0 ≤ t.used)
    (hroom : 2 * (t.used + 1) ≤ t.size) : S.steady t x := by
  unfold steady growLands
  cases hfound : S.findSpot t (S.key x) with
  | error e => rfl
  | ok r =>
    cases r with
    | none => rfl
    | some spot =>
      cases spot with
      | equal => rfl
      | free p =>
        simp only [(place_no_grow hS p x hsized hused hroom).2]

/-- A new table at least twice as large as the items it takes over stays half
    empty until all of them are in. -/
theorem resizeSteady_of_room (hS : S.Lawful overflow Sized) {asked : Int} {n : Nat}
    (hcapacity : S.capacity asked = some n) (hn : Sized n) (hroom : 2 * t.items.length ≤ n) :
    S.resizeSteady t asked := by
  unfold resizeSteady
  rw [hcapacity]
  have hused : (Table.empty n : Table α).used = 0 := Table.empty_used n
  apply meets_of_invariant
    (fun rest acc => acc.size = n ∧ 0 ≤ acc.used ∧ 2 * (acc.used + (rest.length : Int)) ≤ n)
  · rintro x rest acc ⟨hsize, hused, hleft⟩
    rw [List.length_cons] at hleft
    have hsized : Sized acc.size := by rwa [hsize]
    have hfits : 2 * (acc.used + 1) ≤ acc.size := by omega
    refine ⟨steady_of_room hS x hsized hused hfits, ?_⟩
    apply Ensures.map
    apply (insert_no_grow hS 0 x hsized hused hfits).anyFault.mono
    rintro ⟨acc', taken⟩ ⟨hsize', hlow, hhigh⟩
    simp only at hsize' hlow hhigh ⊢
    exact ⟨by omega, by omega, by omega⟩
  · exact ⟨Table.empty_size n, by omega, by omega⟩

/-! ## The load -/

/-- The laws of thresholds that bound the counter of every table: `Light used n`
    says that a table of `n` slots may count `used` items. A table that was grown
    or shrunk is light again, and at least twice as large as its counter. -/
structure KeepsLight (S : Scheme K α) (Light : Int → Nat → Prop) : Prop where
  count_eq : ∀ used, S.count used = used
  insert : ∀ {used n}, 0 ≤ used → Light used n → S.grow (used + 1) n = none → Light (used + 1) n
  grow : ∀ {used n asked}, 0 ≤ used → Light used n → S.grow (used + 1) n = some asked →
    ∃ m, S.capacity asked = some m ∧ 2 * (used + 1) ≤ m ∧ Light (used + 1) m
  remove : ∀ {used n}, 0 ≤ used → Light (used + 1) n → Light used n
  shrink : ∀ {used n asked m}, 0 ≤ used → S.shrink used n = some asked → S.capacity asked = some m →
    2 * used ≤ m ∧ Light used m

/-- The counter bounds the items, and is itself bounded by the thresholds. -/
structure Roomy (S : Scheme K α) (Sized : Nat → Prop) (Light : Int → Nat → Prop) (t : Table α) : Prop where
  findable : S.Findable t
  sized : Sized t.size
  items_le : (t.items.length : Int) ≤ t.used
  light : Light t.used t.size

omit [DecidableEq K] in
/-- Overwriting an item with one of its own key. -/
theorem Roomy.replace {Light : Int → Nat → Prop} {p : Nat} {x y : α} (h : S.Roomy Sized Light t)
    (hslot : t.slots[p]? = some (.live x)) (hkey : S.key y = S.key x) :
    S.Roomy Sized Light (t.write p (.live y)) := by
  refine ⟨h.findable.replace hslot hkey, ?_, Ample.replace h.items_le hslot, ?_⟩
  · rw [Table.write_size]
    exact h.sized
  · rw [Table.write_used, Table.write_size]
    exact h.light

omit [DecidableEq K] in
theorem roomy_empty {Light : Int → Nat → Prop} {n : Nat} (hn : Sized n) (hlight : Light 0 n) :
    S.Roomy Sized Light (Table.empty n) := by
  refine ⟨findable_empty n, ?_, ?_, ?_⟩
  · rwa [Table.empty_size]
  · rw [Table.items_empty, Table.empty_used]
    exact Int.le_refl 0
  · rwa [Table.empty_size, Table.empty_used]

variable {Light : Int → Nat → Prop} (hS : S.Lawful overflow Sized) (hL : S.KeepsLight Light)
  (h : S.Roomy Sized Light t)

include h

theorem Roomy.place_items {p : Nat} {x : α} (hfound : S.findSpot t (S.key x) = .ok (some (.free p))) :
    ((S.place t p x).items.length : Int) ≤ t.used + 1 := by
  have htakes : S.TakesSlot t (S.key x) p := (findSpot_spec t (S.key x)).of_eq_ok hfound
  have hone := htakes.items_place.length_eq
  have hitems := h.items_le
  rw [List.length_cons] at hone
  omega

include hL

omit [DecidableEq K] in
theorem Roomy.place_used (p : Nat) (x : α) : 0 ≤ t.used ∧ (S.place t p x).used = t.used + 1 := by
  have hitems := h.items_le
  exact ⟨by omega, hL.count_eq _⟩

omit [DecidableEq K] in
/-- Vacating a slot takes one item off both. -/
theorem Roomy.clear_used {p : Nat} {x : α} (hslot : t.slots[p]? = some (.live x)) :
    (S.clear t p).used = t.used - 1 ∧ ((S.clear t p).items.length : Int) ≤ t.used - 1 := by
  have hone : t.items.length = (S.clear t p).items.length + 1 := (Table.items_write_deleted hslot).length_eq
  have hitems := h.items_le
  exact ⟨hL.count_eq _, by omega⟩

include hS

/-- In a table with room no resize happens inside a resize. -/
theorem Roomy.unnested : S.Unnested t := by
  constructor
  · intro x
    unfold growLands
    cases hfound : S.findSpot t (S.key x) with
    | error e => rfl
    | ok r =>
      cases r with
      | none => rfl
      | some spot =>
        cases spot with
        | equal => rfl
        | free p =>
          obtain ⟨hused, hplaced⟩ := h.place_used hL p x
          have hitems := h.place_items hfound
          simp only [hplaced]
          cases hgrow : S.grow (t.used + 1) t.size with
          | none => rfl
          | some asked =>
            obtain ⟨m, hcapacity, hroom, _⟩ := hL.grow hused h.light hgrow
            have hm := (hS.grow_capacity h.sized hgrow hcapacity).1
            exact resizeSteady_of_room hS hcapacity hm (by omega)
  · intro k
    unfold shrinkSteady
    cases hfound : S.search t k with
    | error e => rfl
    | ok r =>
      cases r with
      | none => rfl
      | some found =>
        have hslot := ((search_ensures hS h.findable k).of_eq_ok hfound).1
        obtain ⟨hcleared, hitems⟩ := h.clear_used hL hslot
        simp only [hcleared]
        cases hshrink : S.shrink (t.used - 1) t.size with
        | none => rfl
        | some asked =>
          cases hcapacity : S.capacity asked with
          | none =>
            simp only [resizeSteady, hcapacity]
          | some m =>
            obtain ⟨hroom, _⟩ := hL.shrink (by omega) hshrink hcapacity
            have hm := hS.shrink_capacity h.sized hshrink hcapacity
            exact resizeSteady_of_room hS hcapacity hm (by omega)

theorem Roomy.insert_light (x : α) :
    Ensures AnyFault (S.insert 1 t x) (fun r => Light r.1.used r.1.size) := by
  rw [insert_eq]
  apply (insertWith_cases (S.nestedResize 1) t x).mono
  rintro ⟨t', taken⟩ hr
  cases taken with
  | false =>
    obtain ⟨rfl, _⟩ := hr
    exact h.light
  | true =>
    obtain ⟨p, hfound, _, hgrown⟩ := hr
    obtain ⟨hused, hplaced⟩ := h.place_used hL p x
    have hitems := h.place_items hfound
    simp only [resizeUp, place_size, hplaced] at hgrown
    cases hgrow : S.grow (t.used + 1) t.size with
    | none =>
      rw [hgrow] at hgrown
      cases hgrown
      rw [place_size, hplaced]
      exact hL.insert hused h.light hgrow
    | some asked =>
      obtain ⟨m, hcapacity, hroom, hlight⟩ := hL.grow hused h.light hgrow
      have hm := (hS.grow_capacity h.sized hgrow hcapacity).1
      rw [hgrow] at hgrown
      simp only [nestedResize, resize, resizeWith, hcapacity] at hgrown
      obtain ⟨hused', hsize'⟩ := (rebuild_no_grow hS 0 hm (by omega)).of_eq_ok hgrown
      simp only [hused', hsize', hplaced]
      exact hlight

/-- An insertion keeps the room. -/
theorem Roomy.insert (x : α) :
    Ensures (Overflows overflow) (S.insert 1 t x) (fun r => S.Roomy Sized Light r.1) := by
  apply ((insert_ensures hS 0 h.findable h.sized x).and (h.insert_light hS hL x)).mono
  rintro ⟨t', taken⟩ ⟨hinserted, hlight⟩
  cases taken with
  | false => exact hinserted.unchanged rfl ▸ h
  | true =>
    have hcounted := hinserted.ample h.items_le (hL.count_eq _)
    exact ⟨hinserted.findable, hinserted.sized, hcounted.1, hlight⟩

/-- So does a removal. -/
theorem Roomy.remove (k : K) :
    Ensures (Overflows overflow) (S.remove 1 t k) (fun r => S.Roomy Sized Light r.1) := by
  unfold Scheme.remove
  apply (search_ensures hS h.findable k).bind
  intro r hr
  cases r with
  | none => exact h
  | some found =>
    obtain ⟨p, x⟩ := found
    obtain ⟨hcleared, hitems⟩ := h.clear_used hL hr.1
    have hlight : Light (S.clear t p).used (S.clear t p).size := by
      rw [hcleared, clear_size]
      apply hL.remove (by omega)
      rw [Int.sub_add_cancel]
      exact h.light
    have hresized : Ensures AnyFault (S.resizeDown (S.resize 1) (S.clear t p))
        (fun t' => Light t'.used t'.size) := by
      unfold resizeDown
      rw [clear_size, hcleared]
      cases hshrink : S.shrink (t.used - 1) t.size with
      | none => exact hlight
      | some asked =>
        simp only [resize, resizeWith]
        cases hcapacity : S.capacity asked with
        | none => exact hlight
        | some m =>
          obtain ⟨hroom, hlight'⟩ := hL.shrink (by omega) hshrink hcapacity
          have hm := hS.shrink_capacity h.sized hshrink hcapacity
          apply (rebuild_no_grow hS 1 hm (by omega)).anyFault.mono
          rintro t' ⟨hused', hsize'⟩
          rw [hused', hsize', hcleared]
          exact hlight'
    have hsized : Sized (S.clear t p).size := by
      rw [clear_size]
      exact h.sized
    apply ((resizeDown_ensures hS 0 h.findable.clear hsized).and hresized).bind
    rintro t' ⟨hresized, hlight'⟩
    have hcounted := hresized.ample hr.1 h.items_le (fun _ => hL.count_eq _)
    exact ⟨hresized.findable, hresized.sized, hcounted.1, hlight'⟩

end Scheme

end OpenAddressing
