import HyperKV.OpenAddressing.DoubleHash
import HyperKV.OpenAddressing.Room

open Outcome

namespace OpenAddressing

/-- Fewer items than slots leave a slot that an insertion may take. -/
theorem Table.exists_free {α : Type} {t : Table α} (h : t.items.length < t.size) :
    ∃ s ∈ t.slots, s.isFree := by
  by_contra hnone
  push Not at hnone
  have hall : ∀ s ∈ t.slots, s.item?.isSome := by
    intro s hs
    have hlive := hnone s hs
    cases s with
    | null => exact absurd rfl hlive
    | deleted => exact absurd rfl hlive
    | live x => rfl
  have hlength := List.filterMap_length_eq_length.mpr hall
  exact absurd hlength (Nat.ne_of_lt h)

namespace Scheme

variable {K α : Type} [DecidableEq K] (S : Scheme K α)

/-- The probe paths of an insertion, and of those of the resize that it may make,
    are among those that `cover` knows to visit every slot. Nothing is inserted where
    an equal item is met first. -/
def insertReaches (cover : K → Nat → Bool) (t : Table α) (x : α) : Bool :=
  match S.findSpot t (S.key x) with
  | .ok (some .equal) => true
  | _ => cover (S.key x) t.size && (S.grow (S.count (t.used + 1)) t.size).all fun asked =>
    (S.capacity asked).all fun m => (x :: t.items).all fun y => cover (S.key y) m

/-- The same of the resize that a removal may make, which inserts the items that are
    left. -/
def removeReaches (cover : K → Nat → Bool) (t : Table α) (k : K) : Bool :=
  match S.search t k with
  | .ok (some (p, _)) => (S.shrink (S.count (t.used - 1)) t.size).all fun asked =>
    (S.capacity asked).all fun m => (S.clear t p).items.all fun y => cover (S.key y) m
  | _ => true

variable {S} {overflow : Prop} {Sized : Nat → Prop} {Light : Int → Nat → Prop}
  {cover : K → Nat → Bool} {t : Table α}

theorem Covers.hasSpot {k : K} (h : S.Covers k t.size) (hroom : t.items.length < t.size) :
    S.hasSpot t k := by
  obtain ⟨s, hmem, hfree⟩ := Table.exists_free hroom
  obtain ⟨p, hslot⟩ := List.mem_iff_getElem?.mp hmem
  obtain ⟨i, hi, hpath⟩ := h p (List.getElem?_eq_some_iff.mp hslot).1
  refine List.any_eq_true.mpr ⟨i, List.mem_range.mpr hi, ?_⟩
  rw [slotAt_eq_some.mpr ⟨hpath, hslot⟩]
  cases s with
  | null => rfl
  | deleted => rfl
  | live x => cases hfree

theorem growLands_of_steady {x : α} (h : S.steady t x) (resizeLands : Table α → Int → Bool) :
    S.growLands resizeLands t x := by
  unfold steady growLands at h
  unfold growLands
  cases hfound : S.findSpot t (S.key x) with
  | error e => rfl
  | ok r =>
    cases r with
    | none => rfl
    | some spot =>
      cases spot with
      | equal => rfl
      | free p =>
        simp only [hfound] at h ⊢
        cases hgrow : S.grow (S.place t p x).used t.size with
        | none => rfl
        | some asked =>
          rw [hgrow] at h
          cases h

/-- A new table at least twice as large as the items it takes over takes them all,
    when their paths visit every slot of it. -/
theorem rehashLands_of_covers (hS : S.Lawful overflow Sized) {asked : Int} {n : Nat} (hn : Sized n)
    (hcapacity : S.capacity asked = some n) (hroom : 2 * t.items.length ≤ n)
    (hcovers : ∀ y ∈ t.items, S.Covers (S.key y) n) (depth : Nat) :
    S.rehashLands S.hasSpot (depth + 1) t asked := by
  rw [rehashLands]
  simp only [hcapacity]
  apply meets_of_invariant (fun rest acc => S.Findable acc ∧ acc.size = n ∧ Ample acc ∧
    2 * (acc.used + (rest.length : Int)) ≤ n ∧ ∀ y ∈ rest, S.Covers (S.key y) n)
  · rintro x rest acc ⟨hfindable, hsize, hample, hleft, hrest⟩
    rw [List.length_cons] at hleft
    have hitems : (acc.items.length : Int) ≤ acc.used := hample
    have hsized : Sized acc.size := by rwa [hsize]
    have hfits : 2 * (acc.used + 1) ≤ acc.size := by omega
    have hsteady := steady_of_room hS x hsized (by omega) hfits
    have hspot : S.hasSpot acc (S.key x) := by
      refine Covers.hasSpot ?_ (by omega)
      rw [hsize]
      exact hrest x List.mem_cons_self
    refine ⟨Bool.and_eq_true_iff.mpr ⟨hspot, growLands_of_steady hsteady _⟩, Ensures.map ?_⟩
    rw [insert_of_steady hsteady depth, ← insert_of_steady hsteady 1]
    apply ((insert_ensures hS 0 hfindable hsized x).and
      (insert_no_grow hS 1 x hsized (by omega) hfits).anyFault).anyFault.mono
    rintro ⟨acc', taken⟩ ⟨hinserted, hsize', _, hhigh⟩
    have hcounted := hinserted.ample hample (hS.count_eq hsized (by omega) (by omega))
    simp only at hsize' hhigh
    exact ⟨hinserted.findable, hsize'.trans hsize, hcounted.1, by omega,
      fun y hy => hrest y (List.mem_cons_of_mem _ hy)⟩
  · have hused : (Table.empty n : Table α).used = 0 := Table.empty_used n
    have hitems : (Table.empty n : Table α).items = [] := Table.items_empty n
    refine ⟨findable_empty n, Table.empty_size n, ?_, by omega, hcovers⟩
    rw [Ample, hitems, hused]
    exact Int.le_refl 0

variable (hS : S.Lawful overflow Sized) (hL : S.KeepsLight Light) (h : S.Roomy Sized Light t)
  (hcover : ∀ k n, Sized n → cover k n → S.Covers k n)
include hS hL h hcover

/-- Nothing that a table with room is given gets lost on paths that visit every
    slot. -/
theorem Roomy.lands (hroom : t.used < t.size) {x : α} (hreaches : S.insertReaches cover t x) :
    S.lands 1 t x := by
  have hitems := h.items_le
  have hspot : cover (S.key x) t.size → S.hasSpot t (S.key x) :=
    fun hpath => (hcover _ _ h.sized hpath).hasSpot (by omega)
  unfold insertReaches at hreaches
  rw [Scheme.lands, Bool.and_eq_true]
  unfold growLands
  cases hfound : S.findSpot t (S.key x) with
  | error e =>
    rw [hfound, Bool.and_eq_true] at hreaches
    exact ⟨hspot hreaches.1, rfl⟩
  | ok r =>
    cases r with
    | none =>
      rw [hfound, Bool.and_eq_true] at hreaches
      exact ⟨hspot hreaches.1, rfl⟩
    | some spot =>
      cases spot with
      | equal => exact ⟨hasSpot_of_findSpot hfound, rfl⟩
      | free p =>
        rw [hfound, Bool.and_eq_true] at hreaches
        obtain ⟨hpath, hgrown⟩ := hreaches
        refine ⟨hspot hpath, ?_⟩
        obtain ⟨hused, hplaced⟩ := h.place_used hL p x
        have hfits := h.place_items hfound
        have htakes : S.TakesSlot t (S.key x) p := (findSpot_spec t (S.key x)).of_eq_ok hfound
        rw [hL.count_eq] at hgrown
        simp only [hplaced]
        cases hgrow : S.grow (t.used + 1) t.size with
        | none => rfl
        | some asked =>
          obtain ⟨m, hcapacity, htwice, _⟩ := hL.grow hused h.light hgrow
          have hm := (hS.grow_capacity h.sized hgrow hcapacity).1
          rw [hgrow, Option.all_some, hcapacity, Option.all_some, List.all_eq_true] at hgrown
          refine rehashLands_of_covers hS hm hcapacity (by omega) (fun y hy => ?_) 0
          exact hcover _ _ hm (hgrown y (htakes.items_place.mem_iff.mp hy))

theorem Roomy.shrinkLands {k : K} (hreaches : S.removeReaches cover t k) :
    S.shrinkLands S.hasSpot 1 t k := by
  unfold removeReaches at hreaches
  unfold Scheme.shrinkLands
  cases hfound : S.search t k with
  | error e => rfl
  | ok r =>
    cases r with
    | none => rfl
    | some found =>
      obtain ⟨p, x⟩ := found
      have hslot := ((search_ensures hS h.findable k).of_eq_ok hfound).1
      obtain ⟨hcleared, hitems⟩ := h.clear_used hL hslot
      simp only [hfound, hL.count_eq] at hreaches
      simp only [hcleared]
      cases hshrink : S.shrink (t.used - 1) t.size with
      | none => rfl
      | some asked =>
        rw [hshrink, Option.all_some] at hreaches
        cases hcapacity : S.capacity asked with
        | none =>
          simp only [rehashLands, hcapacity]
        | some m =>
          obtain ⟨hroom, _⟩ := hL.shrink (by omega) hshrink hcapacity
          have hm := hS.shrink_capacity h.sized hshrink hcapacity
          rw [hcapacity, Option.all_some, List.all_eq_true] at hreaches
          refine rehashLands_of_covers hS hm hcapacity (by omega) (fun y hy => ?_) 1
          exact hcover _ _ hm (hreaches y hy)

end Scheme

end OpenAddressing
