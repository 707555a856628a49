import HyperKV.OpenAddressing.Lands

open Outcome

namespace OpenAddressing

namespace Scheme

variable {K α : Type}

/-- The counter is the number of live items. -/
def Counted (t : Table α) : Prop := t.used = t.items.length

instance (t : Table α) : Decidable (Counted t) := inferInstanceAs (Decidable (t.used = t.items.length))

theorem counted_empty (n : Nat) : Counted (Table.empty n : Table α) := by
  simp [Counted]

theorem Counted.replace {t : Table α} {p : Nat} {x y : α} (ht : Counted t)
    (hslot : t.slots[p]? = some (.live x)) : Counted (t.write p (.live y)) := by
  have hold := (Table.items_write_deleted hslot).length_eq
  have hnew := (Table.items_replace y hslot).length_eq
  rw [Counted, Table.write_used, ht, hold, hnew, List.length_cons, List.length_cons]

/-- The counter is at least the number of live items. -/
def Ample (t : Table α) : Prop := (t.items.length : Int) ≤ t.used

theorem ample_empty (n : Nat) : Ample (Table.empty n : Table α) := by
  simp [Ample]

theorem Ample.replace {t : Table α} {p : Nat} {x y : α} (ht : Ample t)
    (hslot : t.slots[p]? = some (.live x)) : Ample (t.write p (.live y)) := by
  have hold := (Table.items_write_deleted hslot).length_eq
  have hnew := (Table.items_replace y hslot).length_eq
  rw [List.length_cons] at hold hnew
  rw [Ample, Table.write_used, hnew, ← hold]
  exact ht

section Steps

variable {S : Scheme K α} {Sized : Nat → Prop} {t t' : Table α}

/-- An insertion may lose items, but counts the one it takes. -/
theorem Inserted.ample {x : α} {taken : Bool} (h : S.Inserted Sized t x t' taken) (ht : Ample t)
    (hcount : S.count (t.used + 1) = t.used + 1) : Ample t' ∧ t'.used ≤ t.used + 1 := by
  cases taken with
  | false =>
    rw [h.unchanged rfl]
    exact ⟨ht, by omega⟩
  | true =>
    have hused := (h.used rfl).trans hcount
    have hlength := h.subperm.length_le
    rw [List.length_cons] at hlength
    unfold Ample at ht ⊢
    exact ⟨by omega, by omega⟩

/-- A removal uncounts the one item it finds. -/
theorem Resized.ample {p : Nat} {x : α} (h : S.Resized Sized (S.clear t p) t')
    (hslot : t.slots[p]? = some (.live x)) (ht : Ample t)
    (hcount : 0 < t.used → S.count (t.used - 1) = t.used - 1) : Ample t' ∧ t'.used ≤ t.used := by
  have hone : t.items.length = (S.clear t p).items.length + 1 := (Table.items_write_deleted hslot).length_eq
  have hlength := h.subperm.length_le
  unfold Ample at ht ⊢
  have hused : t'.used = t.used - 1 := h.used.trans (hcount (by omega))
  exact ⟨by omega, by omega⟩

end Steps

variable [DecidableEq K] {S : Scheme K α} {overflow : Prop} {Sized : Nat → Prop} {t : Table α}

/-- The insertion loop for `k` takes a slot; an equal item does not stop it. -/
def takesSpot (S : Scheme K α) (t : Table α) (k : K) : Bool :=
  match S.findSpot t k with
  | .ok (some (.free _)) => true
  | _ => false

/-- Where every insertion takes a slot, a rehash keeps the number of items. -/
theorem length_carries : S.Carries S.takesSpot (fun l l' => l.length = l'.length) where
  perm h := h.length_eq
  trans h h' := h.trans h'
  cons _ h := congrArg (· + 1) h
  refused {t x} hspot hrefused := by
    rw [takesSpot] at hspot
    split at hspot
    · rename_i p hfound
      exact absurd hfound (hrefused.1 p)
    · cases hspot

variable (hS : S.Lawful overflow Sized) (depth : Nat)
include hS

/-- An insertion whose growth loses nothing keeps an exact counter exact,
    whether or not it finds a slot itself. -/
theorem insert_counted (ht : S.Findable t) (hcount : Counted t) (hsized : Sized t.size) {x : α}
    (hgrow : S.growLands (S.rehashLands S.takesSpot (depth + 1)) t x) :
    Ensures AnyFault (S.insert (depth + 1) t x) (fun r => Counted r.1) := by
  have hgrown := insertWith_grown length_carries (rehash_carries length_carries (depth + 1)) hgrow
  rw [← insert_eq] at hgrown
  refine ((insert_ensures hS depth ht hsized x).anyFault.and hgrown).mono ?_
  rintro ⟨t', taken⟩ ⟨hinserted, hlen⟩
  cases taken with
  | false => exact hinserted.unchanged rfl ▸ hcount
  | true =>
    obtain ⟨p, htakes⟩ := hinserted.takes rfl
    obtain ⟨s, hslot, hfree⟩ := htakes.slot
    have hroom := Table.length_items_lt hslot hfree x
    have hused := hinserted.used rfl
    rw [hS.count_eq hsized (by rw [hcount]; omega) (by rw [hcount]; omega)] at hused
    rw [Counted, hused, hlen, hcount]
    rfl

/-- A removal whose resize loses nothing keeps an exact counter exact. -/
theorem remove_counted (ht : S.Findable t) (hcount : Counted t) (hsized : Sized t.size) {k : K}
    (hshrink : S.shrinkLands S.takesSpot (depth + 1) t k) :
    Ensures AnyFault (S.remove (depth + 1) t k) (fun r => Counted r.1) := by
  refine (search_ensures hS ht k).anyFault.bind_eq ?_
  intro r hfound hr
  cases r with
  | none => exact hcount
  | some found =>
    obtain ⟨p, x⟩ := found
    have hlength := shrink_carries length_carries hfound hshrink
    refine ((resizeDown_ensures hS depth ht.clear (by rwa [clear_size])).anyFault.and hlength).bind ?_
    rintro t' ⟨hresized, hlen⟩
    have hone : t.items.length = (S.clear t p).items.length + 1 :=
      (Table.items_write_deleted hr.1).length_eq
    have hroom := Table.length_items_le t
    have hused : (S.clear t p).used = t.used - 1 :=
      hS.count_eq hsized (by rw [hcount]; omega) (by rw [hcount]; omega)
    change Counted t'
    rw [Counted, hresized.used, hused, hlen, hcount, hone]
    exact Int.add_sub_cancel ((S.clear t p).items.length : Int) 1

end Scheme

end OpenAddressing
