import HyperKV.OpenAddressing.Insert

namespace OpenAddressing

namespace Scheme

variable {K α : Type} {S : Scheme K α} {Sized : Nat → Prop} {t t' : Table α} {x : α} {k : K}

/-- No two live items have the same key. -/
def Distinct (S : Scheme K α) (t : Table α) : Prop := (t.items.map S.key).Nodup

theorem distinct_empty (n : Nat) : S.Distinct (Table.empty n) := by
  simp [Distinct]

theorem Resized.distinct (h : S.Resized Sized t t') (ht : S.Distinct t) : S.Distinct t' :=
  nodup_map_of_subperm h.subperm ht

theorem Inserted.distinct {taken : Bool} (h : S.Inserted Sized t x t' taken) (ht : S.Distinct t)
    (hnew : ∀ y ∈ t.items, S.key y ≠ S.key x) : S.Distinct t' := by
  refine nodup_map_of_subperm h.subperm (List.nodup_cons.mpr ⟨fun hmem => ?_, ht⟩)
  obtain ⟨y, hy, hkey⟩ := List.mem_map.mp hmem
  exact hnew y hy hkey

section Writes

variable {p : Nat} {y z : α}

theorem Distinct.clear (ht : S.Distinct t) (hslot : t.slots[p]? = some (.live x)) :
    S.Distinct (S.clear t p) := by
  have hperm := ((Table.items_write_deleted hslot).map S.key).nodup_iff.mp ht
  exact (List.nodup_cons.mp hperm).2

/-- Vacating a slot drops the only item with its key. -/
theorem mem_clear (ht : S.Distinct t) (hslot : t.slots[p]? = some (.live x)) :
    y ∈ (S.clear t p).items ↔ y ∈ t.items ∧ S.key y ≠ S.key x := by
  have hperm := Table.items_write_deleted hslot
  have hnodup := (hperm.map S.key).nodup_iff.mp ht
  rw [hperm.mem_iff, List.mem_cons]
  constructor
  · intro hy
    refine ⟨Or.inr hy, fun hkey => (List.nodup_cons.mp hnodup).1 ?_⟩
    rw [← hkey]
    exact List.mem_map_of_mem hy
  · rintro ⟨rfl | hy, hkey⟩
    · exact absurd rfl hkey
    · exact hy

/-- Overwriting an item by one with its key. -/
theorem mem_replace (ht : S.Distinct t) (hslot : t.slots[p]? = some (.live x)) (hkey : S.key y = S.key x) :
    z ∈ (t.write p (.live y)).items ↔ z = y ∨ z ∈ t.items ∧ S.key z ≠ S.key y := by
  rw [(Table.items_replace y hslot).mem_iff, List.mem_cons, hkey]
  exact or_congr_right (mem_clear ht hslot)

theorem Distinct.replace (ht : S.Distinct t) (hslot : t.slots[p]? = some (.live x))
    (hkey : S.key y = S.key x) : S.Distinct (t.write p (.live y)) := by
  have hold := ((Table.items_write_deleted hslot).map S.key).nodup_iff.mp ht
  refine ((Table.items_replace y hslot).map S.key).nodup_iff.mpr ?_
  rw [List.map_cons] at hold ⊢
  rwa [hkey]

end Writes

/-- A removal leaves no item with the key, and keys distinct. -/
theorem Removed.distinct {found : Bool} (h : S.Removed Sized t k t' found) (ht : S.Distinct t) :
    S.Distinct t' ∧ ∀ y ∈ t'.items, S.key y ≠ k := by
  cases found with
  | false =>
    obtain ⟨rfl, hnone⟩ := h
    exact ⟨ht, hnone⟩
  | true =>
    obtain ⟨p, x, hslot, rfl, hresized⟩ := h
    refine ⟨hresized.distinct (ht.clear hslot), fun y hy => ?_⟩
    exact ((mem_clear ht hslot).mp (hresized.subperm.subset hy)).2

section Vacated

variable [DecidableEq K]

/-- The probe path of `k` meets a vacated slot before any item with key `k`. -/
def vacatedBefore (S : Scheme K α) (t : Table α) (k : K) : Bool :=
  (List.range t.size).any fun i =>
    (S.slotAt t k i).any (fun v => v.2.isDeleted) &&
      (List.range i).all fun j => (S.slotAt t k j).all fun v => v.2.item?.all fun x => S.key x ≠ k

/-- An insertion loop that looks for an equal item and still takes a slot ahead
    of it takes a vacated one: a null slot would end the search for it too. -/
theorem TakesSlot.vacatedBefore {p : Nat} (h : S.TakesSlot t k p) (ht : S.Findable t) (hchecks : S.checks)
    (hx : x ∈ t.items) (hkey : S.key x = k) : S.vacatedBefore t k := by
  obtain ⟨i, hi, ⟨s, hat, hfree⟩, hbefore⟩ := h
  obtain ⟨q, hslot⟩ := Table.mem_items.mp hx
  obtain ⟨j, hj, hatx, hold⟩ := ht q x hslot
  rw [hkey] at hatx hold
  have hij : i < j := by
    rcases Nat.lt_trichotomy i j with hlt | rfl | hgt
    · exact hlt
    · rw [hat] at hatx
      cases hatx
      cases hfree
    · obtain ⟨r, y, haty, hpass⟩ := hbefore j hgt
      rw [hatx] at haty
      cases haty
      exact absurd ⟨hchecks, hkey⟩ hpass
  obtain ⟨r, u, hatu, hnotnull⟩ := hold i hij
  rw [hat] at hatu
  cases hatu
  have hdeleted : s.isDeleted := by
    cases s with
    | null => exact absurd rfl hnotnull
    | deleted => rfl
    | live y => cases hfree
  refine List.any_eq_true.mpr ⟨i, List.mem_range.mpr hi, ?_⟩
  rw [hat, Option.any_some, Bool.and_eq_true]
  refine ⟨hdeleted, List.all_eq_true.mpr (fun l hl => ?_)⟩
  obtain ⟨r, y, haty, hpass⟩ := hbefore l (List.mem_range.mp hl)
  rw [haty]
  simpa [Slot.item?] using fun heq => hpass ⟨hchecks, heq⟩

end Vacated

end Scheme

end OpenAddressing
