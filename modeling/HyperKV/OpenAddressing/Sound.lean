import HyperKV.OpenAddressing.Counted
import HyperKV.OpenAddressing.Distinct

open Outcome

namespace OpenAddressing

namespace Scheme

variable {K α : Type} {S : Scheme K α} {overflow : Prop} {Sized : Nat → Prop} {t t' : Table α}

/-- A table that stands for a finite collection of items with distinct keys: a
    probe finds each of them, and the counter says how many there are. -/
structure Sound (S : Scheme K α) (Sized : Nat → Prop) (t : Table α) : Prop where
  findable : S.Findable t
  distinct : S.Distinct t
  sized : Sized t.size
  counted : Counted t

theorem Distinct.nodup (h : S.Distinct t) : t.items.Nodup := List.Nodup.of_map _ h

/-- Tables with the same items, each of them once, have as many. -/
theorem length_items_eq {l : List α} (h : S.Distinct t) (hl : l.Nodup) (hmem : ∀ y, y ∈ t.items ↔ y ∈ l) :
    t.items.length = l.length :=
  ((List.perm_ext_iff_of_nodup h.nodup hl).mpr hmem).length_eq

variable [DecidableEq K] (hS : S.Lawful overflow Sized) (depth : Nat)
include hS

/-- An empty table takes its first item, whatever the key, and does not grow. -/
theorem lands_empty {n : Nat} (hn : Sized n) (htwo : 2 ≤ n) {x : α}
    (hpath : 0 ≤ S.path (S.key x) n 0 ∧ S.path (S.key x) n 0 < n) : S.lands depth (Table.empty n) x := by
  have hsized : Sized (Table.empty n : Table α).size := by rwa [Table.empty_size]
  rw [lands, Bool.and_eq_true]
  constructor
  · refine List.any_eq_true.mpr ⟨0, List.mem_range.mpr (by rw [Table.empty_size]; omega), ?_⟩
    have hslot : (Table.empty n : Table α).slots[(S.path (S.key x) n 0).toNat]? = some .null :=
      List.getElem?_replicate_of_lt (by omega)
    rw [slotAt, Table.empty_size, if_pos hpath.1, hslot]
    rfl
  · unfold growLands
    split
    · rename_i p _
      rw [(place_no_grow hS p x hsized (by simp [Table.empty])
        (by simp [Table.empty, Table.size]; omega)).2]
    · rfl

/-- An insertion that drops nothing, under a key that no item has. -/
theorem Sound.insert (h : S.Sound Sized t) {x : α} (habsent : ∀ y ∈ t.items, S.key y ≠ S.key x)
    (hlands : S.lands (depth + 1) t x) :
    Ensures (Overflows overflow) (S.insert (depth + 1) t x) (fun r => r.2 = true ∧ S.Sound Sized r.1 ∧
      ∀ y, y ∈ r.1.items ↔ y = x ∨ y ∈ t.items) := by
  refine (lands_ensures hS depth h.findable h.sized hlands).mono ?_
  rintro ⟨t', taken⟩ ⟨hinserted, hmem⟩
  have hdistinct := hinserted.distinct h.distinct habsent
  cases taken with
  | false =>
    -- a refused item would have to be there already
    obtain rfl : t' = t := hinserted.unchanged rfl
    exact absurd rfl (habsent x ((hmem x).mpr (Or.inl rfl)))
  | true =>
    obtain ⟨p, htakes⟩ := hinserted.takes rfl
    obtain ⟨s, hslot, hfree⟩ := htakes.slot
    have hroom := Table.length_items_lt hslot hfree x
    have hcount : t.used = t.items.length := h.counted
    have hused := hinserted.used rfl
    rw [hS.count_eq h.sized (by omega) (by omega)] at hused
    have hnodup : (x :: t.items).Nodup :=
      List.nodup_cons.mpr ⟨fun hx => habsent x hx rfl, h.distinct.nodup⟩
    have hlen := length_items_eq hdistinct hnodup (fun y => (hmem y).trans List.mem_cons.symm)
    refine ⟨rfl, ⟨hinserted.findable, hdistinct, hinserted.sized, ?_⟩, hmem⟩
    change t'.used = t'.items.length
    rw [hused, hlen, hcount]
    rfl

/-- A removal that drops nothing but the item with the key. -/
theorem Sound.remove (h : S.Sound Sized t) {k : K} (hlands : S.shrinkLands S.hasSpot (depth + 1) t k) :
    Ensures (Overflows overflow) (S.remove (depth + 1) t k) (fun r => S.Sound Sized r.1 ∧
      (r.2 = true ↔ ∃ y ∈ t.items, S.key y = k) ∧ ∀ y, y ∈ r.1.items ↔ y ∈ t.items ∧ S.key y ≠ k) := by
  refine (shrinkLands_ensures hS depth h.findable h.sized hlands).mono ?_
  rintro ⟨t', found⟩ hr
  cases found with
  | false =>
    obtain ⟨rfl, hnone⟩ := hr
    refine ⟨h, iff_of_false Bool.false_ne_true ?_, fun y => (and_iff_left_of_imp (hnone y)).symm⟩
    rintro ⟨y, hy, hkey⟩
    exact hnone y hy hkey
  | true =>
    obtain ⟨p, x, hslot, rfl, hresized, hmem⟩ := hr
    have hx : x ∈ t.items := Table.mem_items.mpr ⟨p, hslot⟩
    have hclear : S.Distinct (S.clear t p) := h.distinct.clear hslot
    have hdistinct := hresized.distinct hclear
    have hone : t.items.length = (S.clear t p).items.length + 1 :=
      (Table.items_write_deleted hslot).length_eq
    have hlen := length_items_eq hdistinct hclear.nodup hmem
    have hroom := Table.length_items_le t
    have hcount : t.used = t.items.length := h.counted
    have hused : (S.clear t p).used = t.used - 1 := hS.count_eq h.sized (by omega) (by omega)
    refine ⟨⟨hresized.findable, hdistinct, hresized.sized, ?_⟩, iff_of_true rfl ⟨x, hx, rfl⟩,
      fun y => (hmem y).trans (mem_clear h.distinct hslot)⟩
    change t'.used = t'.items.length
    rw [hresized.used, hused, hlen, hcount, hone]
    exact Int.add_sub_cancel ((S.clear t p).items.length : Int) 1

end Scheme

end OpenAddressing
