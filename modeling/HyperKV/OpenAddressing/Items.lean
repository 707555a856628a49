import Mathlib.Data.List.Nodup
import Mathlib.Data.List.Perm.Subperm
import HyperKV.OpenAddressing.Probe

namespace OpenAddressing

/-- Filling a slot that holds nothing adds exactly the new item. -/
private theorem filterMap_set_live {α : Type} (x : α) : ∀ (slots : List (Slot α)) (p : Nat) (s : Slot α),
    slots[p]? = some s → s.isFree → ((slots.set p (.live x)).filterMap Slot.item?).Perm
      (x :: slots.filterMap Slot.item?) := by
  intro slots
  induction slots with
  | nil => intro p s hslot; simp at hslot
  | cons head rest ih =>
    intro p s hslot hfree
    cases p with
    | zero =>
      simp only [List.getElem?_cons_zero, Option.some.injEq] at hslot
      subst hslot
      cases head with
      | live y => cases hfree
      | _ => exact List.Perm.refl _
    | succ p =>
      have htail := ih p s (by simpa using hslot) hfree
      cases head with
      | live y =>
        simp only [List.set_cons_succ, List.filterMap_cons, Slot.item?]
        exact (htail.cons y).trans (List.Perm.swap x y _)
      | _ => simpa only [List.set_cons_succ, List.filterMap_cons, Slot.item?] using htail

namespace Table

variable {α : Type} {t : Table α} {p : Nat} {x : α}

theorem items_write_live {s : Slot α} (hslot : t.slots[p]? = some s) (hfree : s.isFree) :
    (t.write p (.live x)).items.Perm (x :: t.items) :=
  filterMap_set_live x t.slots p s hslot hfree

theorem write_write (s u : Slot α) : (t.write p s).write p u = t.write p u := by
  simp [write]

theorem write_slot {s : Slot α} (hslot : t.slots[p]? = some s) : t.write p s = t := by
  obtain ⟨hlt, hget⟩ := List.getElem?_eq_some_iff.mp hslot
  subst hget
  simp [write]

theorem write_getElem? {s u : Slot α} (hslot : t.slots[p]? = some s) :
    (t.write p u).slots[p]? = some u := by
  obtain ⟨hlt, _⟩ := List.getElem?_eq_some_iff.mp hslot
  simp [write, hlt]

/-- Vacating a live slot removes exactly its item. -/
theorem items_write_deleted (hslot : t.slots[p]? = some (.live x)) :
    t.items.Perm (x :: (t.write p .deleted).items) := by
  have h := items_write_live (x := x) (write_getElem? (u := .deleted) hslot) rfl
  rwa [write_write, write_slot hslot] at h

/-- Overwriting a live slot exchanges its item. -/
theorem items_replace (y : α) (hslot : t.slots[p]? = some (.live x)) :
    (t.write p (.live y)).items.Perm (y :: (t.write p .deleted).items) := by
  have h := items_write_live (x := y) (write_getElem? (u := .deleted) hslot) rfl
  rwa [write_write] at h

@[simp] theorem items_empty (n : Nat) : (empty n : Table α).items = [] := by
  simp only [items, empty, List.filterMap_eq_nil_iff]
  intro s hs
  rw [(List.mem_replicate.mp hs).2]
  rfl

theorem length_items_le (t : Table α) : t.items.length ≤ t.size := List.length_filterMap_le _ _

/-- A free slot leaves room for one more item. -/
theorem length_items_lt {s : Slot α} (hslot : t.slots[p]? = some s) (hfree : s.isFree) (x : α) :
    t.items.length < t.size := by
  have hlen := (items_write_live (x := x) hslot hfree).length_eq
  have hle := length_items_le (t.write p (.live x))
  rw [List.length_cons] at hlen
  rw [write_size] at hle
  omega

/-- A walk over the slots that ends as soon as it has met `n` items: what it has
    met then, or `none` when the slots end first. It counts after each slot. -/
def walk (n : Int) : List (Slot α) → List α → Option (List α)
  | [], _ => none
  | slot :: rest, met =>
    if (met ++ slot.item?.toList).length = n then some (met ++ slot.item?.toList)
    else walk n rest (met ++ slot.item?.toList)

theorem filterMap_item?_cons (slot : Slot α) (rest : List (Slot α)) :
    (slot :: rest).filterMap Slot.item? = slot.item?.toList ++ rest.filterMap Slot.item? := by
  cases slot <;> rfl

/-- What a walk answers is the first items there are, as many as it was asked. -/
theorem walk_eq_some {n : Int} {slots : List (Slot α)} {met l : List α} (h : walk n slots met = some l) :
    (l.length : Int) = n ∧ l <+: met ++ slots.filterMap Slot.item? := by
  induction slots generalizing met with
  | nil => cases h
  | cons slot rest ih =>
    rw [filterMap_item?_cons, ← List.append_assoc]
    unfold walk at h
    split at h
    · rename_i hdone
      cases h
      exact ⟨hdone, List.prefix_append _ _⟩
    · exact ih h

/-- Asked for exactly the items there are, a walk answers them all. -/
theorem walk_all {n : Int} {slots : List (Slot α)} (hne : slots ≠ []) (met : List α)
    (hn : n = (met ++ slots.filterMap Slot.item?).length) :
    walk n slots met = some (met ++ slots.filterMap Slot.item?) := by
  induction slots generalizing met with
  | nil => exact absurd rfl hne
  | cons slot rest ih =>
    rw [filterMap_item?_cons, ← List.append_assoc] at hn ⊢
    unfold walk
    split
    · rename_i hdone
      -- nothing was left to meet
      simp only [hn, List.length_append] at hdone
      have hnil : rest.filterMap Slot.item? = [] := List.length_eq_zero_iff.mp (by omega)
      rw [hnil, List.append_nil]
    · rename_i hmore
      refine ih ?_ _ hn
      rintro rfl
      rw [List.filterMap_nil, List.append_nil] at hn
      exact hmore hn.symm

end Table

/-- Keys stay distinct when items are only dropped or reordered. -/
theorem nodup_map_of_subperm {α K : Type} {key : α → K} {kept items : List α} (h : kept.Subperm items)
    (hnodup : (items.map key).Nodup) : (kept.map key).Nodup := by
  obtain ⟨l, hperm, hsub⟩ := h
  exact ((hperm.map key).nodup_iff).mp ((hsub.map key).nodup hnodup)

/-- Two items with the same key are one item when keys are distinct. -/
theorem eq_of_key_eq {α K : Type} {key : α → K} {items : List α} (hnodup : (items.map key).Nodup)
    {x y : α} (hx : x ∈ items) (hy : y ∈ items) (hkey : key x = key y) : x = y :=
  List.inj_on_of_nodup_map hnodup hx hy hkey

end OpenAddressing
