import HyperKV.OpenAddressing.Table

open Outcome

namespace OpenAddressing

namespace Table

variable {α : Type}

@[simp] theorem write_size (t : Table α) (p : Nat) (s : Slot α) : (t.write p s).size = t.size := by
  simp [write, size]

@[simp] theorem write_used (t : Table α) (p : Nat) (s : Slot α) : (t.write p s).used = t.used := rfl

@[simp] theorem empty_size (n : Nat) : (empty n : Table α).size = n := by simp [empty, size]

@[simp] theorem empty_used (n : Nat) : (empty n : Table α).used = 0 := rfl

theorem mem_items {t : Table α} {x : α} : x ∈ t.items ↔ ∃ p : Nat, t.slots[p]? = some (.live x) := by
  constructor
  · intro hx
    obtain ⟨s, hs, hitem⟩ := List.mem_filterMap.mp hx
    cases s with
    | live y =>
      cases hitem
      exact List.mem_iff_getElem?.mp hs
    | _ => cases hitem
  · rintro ⟨p, hp⟩
    exact List.mem_filterMap.mpr ⟨_, List.mem_iff_getElem?.mpr ⟨p, hp⟩, rfl⟩

end Table

namespace Scheme

variable {K α β : Type} (S : Scheme K α)

/-- Attempts `first, ..., last - 1` of a probe all look at a slot of the array
    and none of them stops the loop. -/
def Passes (t : Table α) (k : K) (stop : Nat → Slot α → Option β) (first last : Nat) : Prop :=
  ∀ i, first ≤ i → i < last → ∃ p s, S.slotAt t k i = some (p, s) ∧ stop p s = none

/-- Attempt `i` is the first to stop the loop, with answer `b`. -/
structure StopsAt (t : Table α) (k : K) (stop : Nat → Slot α → Option β) (i : Nat) (b : β) : Prop where
  lt : i < t.size
  hit : ∃ p s, S.slotAt t k i = some (p, s) ∧ stop p s = some b
  passes : S.Passes t k stop 0 i

/-- Attempt `i` is the first to look outside the array, and nothing stopped the loop
    before it. -/
structure LeavesAt (t : Table α) (k : K) (stop : Nat → Slot α → Option β) (i : Nat) : Prop where
  lt : i < t.size
  miss : S.slotAt t k i = none
  passes : S.Passes t k stop 0 i

/-- The probe of `k` never looks outside the array. -/
def InRange (t : Table α) (k : K) : Prop := ∀ i < t.size, S.slotAt t k i ≠ none

variable {S} {t : Table α} {k : K} {stop : Nat → Slot α → Option β}

theorem slotAt_eq_some {i p : Nat} {s : Slot α} :
    S.slotAt t k i = some (p, s) ↔ S.path k t.size i = p ∧ t.slots[p]? = some s := by
  unfold slotAt
  constructor
  · intro h
    split at h
    · rename_i hnonneg
      obtain ⟨u, hu, heq⟩ := Option.map_eq_some_iff.mp h
      obtain ⟨rfl, rfl⟩ := Prod.mk.inj heq
      exact ⟨by omega, hu⟩
    · cases h
  · rintro ⟨hpath, hslot⟩
    simp [hpath, hslot]

/-- A slot on the path keeps its index when the array is written. -/
theorem slotAt_write (i p : Nat) (s : Slot α) :
    S.slotAt (t.write p s) k i = (S.slotAt t k i).map (fun v => (v.1, if v.1 = p then s else v.2)) := by
  unfold slotAt
  simp only [Table.write_size]
  split
  · rcases eq_or_ne (S.path k t.size i).toNat p with heq | hne
    · subst heq
      simp only [Table.write, List.getElem?_set_self']
      cases t.slots[(S.path k t.size i).toNat]? <;> simp
    · simp only [Table.write, List.getElem?_set_ne hne.symm, Option.map_map]
      cases t.slots[(S.path k t.size i).toNat]? <;> simp [hne]
  · rfl

private theorem scan_ensures (attempts : Nat) : ∀ first,
    Ensures (fun e => e = Fault.outOfRange ∧ ∃ i, first ≤ i ∧ i < first + attempts ∧
        S.slotAt t k i = none ∧ S.Passes t k stop first i)
      (S.scan t k stop attempts first) (fun r => match r with
        | some b => ∃ i, first ≤ i ∧ i < first + attempts ∧
            (∃ p s, S.slotAt t k i = some (p, s) ∧ stop p s = some b) ∧ S.Passes t k stop first i
        | none => S.Passes t k stop first (first + attempts)) := by
  induction attempts with
  | zero =>
    intro first i hle hlt
    omega
  | succ attempts ih =>
    intro first
    unfold scan
    cases hslot : S.slotAt t k first with
    | none => exact ⟨rfl, first, by omega, by omega, hslot, fun i hle hlt => by omega⟩
    | some v =>
      obtain ⟨p, s⟩ := v
      simp only
      cases hstop : stop p s with
      | some b => exact ⟨first, by omega, by omega, ⟨p, s, hslot, hstop⟩, fun i hle hlt => by omega⟩
      | none =>
        -- the first attempt passes, so the rest of the loop is the same loop one attempt later
        have hfirst : ∀ last, S.Passes t k stop (first + 1) last → S.Passes t k stop first last := by
          intro last hpass i hle hlt
          rcases Nat.eq_or_lt_of_le hle with heq | hgt
          · subst heq
            exact ⟨p, s, hslot, hstop⟩
          · exact hpass i hgt hlt
        refine ((ih (first + 1)).tolerate ?_).mono ?_
        · rintro e ⟨he, i, hle, hlt, hnone, hpass⟩
          exact ⟨he, i, by omega, by omega, hnone, hfirst _ hpass⟩
        · intro r hr
          cases r with
          | none =>
            have hlast : first + 1 + attempts = first + (attempts + 1) := by omega
            exact hlast ▸ hfirst _ hr
          | some b =>
            obtain ⟨i, hle, hlt, hhit, hpass⟩ := hr
            exact ⟨i, by omega, by omega, hhit, hfirst _ hpass⟩

/-- A probe answers at the first attempt that stops it, or passes the whole
    path; it faults only where an attempt looks outside the array. -/
theorem probe_spec (t : Table α) (k : K) (stop : Nat → Slot α → Option β) :
    Ensures (fun e => e = Fault.outOfRange ∧ ∃ i, S.LeavesAt t k stop i) (S.probe t k stop) (fun r => match r with
      | some b => ∃ i, S.StopsAt t k stop i b
      | none => S.Passes t k stop 0 t.size) := by
  refine ((scan_ensures t.size 0).tolerate ?_).mono ?_
  · rintro e ⟨he, i, _, hlt, hnone, hpass⟩
    exact ⟨he, i, by omega, hnone, hpass⟩
  · intro r hr
    cases r with
    | none => simpa only [Nat.zero_add] using hr
    | some b =>
      obtain ⟨i, _, hlt, hhit, hpass⟩ := hr
      exact ⟨i, by omega, hhit, hpass⟩

theorem LeavesAt.not_inRange {i : Nat} (h : S.LeavesAt t k stop i) : ¬ S.InRange t k :=
  fun hrange => hrange i h.lt h.miss

/-- Every live item is reached by the probe for its own key before any null
    slot: the invariant that makes stopping at a null slot sound. -/
def Findable (S : Scheme K α) (t : Table α) : Prop :=
  ∀ p x, t.slots[p]? = some (.live x) → ∃ i < t.size, S.slotAt t (S.key x) i = some (p, .live x) ∧
    ∀ j < i, ∃ q s, S.slotAt t (S.key x) j = some (q, s) ∧ s ≠ .null

theorem findable_empty (n : Nat) : S.Findable (Table.empty n) := by
  intro p x hslot
  have hmem := List.mem_iff_getElem?.mpr ⟨p, hslot⟩
  cases (List.mem_replicate.mp hmem).2

/-- Writing anything but null keeps the invariant, provided a newly written item
    sits on its own path behind non-null slots. -/
theorem Findable.write {p : Nat} {s : Slot α} (h : S.Findable t) (hs : s ≠ .null)
    (hnew : ∀ x, s = .live x → ∃ i < t.size, (∃ u, S.slotAt t (S.key x) i = some (p, u)) ∧
      ∀ j < i, ∃ q u, S.slotAt t (S.key x) j = some (q, u) ∧ u ≠ .null) :
    S.Findable (t.write p s) := by
  -- slots passed on the way stay non-null
  have hpass : ∀ (k : K) (i : Nat), (∀ j < i, ∃ q u, S.slotAt t k j = some (q, u) ∧ u ≠ .null) →
      ∀ j < i, ∃ q u, S.slotAt (t.write p s) k j = some (q, u) ∧ u ≠ .null := by
    intro k i hold j hj
    obtain ⟨q, u, hslot, hu⟩ := hold j hj
    refine ⟨q, if q = p then s else u, by simp [slotAt_write, hslot], ?_⟩
    split <;> assumption
  intro q x hslot
  rw [Table.write_size]
  rcases eq_or_ne p q with heq | hne
  · subst heq
    have hx : s = .live x := by
      simp only [Table.write, List.getElem?_set_self'] at hslot
      obtain ⟨_, _, hsx⟩ := Option.map_eq_some_iff.mp hslot
      simpa using hsx
    obtain ⟨i, hi, ⟨u, hu⟩, hold⟩ := hnew x hx
    exact ⟨i, hi, by simp [slotAt_write, hu, hx], hpass _ i hold⟩
  · simp only [Table.write, List.getElem?_set_ne hne] at hslot
    obtain ⟨i, hi, hat, hold⟩ := h q x hslot
    exact ⟨i, hi, by simp [slotAt_write, hat, hne.symm], hpass _ i hold⟩

variable [DecidableEq K]

/-- A search does not leave the array ahead of an item with the key. -/
theorem LeavesAt.key_ne {i : Nat} (hleaves : S.LeavesAt t k (S.searchStop k) i) (h : S.Findable t) :
    ∀ x ∈ t.items, S.key x ≠ k := by
  intro x hx hkey
  obtain ⟨p, hslot⟩ := Table.mem_items.mp hx
  obtain ⟨j, hj, hat, hold⟩ := h p x hslot
  rw [hkey] at hat hold
  rcases Nat.lt_trichotomy j i with hji | hji | hij
  · obtain ⟨q, s, hat', hstop⟩ := hleaves.passes j (Nat.zero_le j) hji
    rw [hat] at hat'
    cases hat'
    simp [searchStop, hkey] at hstop
  · subst hji
    rw [hleaves.miss] at hat
    cases hat
  · obtain ⟨q, s, hat', _⟩ := hold i hij
    rw [hleaves.miss] at hat'
    cases hat'

/-- A search in a table with findable items returns a live item with the key,
    and null only when there is none. It leaves the array only then, too. -/
theorem search_spec (h : S.Findable t) (k : K) :
    Ensures (fun e => (e = Fault.outOfRange ∧ ¬ S.InRange t k) ∧ ∀ x ∈ t.items, S.key x ≠ k) (S.search t k)
      (fun r => match r with
      | some (p, x) => t.slots[p]? = some (.live x) ∧ S.key x = k
      | none => ∀ x ∈ t.items, S.key x ≠ k) := by
  refine ensures_map.mpr (((probe_spec t k _).tolerate ?_).mono ?_)
  · rintro e ⟨he, i, hleaves⟩
    exact ⟨⟨he, hleaves.not_inRange⟩, hleaves.key_ne h⟩
  intro r hr
  cases r with
  | none =>
    simp only [Option.join_none]
    intro x hx hkey
    obtain ⟨p, hslot⟩ := Table.mem_items.mp hx
    obtain ⟨i, hi, hat, _⟩ := h p x hslot
    obtain ⟨q, s, hat', hstop⟩ := hr i (Nat.zero_le i) hi
    rw [← hkey, hat] at hat'
    cases hat'
    simp [searchStop, hkey] at hstop
  | some found =>
    obtain ⟨i, hlt, ⟨p, s, hat, hstop⟩, hpass⟩ := hr
    cases s with
    | deleted => cases hstop
    | live y =>
      simp only [searchStop] at hstop
      split at hstop
      · rename_i hkey
        cases hstop
        exact ⟨(slotAt_eq_some.mp hat).2, hkey⟩
      · cases hstop
    | null =>
      -- the loop met a null slot first, so an item with this key would have been met before it
      cases hstop
      intro x hx hkey
      obtain ⟨q, hslot⟩ := Table.mem_items.mp hx
      obtain ⟨j, hj, hatx, hold⟩ := h q x hslot
      rw [hkey] at hatx hold
      rcases Nat.lt_trichotomy j i with hji | hji | hij
      · obtain ⟨q', s', hat', hstop'⟩ := hpass j (Nat.zero_le j) hji
        rw [hatx] at hat'
        cases hat'
        simp [searchStop, hkey] at hstop'
      · subst hji
        rw [hatx] at hat
        cases hat
      · obtain ⟨q', s', hat', hs'⟩ := hold i hij
        rw [hat] at hat'
        cases hat'
        exact hs' rfl

/-- An insertion loop stops at a free slot behind live items that it may pass,
    at an item with the same key, or nowhere on a path full of live items. -/
theorem findSpot_spec (t : Table α) (k : K) :
    Ensures (fun e => e = Fault.outOfRange ∧ ¬ S.InRange t k) (S.findSpot t k) (fun r => match r with
      | some (.free p) => ∃ i < t.size, (∃ s, S.slotAt t k i = some (p, s) ∧ s.isFree) ∧
          ∀ j < i, ∃ q y, S.slotAt t k j = some (q, .live y) ∧ ¬ (S.checks ∧ S.key y = k)
      | some .equal => S.checks ∧ ∃ x ∈ t.items, S.key x = k
      | none => ∀ i < t.size, ∃ q y, S.slotAt t k i = some (q, .live y) ∧ ¬ (S.checks ∧ S.key y = k)) := by
  have hlive : ∀ (i : Nat), (∃ p s, S.slotAt t k i = some (p, s) ∧ S.insertStop k p s = none) →
      ∃ q y, S.slotAt t k i = some (q, .live y) ∧ ¬ (S.checks ∧ S.key y = k) := by
    rintro i ⟨p, s, hat, hstop⟩
    cases s with
    | live y =>
      refine ⟨p, y, hat, fun heq => ?_⟩
      rw [insertStop, if_pos heq] at hstop
      cases hstop
    | _ => cases hstop
  refine ((probe_spec t k _).tolerate ?_).mono ?_
  · rintro e ⟨he, i, hleaves⟩
    exact ⟨he, hleaves.not_inRange⟩
  intro r hr
  cases r with
  | none => exact fun i hi => hlive i (hr i (Nat.zero_le i) hi)
  | some spot =>
    obtain ⟨i, hlt, ⟨p, s, hat, hstop⟩, hpass⟩ := hr
    have hbefore := fun j (hj : j < i) => hlive j (hpass j (Nat.zero_le j) hj)
    cases s with
    | null =>
      cases hstop
      exact ⟨i, hlt, ⟨.null, hat, rfl⟩, hbefore⟩
    | deleted =>
      cases hstop
      exact ⟨i, hlt, ⟨.deleted, hat, rfl⟩, hbefore⟩
    | live y =>
      simp only [insertStop] at hstop
      split at hstop
      · rename_i heq
        cases hstop
        exact ⟨heq.1, y, Table.mem_items.mpr ⟨p, (slotAt_eq_some.mp hat).2⟩, heq.2⟩
      · cases hstop

/-- Some slot on the probe path of `k` stops an insertion loop. When there is
    none the loop falls through and the item is dropped. -/
def hasSpot (S : Scheme K α) (t : Table α) (k : K) : Bool :=
  (List.range t.size).any fun i =>
    (S.slotAt t k i).any fun v => (S.insertStop k v.1 v.2).isSome

theorem not_hasSpot {k : K}
    (h : ∀ i < t.size, ∃ q y, S.slotAt t k i = some (q, .live y) ∧ ¬ (S.checks ∧ S.key y = k)) :
    S.hasSpot t k = false := by
  rw [hasSpot, List.any_eq_false]
  intro i hi
  obtain ⟨q, y, hat, hne⟩ := h i (List.mem_range.mp hi)
  rw [hat, Option.any_some, insertStop, if_neg hne]
  simp

theorem hasSpot_of_findSpot {k : K} {spot : Spot} (h : S.findSpot t k = .ok (some spot)) :
    S.hasSpot t k := by
  obtain ⟨i, hi, ⟨p, s, hat, hstop⟩, _⟩ := (probe_spec t k (S.insertStop k)).of_eq_ok h
  refine List.any_eq_true.mpr ⟨i, List.mem_range.mpr hi, ?_⟩
  rw [hat, Option.any_some, hstop]
  rfl

end Scheme

end OpenAddressing
