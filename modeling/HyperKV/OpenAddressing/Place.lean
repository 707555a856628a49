import HyperKV.OpenAddressing.Items

namespace OpenAddressing

namespace Scheme

variable {K α : Type}

/-- The laws a scheme owes its tables. Probe indices stay inside the array
    unless the machine's index arithmetic may overflow; `Sized` bounds the
    arrays that the machine's counter can count. A table grown at `n` slots gets
    at least `2 * n`, and one at most half full is not grown. -/
structure Lawful (S : Scheme K α) (overflow : Prop) (Sized : Nat → Prop) : Prop where
  inRange : ¬ overflow → ∀ k n i, i < n → 0 ≤ S.path k n i ∧ S.path k n i < n
  grow_capacity : ∀ {used n asked m}, Sized n → S.grow used n = some asked → S.capacity asked = some m →
    Sized m ∧ 2 * n ≤ m
  shrink_capacity : ∀ {used n asked m}, Sized n → S.shrink used n = some asked →
    S.capacity asked = some m → Sized m
  no_grow : ∀ {used : Int} {n : Nat}, Sized n → 0 ≤ used → 2 * used ≤ n → S.grow used n = none
  count_eq : ∀ {used : Int} {n : Nat}, Sized n → 0 ≤ used → used ≤ n → S.count used = used
  checks_inj : S.checks → Function.Injective S.key

/-- The only fault of a lawful table: an overflowing probe index. -/
def Overflows (overflow : Prop) (e : Fault) : Prop := e = .outOfRange ∧ overflow

/-- The loop of an insertion of key `k` takes a slot: a free one, behind live
    items that the loop may pass. -/
def TakesSlot (S : Scheme K α) (t : Table α) (k : K) (p : Nat) : Prop :=
  ∃ i < t.size, (∃ s, S.slotAt t k i = some (p, s) ∧ s.isFree) ∧
    ∀ j < i, ∃ q y, S.slotAt t k j = some (q, .live y) ∧ ¬ (S.checks ∧ S.key y = k)

variable {S : Scheme K α} {overflow : Prop} {Sized : Nat → Prop} {t : Table α}

theorem TakesSlot.slot {k : K} {p : Nat} (h : S.TakesSlot t k p) :
    ∃ s, t.slots[p]? = some s ∧ s.isFree := by
  obtain ⟨i, _, ⟨s, hat, hfree⟩, _⟩ := h
  exact ⟨s, (slotAt_eq_some.mp hat).2, hfree⟩

@[simp] theorem place_size (p : Nat) (x : α) : (S.place t p x).size = t.size := Table.write_size t p _

@[simp] theorem clear_size (p : Nat) : (S.clear t p).size = t.size := Table.write_size t p _

theorem place_no_grow (hS : S.Lawful overflow Sized) (p : Nat) (x : α) (hsized : Sized t.size)
    (hused : 0 ≤ t.used) (hroom : 2 * (t.used + 1) ≤ t.size) :
    (S.place t p x).used = t.used + 1 ∧ S.grow (S.place t p x).used t.size = none := by
  have hcount : (S.place t p x).used = t.used + 1 := hS.count_eq hsized (by omega) (by omega)
  rw [hcount]
  exact ⟨rfl, hS.no_grow hsized (by omega) (by omega)⟩

theorem TakesSlot.items_place {x : α} {p : Nat} (h : S.TakesSlot t (S.key x) p) :
    (S.place t p x).items.Perm (x :: t.items) := by
  obtain ⟨s, hslot, hfree⟩ := h.slot
  exact Table.items_write_live hslot hfree

theorem TakesSlot.findable_place {x : α} {p : Nat} (h : S.TakesSlot t (S.key x) p) (ht : S.Findable t) :
    S.Findable (S.place t p x) := by
  obtain ⟨i, hi, ⟨s, hat, _⟩, hbefore⟩ := h
  refine ht.write (p := p) (s := .live x) (by simp) ?_
  rintro y ⟨⟩
  refine ⟨i, hi, ⟨s, hat⟩, fun j hj => ?_⟩
  obtain ⟨q, y, hy, _⟩ := hbefore j hj
  exact ⟨q, .live y, hy, by simp⟩

theorem Findable.clear {p : Nat} (h : S.Findable t) : S.Findable (S.clear t p) :=
  h.write (p := p) (s := .deleted) (by simp) (by simp)

theorem Findable.replace {p : Nat} {x y : α} (h : S.Findable t) (hslot : t.slots[p]? = some (.live x))
    (hkey : S.key y = S.key x) : S.Findable (t.write p (.live y)) := by
  refine h.write (by simp) ?_
  rintro z ⟨⟩
  obtain ⟨i, hi, hat, hold⟩ := h p x hslot
  rw [hkey]
  exact ⟨i, hi, ⟨_, hat⟩, hold⟩

/-- What a resize leaves unchanged: it may lose items, never gains one, and does
    not touch the counter. -/
structure Resized (S : Scheme K α) (Sized : Nat → Prop) (t t' : Table α) : Prop where
  findable : S.Findable t'
  sized : Sized t'.size
  subperm : t'.items.Subperm t.items
  used : t'.used = t.used

/-- What an insertion of `x` does: it leaves the table alone or takes a slot,
    counts one item more, and may lose items in the resize it triggers. -/
structure Inserted (S : Scheme K α) (Sized : Nat → Prop) (t : Table α) (x : α) (t' : Table α)
    (taken : Bool) : Prop where
  findable : S.Findable t'
  sized : Sized t'.size
  subperm : t'.items.Subperm (x :: t.items)
  unchanged : taken = false → t' = t
  takes : taken = true → ∃ p, S.TakesSlot t (S.key x) p
  used : taken = true → t'.used = S.count (t.used + 1)

/-- A lawful probe leaves the array only by overflow. -/
theorem Lawful.probe_fault (hS : S.Lawful overflow Sized) {k : K} {e : Fault}
    (h : e = Fault.outOfRange ∧ ¬ S.InRange t k) : Overflows overflow e := by
  refine ⟨h.1, ?_⟩
  by_contra hexact
  apply h.2
  intro i hi hnone
  obtain ⟨hnonneg, hlt⟩ := hS.inRange hexact k t.size i hi
  have hget : (S.path k t.size i).toNat < t.slots.length := by
    have : (S.path k t.size i).toNat < t.size := by omega
    exact this
  simp [slotAt, hnonneg, List.getElem?_eq_getElem hget] at hnone

end Scheme

end OpenAddressing
