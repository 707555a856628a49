import HyperKV.Htable.Table
import HyperKV.OpenAddressing.DoubleHash
import HyperKV.Set.Members

open Outcome OpenAddressing

namespace hyperkv

/-- The sum that `hash_func` reduces modulo the table size, without overflow. -/
def probe_sum (key : CStr) (size i : Nat) : Int := djb2 key size + i * sdbm key size

theorem hash_bounds (key : CStr) {size : Nat} (hsize : 0 < size) :
    (0 ≤ djb2 key size ∧ djb2 key size < size) ∧ 0 ≤ sdbm key size ∧ sdbm key size < size := by
  have hpos : (0 : Int) < size := by omega
  exact ⟨⟨Int.emod_nonneg _ hpos.ne', Int.emod_lt_of_pos _ hpos⟩,
    Int.emod_nonneg _ hpos.ne', Int.emod_lt_of_pos _ hpos⟩

theorem probe_sum_nonneg (key : CStr) {size : Nat} (hsize : 0 < size) (i : Nat) : 0 ≤ probe_sum key size i := by
  obtain ⟨⟨hhash, _⟩, hstep, _⟩ := hash_bounds key hsize
  exact Int.add_nonneg hhash (Int.mul_nonneg (by omega) hstep)

/-! ## In 32 bits -/

theorem int32_nonneg_iff (x : Int) : 0 ≤ int32 x ↔ x % 4294967296 < 2147483648 := by
  rw [int32, Int.bmod_def]
  split <;> omega

theorem int32_add_int32 (x y : Int) : int32 (x + int32 y) = int32 (x + y) := by
  unfold int32
  exact Int.add_bmod_bmod

/-- The first attempt, which adds nothing, is no exception: its sum is an `int`. -/
theorem hash_func_machine (key : CStr) {size : Nat} (hpos : 0 < size) (hsize : size ≤ 2147483647) (i : Nat) :
    hash_func machine key size i = (int32 (probe_sum key size i)).tmod size := by
  obtain ⟨⟨hlow, hhigh⟩, _⟩ := hash_bounds key hpos
  rw [hash_func, probe_sum]
  split
  · rename_i hzero
    rw [hzero, Int.natCast_zero, Int.zero_mul, Int.add_zero, int32_of_bounds (by omega) (by omega)]
  · change (int32 (djb2 key size + int32 (i * sdbm key size))).tmod size = _
    rw [int32_add_int32]

theorem tmod_mem_iff {x : Int} {size : Nat} (hpos : 0 < size) :
    (0 ≤ x.tmod size ∧ x.tmod size < size) ↔ 0 ≤ x ∨ (size : Int) ∣ x := by
  have hsize : (0 : Int) < size := by omega
  rcases lt_or_ge x 0 with hneg | hnonneg
  · -- a negative remainder is no slot, so only zero is left
    have hle : x.tmod size ≤ 0 := by
      have hflip := Int.emod_nonneg (-x) hsize.ne'
      rw [← Int.tmod_eq_emod_of_nonneg (by omega), Int.neg_tmod] at hflip
      omega
    rw [Int.dvd_iff_tmod_eq_zero]
    omega
  · rw [Int.tmod_eq_emod_of_nonneg hnonneg]
    exact iff_of_true ⟨Int.emod_nonneg _ hsize.ne', Int.emod_lt_of_pos _ hsize⟩ (Or.inl hnonneg)

/-- Tables of up to 46341 slots are too small to overflow. -/
theorem probe_index_small (key : CStr) {size i : Nat} (hsize : size ≤ 46341) (hi : i < size) :
    0 ≤ hash_func machine key size i ∧ hash_func machine key size i < size := by
  have hpos : 0 < size := by omega
  obtain ⟨⟨_, hhash⟩, hlow, hstep⟩ := hash_bounds key hpos
  have hsum := probe_sum_nonneg key hpos i
  have hproduct : (i : Int) * sdbm key size ≤ 46340 * 46340 :=
    Int.mul_le_mul (by omega) (by omega) hlow (by omega)
  rw [hash_func_machine key hpos (by omega), tmod_mem_iff hpos, int32_nonneg_iff]
  unfold probe_sum at hsum ⊢
  omega

/-- A probe index is a slot exactly when 32 bits leave the sum non-negative, or
    take it to a negative multiple of the table size; it always is one in tables of
    up to 46341 slots. -/
theorem probe_index_iff (key : CStr) {size : Nat} (hpos : 0 < size) (hsize : size ≤ 2147483647) (i : Nat) :
    ((0 ≤ hash_func machine key size i ∧ hash_func machine key size i < size) ↔
      probe_sum key size i % 4294967296 < 2147483648 ∨
        (size : Int) ∣ probe_sum key size i % 4294967296 - 4294967296) ∧
    (size ≤ 46341 → i < size →
      0 ≤ hash_func machine key size i ∧ hash_func machine key size i < size) := by
  refine ⟨?_, fun hsmall hi => probe_index_small key hsmall hi⟩
  rw [hash_func_machine key hpos hsize, tmod_mem_iff hpos, int32_nonneg_iff]
  constructor
  · rintro (hsmall | hdvd)
    · exact Or.inl hsmall
    · by_cases hsmall : probe_sum key size i % 4294967296 < 2147483648
      · exact Or.inl hsmall
      · right
        rwa [int32, Int.bmod_def, if_neg (by omega)] at hdvd
  · rintro (hsmall | hdvd)
    · exact Or.inl hsmall
    · by_cases hsmall : probe_sum key size i % 4294967296 < 2147483648
      · exact Or.inl hsmall
      · right
        rwa [int32, Int.bmod_def, if_neg (by omega)]

theorem probe_index_iff_key :
    ((0 ≤ hash_func machine (cstr "key") 1000003 2958 ∧ hash_func machine (cstr "key") 1000003 2958 < 1000003) ↔
      probe_sum (cstr "key") 1000003 2958 % 4294967296 < 2147483648 ∨
        (1000003 : Int) ∣ probe_sum (cstr "key") 1000003 2958 % 4294967296 - 4294967296) ∧
    0 ≤ hash_func machine (cstr "key") 46337 46336 ∧ hash_func machine (cstr "key") 46337 46336 < 46337 :=
  ⟨(probe_index_iff _ (by decide) (by decide) 2958).1,
    (probe_index_iff _ (by decide) (by decide) 46336).2 (by decide) (by decide)⟩

/-- Attempt 2958 for `key` in a table of 1000003 slots. -/
theorem probe_index_negative :
    Nat.Prime 1000003 ∧ 1000003 ≤ 2147483647 ∧ 2958 < 1000003 ∧
      hash_func machine (cstr "key") 1000003 2958 = -24494 := by
  refine ⟨by norm_num, by decide, by decide, by decide⟩

/-! ## Without overflow -/

theorem hash_func_exact (load : IntArith) (casts : Casts) (key : CStr) {size : Nat} (hsize : 0 < size) (i : Nat) :
    hash_func ⟨.exact, load, casts⟩ key size i = doubleHash (djb2 key size).toNat (sdbm key size).toNat size i := by
  have hsum := probe_sum_nonneg key hsize i
  obtain ⟨⟨hhash, _⟩, hstep, _⟩ := hash_bounds key hsize
  have heq : hash_func ⟨.exact, load, casts⟩ key size i = (probe_sum key size i).tmod size := by
    rw [hash_func, probe_sum]
    dsimp only [IntArith.reduce]
    split
    · rename_i hzero
      rw [hzero, Int.natCast_zero, Int.zero_mul, Int.add_zero]
    · rfl
  rw [heq, Int.tmod_eq_emod_of_nonneg hsum, doubleHash, probe_sum, Int.natCast_emod, Int.natCast_add,
    Int.natCast_mul, Int.toNat_of_nonneg hhash, Int.toNat_of_nonneg hstep]

/-- The attempts reach every slot once exactly when the step is not zero. -/
theorem hash_func_bijOn_iff (load : IntArith) (casts : Casts) (key : CStr) {size : Nat} (hprime : size.Prime) :
    Set.BijOn (fun i : Nat => hash_func ⟨.exact, load, casts⟩ key size i) (Set.Iio size) (Set.Ico 0 (size : Int)) ↔
      sdbm key size ≠ 0 := by
  obtain ⟨_, hlow, hhigh⟩ := hash_bounds key hprime.pos
  have hcoprime : size.Coprime (sdbm key size).toNat ↔ sdbm key size ≠ 0 := by
    rw [hprime.coprime_iff_not_dvd]
    constructor
    · intro hdvd hzero
      rw [hzero] at hdvd
      exact hdvd (dvd_zero size)
    · intro hne hdvd
      have hle := Nat.le_of_dvd (by omega) hdvd
      omega
  rw [← hcoprime, ← doubleHash_bijOn_iff (djb2 key size).toNat hprime.pos]
  simp only [hash_func_exact load casts key hprime.pos]
  constructor
  · intro h
    refine ⟨fun i _ => Nat.mod_lt _ hprime.pos, fun i hi j hj heq => h.injOn hi hj (congrArg Nat.cast heq), ?_⟩
    intro p hp
    have hslot : (p : Int) ∈ Set.Ico 0 (size : Int) := ⟨by omega, Int.ofNat_lt.mpr hp⟩
    obtain ⟨i, hi, heq⟩ := h.surjOn hslot
    exact ⟨i, hi, Int.ofNat_inj.mp heq⟩
  · intro h
    refine ⟨fun i hi => ⟨Int.natCast_nonneg _, Int.ofNat_lt.mpr (h.mapsTo hi)⟩,
      fun i hi j hj heq => h.injOn hi hj (Int.ofNat_inj.mp heq), ?_⟩
    rintro x ⟨hx, hlt⟩
    obtain ⟨p, rfl⟩ := Int.eq_ofNat_of_zero_le hx
    obtain ⟨i, hi, heq⟩ := h.surjOn (Int.ofNat_lt.mp hlt)
    exact ⟨i, hi, congrArg Nat.cast heq⟩

/-- The insertion loop for a key stops at a free slot. -/
def FindsSlot {α : Type} (S : Scheme CStr α) (t : Table α) (key : CStr) : Prop :=
  ∃ p s, S.findSpot t key = .ok (some (.free p)) ∧ t.slots[p]? = some s ∧ s.isFree

theorem scheme_covers {α : Type} {load : IntArith} {casts : Casts} {item_key : α → CStr} {checks : Bool} {key : CStr}
    {size : Nat}
    (h : Set.BijOn (fun i : Nat => hash_func ⟨.exact, load, casts⟩ key size i) (Set.Iio size)
      (Set.Ico 0 (size : Int))) :
    (scheme ⟨.exact, load, casts⟩ item_key checks).Covers key size := by
  intro p hp
  have hslot : (p : Int) ∈ Set.Ico 0 (size : Int) := ⟨by omega, Int.ofNat_lt.mpr hp⟩
  obtain ⟨i, hi, heq⟩ := h.surjOn hslot
  exact ⟨i, hi, heq⟩

/-- On a covering path the loop finds a free slot, unless it looks for the key
    and the key is there. -/
theorem finds_slot {α : Type} {load : IntArith} {casts : Casts} {item_key : α → CStr} {checks : Bool} {t : Table α} {key : CStr}
    (hinj : checks → Function.Injective item_key)
    (hcovers : (scheme ⟨.exact, load, casts⟩ item_key checks).Covers key t.size) (hfree : ∃ s ∈ t.slots, s.isFree)
    (habsent : checks → ∀ x ∈ t.items, item_key x ≠ key) :
    FindsSlot (scheme ⟨.exact, load, casts⟩ item_key checks) t key := by
  have hnever : ∀ e, ¬ Scheme.Overflows (IndexOverflow ⟨.exact, load, casts⟩) e := by
    rintro e ⟨_, hoverflow⟩
    exact not_indexOverflow load casts hoverflow
  obtain ⟨r, hfound, hr⟩ := (hcovers.findSpot (scheme_lawful _ hinj) hfree).exists_ok hnever
  rcases hr with ⟨p, rfl, htakes⟩ | ⟨_, hchecks, x, hx, hkey⟩
  · obtain ⟨s, hslot, hs⟩ := htakes.slot
    exact ⟨p, s, hfound, hslot, hs⟩
  · exact absurd hkey (habsent hchecks x hx)

/-- For a prime size the attempts reach every slot once, and the insertion loops
    of both tables find a free slot wherever there is one, exactly when the step
    is not zero. -/
theorem probe_covers_iff (load : IntArith) (casts : Casts) (key : CStr) {size : Nat} (hprime : size.Prime) :
    (Set.BijOn (fun i : Nat => hash_func ⟨.exact, load, casts⟩ key size i) (Set.Iio size) (Set.Ico 0 (size : Int)) ∧
      (∀ ht : HashTable, ht.size = size → (∃ s ∈ ht.slots, s.isFree) →
        FindsSlot (htable_scheme ⟨.exact, load, casts⟩) ht key) ∧
      ∀ set : CSet, set.size = size → (∃ s ∈ set.slots, s.isFree) → key ∉ set_members set →
        FindsSlot (set_scheme ⟨.exact, load, casts⟩) set key) ↔
      sdbm key size ≠ 0 := by
  rw [← hash_func_bijOn_iff load casts key hprime]
  constructor
  · rintro ⟨hbij, _⟩
    exact hbij
  · intro hbij
    refine ⟨hbij, fun ht hsize hfree => ?_, fun set hsize hfree habsent => ?_⟩
    · subst hsize
      exact finds_slot (fun h => by cases h) (scheme_covers hbij) hfree (fun h => by cases h)
    · subst hsize
      exact finds_slot (fun _ => Function.injective_id) (scheme_covers hbij) hfree
        (fun _ x hx heq => habsent (heq ▸ hx))

theorem probe_covers_iff_five :
    (Set.BijOn (fun i : Nat => hash_func ⟨.exact, .exact, none⟩ (cstr "a") 5 i) (Set.Iio 5) (Set.Ico 0 ((5 : Nat) : Int)) ∧
      (∀ ht : HashTable, ht.size = 5 → (∃ s ∈ ht.slots, s.isFree) →
        FindsSlot (htable_scheme ⟨.exact, .exact, none⟩) ht (cstr "a")) ∧
      ∀ set : CSet, set.size = 5 → (∃ s ∈ set.slots, s.isFree) → cstr "a" ∉ set_members set →
        FindsSlot (set_scheme ⟨.exact, .exact, none⟩) set (cstr "a")) ↔
      sdbm (cstr "a") 5 ≠ 0 :=
  probe_covers_iff .exact none (cstr "a") Nat.prime_five

/-- Both attempts of `d` look at the slot that `b` has taken; the other one is
    free. -/
theorem probe_misses_slot :
    Nat.Prime 2 ∧ (∃ s ∈ [Slot.null, Slot.live (⟨.STR_T, cstr "b", .str []⟩ : HashTableItem Value)], s.isFree) ∧
      hash_func ⟨.exact, .exact, none⟩ (cstr "d") 2 0 = 1 ∧ hash_func ⟨.exact, .exact, none⟩ (cstr "d") 2 1 = 1 ∧
      (htable_scheme ⟨.exact, .exact, none⟩).findSpot ⟨1, [.null, .live ⟨.STR_T, cstr "b", .str []⟩]⟩ (cstr "d") =
        .ok none := by
  refine ⟨Nat.prime_two, ⟨.null, by simp, rfl⟩, by decide, by decide, rfl⟩

end hyperkv
