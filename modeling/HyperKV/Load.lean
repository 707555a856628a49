import HyperKV.Helper.NextPrime
import HyperKV.OpenAddressing.Lands
import HyperKV.Types

open Outcome OpenAddressing

namespace hyperkv

/-- The percentage that both resize tests compute. -/
def load (mc : Machine) (used : Int) (size : Nat) : Int := (mc.load.reduce (used * 100)).tdiv size

/-- The size that `htable_resize_up` and `set_resize_up` ask for. -/
def resize_up_size (mc : Machine) (used : Int) (size : Nat) : Option Int :=
  if load mc used size > 70 then some (mc.load.reduce (size * 2)) else none

/-- The size that `htable_resize_down` and `set_resize_down` ask for. -/
def resize_down_size (mc : Machine) (used : Int) (size : Nat) : Option Int :=
  if load mc used size < 10 then some ((size / 2 : Nat) : Int) else none

/-- The slots that `htable_init` and `set_init` allocate. -/
def init_size (size : Int) : Nat := (next_prime size).toNat

/-- What `htable_resize` and `set_resize` allocate; below the base size they
    return at once. -/
def resize_size (new_size : Int) : Option Nat :=
  if new_size < HT_BASE_SIZE then none else some (init_size new_size)

/-- The two open-addressing tables of the program differ in their items and in
    whether an insertion looks for an equal item. -/
def scheme {α : Type} (mc : Machine) (key : α → CStr) (checks : Bool) : Scheme CStr α where
  key := key
  path := hash_func mc
  checks := checks
  count := mc.load.reduce
  grow := resize_up_size mc
  shrink := resize_down_size mc
  capacity := resize_size

/-- The index arithmetic of `hash_func` may leave the `int`s. -/
def IndexOverflow (mc : Machine) : Prop := mc.index = .int32

instance (mc : Machine) : Decidable (IndexOverflow mc) := inferInstanceAs (Decidable (mc.index = .int32))

/-- The only fault a table operation can meet: a probe index that overflowed. -/
def IndexFault (mc : Machine) (e : Fault) : Prop := e = .table .outOfRange ∧ IndexOverflow mc

instance (mc : Machine) : DecidablePred (IndexFault mc) :=
  fun e => inferInstanceAs (Decidable (e = .table .outOfRange ∧ IndexOverflow mc))

/-- The exact arithmetic has no `int`s to leave. -/
theorem not_indexOverflow (load : IntArith) (casts : Casts) : ¬ IndexOverflow ⟨.exact, load, casts⟩ := by
  intro h
  cases h

theorem not_indexFault (load : IntArith) (casts : Casts) (e : Fault) : ¬ IndexFault ⟨.exact, load, casts⟩ e := by
  rintro ⟨_, hoverflow⟩
  exact not_indexOverflow load casts hoverflow

/-- Table sizes are positive and, where the machine counts in 32 bits, `int`s. -/
def Sized (mc : Machine) (n : Nat) : Prop := 0 < n ∧ (mc.load = .int32 → n ≤ 2147483647)

theorem hash_func_inRange {mc : Machine} (h : ¬ IndexOverflow mc) (key : CStr) {size i : Nat} (hi : i < size) :
    0 ≤ hash_func mc key size i ∧ hash_func mc key size i < size := by
  have hexact : mc.index = .exact := by
    cases heq : mc.index with
    | exact => rfl
    | int32 => exact absurd heq h
  have hsize : (0 : Int) < size := by omega
  have hdjb2 : 0 ≤ djb2 key size := Int.emod_nonneg _ (by omega)
  have hsdbm : 0 ≤ sdbm key size := Int.emod_nonneg _ (by omega)
  have hprobe : 0 ≤ djb2 key size + i * sdbm key size :=
    Int.add_nonneg hdjb2 (Int.mul_nonneg (by omega) hsdbm)
  rw [hash_func, hexact]
  simp only [IntArith.reduce]
  split
  · rw [Int.tmod_eq_emod_of_nonneg hdjb2]
    exact ⟨Int.emod_nonneg _ (by omega), Int.emod_lt_of_pos _ hsize⟩
  · rw [Int.tmod_eq_emod_of_nonneg hprobe]
    exact ⟨Int.emod_nonneg _ (by omega), Int.emod_lt_of_pos _ hsize⟩

theorem init_size_sized (mc : Machine) {size : Int} (h : mc.load = .int32 → size ≤ 2147483647) :
    Sized mc (init_size size) := by
  have hspec := next_prime_spec size
  refine ⟨by unfold init_size; omega, fun hload => ?_⟩
  have hle := next_prime_le (h hload)
  unfold init_size
  omega

theorem resize_size_eq_some {new_size : Int} {n : Nat} (h : resize_size new_size = some n) :
    2 ≤ new_size ∧ n = init_size new_size := by
  unfold resize_size at h
  split at h
  · cases h
  · rename_i hbase
    simp only [HT_BASE_SIZE] at hbase
    exact ⟨by omega, by simpa using h.symm⟩

/-- A machine's load is at most the exact one. -/
theorem load_le (mc : Machine) {used : Int} {size : Nat} (hused : 0 ≤ used) (hsize : 0 < size)
    (hroom : 2 * used ≤ size) : load mc used size ≤ 50 := by
  have hreduce : mc.load.reduce (used * 100) ≤ 50 * size := by
    have hle : mc.load.reduce (used * 100) ≤ used * 100 := by
      cases mc.load with
      | exact => exact le_rfl
      | int32 => exact int32_le (by omega)
    omega
  have hpos : (0 : Int) < size := by omega
  calc load mc used size ≤ (50 * size : Int).tdiv size := Int.tdiv_le_tdiv hpos hreduce
    _ = 50 := Int.mul_tdiv_cancel 50 hpos.ne'

theorem scheme_lawful {α : Type} (mc : Machine) {key : α → CStr} {checks : Bool}
    (hinj : checks → Function.Injective key) :
    (scheme mc key checks).Lawful (IndexOverflow mc) (Sized mc) where
  inRange h k _ _ hi := hash_func_inRange h k hi
  grow_capacity {used n asked m} hn hgrow hm := by
    simp only [scheme, resize_up_size] at hgrow hm
    obtain ⟨htwo, rfl⟩ := resize_size_eq_some hm
    split at hgrow
    · have hasked : asked = n * 2 ∧ (mc.load = .int32 → asked ≤ 2147483647) := by
        cases hload : mc.load with
        | exact =>
          rw [hload] at hgrow
          exact ⟨(Option.some.inj hgrow).symm, by simp⟩
        | int32 =>
          -- a doubled size that leaves the `int`s is negative, and refused
          rw [hload] at hgrow
          have hwrap : int32 (n * 2) = asked := Option.some.inj hgrow
          have hbounds := int32_bounds (n * 2)
          have hsmall := hn.2 hload
          rw [int32, Int.bmod_def] at hwrap
          split at hwrap <;> exact ⟨by omega, by omega⟩
      have hspec := next_prime_spec asked
      refine ⟨init_size_sized mc hasked.2, ?_⟩
      unfold init_size
      omega
    · cases hgrow
  shrink_capacity {used n asked m} hn hshrink hm := by
    simp only [scheme, resize_down_size] at hshrink hm
    obtain ⟨_, rfl⟩ := resize_size_eq_some hm
    split at hshrink
    · cases hshrink
      refine init_size_sized mc (fun hload => ?_)
      have hsmall := hn.2 hload
      omega
    · cases hshrink
  no_grow {used n} hn hused hroom := by
    have hload := load_le mc hused hn.1 hroom
    simp only [scheme, resize_up_size]
    exact if_neg (by omega)
  count_eq {used n} hn hused hle := by
    simp only [scheme]
    cases hload : mc.load with
    | exact => rfl
    | int32 =>
      have hsmall := hn.2 hload
      exact int32_of_bounds (by omega) (by omega)
  checks_inj := hinj

theorem fromTable_ensures {α : Type} {mc : Machine} {x : Except OpenAddressing.Fault α} {P : α → Prop}
    (h : Ensures (Scheme.Overflows (IndexOverflow mc)) x P) : Ensures (IndexFault mc) (fromTable x) P :=
  ensures_mapError.mpr (h.tolerate (fun _ he => ⟨congrArg Fault.table he.1, he.2⟩))

theorem fromTable_any {α : Type} {x : Except OpenAddressing.Fault α} {P : α → Prop}
    (h : Ensures AnyFault x P) : Ensures AnyFault (fromTable x) P := ensures_mapError.mpr h

end hyperkv
