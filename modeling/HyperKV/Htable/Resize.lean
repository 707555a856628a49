import HyperKV.Htable.Load

open Outcome OpenAddressing

namespace hyperkv

def htable_resize_up (mc : Machine) (ht : HashTable) : Exec HashTable :=
  fromTable ((htable_scheme mc).resizeUp ((htable_scheme mc).resize 0) ht)

def htable_resize_down (mc : Machine) (ht : HashTable) : Exec HashTable :=
  fromTable ((htable_scheme mc).resizeDown ((htable_scheme mc).resize 1) ht)

def set_resize_up (mc : Machine) (set : CSet) : Exec CSet :=
  fromTable ((set_scheme mc).resizeUp ((set_scheme mc).resize 0) set)

def set_resize_down (mc : Machine) (set : CSet) : Exec CSet :=
  fromTable ((set_scheme mc).resizeDown ((set_scheme mc).resize 1) set)

/-- The resize tests see the percentage of the slots that is in use: above 70 the
    table at least doubles, where twice its size is an `int`, and from 10 on a
    resize down leaves it alone. -/
structure FollowsLoad {α : Type} (t : Table α) (resize_up resize_down : Exec (Table α)) : Prop where
  percentage : load machine t.used t.size = 100 * t.used / t.size
  grows : 70 < 100 * t.used / t.size → 2 * t.size ≤ 2147483647 →
    Ensures (IndexFault machine) resize_up (fun t' => 2 * t.size ≤ t'.size)
  kept : 10 ≤ 100 * t.used / t.size → resize_down = .ok t

theorem load_unbounded {used : Int} {size : Nat} (hused : 0 ≤ used) :
    load unbounded used size = 100 * used / size := by
  change (used * 100).tdiv size = _
  rw [Int.tdiv_eq_ediv_of_nonneg (by omega), Int.mul_comm]

theorem load_of_small {used : Int} {size : Nat} (hused : 0 ≤ used) (hsmall : used * 100 < 2147483648) :
    load machine used size = 100 * used / size := by
  rw [← load_unbounded hused]
  exact congrArg (Int.tdiv · size) (int32_of_bounds (by omega) hsmall)

/-- An overflow takes at least `2 ^ 32` off the dividend, which is more than the
    divisor. -/
theorem load_of_overflow {used : Int} {size : Nat} (hle : used ≤ size) (hsize : size < 2147483648)
    (hoverflow : 2147483648 ≤ used * 100) : load machine used size < 100 * used / size := by
  have hpos : (0 : Int) < size := by omega
  have hwrap : int32 (used * 100) ≤ used * 100 - 4294967296 := by
    rw [int32, Int.bmod_def]
    split <;> omega
  have hone : 1 ≤ 100 * used / (size : Int) := (Int.le_ediv_iff_mul_le hpos).mpr (by omega)
  have hlt : 100 * used < (100 * used / size + 1) * size := Int.lt_ediv_add_one_mul_self _ hpos
  change (int32 (used * 100)).tdiv size < _
  rcases lt_or_ge (int32 (used * 100)) 0 with hneg | hnonneg
  · have hquotient := Int.tdiv_le_tdiv hpos hneg.le
    rw [Int.zero_tdiv] at hquotient
    omega
  · rw [Int.tdiv_eq_ediv_of_nonneg hnonneg, Int.ediv_lt_iff_lt_mul hpos]
    rw [Int.add_mul, Int.one_mul] at hlt
    omega

variable {α : Type} {key : α → CStr} {checks : Bool} {t : Table α}

/-- A resize to at least twice the items makes the table it was asked for. -/
theorem resize_up_doubles (hinj : checks → Function.Injective key) (hpos : 0 < t.size)
    (hasked : resize_up_size machine t.used t.size = some (2 * t.size : Int))
    (hsize : 2 * t.size ≤ 2147483647) :
    Ensures (IndexFault machine) (fromTable ((scheme machine key checks).resizeUp
      ((scheme machine key checks).resize 0) t)) (fun t' => 2 * t.size ≤ t'.size) := by
  have hS := scheme_lawful machine hinj
  obtain ⟨hcapacity, hle⟩ := resize_size_of_le (show (2 : Int) ≤ 2 * t.size by omega)
  have hitems := Table.length_items_le t
  have hsized : Sized machine (init_size (2 * t.size)) := init_size_sized machine (fun _ => by omega)
  have hrebuilt := Scheme.rebuild_no_grow hS 0 hsized (t := t) (by omega)
  apply fromTable_ensures
  rw [Scheme.resizeUp,
    show (scheme machine key checks).grow t.used t.size = some (2 * t.size : Int) from hasked]
  simp only [Scheme.resize, Scheme.resizeWith]
  rw [show (scheme machine key checks).capacity (2 * t.size) = some (init_size (2 * t.size)) from hcapacity]
  apply hrebuilt.mono
  rintro t' ⟨_, hsize'⟩
  omega

theorem followsLoad_iff (hinj : checks → Function.Injective key) (hused : 0 ≤ t.used) (hle : t.used ≤ t.size)
    (hpos : 0 < t.size) (hsize : t.size < 2147483648) :
    FollowsLoad t (fromTable ((scheme machine key checks).resizeUp ((scheme machine key checks).resize 0) t))
        (fromTable ((scheme machine key checks).resizeDown ((scheme machine key checks).resize 1) t)) ↔
      t.used * 100 < 2147483648 := by
  constructor
  · intro h
    by_contra hoverflow
    have hless := load_of_overflow hle hsize (by omega)
    exact absurd h.percentage (by omega)
  · intro hsmall
    have hload : load machine t.used t.size = 100 * t.used / t.size := load_of_small hused hsmall
    refine ⟨hload, fun hfull hdouble => ?_, fun hfull => ?_⟩
    · apply resize_up_doubles hinj hpos _ hdouble
      have hreduce : machine.load.reduce (t.size * 2) = 2 * t.size := by
        change int32 (t.size * 2) = _
        rw [int32_of_bounds (by omega) (by omega), Int.mul_comm]
      rw [resize_up_size, hload, if_pos hfull, hreduce]
    · have hnone : (scheme machine key checks).shrink t.used t.size = none := by
        change resize_down_size machine t.used t.size = none
        rw [resize_down_size, hload, if_neg (by omega)]
      rw [Scheme.resizeDown, hnone]
      rfl

/-- The load is exact, and the resizes follow it, as long as a hundred times the
    counter is an `int`. -/
theorem resizes_follow_load {used : Int} {size : Nat} (hused : 0 ≤ used) (hle : used ≤ size)
    (hprime : size.Prime) (hsize : size < 2147483648) :
    (∀ ht : HashTable, ht.used = used → ht.size = size →
      (FollowsLoad ht (htable_resize_up machine ht) (htable_resize_down machine ht) ↔
        used * 100 < 2147483648)) ∧
    ∀ set : CSet, set.used = used → set.size = size →
      (FollowsLoad set (set_resize_up machine set) (set_resize_down machine set) ↔
        used * 100 < 2147483648) := by
  constructor
  · rintro ht rfl rfl
    exact followsLoad_iff (fun h => by cases h) hused hle hprime.pos hsize
  · rintro set rfl rfl
    exact followsLoad_iff (fun _ => Function.injective_id) hused hle hprime.pos hsize

/-- Four of five slots are taken. -/
def full_set : CSet := ⟨4, [cstr "a", cstr "b", cstr "c", cstr "d"].map .live ++ [.null]⟩

def full_table : HashTable :=
  ⟨4, [cstr "a", cstr "b", cstr "c", cstr "d"].map (fun key => .live ⟨.STR_T, key, .str []⟩) ++ [.null]⟩

theorem resizes_follow_load_full :
    FollowsLoad full_table (htable_resize_up machine full_table) (htable_resize_down machine full_table) ∧
      FollowsLoad full_set (set_resize_up machine full_set) (set_resize_down machine full_set) := by
  have h := resizes_follow_load (by decide : (0 : Int) ≤ 4) (by decide : (4 : Int) ≤ (5 : Nat)) Nat.prime_five
    (by decide)
  exact ⟨(h.1 full_table rfl rfl).mpr (by decide), (h.2 full_set rfl rfl).mpr (by decide)⟩

/-- The first counter whose hundredfold leaves the `int`s, in a set that is 93
    percent full: its load comes out negative. -/
def overfull_set : CSet :=
  ⟨21474837, (List.range 21474837).map (fun i => .live (decimal i)) ++ List.replicate 1425176 .null⟩

theorem resizes_lose_load :
    (0 ≤ overfull_set.used ∧ overfull_set.used ≤ overfull_set.size ∧ overfull_set.size.Prime ∧
        overfull_set.size < 2147483648) ∧
      load machine overfull_set.used overfull_set.size = -93 ∧
      ¬ FollowsLoad overfull_set (set_resize_up machine overfull_set)
        (set_resize_down machine overfull_set) := by
  have hused : overfull_set.used = 21474837 := rfl
  have hsize : overfull_set.size = 22900013 := by
    simp only [overfull_set, Table.size, List.length_append, List.length_map, List.length_range,
      List.length_replicate]
  have hprime : Nat.Prime 22900013 := by norm_num
  rw [hused, hsize]
  refine ⟨⟨by decide, by decide, hprime, by decide⟩, by decide, fun h => ?_⟩
  have hpercentage := h.percentage
  rw [hused, hsize] at hpercentage
  exact absurd hpercentage (by decide)

end hyperkv
