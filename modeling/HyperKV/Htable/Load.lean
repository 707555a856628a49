import HyperKV.Htable.Table
import HyperKV.OpenAddressing.Room
import HyperKV.Set.Members

open Outcome OpenAddressing

namespace hyperkv

/-- Arithmetic without overflow. -/
def unbounded : Machine := { machine with index := .exact, load := .exact }

/-- What both resize tests leave a counter at. -/
def Light (used : Int) (n : Nat) : Prop := load unbounded used n ≤ 70 ∧ used < n

theorem load_lt_iff {used : Int} {n : Nat} (hused : 0 ≤ used) (hn : 0 < n) (bound : Int) :
    load unbounded used n < bound ↔ used * 100 < bound * n := by
  have hscaled : 0 ≤ used * 100 := by omega
  have hpos : (0 : Int) < n := by omega
  change (used * 100).tdiv n < bound ↔ _
  rw [Int.tdiv_eq_ediv_of_nonneg hscaled]
  exact Int.ediv_lt_iff_lt_mul hpos

theorem light_iff {used : Int} {n : Nat} (hused : 0 ≤ used) (hn : 0 < n) :
    Light used n ↔ used * 100 < 71 * n := by
  have hload := load_lt_iff hused hn 71
  unfold Light
  constructor
  · rintro ⟨hle, _⟩
    exact hload.mp (by omega)
  · intro hlt
    exact ⟨by have := hload.mpr hlt; omega, by omega⟩

theorem light_of_room {used : Int} {n : Nat} (hused : 0 ≤ used) (hn : 0 < n) (hroom : 2 * used ≤ n) :
    Light used n := (light_iff hused hn).mpr (by omega)

/-- Asked for at least the base size, a table gets the next prime of slots. -/
theorem resize_size_of_le {new_size : Int} (h : 2 ≤ new_size) :
    resize_size new_size = some (init_size new_size) ∧ new_size ≤ init_size new_size := by
  have hspec := next_prime_spec new_size
  have hbase : ¬ new_size < HT_BASE_SIZE := by
    simp only [HT_BASE_SIZE]
    omega
  refine ⟨if_neg hbase, ?_⟩
  unfold init_size
  omega

theorem resize_up_size_eq_none {used : Int} {n : Nat} :
    resize_up_size unbounded used n = none ↔ load unbounded used n ≤ 70 := by
  unfold resize_up_size
  by_cases hload : load unbounded used n > 70
  · rw [if_pos hload]
    exact iff_of_false (by simp) (by omega)
  · rw [if_neg hload]
    exact iff_of_true rfl (by omega)

theorem resize_up_size_eq_some {used asked : Int} {n : Nat}
    (h : resize_up_size unbounded used n = some asked) : asked = n * 2 := by
  unfold resize_up_size at h
  split at h
  · exact (Option.some.inj h).symm
  · cases h

theorem resize_down_size_eq_some {used asked : Int} {n : Nat}
    (h : resize_down_size unbounded used n = some asked) :
    load unbounded used n < 10 ∧ asked = (n / 2 : Nat) := by
  unfold resize_down_size at h
  split at h
  · rename_i hload
    exact ⟨hload, (Option.some.inj h).symm⟩
  · cases h

/-- The thresholds of 70 and 10 percent, with doubling and halving: what grows
    gets at most half full, and what shrinks at most a fifth. -/
theorem scheme_keepsLight {α : Type} (key : α → CStr) (checks : Bool) :
    (scheme unbounded key checks).KeepsLight Light where
  count_eq _ := rfl
  insert {used n} hused hlight hgrow := by
    have hload := resize_up_size_eq_none.mp hgrow
    have hroom := hlight.2
    have hpos : 0 < n := by omega
    have hnext : 0 ≤ used + 1 := by omega
    have hlt := (load_lt_iff hnext hpos 71).mp (by omega)
    exact ⟨hload, by omega⟩
  grow {used n asked} hused hlight hgrow := by
    obtain rfl := resize_up_size_eq_some hgrow
    have hlt := hlight.2
    have htwo : (2 : Int) ≤ n * 2 := by omega
    obtain ⟨hcapacity, hle⟩ := resize_size_of_le htwo
    exact ⟨_, hcapacity, by omega, light_of_room (by omega) (by omega) (by omega)⟩
  remove {used n} hused hlight := by
    have hlt := hlight.2
    have hnext : 0 ≤ used + 1 := by omega
    have hpos : 0 < n := by omega
    have hscaled := (light_iff hnext hpos).mp hlight
    exact (light_iff hused (by omega)).mpr (by omega)
  shrink {used n asked m} hused hshrink hm := by
    obtain ⟨hload, rfl⟩ := resize_down_size_eq_some hshrink
    obtain ⟨htwo, rfl⟩ := resize_size_eq_some hm
    obtain ⟨_, hle⟩ := resize_size_of_le htwo
    have hlt := (load_lt_iff hused (by omega) 10).mp hload
    have hroom : 2 * used ≤ init_size (n / 2 : Nat) := by omega
    exact ⟨hroom, light_of_room hused (by omega) hroom⟩

/-- The load of a table between operations, and the nesting of those to come. -/
structure Bounded {α : Type} (S : Scheme CStr α) (t : Table α) : Prop where
  load_le : load unbounded t.used t.size ≤ 70
  used_lt : t.used < t.size
  unnested : S.Unnested t
  insert_depth : ∀ depth x, S.insert (depth + 1) t x = S.insert 1 t x
  remove_depth : ∀ depth k, S.remove depth t k = S.remove 0 t k

theorem bounded_of_roomy {α : Type} {key : α → CStr} {checks : Bool} {t : Table α}
    (hinj : checks → Function.Injective key)
    (h : (scheme unbounded key checks).Roomy (Sized unbounded) Light t) :
    Bounded (scheme unbounded key checks) t := by
  have hunnested := h.unnested (scheme_lawful unbounded hinj) (scheme_keepsLight key checks)
  exact ⟨h.light.1, h.light.2, hunnested, hunnested.insert_depth, hunnested.remove_depth⟩

theorem light_init (size : Int) : Sized unbounded (init_size size) ∧ Light 0 (init_size size) := by
  have hsized : Sized unbounded (init_size size) := init_size_sized unbounded (fun hload => by cases hload)
  have hpos := hsized.1
  exact ⟨hsized, light_of_room le_rfl hpos (by omega)⟩

theorem no_int32 {P : Prop} (hload : unbounded.load = .int32) : P := by cases hload

/-! ## Tables -/

variable {ht : HashTable} {set : CSet}

/-- A table in order, whose counter leaves room. -/
def RoomyTable (ht : HashTable) : Prop :=
  TableOk unbounded ht ∧ (htable_scheme unbounded).Roomy (Sized unbounded) Light ht

theorem htable_set_roomy (h : RoomyTable ht) (key value : CStr) :
    Ensures (IndexFault unbounded) (htable_set unbounded ht key value) (fun r => RoomyTable r.1) := by
  obtain ⟨hok, hroomy⟩ := h
  have hinserts := hroomy.insert (htable_lawful unbounded) (scheme_keepsLight HashTableItem.key false)
  apply ((htable_set_spec hok key value).and (htable_set_cases hok key value).anyFault).mono
  rintro ⟨ht', done⟩ ⟨⟨hok', _⟩, ⟨_, _, hinsert⟩ | ⟨p, item, _, _, heq⟩ | ⟨p, item, hold, _, heq⟩⟩
  · exact ⟨hok', (Ensures.map (fromTable_ensures (hinserts ⟨.STR_T, key, .str value⟩))).of_eq_ok hinsert⟩
  · cases heq
    exact ⟨hok', hroomy⟩
  · cases heq
    exact ⟨hok', hroomy.replace hold.slot hold.key_eq.symm⟩

theorem hashOp_step_roomy (h : RoomyTable ht) (op : HashOp) :
    Ensures (IndexFault unbounded) (op.step unbounded ht) RoomyTable := by
  cases op with
  | set key value => exact Ensures.map (htable_set_roomy h key value)
  | del key =>
    have hremove := h.2.remove (htable_lawful unbounded) (scheme_keepsLight HashTableItem.key false) key
    apply Ensures.map
    apply ((htable_del_spec h.1 key).and (fromTable_ensures hremove).anyFault).mono
    rintro r ⟨⟨hok, _⟩, hroomy⟩
    exact ⟨hok, hroomy⟩

theorem htable_init_roomy (size : Int) : RoomyTable (htable_init size) := by
  obtain ⟨hsized, hlight⟩ := light_init size
  exact ⟨htable_init_ok unbounded no_int32, Scheme.roomy_empty hsized hlight⟩

/-! ## Sets -/

def RoomySet (set : CSet) : Prop :=
  SetOk unbounded set ∧ (set_scheme unbounded).Roomy (Sized unbounded) Light set

theorem setOp_step_roomy (h : RoomySet set) (op : SetOp) :
    Ensures (IndexFault unbounded) (op.step unbounded set) RoomySet := by
  have hlaws := scheme_keepsLight (α := CStr) id true
  cases op with
  | add m =>
    apply Ensures.map
    have hroomy := fromTable_ensures (h.2.insert (set_lawful unbounded) hlaws m)
    apply ((set_add_spec h.1 m).and hroomy.anyFault).mono
    rintro r ⟨hinserted, hroomy⟩
    exact ⟨set_add_ok hinserted, hroomy⟩
  | rem m =>
    apply Ensures.map
    have hroomy := fromTable_ensures (h.2.remove (set_lawful unbounded) hlaws m)
    apply ((set_rem_spec h.1 m).and hroomy.anyFault).mono
    rintro r ⟨hremoved, hroomy⟩
    exact ⟨set_rem_ok h.1 hremoved, hroomy⟩

theorem set_init_roomy (size : Int) : RoomySet (set_init size) := by
  obtain ⟨hsized, hlight⟩ := light_init size
  exact ⟨set_init_ok unbounded no_int32, Scheme.roomy_empty hsized hlight⟩

/-- With exact counters every run of a table or a set returns, its load stays at
    most 70 percent with a slot to spare, and no resize starts another: `insert`
    with one level of nesting and `remove` with none are all that is ever run. -/
theorem load_bounded (size : Int) :
    (∀ ops : List HashOp, ∃ ht, ops.foldlM (HashOp.step unbounded) (htable_init size) = .ok ht ∧
      Bounded (htable_scheme unbounded) ht) ∧
    ∀ ops : List SetOp, ∃ set, ops.foldlM (SetOp.step unbounded) (set_init size) = .ok set ∧
      Bounded (set_scheme unbounded) set := by
  constructor
  · intro ops
    have hrun := Ensures.foldlM (fun _ ht => RoomyTable ht) (fun op _ _ h => hashOp_step_roomy h op) ops _
      (htable_init_roomy size)
    obtain ⟨ht, hht, hroomy⟩ := hrun.exists_ok (not_indexFault .exact _)
    exact ⟨ht, hht, bounded_of_roomy (fun hchecks => by cases hchecks) hroomy.2⟩
  · intro ops
    have hrun := Ensures.foldlM (fun _ set => RoomySet set) (fun op _ _ h => setOp_step_roomy h op) ops _
      (set_init_roomy size)
    obtain ⟨set, hset, hroomy⟩ := hrun.exists_ok (not_indexFault .exact _)
    exact ⟨set, hset, bounded_of_roomy (fun _ => Function.injective_id) hroomy.2⟩

end hyperkv
