import HyperKV.Htable.SmallTables
import HyperKV.Htable.Values

open Outcome OpenAddressing

namespace hyperkv

variable {ht : HashTable} {set : CSet} {key : CStr} {k : Nat}

/-- A table, or a nested hash, that has seen at most `k` insertions. It does not look
    for its key before it inserts. -/
abbrev SmallHash (k : Nat) (ht : HashTable) : Prop := SmallTable HashTableItem.key false k ht

/-- A set that has seen at most `k` additions. It looks for its member first. -/
abbrev SmallSet (k : Nat) (set : CSet) : Prop := SmallTable id true k set

theorem smallHash_init : SmallHash 0 (htable_init HT_BASE_SIZE) := smallTable_init

theorem smallSet_init : SmallSet 0 (set_init HT_BASE_SIZE) := smallTable_init

/-! ## One table or set -/

/-- What agrees on the tables agrees for the program. -/
theorem fromTable_same {α : Type} {x' x : Except OpenAddressing.Fault α} {P : α → Prop}
    (hx : Same x' x P) :
    Same (fromTable x') (fromTable x) P := hx.mapError Fault.table

/-- Searching a small table is the same on both machines, found or not. -/
theorem htable_search_small (h : SmallHash k ht) (hk : k ≤ 8192) :
    htable_search machine ht = htable_search unbounded ht :=
  funext fun key => congrArg fromTable (h.search hk key)

theorem htable_search_holds (h : SmallHash k ht) (key : CStr) :
    Ensures AnyFault (htable_search unbounded ht key)
      (fun r => ∀ p item, r = some (p, item) → Holds ht key p item) := by
  apply fromTable_any
  apply (Scheme.search_ensures (htable_lawful unbounded) h.roomy.findable key).anyFault.mono
  rintro r hr p item rfl
  exact ⟨hr.1, hr.2⟩

/-- Going on from the item found, or from none. -/
theorem search_same {α : Type} {missing' missing : Exec α}
    {read' read : Nat → HashTableItem Value → Exec α} {R : α → Prop} (h : SmallHash k ht)
    (hk : k ≤ 8192)
    (hmissing : Same missing' missing R)
    (hread : ∀ p item, Holds ht key p item → Same (read' p item) (read p item) R) :
    Same (do match ← htable_search machine ht key with
        | none => missing'
        | some (p, item) => read' p item)
      (do match ← htable_search unbounded ht key with
        | none => missing
        | some (p, item) => read p item) R := by
  rw [htable_search_small h hk]
  refine (htable_search_holds h key).bind_same fun r hr => ?_
  cases r with
  | none => exact hmissing
  | some found => exact hread found.1 found.2 (hr _ _ rfl)

/-- An insertion, with the resizes that it starts. -/
theorem htable_insert_small (h : SmallHash k ht) (hk : k + 1 ≤ 8192) (type : ItemType) (key : CStr)
    (value : Value) :
    Same (htable_insert machine ht type key value) (htable_insert unbounded ht type key value)
      (SmallHash (k + 1)) :=
  Same.map (fromTable_same (h.insert (fun hchecks => by cases hchecks) hk _))

/-- A deletion does not count, though it may build the table anew. -/
theorem htable_del_small (h : SmallHash k ht) (hk : k ≤ 8192) (key : CStr) :
    Same (htable_del machine ht key) (htable_del unbounded ht key) (fun r => SmallHash k r.1) :=
  fromTable_same (h.remove (fun hchecks => by cases hchecks) hk key)

/-- Whether the key is there or not, setting it is one insertion more at most. -/
theorem htable_set_small (h : SmallHash k ht) (hk : k + 1 ≤ 8192) (key value : CStr) :
    Same (htable_set machine ht key value) (htable_set unbounded ht key value)
      (fun r => SmallHash (k + 1) r.1) := by
  have hweak := h.mono (Nat.le_succ k)
  unfold htable_set
  refine search_same h (by omega) ?_ fun p item _ => ?_
  · exact (htable_insert_small h hk .STR_T key (.str value)).bind fun _ hht => (Ensures.same hht)
  · refine Same.ite (fun _ => Ensures.same hweak) fun _ => ?_
    refine Same.bind (P := SmallHash (k + 1)) ?_ fun _ hht => Ensures.same hht
    unfold htable_update_str
    refine search_same h (by omega) (Ensures.same hweak) fun p item hholds => ?_
    exact Ensures.same (hweak.replace hholds.slot hholds.key_eq.symm)

/-- An addition counts also where the member was there. -/
theorem set_add_small (h : SmallSet k set) (hk : k + 1 ≤ 8192) (m : CStr) :
    Same (set_add machine set m) (set_add unbounded set m) (fun r => SmallSet (k + 1) r.1) :=
  fromTable_same (h.insert (fun _ => Function.injective_id) hk m)

theorem set_rem_small (h : SmallSet k set) (hk : k ≤ 8192) (m : CStr) :
    Same (set_rem machine set m) (set_rem unbounded set m) (fun r => SmallSet k r.1) :=
  fromTable_same (h.remove (fun _ => Function.injective_id) hk m)

theorem set_ismember_small (h : SmallSet k set) (hk : k ≤ 8192) :
    set_ismember machine set = set_ismember unbounded set :=
  funext fun m => congrArg (fun r => fromTable (Option.isSome <$> r)) (h.search hk m)

/-! ## Stores -/

/-- The tables behind a value are small. -/
def Value.Small (k : Nat) : Value → Prop
  | .hash t => SmallHash k t
  | .set set => SmallSet k set
  | _ => True

theorem Value.Small.mono {k' : Nat} {value : Value} (h : value.Small k) (hk : k ≤ k') :
    value.Small k' := by
  cases value with
  | hash t => exact SmallTable.mono h hk
  | set set => exact SmallTable.mono h hk
  | _ => trivial

/-- No table of the store, nor the store itself, has seen more than `k` insertions. -/
structure SmallStore (k : Nat) (ht : HashTable) : Prop where
  table : SmallHash k ht
  values : Values (Value.Small k) ht

theorem SmallStore.mono {k' : Nat} (h : SmallStore k ht) (hk : k ≤ k') : SmallStore k' ht :=
  ⟨h.table.mono hk, h.values.mono fun _ hvalue => hvalue.mono hk⟩

theorem smallStore_init : SmallStore 0 (htable_init HT_BASE_SIZE) := ⟨smallHash_init, values_init _⟩

/-- What a search finds is small. -/
theorem SmallStore.small (h : SmallStore k ht) {p : Nat} {item : HashTableItem Value}
    (hholds : Holds ht key p item) : item.value.Small k :=
  Table.every_items.mp h.values item hholds.mem

/-- Overwriting a value leaves the table, and adds what is behind the value. -/
theorem SmallStore.set_value (h : SmallStore k ht) {p : Nat} {item : HashTableItem Value}
    (hholds : Holds ht key p item) (value : Value) (hvalue : value.Small k) :
    SmallStore k (item.set_value ht p value) :=
  ⟨h.table.replace hholds.slot rfl, h.values.set_value p item hvalue⟩

/-- A new key with its value. -/
theorem htable_insert_store (h : SmallStore k ht) (hk : k + 1 ≤ 8192) (type : ItemType) (key : CStr)
    (value : Value) (hvalue : value.Small (k + 1)) :
    Same (htable_insert machine ht type key value) (htable_insert unbounded ht type key value)
      (SmallStore (k + 1)) := by
  have hvalues := (h.mono (Nat.le_succ k)).values
  exact ((htable_insert_small h.table hk type key value).and (htable_insert_every hvalues hvalue)).mono
    fun ht' hht => ⟨hht.1, hht.2⟩

/-- The key goes with all that was behind it. -/
theorem htable_del_store (h : SmallStore k ht) (hk : k ≤ 8192) (key : CStr) :
    Same (htable_del machine ht key) (htable_del unbounded ht key) (fun r => SmallStore k r.1) :=
  ((htable_del_small h.table hk key).and (htable_del_every h.values key)).mono fun _ hr => ⟨hr.1, hr.2⟩

theorem htable_set_store (h : SmallStore k ht) (hk : k + 1 ≤ 8192) (key value : CStr) :
    Same (htable_set machine ht key value) (htable_set unbounded ht key value)
      (fun r => SmallStore (k + 1) r.1) := by
  have hvalues := (h.mono (Nat.le_succ k)).values
  exact ((htable_set_small h.table hk key value).and (htable_set_every hvalues trivial)).mono
    fun _ hr => ⟨hr.1, hr.2⟩

/-- The end of every removal from a container. -/
theorem drop_empty_store {α : Type} (h : SmallStore k ht) (hk : k ≤ 8192) (empty : Prop)
    [Decidable empty] (res : α) :
    Same (if empty then do return (← Prod.fst <$> htable_del machine ht key, res)
        else return (ht, res) : Exec (HashTable × α))
      (if empty then do return (← Prod.fst <$> htable_del unbounded ht key, res)
        else return (ht, res) : Exec (HashTable × α)) (fun r => SmallStore k r.1) :=
  Same.ite (fun _ => (Same.map (htable_del_store h hk key)).bind fun _ hht => Ensures.same hht)
    (fun _ => Ensures.same h)

/-! ## Writes -/

theorem htable_exists_small (h : SmallHash k ht) (hk : k ≤ 8192) :
    htable_exists machine ht = htable_exists unbounded ht := by
  unfold htable_exists
  rw [htable_search_small h hk]

/-- One insertion in the hash, or a new hash with one field under a new key. -/
theorem htable_hset_store (h : SmallStore k ht) (hk : k + 1 ≤ 8192) (key field value : CStr) :
    Same (htable_hset machine ht key field value) (htable_hset unbounded ht key field value)
      (fun r => SmallStore (k + 1) r.1) := by
  have hweak := h.mono (Nat.le_succ k)
  unfold htable_hset
  rw [htable_exists_small h.table (by omega)]
  refine (ensures_any _).bind_same fun found _ => Same.ite (fun _ => ?_) fun _ => ?_
  · unfold htable_update_hash
    refine search_same h.table (by omega) (Ensures.same hweak) fun p item hholds => ?_
    refine (asHash_any (h.small hholds)).bind_same fun t ht => ?_
    refine (htable_set_small ht hk field value).bind fun r hr => ?_
    exact Ensures.same (hweak.set_value hholds _ hr)
  · have hnew := htable_set_small smallHash_init (by omega) field value
    refine hnew.bind fun r hr => ?_
    refine (htable_insert_store h hk .HASH_T key (.hash r.1) (SmallTable.mono hr (by omega))).bind
      fun _ hht => Ensures.same hht

/-- A list is not a table: only its key is an insertion. -/
theorem htable_push_store (h : SmallStore k ht) (hk : k + 1 ≤ 8192) (key value : CStr)
    (dir : ListDirection) :
    Same (htable_push machine ht key value dir) (htable_push unbounded ht key value dir)
      (fun r => SmallStore (k + 1) r.1) := by
  have hweak := h.mono (Nat.le_succ k)
  unfold htable_push
  rw [htable_exists_small h.table (by omega)]
  refine (ensures_any _).bind_same fun found _ => Same.ite (fun _ => ?_) fun _ => ?_
  · unfold htable_update_list
    refine search_same h.table (by omega) (Ensures.same hweak) fun p item hholds => ?_
    refine (ensures_any item.value.asList).bind_same fun ls _ => ?_
    refine (ensures_any (list_push dir ls value)).bind_same fun ls' _ => ?_
    exact Ensures.same (hweak.set_value hholds (.list ls') trivial)
  · refine (ensures_any (list_push dir list_init value)).bind_same fun ls' _ => ?_
    exact (htable_insert_store h hk .LIST_T key (.list ls') trivial).bind fun _ hht => Ensures.same hht

/-- One addition to the set, or a new set with one member under a new key. -/
theorem htable_sadd_store (h : SmallStore k ht) (hk : k + 1 ≤ 8192) (key value : CStr) :
    Same (htable_sadd machine ht key value) (htable_sadd unbounded ht key value)
      (fun r => SmallStore (k + 1) r.1) := by
  have hweak := h.mono (Nat.le_succ k)
  unfold htable_sadd
  rw [htable_exists_small h.table (by omega)]
  refine (ensures_any _).bind_same fun found _ => Same.ite (fun _ => ?_) fun _ => ?_
  · unfold htable_update_set
    refine search_same h.table (by omega) (Ensures.same hweak) fun p item hholds => ?_
    refine (asSet_any (h.small hholds)).bind_same fun set hset => ?_
    exact (set_add_small hset hk value).bind fun r hr => Ensures.same (hweak.set_value hholds _ hr)
  · have hnew := set_add_small smallSet_init (by omega) value
    refine hnew.bind fun r hr => ?_
    exact (htable_insert_store h hk .SET_T key (.set r.1) (SmallTable.mono hr (by omega))).bind
      fun _ hht => Ensures.same hht

/-- A pop that leaves an empty list deletes the key. -/
theorem htable_pop_store (h : SmallStore k ht) (hk : k ≤ 8192) (key : CStr) (dir : ListDirection) :
    Same (htable_pop machine ht key dir) (htable_pop unbounded ht key dir)
      (fun r => SmallStore k r.1) := by
  unfold htable_pop
  refine search_same h.table hk (Ensures.same h) fun p item hholds => ?_
  refine (ensures_any item.value.asList).bind_same fun ls _ => ?_
  refine (ensures_any (list_pop dir ls)).bind_same fun popped _ => ?_
  obtain ⟨node, tmp⟩ := popped
  cases node with
  | none => exact Ensures.same (ensures_error.mpr trivial)
  | some node =>
    exact drop_empty_store (h.set_value hholds (.list tmp) trivial) hk (tmp.len = 0) (some node.value)

theorem htable_lset_store (h : SmallStore k ht) (hk : k ≤ 8192) (key : CStr) (id : Int) (value : CStr) :
    Same (htable_lset machine ht key id value) (htable_lset unbounded ht key id value)
      (fun r => SmallStore k r.1) := by
  unfold htable_lset
  refine search_same h.table hk (Ensures.same h) fun p item hholds => ?_
  refine (ensures_any item.value.asList).bind_same fun ls _ => ?_
  refine (ensures_any (list_set ls id value)).bind_same fun r _ => ?_
  exact Ensures.same (h.set_value hholds (.list r.2) trivial)

theorem htable_lrem_store (h : SmallStore k ht) (hk : k ≤ 8192) (key : CStr) (count : Int)
    (value : CStr) :
    Same (htable_lrem machine ht key count value) (htable_lrem unbounded ht key count value)
      (fun r => SmallStore k r.1) := by
  unfold htable_lrem
  refine search_same h.table hk (Ensures.same h) fun p item hholds => ?_
  refine (ensures_any item.value.asList).bind_same fun ls _ => ?_
  refine (ensures_any (list_rem ls count value)).bind_same fun r _ => ?_
  exact drop_empty_store (h.set_value hholds (.list r.2) trivial) hk (r.2.len = 0) r.1

/-- Two tables may shrink here, the hash and the store. -/
theorem htable_hdel_store (h : SmallStore k ht) (hk : k ≤ 8192) (key field : CStr) :
    Same (htable_hdel machine ht key field) (htable_hdel unbounded ht key field)
      (fun r => SmallStore k r.1) := by
  unfold htable_hdel
  refine search_same h.table hk (Ensures.same h) fun p item hholds => ?_
  refine (asHash_any (h.small hholds)).bind_same fun t ht => ?_
  refine (htable_del_small ht hk field).bind fun r hr => ?_
  exact drop_empty_store (h.set_value hholds (.hash r.1) hr) hk (r.1.used = 0) r.2

theorem htable_srem_store (h : SmallStore k ht) (hk : k ≤ 8192) (key value : CStr) :
    Same (htable_srem machine ht key value) (htable_srem unbounded ht key value)
      (fun r => SmallStore k r.1) := by
  unfold htable_srem
  refine search_same h.table hk (Ensures.same h) fun p item hholds => ?_
  refine (asSet_any (h.small hholds)).bind_same fun set hset => ?_
  refine (set_rem_small hset hk value).bind fun r hr => ?_
  exact drop_empty_store (h.set_value hholds (.set r.1) hr) hk (r.1.used = 0) r.2

/-! ## Reads, where both machines read a struct alike -/

theorem copy_pair_unbounded : copy_pair machine = copy_pair unbounded := rfl

theorem copy_side_unbounded (ky : Bool) : copy_side machine ky = copy_side unbounded ky := rfl

theorem htable_type_small (h : SmallHash k ht) (hk : k ≤ 8192) :
    htable_type machine ht = htable_type unbounded ht := by
  unfold htable_type
  rw [htable_search_small h hk]

/-- A struct that is read as a string has the same text on both machines. -/
theorem htable_get_small (h : SmallHash k ht) (hk : k ≤ 8192) :
    htable_get machine ht = htable_get unbounded ht := by
  unfold htable_get
  rw [htable_search_small h hk]
  rfl

theorem htable_hget_small (h : SmallStore k ht) (hk : k ≤ 8192) :
    htable_hget machine ht = htable_hget unbounded ht := by
  funext key field
  refine (search_same (R := fun _ => True) h.table hk
    (Ensures.same (ensures_any _)) fun p item hholds => ?_).eq
  refine (asHash_any (h.small hholds)).bind_same fun t ht => ?_
  rw [htable_get_small ht hk]
  exact Ensures.same (ensures_any _)

theorem htable_sismember_small (h : SmallStore k ht) (hk : k ≤ 8192) :
    htable_sismember machine ht = htable_sismember unbounded ht := by
  funext key value
  refine (search_same (R := fun _ => True) h.table hk
    (Ensures.same (ensures_any _)) fun p item hholds => ?_).eq
  refine (asSet_any (h.small hholds)).bind_same fun set hset => ?_
  rw [set_ismember_small hset hk]
  exact Ensures.same (ensures_any _)

end hyperkv
