import HyperKV.Htable.Table
import HyperKV.List.Pop
import HyperKV.List.Remove
import HyperKV.List.Walk
import HyperKV.Set.Members

open Outcome OpenAddressing

namespace hyperkv

variable {mc : Machine} {ht : HashTable} {key : CStr}

/-- An item whose tag names the type of its value. Nested hashes and sets come
    from histories of their own operations, and lists are not empty. -/
def ItemOk (mc : Machine) (item : HashTableItem Value) : Prop :=
  match item.type, item.value with
  | .STR_T, .str _ => True
  | .HASH_T, .hash t => ∃ ops, htable_run mc ops = .ok t
  | .LIST_T, .list ls => ∃ run, run ≠ [] ∧ ls.Linked run
  | .SET_T, .set st => ∃ ops, set_run mc ops = .ok st
  | _, _ => False

/-- The invariant of every reachable store. -/
structure StoreOk (mc : Machine) (ht : HashTable) : Prop where
  table : TableOk mc ht
  items : ∀ item ∈ ht.items, ItemOk mc item

/-- Every history is a history of the machine with any other cast: no operation that
    writes reads a string that way. -/
theorem StoreOk.recast (h : StoreOk mc ht) (casts : Casts) : StoreOk { mc with cast := casts } ht :=
  ⟨⟨h.table.findable, h.table.distinct, h.table.sized⟩, fun item hmem => h.items item hmem⟩

/-- The key is missing or holds an item of this type: what `is_type` lets pass. -/
def TypedAt (ht : HashTable) (key : CStr) (type : ItemType) : Prop :=
  ∀ item ∈ ht.items, item.key = key → item.type = type

instance (ht : HashTable) (key : CStr) (type : ItemType) : Decidable (TypedAt ht key type) :=
  inferInstanceAs (Decidable (∀ item ∈ ht.items, item.key = key → item.type = type))

theorem ItemOk.type_eq {item : HashTableItem Value} (h : ItemOk mc item) : item.value.type = item.type := by
  obtain ⟨type, k, value⟩ := item
  cases type <;> cases value <;> first | rfl | exact h.elim

theorem ItemOk.str {item : HashTableItem Value} (h : ItemOk mc item) (htype : item.type = .STR_T) :
    ∃ s, item.value = .str s := by
  obtain ⟨type, k, value⟩ := item
  cases htype
  cases value with
  | str s => exact ⟨s, rfl⟩
  | _ => exact h.elim

theorem ItemOk.hash {item : HashTableItem Value} (h : ItemOk mc item) (htype : item.type = .HASH_T) :
    ∃ t, item.value = .hash t ∧ ∃ ops, htable_run mc ops = .ok t := by
  obtain ⟨type, k, value⟩ := item
  cases htype
  cases value with
  | hash t => exact ⟨t, rfl, h⟩
  | _ => exact h.elim

theorem ItemOk.list {item : HashTableItem Value} (h : ItemOk mc item) (htype : item.type = .LIST_T) :
    ∃ ls, item.value = .list ls ∧ ∃ run, run ≠ [] ∧ ls.Linked run := by
  obtain ⟨type, k, value⟩ := item
  cases htype
  cases value with
  | list ls => exact ⟨ls, rfl, h⟩
  | _ => exact h.elim

theorem ItemOk.set {item : HashTableItem Value} (h : ItemOk mc item) (htype : item.type = .SET_T) :
    ∃ st, item.value = .set st ∧ ∃ ops, set_run mc ops = .ok st := by
  obtain ⟨type, k, value⟩ := item
  cases htype
  cases value with
  | set st => exact ⟨st, rfl, h⟩
  | _ => exact h.elim

/-- The key holds this value. -/
def Stored (ht : HashTable) (key : CStr) (value : Value) : Prop :=
  ∃ item ∈ ht.items, item.key = key ∧ item.value = value

theorem Stored.not_absent {value : Value} (h : Stored ht key value) : ¬ Absent ht key := by
  obtain ⟨item, hmem, hkey, _⟩ := h
  exact fun habsent => habsent item hmem hkey

theorem Stored.unique (hok : TableOk mc ht) {value value' : Value} (h : Stored ht key value)
    (h' : Stored ht key value') : value = value' := by
  obtain ⟨item, hmem, hkey, rfl⟩ := h
  obtain ⟨item', hmem', hkey', rfl⟩ := h'
  rw [eq_of_key_eq hok.distinct hmem hmem' (hkey.trans hkey'.symm)]

/-- The key holds a hash that passes this check. -/
def storesHash (ht : HashTable) (key : CStr) (check : HashTable → Bool) : Bool :=
  ht.items.any fun item => item.key = key && match item.value with
    | .hash t => check t
    | _ => false

def storesSet (ht : HashTable) (key : CStr) (check : CSet → Bool) : Bool :=
  ht.items.any fun item => item.key = key && match item.value with
    | .set st => check st
    | _ => false

theorem storesHash_iff {check : HashTable → Bool} :
    storesHash ht key check ↔ ∃ t, Stored ht key (.hash t) ∧ check t := by
  rw [storesHash, List.any_eq_true]
  constructor
  · rintro ⟨item, hmem, hitem⟩
    obtain ⟨hkey, hcheck⟩ := Bool.and_eq_true_iff.mp hitem
    split at hcheck
    · rename_i t hvalue
      exact ⟨t, ⟨item, hmem, of_decide_eq_true hkey, hvalue⟩, hcheck⟩
    · cases hcheck
  · rintro ⟨t, ⟨item, hmem, hkey, hvalue⟩, hcheck⟩
    exact ⟨item, hmem, by simp [hkey, hvalue, hcheck]⟩

theorem storesSet_iff {check : CSet → Bool} :
    storesSet ht key check ↔ ∃ st, Stored ht key (.set st) ∧ check st := by
  rw [storesSet, List.any_eq_true]
  constructor
  · rintro ⟨item, hmem, hitem⟩
    obtain ⟨hkey, hcheck⟩ := Bool.and_eq_true_iff.mp hitem
    split at hcheck
    · rename_i st hvalue
      exact ⟨st, ⟨item, hmem, of_decide_eq_true hkey, hvalue⟩, hcheck⟩
    · cases hcheck
  · rintro ⟨st, ⟨item, hmem, hkey, hvalue⟩, hcheck⟩
    exact ⟨item, hmem, by simp [hkey, hvalue, hcheck]⟩

theorem Holds.stored {p : Nat} {item : HashTableItem Value} {value : Value} (h : Holds ht key p item)
    (hvalue : item.value = value) : Stored ht key value :=
  ⟨item, h.mem, h.key_eq, hvalue⟩

theorem Absent.typedAt (h : Absent ht key) (type : ItemType) : TypedAt ht key type :=
  fun item hmem hkey => absurd hkey (h item hmem)

theorem Stored.typedAt {value : Value} (h : Stored ht key value) (hok : StoreOk mc ht) :
    TypedAt ht key value.type := by
  obtain ⟨item, hmem, hkey, rfl⟩ := h
  intro other hother hkey'
  rw [eq_of_key_eq hok.table.distinct hother hmem (hkey'.trans hkey.symm), (hok.items item hmem).type_eq]

theorem htable_run_hashOk {ops : List HashOp} {t : HashTable} (h : htable_run mc ops = .ok t) : HashOk mc t :=
  (htable_run_ok mc ops).of_eq_ok h

theorem Stored.hash_run {t : HashTable} (h : Stored ht key (.hash t)) (hok : StoreOk mc ht) :
    ∃ ops, htable_run mc ops = .ok t := by
  obtain ⟨item, hmem, _, hvalue⟩ := h
  have hitem := hok.items item hmem
  obtain ⟨t', hvalue', hrun⟩ := hitem.hash (by rw [← hitem.type_eq, hvalue]; rfl)
  rw [hvalue] at hvalue'
  cases hvalue'
  exact hrun

theorem Stored.set_run {st : CSet} (h : Stored ht key (.set st)) (hok : StoreOk mc ht) :
    ∃ ops, set_run mc ops = .ok st := by
  obtain ⟨item, hmem, _, hvalue⟩ := h
  have hitem := hok.items item hmem
  obtain ⟨st', hvalue', hrun⟩ := hitem.set (by rw [← hitem.type_eq, hvalue]; rfl)
  rw [hvalue] at hvalue'
  cases hvalue'
  exact hrun

theorem Stored.hashOk {t : HashTable} (h : Stored ht key (.hash t)) (hok : StoreOk mc ht) : HashOk mc t := by
  obtain ⟨ops, hrun⟩ := h.hash_run hok
  exact htable_run_hashOk hrun

theorem htable_run_concat {ops : List HashOp} {t : HashTable} (h : htable_run mc ops = .ok t) (op : HashOp) :
    htable_run mc (ops ++ [op]) = op.step mc t := by
  rw [htable_run] at h ⊢
  rw [List.foldlM_append, h, ok_bind, List.foldlM_cons]
  exact bind_pure _

theorem set_run_setOk {ops : List SetOp} {st : CSet} (h : set_run mc ops = .ok st) : SetOk mc st :=
  (Ensures.foldlM (fun _ st => SetOk mc st) (fun op _ _ hst => setOp_step_ok hst op) ops _
    (set_init_ok mc (fun _ => by decide))).of_eq_ok h

theorem set_run_concat {ops : List SetOp} {st : CSet} (h : set_run mc ops = .ok st) (op : SetOp) :
    set_run mc (ops ++ [op]) = op.step mc st := by
  rw [set_run] at h ⊢
  rw [List.foldlM_append, h, ok_bind, List.foldlM_cons]
  exact bind_pure _

/-- One more operation on the hash or set behind a sound item. -/
theorem ItemOk.hash_step {item : HashTableItem Value} (h : ItemOk mc item) {t t' : HashTable}
    (hvalue : item.value = .hash t) (op : HashOp) (hstep : op.step mc t = .ok t') :
    ItemOk mc { item with value := .hash t' } := by
  have htype : item.type = .HASH_T := by rw [← h.type_eq, hvalue]; rfl
  obtain ⟨t₀, hvalue₀, ops, hrun⟩ := h.hash htype
  rw [hvalue] at hvalue₀
  cases hvalue₀
  rw [ItemOk, htype]
  exact ⟨ops ++ [op], (htable_run_concat hrun op).trans hstep⟩

theorem ItemOk.set_step {item : HashTableItem Value} (h : ItemOk mc item) {st st' : CSet}
    (hvalue : item.value = .set st) (op : SetOp) (hstep : op.step mc st = .ok st') :
    ItemOk mc { item with value := .set st' } := by
  have htype : item.type = .SET_T := by rw [← h.type_eq, hvalue]; rfl
  obtain ⟨st₀, hvalue₀, ops, hrun⟩ := h.set htype
  rw [hvalue] at hvalue₀
  cases hvalue₀
  rw [ItemOk, htype]
  exact ⟨ops ++ [op], (set_run_concat hrun op).trans hstep⟩

theorem htable_init_storeOk (mc : Machine) {size : Int} (hsize : size ≤ 2147483647) :
    StoreOk mc (htable_init size) := by
  refine ⟨htable_init_ok mc (fun _ => hsize), fun item hmem => ?_⟩
  rw [htable_init_items] at hmem
  cases hmem

/-! ## The three ways a store changes -/

/-- Inserting a sound item under an absent key. -/
theorem htable_insert_storeOk (h : StoreOk mc ht) (habsent : Absent ht key) (type : ItemType) (value : Value)
    (hitem : ItemOk mc ⟨type, key, value⟩) :
    Ensures (IndexFault mc) (htable_insert mc ht type key value)
      (fun ht' => StoreOk mc ht' ∧ TypedAt ht' key type) := by
  refine (htable_insert_spec h.table habsent type value).mono ?_
  rintro ht' ⟨hok, hmem⟩
  refine ⟨⟨hok, fun item hin => ?_⟩, fun item hin hkey => ?_⟩
  · rcases hmem item hin with rfl | hold
    · exact hitem
    · exact h.items item hold
  · rcases hmem item hin with rfl | hold
    · rfl
    · exact absurd hkey (habsent item hold)

/-- Changing the value behind an item in place. -/
theorem set_value_storeOk (h : StoreOk mc ht) {p : Nat} {item : HashTableItem Value}
    (hold : Holds ht key p item) {value : Value} (hitem : ItemOk mc { item with value := value }) :
    StoreOk mc (item.set_value ht p value) ∧ Stored (item.set_value ht p value) key value := by
  obtain ⟨hok, hmem⟩ := h.table.replace { item with value := value } hold hold.key_eq
  refine ⟨⟨hok, fun other hin => ?_⟩, _, (hmem _).mpr (Or.inl rfl), hold.key_eq, rfl⟩
  rcases (hmem other).mp hin with rfl | ⟨hother, _⟩
  · exact hitem
  · exact h.items other hother

theorem htable_del_storeOk (h : StoreOk mc ht) (key : CStr) :
    Ensures (IndexFault mc) (htable_del mc ht key) (fun r => StoreOk mc r.1 ∧ Absent r.1 key) :=
  (htable_del_spec h.table key).mono
    (fun _ hr => ⟨⟨hr.1, fun item hmem => h.items item (hr.2 item hmem).1⟩,
      fun item hmem => (hr.2 item hmem).2⟩)

/-- Deleting a key whose value was just emptied, however unsound its item. -/
theorem set_value_del_storeOk (h : StoreOk mc ht) {p : Nat} {item : HashTableItem Value}
    (hold : Holds ht key p item) (value : Value) :
    Ensures (IndexFault mc) (htable_del mc (item.set_value ht p value) key)
      (fun r => StoreOk mc r.1 ∧ Absent r.1 key) := by
  obtain ⟨hok, hmem⟩ := h.table.replace { item with value := value } hold hold.key_eq
  refine (htable_del_spec hok key).mono ?_
  rintro r ⟨hok', hmem'⟩
  refine ⟨⟨hok', fun other hin => ?_⟩, fun other hin => (hmem' other hin).2⟩
  obtain ⟨hother, hne⟩ := hmem' other hin
  rcases (hmem other).mp hother with rfl | ⟨hin', _⟩
  · exact absurd hold.key_eq hne
  · exact h.items other hin'

/-- The end of every removal from a container: the key goes with the last
    element. -/
theorem drop_empty_storeOk {α : Type} (h : StoreOk mc ht) {p : Nat} {item : HashTableItem Value}
    (hold : Holds ht key p item) (value : Value) (empty : Prop) [Decidable empty] (res : α)
    (hitem : ¬ empty → ItemOk mc { item with value := value }) :
    Ensures (IndexFault mc)
      (if empty then do return (← Prod.fst <$> htable_del mc (item.set_value ht p value) key, res)
        else return (item.set_value ht p value, res) : Exec (HashTable × α))
      (fun r => StoreOk mc r.1 ∧ r.2 = res ∧ if empty then Absent r.1 key else Stored r.1 key value) := by
  by_cases hempty : empty
  · rw [if_pos hempty]
    refine (Ensures.map (R := fun ht' => StoreOk mc ht' ∧ Absent ht' key)
      (set_value_del_storeOk h hold value)).bind ?_
    rintro ht' ⟨hok, habsent⟩
    exact ⟨hok, rfl, by rwa [if_pos hempty]⟩
  · rw [if_neg hempty]
    obtain ⟨hok, hstored⟩ := set_value_storeOk h hold (hitem hempty)
    exact ⟨hok, rfl, by rwa [if_neg hempty]⟩

/-- A removal from a container leaves the key with its type. -/
theorem typedAt_of_dropped {value : Value} {empty : Prop} [Decidable empty] (hok : StoreOk mc ht)
    (h : if empty then Absent ht key else Stored ht key value) : TypedAt ht key value.type := by
  split at h
  · exact h.typedAt _
  · exact h.typedAt hok

end hyperkv
