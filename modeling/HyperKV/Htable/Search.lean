import HyperKV.Htable.Reads

open Outcome OpenAddressing

namespace hyperkv

/-- The operations that put keys into the store or take them out. -/
inductive TableOp where
  | set (key value : CStr)
  | del (key : CStr)
  | hset (key field value : CStr)
  | push (key value : CStr) (dir : ListDirection)
  | sadd (key value : CStr)
  deriving DecidableEq, Repr

def TableOp.step (mc : Machine) (ht : HashTable) : TableOp → Exec HashTable
  | .set key value => Prod.fst <$> htable_set mc ht key value
  | .del key => Prod.fst <$> htable_del mc ht key
  | .hset key field value => Prod.fst <$> htable_hset mc ht key field value
  | .push key value dir => Prod.fst <$> htable_push mc ht key value dir
  | .sadd key value => Prod.fst <$> htable_sadd mc ht key value

/-- The check of the handlers, before a container operation. -/
def type_checked (mc : Machine) (ht : HashTable) (key : CStr) (type : ItemType) : Bool :=
  match htable_type mc ht key with
  | .ok name => is_type name type.name
  | .error _ => true

def TableOp.checked (mc : Machine) (ht : HashTable) : TableOp → Bool
  | .set _ _ => true
  | .del _ => true
  | .hset key _ _ => type_checked mc ht key .HASH_T
  | .push key _ _ => type_checked mc ht key .LIST_T
  | .sadd key _ => type_checked mc ht key .SET_T

variable {mc : Machine} {ht : HashTable} {key : CStr}

/-- A checked operation runs on a typed key, unless the check itself faults, as
    then does the operation's own search. -/
private theorem checked_ensures {α : Type} (h : StoreOk mc ht) {type : ItemType} {op : Exec α} {P : α → Prop}
    (hchecked : type_checked mc ht key type) (hop : TypedAt ht key type → Ensures (IndexFault mc) op P)
    (hfault : ∀ e, htable_search mc ht key = .error e → op = .error e) : Ensures (IndexFault mc) op P := by
  cases hsearch : htable_search mc ht key with
  | error e =>
    rw [hfault e hsearch]
    exact (ensures_iff.mp (htable_search_spec h.table key)).2 e hsearch
  | ok r =>
    refine hop ?_
    obtain ⟨name, hname⟩ : ∃ name, htable_type mc ht key = .ok name := by
      rw [htable_type, hsearch]
      cases r <;> exact ⟨_, rfl⟩
    rw [type_checked, hname] at hchecked
    exact ((htable_type_spec h.table key).of_eq_ok hname type).mp hchecked

theorem tableOp_step_storeOk (h : StoreOk mc ht) (op : TableOp) (hchecked : op.checked mc ht) :
    Ensures (IndexFault mc) (op.step mc ht) (StoreOk mc) := by
  have hexists : ∀ {α : Type} (key : CStr) (f : Bool → Exec α) (e : Fault),
      htable_search mc ht key = .error e → (htable_exists mc ht key >>= f) = .error e := by
    intro α key f e hsearch
    rw [htable_exists, hsearch]
    rfl
  cases op with
  | set key value => exact Ensures.map (htable_set_storeOk h key value)
  | del key => exact Ensures.map ((htable_del_storeOk h key).mono (fun _ hr => hr.1))
  | hset key field value =>
    refine Ensures.map (checked_ensures h hchecked
      (fun htyped => (htable_hset_storeOk h htyped field value).mono (fun _ hr => hr.1)) ?_)
    exact hexists key _
  | push key value dir =>
    refine Ensures.map (checked_ensures h hchecked
      (fun htyped => (htable_push_storeOk h htyped value dir).mono (fun _ hr => hr.1)) ?_)
    exact hexists key _
  | sadd key value =>
    refine Ensures.map (checked_ensures h hchecked
      (fun htyped => (htable_sadd_storeOk h htyped value).mono (fun _ hr => hr.1)) ?_)
    exact hexists key _

/-- A search finds exactly the item with the key. -/
theorem htable_search_exact (h : TableOk mc ht) (hexact : ¬ IndexOverflow mc) (key : CStr) :
    (∀ item ∈ ht.items, item.key = key →
      ∃ p, htable_search mc ht key = .ok (some (p, item)) ∧ ht.slots[p]? = some (.live item)) ∧
    ((∀ item ∈ ht.items, item.key ≠ key) → htable_search mc ht key = .ok none) := by
  obtain ⟨r, hsearch, hr⟩ := (htable_search_spec h key).exists_ok (fun _ he => hexact he.2)
  rw [hsearch]
  cases r with
  | none => exact ⟨fun item hmem hkey => absurd hkey (hr item hmem), fun _ => rfl⟩
  | some found =>
    obtain ⟨p, item⟩ := found
    refine ⟨fun other hmem hkey => ?_, fun hnone => absurd hr.key_eq (hnone item hr.mem)⟩
    have hsame := hr.unique h hmem hkey
    subst hsame
    exact ⟨p, rfl, hr.slot⟩

theorem htable_del_exists (h : TableOk mc ht) (hexact : ¬ IndexOverflow mc) (key : CStr) :
    ∃ r, htable_del mc ht key = .ok r ∧ htable_exists mc r.1 key = .ok false := by
  have hnone : ∀ e, ¬ IndexFault mc e := fun _ he => hexact he.2
  obtain ⟨r, hdel, hok, hgone⟩ := (htable_del_spec h key).exists_ok hnone
  obtain ⟨b, hexists, hb⟩ := (htable_exists_spec hok key).exists_ok hnone
  refine ⟨r, hdel, ?_⟩
  cases b with
  | false => exact hexists
  | true =>
    obtain ⟨item, hmem, hkey⟩ := hb.mp rfl
    exact absurd hkey (hgone item hmem).2

/-- With exact index arithmetic: in every table that the operations reach, keys
    are distinct, a search finds the live item with a key and null when there is
    none, and a deleted key does not exist. -/
theorem table_run_search (load : IntArith) (casts : Casts) {size : Int} (hsize : size ≤ 2147483647) (ops : List TableOp)
    (hchecked : meets (TableOp.step ⟨.exact, load, casts⟩) (TableOp.checked ⟨.exact, load, casts⟩) (htable_init size) ops) :
    ∃ ht, ops.foldlM (TableOp.step ⟨.exact, load, casts⟩) (htable_init size) = .ok ht ∧
      (ht.items.map HashTableItem.key).Nodup ∧
      (∀ key,
        (∀ item ∈ ht.items, item.key = key →
          ∃ p, htable_search ⟨.exact, load, casts⟩ ht key = .ok (some (p, item)) ∧
            ht.slots[p]? = some (.live item)) ∧
        ((∀ item ∈ ht.items, item.key ≠ key) → htable_search ⟨.exact, load, casts⟩ ht key = .ok none)) ∧
      ∀ key, ∃ r, htable_del ⟨.exact, load, casts⟩ ht key = .ok r ∧
        htable_exists ⟨.exact, load, casts⟩ r.1 key = .ok false := by
  have hexact := not_indexOverflow load casts
  obtain ⟨ht, hrun, hok⟩ := (Ensures.invariant (StoreOk ⟨.exact, load, casts⟩)
    (fun _ op h hop => tableOp_step_storeOk h op hop) ops _ (htable_init_storeOk _ hsize) hchecked).exists_ok
    (not_indexFault load casts)
  exact ⟨ht, hrun, hok.table.distinct, htable_search_exact hok.table hexact,
    htable_del_exists hok.table hexact⟩

theorem table_run_search_mixed :
    ∃ ht, [TableOp.set (cstr "a") (cstr "1"), .hset (cstr "h") (cstr "f") (cstr "x"),
        .push (cstr "l") (cstr "y") .LEFT, .del (cstr "a"), .sadd (cstr "s") (cstr "m")].foldlM
          (TableOp.step ⟨.exact, .int32, none⟩) (htable_init HT_BASE_SIZE) = .ok ht ∧
      (ht.items.map HashTableItem.key).Nodup ∧
      (∀ key,
        (∀ item ∈ ht.items, item.key = key →
          ∃ p, htable_search ⟨.exact, .int32, none⟩ ht key = .ok (some (p, item)) ∧
            ht.slots[p]? = some (.live item)) ∧
        ((∀ item ∈ ht.items, item.key ≠ key) → htable_search ⟨.exact, .int32, none⟩ ht key = .ok none)) ∧
      ∀ key, ∃ r, htable_del ⟨.exact, .int32, none⟩ ht key = .ok r ∧
        htable_exists ⟨.exact, .int32, none⟩ r.1 key = .ok false :=
  table_run_search .int32 none (by decide) _ (by decide +kernel)

end hyperkv
