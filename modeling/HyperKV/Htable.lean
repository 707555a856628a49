import HyperKV.List
import HyperKV.Set

open OpenAddressing

namespace hyperkv

/-- `htable_resize`, `htable_resize_up`, `htable_resize_down`, `item_swap` and the
    probing loops of `htable_insert`, `htable_search`, `htable_del` and the
    `htable_update_*` functions are the scheme's. -/
def htable_scheme (mc : Machine) : Scheme CStr (HashTableItem Value) := scheme mc HashTableItem.key false

def htable_init (size : Int) : HashTable := Table.empty (init_size size)

def htable_insert (mc : Machine) (ht : HashTable) (type : ItemType) (key : CStr) (value : Value) :
    Exec HashTable :=
  Prod.fst <$> fromTable ((htable_scheme mc).insert 1 ht ⟨type, key, value⟩)

/-- The item found, with its slot, through which the source writes to it. -/
def htable_search (mc : Machine) (ht : HashTable) (key : CStr) : Exec (Option (Nat × HashTableItem Value)) :=
  fromTable ((htable_scheme mc).search ht key)

def htable_exists (mc : Machine) (ht : HashTable) (key : CStr) : Exec Bool :=
  Option.isSome <$> htable_search mc ht key

def ItemType.name : ItemType → CStr
  | .STR_T => cstr "string"
  | .HASH_T => cstr "hash"
  | .LIST_T => cstr "list"
  | .SET_T => cstr "set"

def htable_type (mc : Machine) (ht : HashTable) (key : CStr) : Exec CStr := do
  match ← htable_search mc ht key with
  | none => return cstr "none"
  | some (_, item) => return item.type.name

/-- Freeing the item's value, which has no effect here, is left out. -/
def htable_del (mc : Machine) (ht : HashTable) (key : CStr) : Exec (HashTable × Bool) :=
  fromTable ((htable_scheme mc).remove 1 ht key)

def htable_update_str (mc : Machine) (ht : HashTable) (key : CStr) (value : CStr) : Exec HashTable := do
  match ← htable_search mc ht key with
  | none => return ht
  | some (p, _) => return ht.write p (.live ⟨.STR_T, key, .str value⟩)

def htable_set (mc : Machine) (ht : HashTable) (key value : CStr) : Exec (HashTable × Bool) := do
  match ← htable_search mc ht key with
  | none => return (← htable_insert mc ht .STR_T key (.str value), true)
  | some (_, item) =>
    if item.type ≠ .STR_T then return (ht, false)
    return (← htable_update_str mc ht key value, true)

/-- The container behind an item is changed in place. -/
def HashTableItem.set_value (ht : HashTable) (p : Nat) (item : HashTableItem Value) (value : Value) :
    HashTable :=
  ht.write p (.live { item with value := value })

def htable_update_hash (mc : Machine) (ht : HashTable) (key field value : CStr) : Exec (HashTable × Bool) := do
  match ← htable_search mc ht key with
  | none => return (ht, false)
  | some (p, item) =>
    let (tmp, res) ← htable_set mc (← item.value.asHash) field value
    return (item.set_value ht p (.hash tmp), res)

def list_push (dir : ListDirection) (ls : CList) (value : CStr) : Exec CList :=
  match dir with
  | .LEFT => list_lpush ls value
  | .RIGHT => list_rpush ls value

def htable_update_list (mc : Machine) (ht : HashTable) (key value : CStr) (dir : ListDirection) :
    Exec (HashTable × Int) := do
  match ← htable_search mc ht key with
  | none => return (ht, 0)
  | some (p, item) =>
    let tmp ← list_push dir (← item.value.asList) value
    return (item.set_value ht p (.list tmp), tmp.len)

def htable_update_set (mc : Machine) (ht : HashTable) (key value : CStr) : Exec (HashTable × Bool) := do
  match ← htable_search mc ht key with
  | none => return (ht, false)
  | some (p, item) =>
    let (tmp, res) ← set_add mc (← item.value.asSet) value
    return (item.set_value ht p (.set tmp), res)

def htable_hset (mc : Machine) (ht : HashTable) (key field value : CStr) : Exec (HashTable × Bool) := do
  if ← htable_exists mc ht key then
    htable_update_hash mc ht key field value
  else
    let (new_ht, _) ← htable_set mc (htable_init HT_BASE_SIZE) field value
    return (← htable_insert mc ht .HASH_T key (.hash new_ht), true)

def htable_push (mc : Machine) (ht : HashTable) (key value : CStr) (dir : ListDirection) :
    Exec (HashTable × Int) := do
  if ← htable_exists mc ht key then
    htable_update_list mc ht key value dir
  else
    let new_ls ← list_push dir list_init value
    return (← htable_insert mc ht .LIST_T key (.list new_ls), 1)

def htable_sadd (mc : Machine) (ht : HashTable) (key value : CStr) : Exec (HashTable × Bool) := do
  if ← htable_exists mc ht key then
    htable_update_set mc ht key value
  else
    let (new_st, _) ← set_add mc (set_init HT_BASE_SIZE) value
    return (← htable_insert mc ht .SET_T key (.set new_st), true)

/-- The value is read as a string whatever its tag; null when the key is missing. -/
def htable_get (mc : Machine) (ht : HashTable) (key : CStr) : Exec (Option CStr) := do
  match ← htable_search mc ht key with
  | none => return none
  | some (_, item) => return some (← mc.read_str key item.value)

def htable_hget (mc : Machine) (ht : HashTable) (key field : CStr) : Exec (Option CStr) := do
  match ← htable_search mc ht key with
  | none => return none
  | some (_, item) => htable_get mc (← item.value.asHash) field

def list_pop (dir : ListDirection) (ls : CList) : Exec (Option ListNode × CList) :=
  match dir with
  | .LEFT => list_lpop ls
  | .RIGHT => list_rpop ls

def htable_pop (mc : Machine) (ht : HashTable) (key : CStr) (dir : ListDirection) :
    Exec (HashTable × Option CStr) := do
  match ← htable_search mc ht key with
  | none => return (ht, none)
  | some (p, item) =>
    match ← list_pop dir (← item.value.asList) with
    | (none, _) => .error .nullPointer
    | (some node, tmp) =>
      let ht := item.set_value ht p (.list tmp)
      if tmp.len = 0 then
        return (← Prod.fst <$> htable_del mc ht key, some node.value)
      return (ht, some node.value)

def htable_sismember (mc : Machine) (ht : HashTable) (key value : CStr) : Exec Bool := do
  match ← htable_search mc ht key with
  | none => return false
  | some (_, item) => set_ismember mc (← item.value.asSet) value

def htable_hlen (mc : Machine) (ht : HashTable) (key : CStr) : Exec Int := do
  match ← htable_search mc ht key with
  | none => return 0
  | some (_, item) => return (← item.value.asHash).used

def htable_llen (mc : Machine) (ht : HashTable) (key : CStr) : Exec Int := do
  match ← htable_search mc ht key with
  | none => return 0
  | some (_, item) => return (← item.value.asList).len

/-- The answer with the index it normalises: `-1` for a missing key, `1` for an
    index inside the list, `0` otherwise. -/
def htable_check_id (mc : Machine) (ht : HashTable) (key : CStr) (id : Int) : Exec (Int × Int) := do
  match ← htable_search mc ht key with
  | none => return (-1, id)
  | some (_, item) =>
    let tmp ← item.value.asList
    let id := if id < 0 then tmp.len + id else id
    return (if 0 ≤ id ∧ id < tmp.len then 1 else 0, id)

def htable_check_ids (mc : Machine) (ht : HashTable) (key : CStr) (bgn stop : Int) :
    Exec (Int × Int × Int) := do
  match ← htable_search mc ht key with
  | none => return (-1, bgn, stop)
  | some (_, item) =>
    let tmp ← item.value.asList
    let bgn := if bgn < 0 then tmp.len + bgn else bgn
    let stop := if stop < 0 then tmp.len + stop else stop
    return (if bgn ≤ stop ∧ (0 ≤ bgn ∧ bgn < tmp.len) ∧ 0 ≤ stop ∧ stop < tmp.len then 1 else 0, bgn, stop)

def htable_lindex (mc : Machine) (ht : HashTable) (key : CStr) (id : Int) : Exec (Option CStr) := do
  match ← htable_search mc ht key with
  | none => return none
  | some (_, item) =>
    let tmp ← item.value.asList
    match ← list_index tmp id with
    | none => return none
    | some nd => return some (← tmp.node (some nd)).value

def htable_lset (mc : Machine) (ht : HashTable) (key : CStr) (id : Int) (value : CStr) :
    Exec (HashTable × Bool) := do
  match ← htable_search mc ht key with
  | none => return (ht, false)
  | some (p, item) =>
    let (res, tmp) ← list_set (← item.value.asList) id value
    return (item.set_value ht p (.list tmp), res)

def htable_hdel (mc : Machine) (ht : HashTable) (key field : CStr) : Exec (HashTable × Bool) := do
  match ← htable_search mc ht key with
  | none => return (ht, false)
  | some (p, item) =>
    let (tmp, res) ← htable_del mc (← item.value.asHash) field
    let ht := item.set_value ht p (.hash tmp)
    if tmp.used = 0 then
      return (← Prod.fst <$> htable_del mc ht key, res)
    return (ht, res)

def htable_lrem (mc : Machine) (ht : HashTable) (key : CStr) (count : Int) (value : CStr) :
    Exec (HashTable × Int) := do
  match ← htable_search mc ht key with
  | none => return (ht, 0)
  | some (p, item) =>
    let (res, tmp) ← list_rem (← item.value.asList) count value
    let ht := item.set_value ht p (.list tmp)
    if tmp.len = 0 then
      return (← Prod.fst <$> htable_del mc ht key, res)
    return (ht, res)

def htable_srem (mc : Machine) (ht : HashTable) (key value : CStr) : Exec (HashTable × Bool) := do
  match ← htable_search mc ht key with
  | none => return (ht, false)
  | some (p, item) =>
    let (tmp, res) ← set_rem mc (← item.value.asSet) value
    let ht := item.set_value ht p (.set tmp)
    if tmp.used = 0 then
      return (← Prod.fst <$> htable_del mc ht key, res)
    return (ht, res)

def htable_lpos (mc : Machine) (ht : HashTable) (key value : CStr) : Exec Int := do
  match ← htable_search mc ht key with
  | none => return -1
  | some (_, item) => list_pos (← item.value.asList) value

/-- What a listing copies from one slot. -/
def copy_slot (copy : HashTableItem Value → Exec (List CStr)) : Slot (HashTableItem Value) → Exec (List CStr)
  | .live item => copy item
  | _ => .ok []

/-- The listing loop of `htable_hgetall` and `htable_hkeyvals`: it returns when
    as many strings are copied as the counter announces, and null when the slots
    end first. -/
def hash_listing (copy : HashTableItem Value → Exec (List CStr)) (announced : Int) :
    List (Slot (HashTableItem Value)) → List CStr → Exec (Option (List CStr))
  | [], _ => .ok none
  | slot :: rest, res => do
    let res := res ++ (← copy_slot copy slot)
    if res.length = announced then return some res
    hash_listing copy announced rest res

def copy_pair (mc : Machine) (item : HashTableItem Value) : Exec (List CStr) := do
  return [item.key, ← mc.read_str item.key item.value]

def copy_side (mc : Machine) (ky : Bool) (item : HashTableItem Value) : Exec (List CStr) := do
  return [← if ky then pure item.key else mc.read_str item.key item.value]

def htable_hgetall (mc : Machine) (ht : HashTable) (key : CStr) : Exec (Option (List CStr)) := do
  match ← htable_search mc ht key with
  | none => return none
  | some (_, item) =>
    let tmp ← item.value.asHash
    hash_listing (copy_pair mc) (tmp.used * 2) tmp.slots []

def htable_hkeyvals (mc : Machine) (ht : HashTable) (key : CStr) (ky : Bool) : Exec (Option (List CStr)) := do
  match ← htable_search mc ht key with
  | none => return none
  | some (_, item) =>
    let tmp ← item.value.asHash
    hash_listing (copy_side mc ky) tmp.used tmp.slots []

/-- Shared by the table and the interpreter: a missing key has every type. -/
def is_type (given expected : CStr) : Bool := given = expected || given = cstr "none"

def htable_lrange (mc : Machine) (ht : HashTable) (key : CStr) (bgn stop : Int) :
    Exec (Option (List CStr)) := do
  if is_type (← htable_type mc ht key) (cstr "list") then
    match ← htable_search mc ht key with
    | none => .error .nullPointer
    | some (_, item) => return some (← list_range (← item.value.asList) bgn stop)
  else
    return none

def htable_smembers (mc : Machine) (ht : HashTable) (key : CStr) : Exec (Option (List CStr)) := do
  match ← htable_search mc ht key with
  | none => return none
  | some (_, item) => return some (set_members (← item.value.asSet))

end hyperkv
