import HyperKV.Htable.Reads
import HyperKV.Htable.Values

open Outcome OpenAddressing

namespace hyperkv

variable {mc : Machine} {ht t : HashTable} {key : CStr}

/-! ## What the listings answer -/

/-- The three listings of a key are those of one list of pairs, or all null; every
    pair is read back by its field, and no field occurs twice. -/
def ListingsAgree (mc : Machine) (ht : HashTable) (key : CStr) : Prop :=
  ∃ pairs : Option (List (CStr × CStr)),
    htable_hgetall mc ht key = .ok (pairs.map (·.flatMap fun pair => [pair.1, pair.2])) ∧
    htable_hkeyvals mc ht key true = .ok (pairs.map (·.map Prod.fst)) ∧
    htable_hkeyvals mc ht key false = .ok (pairs.map (·.map Prod.snd)) ∧
    ∀ listed, pairs = some listed → (listed.map Prod.fst).Nodup ∧
      ∀ pair ∈ listed, htable_hget mc ht key pair.1 = .ok (some pair.2)

/-- The field and the value that the listings copy from an item. -/
def field_pair (item : HashTableItem Value) : CStr × CStr := (item.key, item_text item)

theorem stringAt_item (h : HashOk mc t) {item : HashTableItem Value} (hmem : item ∈ t.items) :
    StringAt t item.key (some (item_text item)) := by
  obtain ⟨value, heq⟩ := h.strings item hmem
  refine ⟨item, hmem, rfl, ?_⟩
  rw [item_text, heq]

/-- The walk that every listing of a hash makes. -/
def listed_pairs (t : HashTable) : Option (List (CStr × CStr)) :=
  (Table.walk t.used t.slots []).map (·.map field_pair)

section Found

variable {p : Nat} {item : HashTableItem Value} (hsearch : htable_search mc ht key = .ok (some (p, item)))
  (hvalue : item.value = .hash t) (hhash : HashOk mc t)

include hsearch hvalue hhash

theorem htable_hgetall_walk : htable_hgetall mc ht key =
    .ok ((listed_pairs t).map (·.flatMap fun pair => [pair.1, pair.2])) := by
  rw [htable_hgetall, hsearch, ok_bind]
  change (item.value.asHash >>= fun tmp => _) = _
  rw [hvalue, listed_pairs, Option.map_map]
  refine (hash_listing_walk copies_pair hhash (Int.mul_comm _ _)).trans ?_
  refine congrArg (fun f => Except.ok (Option.map f _)) (funext fun items => ?_)
  exact (List.flatMap_map field_pair (fun pair => [pair.1, pair.2]) items).symm

theorem htable_hkeyvals_walk (ky : Bool) : htable_hkeyvals mc ht key ky =
    .ok ((listed_pairs t).map (·.map fun pair => if ky then pair.1 else pair.2)) := by
  rw [htable_hkeyvals, hsearch, ok_bind]
  change (item.value.asHash >>= fun tmp => _) = _
  rw [hvalue, listed_pairs, Option.map_map]
  refine (hash_listing_walk (copies_side ky) hhash (Int.one_mul _).symm).trans ?_
  refine congrArg (fun f => Except.ok (Option.map f _)) (funext fun items => ?_)
  rw [Function.comp_apply, List.map_map, List.map_eq_flatMap]
  rfl

end Found

/-- The pairs listed are of items of the table, no two with one key. -/
theorem listed_pairs_fields (h : HashOk mc t) {listed : List (CStr × CStr)}
    (hlisted : listed_pairs t = some listed) :
    (listed.map Prod.fst).Nodup ∧ ∀ pair ∈ listed, StringAt t pair.1 (some pair.2) := by
  obtain ⟨items, hwalk, rfl⟩ := Option.map_eq_some_iff.mp hlisted
  have hbegins : items <+: t.items := (Table.walk_eq_some hwalk).2
  constructor
  · rw [List.map_map]
    exact h.table.distinct.sublist (hbegins.sublist.map HashTableItem.key)
  · intro pair hpair
    obtain ⟨item, hmem, rfl⟩ := List.mem_map.mp hpair
    exact stringAt_item h (hbegins.subset hmem)

theorem listings_agree (h : StoreOk mc ht) (hexact : ∀ e, ¬ IndexFault mc e)
    (htyped : TypedAt ht key .HASH_T) : ListingsAgree mc ht key := by
  obtain ⟨r, hsearch, hr⟩ := (htable_search_typed h htyped).exists_ok hexact
  cases r with
  | none =>
    unfold ListingsAgree htable_hgetall htable_hkeyvals
    rw [hsearch]
    exact ⟨none, rfl, rfl, rfl, fun _ hnone => by cases hnone⟩
  | some found =>
    obtain ⟨hold, hitem, htype⟩ := hr
    obtain ⟨t, hvalue, ops, hrun⟩ := hitem.hash htype
    have hhash := htable_run_hashOk hrun
    refine ⟨listed_pairs t, htable_hgetall_walk hsearch hvalue hhash,
      htable_hkeyvals_walk hsearch hvalue hhash true, htable_hkeyvals_walk hsearch hvalue hhash false, ?_⟩
    intro listed hlisted
    obtain ⟨hnodup, hfields⟩ := listed_pairs_fields hhash hlisted
    refine ⟨hnodup, fun pair hpair => ?_⟩
    have hread := htable_hget_stringAt h (hold.stored hvalue) (hfields pair hpair)
    obtain ⟨_, hget, rfl⟩ := hread.exists_ok hexact
    exact hget

/-! ## The arrays they fill -/

/-- The entries of its array that a listing loop has written when it stops: the
    copied strings, and the null behind them if it returns them. -/
def listing_writes (copy : HashTableItem Value → Exec (List CStr)) (announced : Int) :
    List (Slot (HashTableItem Value)) → List CStr → Exec Nat
  | [], res => .ok res.length
  | slot :: rest, res => do
    let res := res ++ (← copy_slot copy slot)
    if res.length = announced then return res.length + 1
    listing_writes copy announced rest res

/-- The entries that `htable_hgetall` allocates, and those that its loop writes. -/
def htable_hgetall_array (mc : Machine) (ht : HashTable) (key : CStr) : Exec (Int × Nat) := do
  match ← htable_search mc ht key with
  | none => return (0, 0)
  | some (_, item) =>
    let tmp ← item.value.asHash
    let written ← listing_writes (copy_pair mc) (tmp.used * 2) tmp.slots []
    return (tmp.used * 2 + 1, written)

def htable_hkeyvals_array (mc : Machine) (ht : HashTable) (key : CStr) (ky : Bool) : Exec (Int × Nat) := do
  match ← htable_search mc ht key with
  | none => return (0, 0)
  | some (_, item) =>
    let tmp ← item.value.asHash
    let written ← listing_writes (copy_side mc ky) tmp.used tmp.slots []
    return (tmp.used + 1, written)

/-- A loop that may meet no more items than are announced keeps to its array. -/
theorem listing_writes_le {copy : HashTableItem Value → Exec (List CStr)}
    {texts : HashTableItem Value → List CStr} {width : Nat} (hcopies : Copies copy texts width) {n : Int}
    {slots : List (Slot (HashTableItem Value))} (met : List (HashTableItem Value))
    (hstrings : ∀ item ∈ slots.filterMap Slot.item?, ∃ s, item.value = .str s)
    (hroom : ((met ++ slots.filterMap Slot.item?).length : Int) ≤ n) :
    Ensures NoFault (listing_writes copy (width * n) slots (met.flatMap texts))
      (fun written => (written : Int) ≤ width * n + 1) := by
  induction slots generalizing met with
  | nil =>
    have hlen := length_flatMap_of_width hcopies.length met
    rw [List.filterMap_nil, List.append_nil] at hroom
    have hscaled : (width : Int) * met.length ≤ width * n := Int.mul_le_mul_of_nonneg_left hroom (by omega)
    change ((met.flatMap texts).length : Int) ≤ _
    rw [hlen, Nat.cast_mul]
    omega
  | cons slot rest ih =>
    rw [Table.filterMap_item?_cons, ← List.append_assoc] at hroom
    rw [Table.filterMap_item?_cons] at hstrings
    have hslot := hcopies.slot (fun item hmem => hstrings item (List.mem_append_left _ hmem))
    rw [listing_writes, hslot, ok_bind, ← List.flatMap_append]
    dsimp only
    split
    · rename_i hdone
      change ((_ + 1 : Nat) : Int) ≤ _
      omega
    · exact ih _ (fun item hmem => hstrings item (List.mem_append_right _ hmem)) hroom

/-- No more entries are written than allocated, and the `n` arguments that commands
    brought bound what is allocated. -/
def FitsArray (n : Nat) (array : Int × Nat) : Prop := (array.2 : Int) ≤ array.1 ∧ array.1 ≤ n + 1

def ListingsFit (mc : Machine) (n : Nat) (ht : HashTable) (key : CStr) : Prop :=
  Ensures NoFault (htable_hgetall_array mc ht key) (FitsArray n) ∧
    ∀ ky, Ensures NoFault (htable_hkeyvals_array mc ht key ky) (FitsArray n)

/-! ## The counters -/

/-- A hash whose counter covers its fields, after commands with `n` arguments: two
    of them for every field counted. -/
structure Covered (mc : Machine) (n : Nat) (t : HashTable) : Prop where
  hash : HashOk mc t
  ample : Scheme.Ample t
  used_le : t.used * 2 ≤ n

theorem covered_init (mc : Machine) (n : Nat) : Covered mc n (htable_init HT_BASE_SIZE) :=
  ⟨htable_init_hashOk mc, Scheme.ample_empty _, Int.natCast_nonneg n⟩

variable {n : Nat}

theorem Covered.mono {m : Nat} (h : Covered mc n t) (hnm : n ≤ m) : Covered mc m t :=
  ⟨h.hash, h.ample, le_trans h.used_le (by exact_mod_cast hnm)⟩

/-- Counting stays among the `int`s. -/
theorem reduce_eq {used : Int} (hlow : 0 ≤ used) (hhigh : mc.load = .int32 → used ≤ 2147483647) :
    mc.load.reduce used = used := by
  cases hload : mc.load with
  | exact => rfl
  | int32 =>
    have hle := hhigh hload
    exact int32_of_bounds (by omega) (by omega)

theorem htable_insert_inserted (h : TableOk mc t) {type : ItemType} {value : Value} {t' : HashTable}
    (hinsert : htable_insert mc t type key value = .ok t') :
    ∃ taken, (htable_scheme mc).Inserted (Sized mc) t ⟨type, key, value⟩ t' taken := by
  have hspec := Scheme.insert_ensures (htable_lawful mc) 0 h.findable h.sized ⟨type, key, value⟩
  have hinserted : Ensures (IndexFault mc) (htable_insert mc t type key value)
      (fun t' => ∃ taken, (htable_scheme mc).Inserted (Sized mc) t ⟨type, key, value⟩ t' taken) :=
    Ensures.map (fromTable_ensures (hspec.mono (fun r hr => ⟨r.2, hr⟩)))
  exact hinserted.of_eq_ok hinsert

theorem htable_set_covered (h : Covered mc n t) (hn : mc.load = .int32 → n + 2 ≤ 2147483647)
    (field value : CStr) :
    Ensures AnyFault (htable_set mc t field value) (fun r => Covered mc (n + 2) r.1) := by
  have hcases := htable_set_cases h.hash.table field value
  refine ((htable_set_hashOk h.hash field value).anyFault.and hcases.anyFault).mono ?_
  have hnonneg : 0 ≤ t.used := le_trans (Int.natCast_nonneg _) h.ample
  have hused := h.used_le
  rintro ⟨t', done⟩ ⟨hhash, ⟨_, _, hinsert⟩ | ⟨p, item, _, _, heq⟩ | ⟨p, item, hold, _, heq⟩⟩
  · obtain ⟨taken, hinserted⟩ := htable_insert_inserted h.hash.table hinsert
    have hcount : mc.load.reduce (t.used + 1) = t.used + 1 :=
      reduce_eq (by omega) (fun hload => by have hle := hn hload; omega)
    obtain ⟨hample, hle⟩ := hinserted.ample h.ample hcount
    have hwithin : t'.used * 2 ≤ (n + 2 : Nat) := by
      change t'.used ≤ _ at hle
      omega
    exact ⟨hhash, hample, hwithin⟩
  · cases heq
    exact h.mono (Nat.le_add_right n 2)
  · cases heq
    exact ⟨hhash, Scheme.Ample.replace h.ample hold.slot, by rw [Table.write_used]; omega⟩

theorem htable_del_covered (h : Covered mc n t) (hn : mc.load = .int32 → n ≤ 2147483647) (field : CStr) :
    Ensures AnyFault (htable_del mc t field) (fun r => Covered mc n r.1) := by
  have htable := h.hash.table
  have hspec := Scheme.remove_ensures (htable_lawful mc) 0 htable.findable htable.sized field
  refine ((htable_del_hashOk h.hash field).anyFault.and (fromTable_ensures hspec).anyFault).mono ?_
  rintro ⟨t', found⟩ ⟨hhash, hremoved⟩
  cases found with
  | false =>
    obtain ⟨rfl, _⟩ := hremoved
    exact h
  | true =>
    obtain ⟨p, item, hslot, _, hresized⟩ := hremoved
    have hused := h.used_le
    have hcount : 0 < t.used → mc.load.reduce (t.used - 1) = t.used - 1 :=
      fun hpos => reduce_eq (by omega) (fun hload => by have hle := hn hload; omega)
    obtain ⟨hample, hle⟩ := hresized.ample hslot h.ample hcount
    have hwithin : t'.used * 2 ≤ n := by
      change t'.used ≤ _ at hle
      omega
    exact ⟨hhash, hample, hwithin⟩

/-- The arrays are large enough wherever the counter covers the fields. -/
theorem listings_fit (h : StoreOk mc ht) (hexact : ∀ e, ¬ IndexFault mc e) (htyped : TypedAt ht key .HASH_T)
    (hcovered : ∀ t, Stored ht key (.hash t) → Covered mc n t) : ListingsFit mc n ht key := by
  obtain ⟨r, hsearch, hr⟩ := (htable_search_typed h htyped).exists_ok hexact
  unfold ListingsFit htable_hgetall_array htable_hkeyvals_array
  rw [hsearch]
  cases r with
  | none => exact ⟨⟨le_rfl, by omega⟩, fun _ => ⟨le_rfl, by omega⟩⟩
  | some found =>
    obtain ⟨hold, hitem, htype⟩ := hr
    obtain ⟨t, hvalue, _⟩ := hitem.hash htype
    have ht := hcovered t (hold.stored hvalue)
    have hnonneg : 0 ≤ t.used := le_trans (Int.natCast_nonneg _) ht.ample
    have hused := ht.used_le
    have hstrings : ∀ item ∈ t.items, ∃ s, item.value = .str s := by
      intro item hmem
      obtain ⟨s, heq⟩ := ht.hash.strings item hmem
      exact ⟨s, by rw [heq]⟩
    simp only [ok_bind, hvalue, Value.asHash]
    constructor
    · have hwrites := listing_writes_le (@copies_pair mc) [] hstrings ht.ample
      rw [Int.mul_comm] at hwrites
      exact hwrites.bind (fun written hle => ⟨by omega, by omega⟩)
    · intro ky
      have hwrites := listing_writes_le (@copies_side mc ky) [] hstrings ht.ample
      rw [Nat.cast_one, Int.one_mul] at hwrites
      exact hwrites.bind (fun written hle => ⟨by omega, by omega⟩)

end hyperkv
