import HyperKV.Keyspace.Containers

open Outcome OpenAddressing KeyedStore

namespace hyperkv

variable {mc : Machine} {ht : HashTable} {key : CStr} {db : Keyspace}

/-! ## When an operation loses nothing -/

/-- The item that a search finds under the key, with its slot. -/
def htable_found (mc : Machine) (ht : HashTable) (key : CStr) : Option (Nat × HashTableItem Value) :=
  match htable_search mc ht key with
  | .ok r => r
  | .error _ => none

/-- The insertion of a new container lands. -/
def create_lands (mc : Machine) (ht : HashTable) (type : ItemType) (key : CStr)
    (made : Exec Value) : Bool :=
  match made with
  | .ok value => (htable_scheme mc).lands 1 ht ⟨type, key, value⟩
  | .error _ => true

/-- The removal of a container that was just emptied lands. -/
def drop_lands (mc : Machine) (ht : HashTable) (key : CStr) (p : Nat) (item : HashTableItem Value)
    (value : Value) (empty : Bool) : Bool :=
  !empty || htable_lands mc (item.set_value ht p value) (.del key)

def hset_lands (mc : Machine) (ht : HashTable) (key field value : CStr) : Bool :=
  match htable_found mc ht key with
  | none => create_lands mc ht .HASH_T key
      ((fun r => .hash r.1) <$> htable_set mc (htable_init HT_BASE_SIZE) field value)
  | some (_, item) =>
    match item.value with
    | .hash t => htable_lands mc t (.set field value)
    | _ => true

def hdel_lands (mc : Machine) (ht : HashTable) (key field : CStr) : Bool :=
  match htable_found mc ht key with
  | none => true
  | some (p, item) =>
    match item.value with
    | .hash t => htable_lands mc t (.del field) &&
        match htable_del mc t field with
        | .ok (t', _) => drop_lands mc ht key p item (.hash t') (t'.used = 0)
        | .error _ => true
    | _ => true

def push_lands (mc : Machine) (ht : HashTable) (dir : ListDirection) (key value : CStr) : Bool :=
  match htable_found mc ht key with
  | none => create_lands mc ht .LIST_T key (.list <$> list_push dir list_init value)
  | some _ => true

/-- A list operation leaves this list in the place of the one behind the item. -/
def shorten_lands (mc : Machine) (ht : HashTable) (key : CStr) (shorten : CList → Exec CList) : Bool :=
  match htable_found mc ht key with
  | none => true
  | some (p, item) =>
    match item.value with
    | .list ls =>
      match shorten ls with
      | .ok ls' => drop_lands mc ht key p item (.list ls') (ls'.len = 0)
      | .error _ => true
    | _ => true

def pop_lands (mc : Machine) (ht : HashTable) (dir : ListDirection) (key : CStr) : Bool :=
  shorten_lands mc ht key (fun ls => Prod.snd <$> list_pop dir ls)

def lrem_lands (mc : Machine) (ht : HashTable) (key : CStr) (count : Int) (value : CStr) : Bool :=
  shorten_lands mc ht key (fun ls => Prod.snd <$> list_rem ls count value)

/-- Beside landing, an addition is not to meet a tombstone ahead of a member
    that is there already. -/
def sadd_lands (mc : Machine) (ht : HashTable) (key member : CStr) : Bool :=
  match htable_found mc ht key with
  | none =>
    create_lands mc ht .SET_T key ((fun r => .set r.1) <$> set_add mc (set_init HT_BASE_SIZE) member)
  | some (_, item) =>
    match item.value with
    | .set st => set_lands mc st (.add member) && meets_no_tombstone mc st (.add member)
    | _ => true

def srem_lands (mc : Machine) (ht : HashTable) (key member : CStr) : Bool :=
  match htable_found mc ht key with
  | none => true
  | some (p, item) =>
    match item.value with
    | .set st => set_lands mc st (.rem member) &&
        match set_rem mc st member with
        | .ok (st', _) => drop_lands mc ht key p item (.set st') (st'.used = 0)
        | .error _ => true
    | _ => true

theorem htable_found_eq {r : Option (Nat × HashTableItem Value)} (h : htable_search mc ht key = .ok r) :
    htable_found mc ht key = r := by
  rw [htable_found, h]

/-! ## The three ways a key changes -/

/-- A new item for an absent key. -/
theorem create_focuses (hok : TableOk mc ht) (habsent : Absent ht key) {type : ItemType} {value : Value}
    {d : Datum} (hmeans : value.Means d) (hlands : (htable_scheme mc).lands 1 ht ⟨type, key, value⟩) :
    Ensures AnyFault (htable_insert mc ht type key value)
      (fun ht' => SameBut key ht ht' ∧ KeyMeans ht' key (some d)) := by
  refine (htable_insert_lands hok habsent hlands).anyFault.mono ?_
  rintro ht' ⟨_, hmem⟩
  have hput : ∀ other, other ∈ ht'.items ↔
      other = ⟨type, key, value⟩ ∨ other ∈ ht.items ∧ other.key ≠ key :=
    fun other => (hmem other).trans (or_congr_right (and_iff_left_of_imp (habsent other)).symm)
  obtain ⟨hsame, hstored⟩ := sameBut_put rfl hput
  exact ⟨hsame, value, hstored, hmeans⟩

/-- Another value behind the item. -/
theorem set_value_focuses (hok : TableOk mc ht) {p : Nat} {item : HashTableItem Value}
    (hold : Holds ht key p item) {value : Value} {d : Datum} (hmeans : value.Means d) :
    SameBut key ht (item.set_value ht p value) ∧ KeyMeans (item.set_value ht p value) key (some d) := by
  have hkey : ({ item with value := value } : HashTableItem Value).key = key := hold.key_eq
  obtain ⟨_, hmem⟩ := hok.replace _ hold hkey
  obtain ⟨hsame, hstored⟩ := sameBut_put hkey hmem
  exact ⟨hsame, value, hstored, hmeans⟩

theorem SameBut.trans {ht' ht'' : HashTable} (h : SameBut key ht ht') (h' : SameBut key ht' ht'') :
    SameBut key ht ht'' := fun k hk value => (h' k hk value).trans (h k hk value)

/-- A smaller container behind the item, or none when it is empty. -/
theorem drop_empty_focuses {α : Type} (hok : TableOk mc ht) {p : Nat} {item : HashTableItem Value}
    (hold : Holds ht key p item) {value : Value} {empty : Prop} [Decidable empty] (res : α)
    {d : Option Datum} (hempty : empty → d = none) (hmeans : ¬ empty → ∃ d', d = some d' ∧ value.Means d')
    (hlands : drop_lands mc ht key p item value empty) :
    Ensures AnyFault
      (if empty then do return (← Prod.fst <$> htable_del mc (item.set_value ht p value) key, res)
        else return (item.set_value ht p value, res) : Exec (HashTable × α))
      (fun r => SameBut key ht r.1 ∧ KeyMeans r.1 key d ∧ r.2 = res) := by
  have hkey : ({ item with value := value } : HashTableItem Value).key = key := hold.key_eq
  obtain ⟨hok', hmem⟩ := hok.replace _ hold hkey
  obtain ⟨hsame, _⟩ := sameBut_put hkey hmem
  by_cases he : empty
  · rw [if_pos he, hempty he]
    have hdel : htable_lands mc (item.set_value ht p value) (.del key) := by
      simpa [drop_lands, he] using hlands
    refine (Ensures.map (R := fun ht' => SameBut key ht ht' ∧ Absent ht' key) ?_).bind
      (fun ht' hr => ⟨hr.1, hr.2, rfl⟩)
    refine (htable_del_lands hok' hdel).anyFault.mono (fun r hr => ?_)
    obtain ⟨hsame', habsent⟩ := sameBut_drop hr.2
    exact ⟨hsame.trans hsame', habsent⟩
  · rw [if_neg he]
    obtain ⟨d', rfl, hd⟩ := hmeans he
    obtain ⟨hsame', hmeans'⟩ := set_value_focuses hok hold hd
    exact ⟨hsame', hmeans', rfl⟩

/-! ## Keys and strings -/

theorem htable_del_means (hm : Means mc ht db) (hlands : htable_lands mc ht (.del key)) :
    Ensures (IndexFault mc) (htable_del mc ht key) (fun r =>
      Means mc r.1 (Keyspace.delete key db).2 ∧ r.2 = (Keyspace.delete key db).1) := by
  have hfound : Ensures AnyFault (htable_del mc ht key)
      (fun r => r.2 = true ↔ ∃ item ∈ ht.items, item.key = key) := by
    refine (fromTable_ensures (Scheme.remove_ensures (htable_lawful mc) 0 hm.ok.table.findable
      hm.ok.table.sized key)).anyFault.mono ?_
    rintro ⟨ht', found⟩ hr
    cases found with
    | false =>
      obtain ⟨_, hnone⟩ := hr
      refine iff_of_false Bool.false_ne_true ?_
      rintro ⟨item, hmem, hkey⟩
      exact hnone item hmem hkey
    | true =>
      obtain ⟨p, item, hslot, hkey, _⟩ := hr
      exact iff_of_true rfl ⟨item, Table.mem_items.mpr ⟨p, hslot⟩, hkey⟩
  refine (((htable_del_storeOk hm.ok key).and
    (htable_del_lands hm.ok.table hlands).anyFault).and hfound).mono ?_
  rintro r ⟨⟨⟨hok, habsent⟩, _, hmem⟩, hr⟩
  refine hm.of_focuses hok ⟨(sameBut_drop hmem).1, habsent, Bool.eq_iff_iff.mpr (hr.trans ?_)⟩
  cases hd : db key with
  | none =>
    have hnone := hm.keys key
    rw [hd] at hnone
    refine iff_of_false ?_ Bool.false_ne_true
    rintro ⟨item, hitem, hkey⟩
    exact hnone item hitem hkey
  | some d =>
    have hsome := hm.keys key
    rw [hd] at hsome
    obtain ⟨value, ⟨item, hitem, hkey, _⟩, _⟩ := hsome
    exact iff_of_true ⟨item, hitem, hkey⟩ rfl

theorem htable_set_means (hm : Means mc ht db) {value : CStr}
    (hlands : htable_lands mc ht (.set key value)) :
    Ensures (IndexFault mc) (htable_set mc ht key value) (fun r =>
      Means mc r.1 (Keyspace.set key value db).2 ∧ r.2 = (Keyspace.set key value db).1) := by
  by_cases hfits : Datum.fits .STR_T (db key)
  · have htyped := (hm.typedAt_iff .STR_T).mpr hfits
    have hdone : Ensures AnyFault (htable_set mc ht key value) (fun r => r.2 = true) := by
      refine (htable_set_cases hm.ok.table key value).anyFault.mono ?_
      rintro r (⟨_, hdone, _⟩ | ⟨p, item, hold, htype, _⟩ | ⟨p, item, _, _, rfl⟩)
      · exact hdone
      · exact absurd (htyped item hold.mem hold.key_eq) htype
      · rfl
    refine (((htable_set_storeOk hm.ok key value).and
      (htable_set_lands hm.ok.table hlands htyped).anyFault).and hdone).mono ?_
    rintro r ⟨⟨hok, _, hmem⟩, hr⟩
    obtain ⟨hsame, hstored⟩ := sameBut_put rfl hmem
    refine hm.of_focuses hok ⟨hsame, ?_, ?_⟩
    · simp only [if_pos hfits]
      exact ⟨_, hstored, rfl⟩
    · simp only [if_pos hfits]
      exact hr
  · have hother := fun htyped => hfits ((hm.typedAt_iff .STR_T).mp htyped)
    refine (htable_set_refuses hm.ok hother value).mono ?_
    rintro r rfl
    refine hm.of_focuses hm.ok ⟨sameBut_self, ?_, ?_⟩
    · simp only [if_neg hfits]
      exact hm.keys key
    · simp only [if_neg hfits]

/-! ## Containers -/

/-- A container operation on a typed key: that it keeps the store sound is known,
    what it does to the key is to be shown where it returns. -/
theorem Means.write {α : Type} (hm : Means mc ht db) {type : ItemType} {x : Exec (HashTable × α)}
    {f : Option Datum → α × Option Datum}
    (hok : Ensures (IndexFault mc) x (fun r => StoreOk mc r.1 ∧ TypedAt r.1 key type))
    (hx : Ensures AnyFault x (Focuses ht key (db key) f)) :
    Ensures (IndexFault mc) x (fun r => (Means mc r.1 (focus key f db).2 ∧ r.2 = (focus key f db).1) ∧
      TypedAt r.1 key type) :=
  (hok.and hx).mono (fun _ hr => ⟨hm.of_focuses hr.1.1 hr.2, hr.1.2⟩)

/-- Following what a search for a typed key finds. -/
theorem search_focuses {α : Type} (h : StoreOk mc ht) {type : ItemType} (htyped : TypedAt ht key type)
    {next : Option (Nat × HashTableItem Value) → Exec α} {P : α → Prop}
    (hnone : htable_found mc ht key = none → Absent ht key → Ensures AnyFault (next none) P)
    (hsome : ∀ p item, htable_found mc ht key = some (p, item) → Holds ht key p item → ItemOk mc item →
      item.type = type → Ensures AnyFault (next (some (p, item))) P) :
    Ensures AnyFault (htable_search mc ht key >>= next) P := by
  refine (htable_search_typed h htyped).anyFault.bind_eq ?_
  intro r hsearch hr
  have hfound := htable_found_eq hsearch
  cases r with
  | none => exact hnone hfound hr
  | some found => exact hsome found.1 found.2 hfound hr.1 hr.2.1 hr.2.2

/-- The shape of `htable_hset`, `htable_push` and `htable_sadd`: the search is
    made again for an update. -/
theorem exists_focuses {α : Type} (h : StoreOk mc ht) {type : ItemType} (htyped : TypedAt ht key type)
    {update : Option (Nat × HashTableItem Value) → Exec α} {create : Exec α} {P : α → Prop}
    (hcreate : htable_found mc ht key = none → Absent ht key → Ensures AnyFault create P)
    (hupdate : ∀ p item, htable_found mc ht key = some (p, item) → Holds ht key p item → ItemOk mc item →
      item.type = type → Ensures AnyFault (update (some (p, item))) P) :
    Ensures AnyFault (do if ← htable_exists mc ht key then htable_search mc ht key >>= update else create)
      P := by
  cases hsearch : htable_search mc ht key with
  | error e =>
    rw [htable_exists, hsearch]
    exact trivial
  | ok r =>
    have hr := (htable_search_typed h htyped).of_eq_ok hsearch
    have hfound := htable_found_eq hsearch
    rw [htable_exists, hsearch]
    cases r with
    | none => exact hcreate hfound hr
    | some found => exact hupdate found.1 found.2 hfound hr.1 hr.2.1 hr.2.2

theorem hash_func_first (mc : Machine) (k : CStr) {size : Nat} (hsize : 0 < size) :
    0 ≤ hash_func mc k size 0 ∧ hash_func mc k size 0 < size := by
  have hpos : (0 : Int) < size := by exact_mod_cast hsize
  have hdjb2 : 0 ≤ djb2 k size := Int.emod_nonneg _ hpos.ne'
  rw [hash_func, if_pos rfl, Int.tmod_eq_emod_of_nonneg hdjb2]
  exact ⟨Int.emod_nonneg _ hpos.ne', Int.emod_lt_of_pos _ hpos⟩

/-- A new container takes its first element. -/
theorem fresh_lands {α : Type} (mc : Machine) {k : α → CStr} {checks : Bool}
    (hinj : checks → Function.Injective k) (x : α) :
    (scheme mc k checks).lands 1 (Table.empty (init_size HT_BASE_SIZE)) x := by
  have htwo : init_size HT_BASE_SIZE = 2 := by decide
  refine Scheme.lands_empty (scheme_lawful mc hinj) 1 (init_size_sized mc (fun _ => by decide))
    (by omega) ?_
  exact hash_func_first mc (k x) (by omega)

section Hash

variable {field value : CStr} {m : Bindings}

theorem insert_ne_empty (m : Bindings) (field value : CStr) : m.insert field value ≠ ∅ := by
  intro hnil
  have hlookup := Finmap.lookup_insert (a := field) (b := value) m
  rw [hnil, Finmap.lookup_empty] at hlookup
  cases hlookup

theorem ofBindings_of_ne (hne : m ≠ ∅) : Datum.ofBindings m = some (.hash m) := if_neg hne

/-- The hash that a typed item holds. -/
theorem Means.hash_item (hm : Means mc ht db) {p : Nat} {item : HashTableItem Value}
    (hold : Holds ht key p item) (hitem : ItemOk mc item) (htype : item.type = .HASH_T) :
    ∃ t, item.value = .hash t ∧ HashOk mc t ∧ HashMeans t (Datum.bindings (db key)) := by
  obtain ⟨t, hvalue, ops, hrun⟩ := hitem.hash htype
  obtain ⟨m, hd, hmeans, _⟩ := hm.hash_at (hold.stored hvalue)
  rw [hd]
  exact ⟨t, hvalue, htable_run_hashOk hrun, hmeans⟩

theorem htable_hset_means (hm : Means mc ht db) (htyped : TypedAt ht key .HASH_T)
    (hlands : hset_lands mc ht key field value) :
    Ensures (IndexFault mc) (htable_hset mc ht key field value) (fun r =>
      (Means mc r.1 (Keyspace.hset key field value db).2 ∧ r.2 = (Keyspace.hset key field value db).1) ∧
        TypedAt r.1 key .HASH_T) := by
  refine hm.write (htable_hset_storeOk hm.ok htyped field value) (exists_focuses hm.ok htyped ?_ ?_)
  · intro hfound habsent
    have hfresh : htable_lands mc (htable_init HT_BASE_SIZE) (.set field value) := by
      rw [htable_lands, Bool.or_eq_true]
      exact Or.inr (fresh_lands mc (fun h => by cases h) _)
    refine (htable_set_hashMeans (htable_init_hashOk mc) htable_init_hashMeans hfresh).anyFault.bind_eq ?_
    rintro ⟨t, done⟩ hset ⟨hmeans, _⟩
    rw [hset_lands, hfound, hset] at hlands
    have hnew : (Value.hash t).Means (.hash (Finmap.insert field value ∅)) :=
      ⟨hmeans, insert_ne_empty _ _ _⟩
    refine (create_focuses hm.ok.table habsent hnew hlands).bind ?_
    rintro ht' ⟨hsame, hkey⟩
    refine ⟨hsame, ?_, rfl⟩
    simp only [hm.absent habsent, Datum.bindings]
    rwa [ofBindings_of_ne (insert_ne_empty _ _ _)]
  · intro p item hfound hold hitem htype
    obtain ⟨t, hvalue, hhash, hmeans⟩ := hm.hash_item hold hitem htype
    rw [hset_lands, hfound] at hlands
    simp only [hvalue] at hlands
    simp only [hvalue, Value.asHash, ok_bind]
    refine (htable_set_hashMeans hhash hmeans hlands).anyFault.bind ?_
    rintro ⟨t', done⟩ ⟨hmeans', hdone⟩
    have hnew : (Value.hash t').Means (.hash ((Datum.bindings (db key)).insert field value)) :=
      ⟨hmeans', insert_ne_empty _ _ _⟩
    obtain ⟨hsame, hkey⟩ := set_value_focuses hm.ok.table hold hnew
    refine ⟨hsame, ?_, hdone⟩
    simp only
    rwa [ofBindings_of_ne (insert_ne_empty _ _ _)]

theorem htable_hdel_means (hm : Means mc ht db) (htyped : TypedAt ht key .HASH_T)
    (hlands : hdel_lands mc ht key field) :
    Ensures (IndexFault mc) (htable_hdel mc ht key field) (fun r =>
      (Means mc r.1 (Keyspace.hdel key field db).2 ∧ r.2 = (Keyspace.hdel key field db).1) ∧
        TypedAt r.1 key .HASH_T) := by
  refine hm.write (htable_hdel_storeOk hm.ok htyped field) (search_focuses hm.ok htyped ?_ ?_)
  · intro _ habsent
    refine ⟨sameBut_self, ?_, ?_⟩
    · simp only [hm.absent habsent, Datum.bindings]
      exact habsent
    · simp only [hm.absent habsent, Datum.bindings]
      rfl
  · intro p item hfound hold hitem htype
    obtain ⟨t, hvalue, hhash, hmeans⟩ := hm.hash_item hold hitem htype
    rw [hdel_lands, hfound] at hlands
    simp only [hvalue, Bool.and_eq_true] at hlands
    simp only [hvalue, Value.asHash, ok_bind]
    refine ((htable_del_hashOk hhash field).and
      (htable_del_hashMeans hhash hmeans hlands.1).anyFault).anyFault.bind_eq ?_
    rintro ⟨t', done⟩ hdel ⟨hhash', hmeans', hdone⟩
    have hdrop := hlands.2
    rw [hdel] at hdrop
    have hzero := hmeans'.used_eq_zero hhash'
    refine (drop_empty_focuses hm.ok.table hold done (fun he => if_pos (hzero.mp he)) (fun he => ?_)
      hdrop).mono (fun r hr => ⟨hr.1, hr.2.1, hr.2.2.trans hdone⟩)
    have hne := fun hnil => he (hzero.mpr hnil)
    exact ⟨_, ofBindings_of_ne hne, hmeans', hne⟩

end Hash

section List

variable {value : CStr} {dir : ListDirection} {l : List CStr}

theorem put_ne_nil (dir : ListDirection) (value : CStr) (l : List CStr) : dir.put value l ≠ [] := by
  cases dir with
  | LEFT => exact List.cons_ne_nil value l
  | RIGHT => exact List.append_ne_nil_of_right_ne_nil l (List.cons_ne_nil value [])

theorem take_put (dir : ListDirection) (value : CStr) (l : List CStr) :
    dir.take (dir.put value l) = some (value, l) := by
  cases dir with
  | LEFT => rfl
  | RIGHT => simp [ListDirection.take, ListDirection.put]

theorem ofValues_of_ne (hne : l ≠ []) : Datum.ofValues l = some (.list l) := if_neg hne

theorem kept_nil (count : Int) (value : CStr) : kept count value [] = [] := by
  unfold kept
  split
  · exact eraseFirst_nil value _
  · split
    · rw [List.reverse_nil, eraseFirst_nil, List.reverse_nil]
    · rfl

theorem deleted_nil (count : Int) (value : CStr) : deleted count value [] = 0 := by
  unfold deleted
  split
  · rfl
  · exact Nat.min_zero _

/-- The list that a typed item holds. -/
theorem Means.list_item (hm : Means mc ht db) {p : Nat} {item : HashTableItem Value}
    (hold : Holds ht key p item) (hitem : ItemOk mc item) (htype : item.type = .LIST_T) :
    ∃ ls run, item.value = .list ls ∧ ls.Linked run ∧ run ≠ [] ∧
      run.map Prod.snd = Datum.values (db key) := by
  obtain ⟨ls, hvalue, run, hne, hlinked⟩ := hitem.list htype
  have hstored : StoredList ht key (run.map Prod.snd) :=
    ⟨ls, hold.stored hvalue, ⟨run, hlinked, rfl⟩, fun hnil => hne (List.map_eq_nil_iff.mp hnil)⟩
  rw [hm.list_at hstored]
  exact ⟨ls, run, hvalue, hlinked, hne, rfl⟩

theorem htable_push_means (hm : Means mc ht db) (htyped : TypedAt ht key .LIST_T)
    (hlands : push_lands mc ht dir key value) :
    Ensures (IndexFault mc) (htable_push mc ht key value dir) (fun r =>
      (Means mc r.1 (Keyspace.push dir key value db).2 ∧ r.2 = (Keyspace.push dir key value db).1) ∧
        TypedAt r.1 key .LIST_T) := by
  refine hm.write (htable_push_storeOk hm.ok htyped value dir) (exists_focuses hm.ok htyped ?_ ?_)
  · intro hfound habsent
    obtain ⟨ls', run', hpush, hne, hlinked', hvalues⟩ := list_push_spec list_init_linked dir value
    have hput : run'.map Prod.snd = dir.put value [] := hvalues
    rw [push_lands, hfound, hpush] at hlands
    rw [hpush, ok_bind]
    have hnew : (Value.list ls').Means (.list (dir.put value [])) :=
      ⟨⟨run', hlinked', hput⟩, put_ne_nil _ _ _⟩
    refine (create_focuses hm.ok.table habsent hnew hlands).bind ?_
    rintro ht' ⟨hsame, hkey⟩
    refine ⟨hsame, ?_, ?_⟩
    · simp only [hm.absent habsent, Datum.values]
      rwa [ofValues_of_ne (put_ne_nil _ _ _)]
    · simp only [hm.absent habsent, Datum.values]
      cases dir <;> rfl
  · intro p item hfound hold hitem htype
    obtain ⟨ls, run, hvalue, hlinked, _, hvalues⟩ := hm.list_item hold hitem htype
    obtain ⟨ls', run', hpush, _, hlinked', hpushed⟩ := list_push_spec hlinked dir value
    have hput : run'.map Prod.snd = dir.put value (Datum.values (db key)) := by
      rw [← hvalues]
      exact hpushed
    simp only [hvalue, Value.asList, ok_bind, hpush]
    have hnew : (Value.list ls').Means (.list (dir.put value (Datum.values (db key)))) :=
      ⟨⟨run', hlinked', hput⟩, put_ne_nil _ _ _⟩
    obtain ⟨hsame, hkey⟩ := set_value_focuses hm.ok.table hold hnew
    refine ⟨hsame, ?_, ?_⟩
    · simp only
      rwa [ofValues_of_ne (put_ne_nil _ _ _)]
    · simp only
      rw [← hput, List.length_map, hlinked'.len]

/-- The end of a pop and of a removal by value. -/
theorem shorten_focuses {α : Type} (hm : Means mc ht db) {p : Nat} {item : HashTableItem Value}
    (hold : Holds ht key p item) {ls' : CList} (hrep : ls'.Represents l) (res : α)
    (hlands : drop_lands mc ht key p item (.list ls') (ls'.len = 0)) :
    Ensures AnyFault
      (if ls'.len = 0 then do
          return (← Prod.fst <$> htable_del mc (item.set_value ht p (.list ls')) key, res)
        else return (item.set_value ht p (.list ls'), res) : Exec (HashTable × α))
      (fun r => SameBut key ht r.1 ∧ KeyMeans r.1 key (Datum.ofValues l) ∧ r.2 = res) := by
  have hlen := hrep.len
  have hzero : ls'.len = 0 ↔ l = [] := by
    rw [hlen, Nat.cast_eq_zero, List.length_eq_zero_iff]
  refine drop_empty_focuses hm.ok.table hold res (fun he => if_pos (hzero.mp he)) (fun he => ?_) hlands
  have hne := fun hnil => he (hzero.mpr hnil)
  exact ⟨_, ofValues_of_ne hne, hrep, hne⟩

theorem htable_pop_means (hm : Means mc ht db) (htyped : TypedAt ht key .LIST_T)
    (hlands : pop_lands mc ht dir key) :
    Ensures (IndexFault mc) (htable_pop mc ht key dir) (fun r =>
      (Means mc r.1 (Keyspace.pop dir key db).2 ∧ r.2 = (Keyspace.pop dir key db).1) ∧
        TypedAt r.1 key .LIST_T) := by
  refine hm.write (htable_pop_storeOk hm.ok htyped dir) (search_focuses hm.ok htyped ?_ ?_)
  · intro _ habsent
    have hnone : dir.take [] = none := by cases dir <;> rfl
    refine ⟨sameBut_self, ?_, ?_⟩
    · simp only [hm.absent habsent, Datum.values, hnone]
      exact habsent
    · simp only [hm.absent habsent, Datum.values, hnone]
  · intro p item hfound hold hitem htype
    obtain ⟨ls, run, hvalue, hlinked, hne, hvalues⟩ := hm.list_item hold hitem htype
    obtain ⟨value, ls', run', hpop, hlinked', hpopped⟩ := list_pop_spec hlinked hne dir
    have hput : Datum.values (db key) = dir.put value (run'.map Prod.snd) := hvalues.symm.trans hpopped
    rw [pop_lands, shorten_lands, hfound] at hlands
    simp only [hvalue, hpop] at hlands
    simp only [hvalue, Value.asList, ok_bind, hpop]
    refine (shorten_focuses hm hold ⟨run', hlinked', rfl⟩ (some value) hlands).mono ?_
    rintro r ⟨hsame, hkey, hres⟩
    refine ⟨hsame, ?_, ?_⟩
    · simp only [hput, take_put]
      exact hkey
    · simp only [hput, take_put]
      exact hres

theorem htable_lrem_means (hm : Means mc ht db) (htyped : TypedAt ht key .LIST_T) {count : Int}
    (hlands : lrem_lands mc ht key count value) :
    Ensures (IndexFault mc) (htable_lrem mc ht key count value) (fun r =>
      (Means mc r.1 (Keyspace.lrem key count value db).2 ∧ r.2 = (Keyspace.lrem key count value db).1) ∧
        TypedAt r.1 key .LIST_T) := by
  refine hm.write (htable_lrem_storeOk hm.ok htyped count value) (search_focuses hm.ok htyped ?_ ?_)
  · intro _ habsent
    refine ⟨sameBut_self, ?_, ?_⟩
    · simp only [hm.absent habsent, Datum.values, kept_nil]
      exact habsent
    · simp only [hm.absent habsent, Datum.values, deleted_nil]
      rfl
  · intro p item hfound hold hitem htype
    obtain ⟨ls, run, hvalue, hlinked, hne, hvalues⟩ := hm.list_item hold hitem htype
    obtain ⟨ls', hrem, hrep⟩ := list_rem_kept hlinked count value
    rw [lrem_lands, shorten_lands, hfound] at hlands
    simp only [hvalue, hrem] at hlands
    simp only [hvalue, Value.asList, ok_bind, hrem]
    rw [hvalues] at hrep ⊢
    exact shorten_focuses hm hold hrep _ hlands

theorem htable_lset_means (hm : Means mc ht db) (htyped : TypedAt ht key .LIST_T) (i : Int) :
    Ensures (IndexFault mc) (htable_lset mc ht key i value) (fun r =>
      (Means mc r.1 (Keyspace.lset key i value db).2 ∧ r.2 = (Keyspace.lset key i value db).1) ∧
        TypedAt r.1 key .LIST_T) := by
  refine hm.write (htable_lset_storeOk hm.ok htyped i value) (search_focuses hm.ok htyped ?_ ?_)
  · intro _ habsent
    refine ⟨sameBut_self, ?_, ?_⟩
    · simp only [hm.absent habsent, Datum.values, List.set_nil]
      exact habsent
    · simp only [hm.absent habsent, Datum.values]
      rfl
  · intro p item hfound hold hitem htype
    obtain ⟨ls, run, hvalue, hlinked, hne, hvalues⟩ := hm.list_item hold hitem htype
    obtain ⟨ls', hset, run', hlinked', hchanged⟩ := list_set_spec hlinked i value
    rw [hvalues] at hchanged
    have hlist : (Datum.values (db key)).set i.toNat value ≠ [] := by
      rw [ne_eq, ← List.length_eq_zero_iff, List.length_set, ← hvalues, List.length_map,
        List.length_eq_zero_iff]
      exact hne
    simp only [hvalue, Value.asList, ok_bind, hset]
    have hnew : (Value.list ls').Means (.list ((Datum.values (db key)).set i.toNat value)) :=
      ⟨⟨run', hlinked', hchanged⟩, hlist⟩
    obtain ⟨hsame, hkey⟩ := set_value_focuses hm.ok.table hold hnew
    refine ⟨hsame, ?_, ?_⟩
    · simp only
      rwa [ofValues_of_ne hlist]
    · simp only
      rw [← hvalues, List.length_map]

end List

section Set

variable {member : CStr} {s : Finset CStr}

theorem ofMembers_of_ne (hne : s ≠ ∅) : Datum.ofMembers s = some (.set s) := if_neg hne

/-- The set that a typed item holds. -/
theorem Means.set_item (hm : Means mc ht db) {p : Nat} {item : HashTableItem Value}
    (hold : Holds ht key p item) (hitem : ItemOk mc item) (htype : item.type = .SET_T) :
    ∃ st, item.value = .set st ∧ SetOk mc st ∧ SetMeans st (Datum.members (db key)) := by
  obtain ⟨st, hvalue, ops, hrun⟩ := hitem.set htype
  obtain ⟨s, hd, hmeans, _⟩ := hm.set_at (hold.stored hvalue)
  rw [hd]
  exact ⟨st, hvalue, set_run_setOk hrun, hmeans⟩

theorem htable_sadd_means (hm : Means mc ht db) (htyped : TypedAt ht key .SET_T)
    (hlands : sadd_lands mc ht key member) :
    Ensures (IndexFault mc) (htable_sadd mc ht key member) (fun r =>
      (Means mc r.1 (Keyspace.sadd key member db).2 ∧ r.2 = (Keyspace.sadd key member db).1) ∧
        TypedAt r.1 key .SET_T) := by
  refine hm.write (htable_sadd_storeOk hm.ok htyped member) (exists_focuses hm.ok htyped ?_ ?_)
  · intro hfound habsent
    have hfresh : set_lands mc (set_init HT_BASE_SIZE) (.add member) :=
      fresh_lands mc (fun _ => Function.injective_id) member
    have hmeets : meets_no_tombstone mc (set_init HT_BASE_SIZE) (.add member) := by
      rw [meets_no_tombstone, show set_members (set_init HT_BASE_SIZE) = [] from Table.items_empty _]
      rfl
    refine (set_add_setMeans (set_init_ok mc (fun _ => by decide)) set_init_setMeans hfresh
      hmeets).anyFault.bind_eq ?_
    rintro ⟨st, done⟩ hadd ⟨hmeans, _⟩
    rw [sadd_lands, hfound, hadd] at hlands
    have hnew : (Value.set st).Means (.set (insert member ∅)) := ⟨hmeans, Finset.insert_ne_empty _ _⟩
    refine (create_focuses hm.ok.table habsent hnew hlands).bind ?_
    rintro ht' ⟨hsame, hkey⟩
    refine ⟨hsame, ?_, ?_⟩
    · simp only [hm.absent habsent, Datum.members]
      rwa [ofMembers_of_ne (Finset.insert_ne_empty _ _)]
    · simp only [hm.absent habsent, Datum.members]
      exact (decide_eq_true (Finset.notMem_empty member)).symm
  · intro p item hfound hold hitem htype
    obtain ⟨st, hvalue, hset, hmeans⟩ := hm.set_item hold hitem htype
    rw [sadd_lands, hfound] at hlands
    simp only [hvalue, Bool.and_eq_true] at hlands
    simp only [hvalue, Value.asSet, ok_bind]
    refine (set_add_setMeans hset hmeans hlands.1 hlands.2).anyFault.bind ?_
    rintro ⟨st', done⟩ ⟨hmeans', hdone⟩
    have hnew : (Value.set st').Means (.set (insert member (Datum.members (db key)))) :=
      ⟨hmeans', Finset.insert_ne_empty _ _⟩
    obtain ⟨hsame, hkey⟩ := set_value_focuses hm.ok.table hold hnew
    refine ⟨hsame, ?_, hdone⟩
    simp only
    rwa [ofMembers_of_ne (Finset.insert_ne_empty _ _)]

theorem htable_srem_means (hm : Means mc ht db) (htyped : TypedAt ht key .SET_T)
    (hlands : srem_lands mc ht key member) :
    Ensures (IndexFault mc) (htable_srem mc ht key member) (fun r =>
      (Means mc r.1 (Keyspace.srem key member db).2 ∧ r.2 = (Keyspace.srem key member db).1) ∧
        TypedAt r.1 key .SET_T) := by
  refine hm.write (htable_srem_storeOk hm.ok htyped member) (search_focuses hm.ok htyped ?_ ?_)
  · intro _ habsent
    refine ⟨sameBut_self, ?_, ?_⟩
    · simp only [hm.absent habsent, Datum.members, Finset.erase_empty]
      exact habsent
    · simp only [hm.absent habsent, Datum.members]
      exact (decide_eq_false (Finset.notMem_empty member)).symm
  · intro p item hfound hold hitem htype
    obtain ⟨st, hvalue, hset, hmeans⟩ := hm.set_item hold hitem htype
    rw [srem_lands, hfound] at hlands
    simp only [hvalue, Bool.and_eq_true] at hlands
    simp only [hvalue, Value.asSet, ok_bind]
    refine (set_rem_setMeans hset hmeans hlands.1).anyFault.bind_eq ?_
    rintro ⟨st', done⟩ hrem ⟨hmeans', hdone⟩
    have hdrop := hlands.2
    rw [hrem] at hdrop
    have hzero := hmeans'.used_eq_zero
    refine (drop_empty_focuses hm.ok.table hold done (fun he => if_pos (hzero.mp he)) (fun he => ?_)
      hdrop).mono (fun r hr => ⟨hr.1, hr.2.1, hr.2.2.trans hdone⟩)
    have hne := fun hnil => he (hzero.mpr hnil)
    exact ⟨_, ofMembers_of_ne hne, hmeans', hne⟩

end Set

end hyperkv
