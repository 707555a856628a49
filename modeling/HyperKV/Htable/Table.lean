import HyperKV.OpenAddressing.Counted
import HyperKV.OpenAddressing.Distinct
import HyperKV.Htable

open Outcome OpenAddressing

namespace hyperkv

variable {mc : Machine} {ht : HashTable}

theorem htable_lawful (mc : Machine) : (htable_scheme mc).Lawful (IndexOverflow mc) (Sized mc) :=
  scheme_lawful mc (fun h => by cases h)

/-- What every reachable table satisfies: its items are found by their probes,
    no two of them share a key, and its size is one the machine can count. -/
structure TableOk (mc : Machine) (ht : HashTable) : Prop where
  findable : (htable_scheme mc).Findable ht
  distinct : (htable_scheme mc).Distinct ht
  sized : Sized mc ht.size

/-- No item has this key. -/
def Absent (ht : HashTable) (key : CStr) : Prop := ∀ item ∈ ht.items, item.key ≠ key

/-- The item in slot `p` has this key. -/
structure Holds (ht : HashTable) (key : CStr) (p : Nat) (item : HashTableItem Value) : Prop where
  slot : ht.slots[p]? = some (.live item)
  key_eq : item.key = key

theorem Holds.mem {key : CStr} {p : Nat} {item : HashTableItem Value} (h : Holds ht key p item) :
    item ∈ ht.items := Table.mem_items.mpr ⟨p, h.slot⟩

theorem htable_init_items (size : Int) : (htable_init size).items = [] := Table.items_empty _

theorem htable_init_ok (mc : Machine) {size : Int} (hsize : mc.load = .int32 → size ≤ 2147483647) :
    TableOk mc (htable_init size) := by
  refine ⟨Scheme.findable_empty _, Scheme.distinct_empty _, ?_⟩
  rw [htable_init, Table.empty_size]
  exact init_size_sized mc hsize

/-- The item with a key is the only one. -/
theorem Holds.unique {key : CStr} {p : Nat} {item other : HashTableItem Value} (h : Holds ht key p item)
    (hok : TableOk mc ht) (hmem : other ∈ ht.items) (hkey : other.key = key) : other = item :=
  eq_of_key_eq hok.distinct hmem h.mem (hkey.trans h.key_eq.symm)

/-- The one fault of a search: a probe index that overflowed, for a key that is not
    there. -/
def Missed (mc : Machine) (ht : HashTable) (key : CStr) (e : Fault) : Prop :=
  IndexFault mc e ∧ Absent ht key

theorem Missed.indexFault {key : CStr} {e : Fault} (h : Missed mc ht key e) : IndexFault mc e := h.1

theorem ensures_of_missed {α : Type} {key : CStr} {x : Exec α} {P : α → Prop}
    (h : Ensures (Missed mc ht key) x P) : Ensures (IndexFault mc) x P :=
  h.tolerate (fun _ => Missed.indexFault)

/-- Nothing is missed where the key is there. -/
theorem returns_of_present {α : Type} {key : CStr} {x : Exec α} {P : α → Prop} (h : ¬ Absent ht key)
    (hx : Ensures (Missed mc ht key) x P) : ∃ a, x = .ok a ∧ P a :=
  hx.exists_ok (fun _ hmissed => h hmissed.2)

theorem eq_of_present {α : Type} {key : CStr} {x : Exec α} {a : α} (h : ¬ Absent ht key)
    (hx : Ensures (Missed mc ht key) x (fun r => r = a)) : x = .ok a := by
  obtain ⟨_, hreturn, rfl⟩ := returns_of_present h hx
  exact hreturn

theorem htable_search_missed (h : TableOk mc ht) (key : CStr) :
    Ensures (Missed mc ht key) (htable_search mc ht key) (fun r => match r with
      | none => Absent ht key
      | some (p, item) => Holds ht key p item) := by
  refine ensures_mapError.mpr (((Scheme.search_missed (htable_lawful mc) h.findable key).tolerate ?_).mono ?_)
  · rintro e ⟨⟨he, hoverflow⟩, habsent⟩
    exact ⟨⟨congrArg Fault.table he, hoverflow⟩, habsent⟩
  intro r hr
  cases r with
  | none => exact hr
  | some found => exact ⟨hr.1, hr.2⟩

theorem htable_search_spec (h : TableOk mc ht) (key : CStr) :
    Ensures (IndexFault mc) (htable_search mc ht key) (fun r => match r with
      | none => Absent ht key
      | some (p, item) => Holds ht key p item) :=
  ensures_of_missed (htable_search_missed h key)

theorem htable_exists_spec (h : TableOk mc ht) (key : CStr) :
    Ensures (IndexFault mc) (htable_exists mc ht key)
      (fun b => b = true ↔ ∃ item ∈ ht.items, item.key = key) := by
  refine Ensures.map ((htable_search_spec h key).mono ?_)
  intro r hr
  cases r with
  | none =>
    refine iff_of_false Bool.false_ne_true ?_
    rintro ⟨item, hmem, hkey⟩
    exact hr item hmem hkey
  | some found => exact iff_of_true rfl ⟨found.2, hr.mem, hr.key_eq⟩

/-- Inserting under an absent key. -/
theorem htable_insert_spec (h : TableOk mc ht) {key : CStr} (habsent : Absent ht key) (type : ItemType)
    (value : Value) :
    Ensures (IndexFault mc) (htable_insert mc ht type key value) (fun ht' => TableOk mc ht' ∧
      ∀ item ∈ ht'.items, item = ⟨type, key, value⟩ ∨ item ∈ ht.items) := by
  refine Ensures.map (fromTable_ensures
    ((Scheme.insert_ensures (htable_lawful mc) 0 h.findable h.sized ⟨type, key, value⟩).mono ?_))
  intro r hr
  refine ⟨⟨hr.findable, hr.distinct h.distinct habsent, hr.sized⟩, fun item hitem => ?_⟩
  exact List.mem_cons.mp (hr.subperm.subset hitem)

theorem htable_del_spec (h : TableOk mc ht) (key : CStr) :
    Ensures (IndexFault mc) (htable_del mc ht key) (fun r => TableOk mc r.1 ∧
      ∀ item ∈ r.1.items, item ∈ ht.items ∧ item.key ≠ key) := by
  refine fromTable_ensures ((Scheme.remove_ensures (htable_lawful mc) 0 h.findable h.sized key).mono ?_)
  rintro ⟨ht', found⟩ hr
  obtain ⟨hdistinct, hgone⟩ := hr.distinct h.distinct
  cases found with
  | false =>
    obtain ⟨rfl, hnone⟩ := hr
    exact ⟨h, fun item hmem => ⟨hmem, hnone item hmem⟩⟩
  | true =>
    obtain ⟨p, item, hslot, hkey, hresized⟩ := hr
    refine ⟨⟨hresized.findable, hdistinct, hresized.sized⟩, fun other hmem => ⟨?_, hgone other hmem⟩⟩
    exact ((Scheme.mem_clear h.distinct hslot).mp (hresized.subperm.subset hmem)).1

/-- Writing an item over the one with its key. -/
theorem TableOk.replace (h : TableOk mc ht) {key : CStr} {p : Nat} {item : HashTableItem Value}
    (item' : HashTableItem Value) (hold : Holds ht key p item) (hkey : item'.key = key) :
    TableOk mc (ht.write p (.live item')) ∧
      ∀ other, other ∈ (ht.write p (.live item')).items ↔
        other = item' ∨ other ∈ ht.items ∧ other.key ≠ key := by
  have hsame : item'.key = item.key := hkey.trans hold.key_eq.symm
  refine ⟨⟨h.findable.replace hold.slot hsame, h.distinct.replace hold.slot hsame, ?_⟩, fun other => ?_⟩
  · rw [Table.write_size]
    exact h.sized
  · rw [Scheme.mem_replace h.distinct hold.slot hsame]
    exact or_congr_right (and_congr_right (fun _ => not_congr (by rw [← hkey]; exact Iff.rfl)))

theorem htable_update_str_eq {key : CStr} {p : Nat} {item : HashTableItem Value}
    (h : htable_search mc ht key = .ok (some (p, item))) (value : CStr) :
    htable_update_str mc ht key value = .ok (ht.write p (.live ⟨.STR_T, key, .str value⟩)) := by
  rw [htable_update_str, h]
  rfl

/-- What `htable_set` does: it inserts under an absent key, refuses a key of
    another type, and overwrites a string. -/
theorem htable_set_cases (h : TableOk mc ht) (key value : CStr) :
    Ensures (IndexFault mc) (htable_set mc ht key value) (fun r =>
      (Absent ht key ∧ r.2 = true ∧ htable_insert mc ht .STR_T key (.str value) = .ok r.1) ∨
      (∃ p item, Holds ht key p item ∧ item.type ≠ .STR_T ∧ r = (ht, false)) ∨
      ∃ p item, Holds ht key p item ∧ item.type = .STR_T ∧
        r = (ht.write p (.live ⟨.STR_T, key, .str value⟩), true)) := by
  refine (htable_search_spec h key).bind_eq ?_
  intro r hsearch hr
  cases r with
  | none =>
    refine (htable_insert_spec h hr .STR_T (.str value)).bind_eq ?_
    intro ht' hinsert _
    exact Or.inl ⟨hr, rfl, hinsert⟩
  | some found =>
    obtain ⟨p, item⟩ := found
    simp only
    split
    · rename_i htype
      exact Or.inr (Or.inl ⟨p, item, hr, htype, rfl⟩)
    · rename_i htype
      rw [htable_update_str_eq hsearch]
      exact Or.inr (Or.inr ⟨p, item, hr, not_not.mp htype, rfl⟩)

/-- Setting a string keeps the table in order, and brings in no other item. -/
theorem htable_set_spec (h : TableOk mc ht) (key value : CStr) :
    Ensures (IndexFault mc) (htable_set mc ht key value) (fun r => TableOk mc r.1 ∧
      ∀ item ∈ r.1.items, item = ⟨.STR_T, key, .str value⟩ ∨ item ∈ ht.items) := by
  refine (htable_set_cases h key value).mono ?_
  rintro ⟨ht', done⟩ (⟨habsent, _, hinsert⟩ | ⟨p, item, _, _, heq⟩ | ⟨p, item, hold, _, heq⟩)
  · exact (htable_insert_spec h habsent .STR_T (.str value)).of_eq_ok hinsert
  · cases heq
    exact ⟨h, fun _ hmem => Or.inr hmem⟩
  · cases heq
    obtain ⟨hok, hmem⟩ := h.replace ⟨.STR_T, key, .str value⟩ hold rfl
    exact ⟨hok, fun other hin => ((hmem other).mp hin).imp_right And.left⟩

/-! ## Histories -/

/-- The operations that a nested hash sees. -/
inductive HashOp where
  | set (key value : CStr)
  | del (key : CStr)
  deriving DecidableEq, Repr

def HashOp.step (mc : Machine) (ht : HashTable) : HashOp → Exec HashTable
  | .set key value => Prod.fst <$> htable_set mc ht key value
  | .del key => Prod.fst <$> htable_del mc ht key

def htable_run (mc : Machine) (ops : List HashOp) : Exec HashTable :=
  ops.foldlM (HashOp.step mc) (htable_init HT_BASE_SIZE)

/-- A table that only `htable_set` and `htable_del` have written. -/
structure HashOk (mc : Machine) (ht : HashTable) : Prop where
  table : TableOk mc ht
  strings : ∀ item ∈ ht.items, ∃ value, item = ⟨.STR_T, item.key, .str value⟩

theorem htable_init_hashOk (mc : Machine) : HashOk mc (htable_init HT_BASE_SIZE) := by
  refine ⟨htable_init_ok mc (fun _ => by decide), fun item hmem => ?_⟩
  rw [htable_init_items] at hmem
  cases hmem

theorem htable_set_hashOk (h : HashOk mc ht) (key value : CStr) :
    Ensures (IndexFault mc) (htable_set mc ht key value) (fun r => HashOk mc r.1) := by
  refine (htable_set_spec h.table key value).mono (fun r hr => ⟨hr.1, fun item hmem => ?_⟩)
  rcases hr.2 item hmem with rfl | hold
  · exact ⟨value, rfl⟩
  · exact h.strings item hold

theorem htable_del_hashOk (h : HashOk mc ht) (key : CStr) :
    Ensures (IndexFault mc) (htable_del mc ht key) (fun r => HashOk mc r.1) :=
  (htable_del_spec h.table key).mono (fun _ hr => ⟨hr.1, fun item hmem => h.strings item (hr.2 item hmem).1⟩)

theorem hashOp_step_ok (h : HashOk mc ht) (op : HashOp) :
    Ensures (IndexFault mc) (op.step mc ht) (HashOk mc) := by
  cases op with
  | set key value => exact Ensures.map (htable_set_hashOk h key value)
  | del key => exact Ensures.map (htable_del_hashOk h key)

theorem htable_run_ok (mc : Machine) (ops : List HashOp) :
    Ensures (IndexFault mc) (htable_run mc ops) (HashOk mc) :=
  Ensures.foldlM (fun _ ht => HashOk mc ht) (fun op _ _ h => hashOp_step_ok h op) ops _
    (htable_init_hashOk mc)

end hyperkv
