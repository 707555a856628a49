import HyperKV.Htable.Map
import HyperKV.Keyspace

open Outcome OpenAddressing KeyedStore

namespace hyperkv

variable {mc : Machine} {ht ht' : HashTable} {key : CStr} {db : Keyspace}

/-! ## What the values of the code stand for -/

/-- The table holds the bindings, and its counter is exact. -/
structure HashMeans (t : HashTable) (m : Bindings) : Prop where
  refines : Refines t (fun field => m.lookup field)
  counted : Scheme.Counted t

/-- The set lists each member once, and its counter is exact. -/
structure SetMeans (st : CSet) (s : Finset CStr) : Prop where
  mem : ∀ x, x ∈ set_members st ↔ x ∈ s
  nodup : (set_members st).Nodup
  counted : Scheme.Counted st

/-- The value stands for the datum; no container is empty. -/
def Value.Means : Value → Datum → Prop
  | .str s, .string s' => s = s'
  | .hash t, .hash m => HashMeans t m ∧ m ≠ ∅
  | .list ls, .list l => ls.Represents l ∧ l ≠ []
  | .set st, .set s => SetMeans st s ∧ s ≠ ∅
  | _, _ => False

theorem Value.Means.type_eq {value : Value} {d : Datum} (h : value.Means d) : value.type = d.type := by
  cases value <;> cases d <;> first | rfl | exact h.elim

/-- What the store holds under the key stands for the datum. -/
def KeyMeans (ht : HashTable) (key : CStr) : Option Datum → Prop
  | none => Absent ht key
  | some d => ∃ value, Stored ht key value ∧ value.Means d

/-- The store stands for the key space. -/
structure Means (mc : Machine) (ht : HashTable) (db : Keyspace) : Prop where
  ok : StoreOk mc ht
  keys : ∀ key, KeyMeans ht key (db key)

theorem htable_init_means (mc : Machine) : Means mc (htable_init HT_BASE_SIZE) (fun _ => none) := by
  refine ⟨htable_init_storeOk mc (by decide), fun key item hmem => ?_⟩
  rw [htable_init_items] at hmem
  cases hmem

section Keys

variable (hm : Means mc ht db)
include hm

theorem Means.absent (habsent : Absent ht key) : db key = none := by
  have hkey := hm.keys key
  cases hd : db key with
  | none => rfl
  | some d =>
    rw [hd] at hkey
    obtain ⟨value, hstored, _⟩ := hkey
    exact absurd habsent hstored.not_absent

theorem Means.stored {value : Value} (hstored : Stored ht key value) :
    ∃ d, db key = some d ∧ value.Means d := by
  have hkey := hm.keys key
  cases hd : db key with
  | none =>
    rw [hd] at hkey
    exact absurd hkey hstored.not_absent
  | some d =>
    rw [hd] at hkey
    obtain ⟨value', hstored', hmeans⟩ := hkey
    cases hstored.unique hm.ok.table hstored'
    exact ⟨d, rfl, hmeans⟩

/-- The type check of the handlers is that of the key space. -/
theorem Means.typedAt_iff (type : ItemType) : TypedAt ht key type ↔ Datum.fits type (db key) := by
  have hkey := hm.keys key
  cases hd : db key with
  | none =>
    rw [hd] at hkey
    exact iff_of_true (Absent.typedAt hkey type) rfl
  | some d =>
    rw [hd] at hkey
    obtain ⟨value, hstored, hmeans⟩ := hkey
    have htyped := hstored.typedAt hm.ok
    obtain ⟨item, hmem, hitem, rfl⟩ := hstored
    rw [hmeans.type_eq] at htyped
    rw [Datum.fits, Option.all_some, decide_eq_true_iff]
    constructor
    · intro h
      rw [← htyped item hmem hitem, h item hmem hitem]
    · rintro rfl
      exact htyped

theorem Means.string_at {s : CStr} (hstored : Stored ht key (.str s)) : db key = some (.string s) := by
  obtain ⟨d, hd, hmeans⟩ := hm.stored hstored
  cases d with
  | string s' =>
    cases hmeans
    exact hd
  | _ => exact hmeans.elim

theorem Means.hash_at {t : HashTable} (hstored : Stored ht key (.hash t)) :
    ∃ m, db key = some (.hash m) ∧ HashMeans t m ∧ m ≠ ∅ := by
  obtain ⟨d, hd, hmeans⟩ := hm.stored hstored
  cases d with
  | hash m => exact ⟨m, hd, hmeans⟩
  | _ => exact hmeans.elim

theorem Means.list_at {l : List CStr} (hstored : StoredList ht key l) : db key = some (.list l) := by
  obtain ⟨ls, hls, hrep, _⟩ := hstored
  obtain ⟨d, hd, hmeans⟩ := hm.stored hls
  cases d with
  | list l' =>
    rw [hrep.unique hmeans.1]
    exact hd
  | _ => exact hmeans.elim

theorem Means.set_at {st : CSet} (hstored : Stored ht key (.set st)) :
    ∃ s, db key = some (.set s) ∧ SetMeans st s ∧ s ≠ ∅ := by
  obtain ⟨d, hd, hmeans⟩ := hm.stored hstored
  cases d with
  | set s => exact ⟨s, hd, hmeans⟩
  | _ => exact hmeans.elim

end Keys

/-! ## Changes at one key -/

/-- The stores hold the same under every other key. -/
def SameBut (key : CStr) (ht ht' : HashTable) : Prop :=
  ∀ k, k ≠ key → ∀ value, Stored ht' k value ↔ Stored ht k value

theorem sameBut_self : SameBut key ht ht := fun _ _ _ => Iff.rfl

theorem absent_iff : Absent ht key ↔ ∀ value, ¬ Stored ht key value := by
  constructor
  · exact fun h value hstored => hstored.not_absent h
  · exact fun h item hmem hkey => h item.value ⟨item, hmem, hkey, rfl⟩

theorem KeyMeans.same (h : SameBut key ht ht') {k : CStr} (hne : k ≠ key) {d : Option Datum}
    (hk : KeyMeans ht k d) : KeyMeans ht' k d := by
  cases d with
  | none =>
    exact absent_iff.mpr (fun value hstored => absent_iff.mp hk value ((h k hne value).mp hstored))
  | some d =>
    obtain ⟨value, hstored, hmeans⟩ := hk
    exact ⟨value, (h k hne value).mpr hstored, hmeans⟩

/-- The store under the key becomes what `f` makes of the datum, the answer is
    the one of `f`, and nothing else changes. -/
def Focuses {α : Type} (ht : HashTable) (key : CStr) (d : Option Datum)
    (f : Option Datum → α × Option Datum)
    (r : HashTable × α) : Prop :=
  SameBut key ht r.1 ∧ KeyMeans r.1 key (f d).2 ∧ r.2 = (f d).1

/-- A change at one key of the store is one of the key space. -/
theorem Means.of_focuses {α : Type} (hm : Means mc ht db) {f : Option Datum → α × Option Datum}
    {r : HashTable × α} (hok : StoreOk mc r.1) (h : Focuses ht key (db key) f r) :
    Means mc r.1 (focus key f db).2 ∧ r.2 = (focus key f db).1 := by
  refine ⟨⟨hok, fun k => ?_⟩, h.2.2⟩
  change KeyMeans r.1 k (Function.update db key (f (db key)).2 k)
  by_cases hk : k = key
  · subst hk
    rw [Function.update_self]
    exact h.2.1
  · rw [Function.update_of_ne hk]
    exact (hm.keys k).same h.1 hk

/-- Putting one item under a key. -/
theorem sameBut_put {item : HashTableItem Value} (hkey : item.key = key)
    (hmem : ∀ other, other ∈ ht'.items ↔ other = item ∨ other ∈ ht.items ∧ other.key ≠ key) :
    SameBut key ht ht' ∧ Stored ht' key item.value := by
  refine ⟨fun k hk value => ?_, item, (hmem item).mpr (Or.inl rfl), hkey, rfl⟩
  constructor
  · rintro ⟨other, hin, rfl, hvalue⟩
    rcases (hmem other).mp hin with rfl | ⟨hold, _⟩
    · exact absurd hkey hk
    · exact ⟨other, hold, rfl, hvalue⟩
  · rintro ⟨other, hin, rfl, hvalue⟩
    exact ⟨other, (hmem other).mpr (Or.inr ⟨hin, hk⟩), rfl, hvalue⟩

/-- Taking out what is under a key. -/
theorem sameBut_drop (hmem : ∀ other, other ∈ ht'.items ↔ other ∈ ht.items ∧ other.key ≠ key) :
    SameBut key ht ht' ∧ Absent ht' key := by
  refine ⟨fun k hk value => ?_, fun other hin => ((hmem other).mp hin).2⟩
  constructor
  · rintro ⟨other, hin, rfl, hvalue⟩
    exact ⟨other, ((hmem other).mp hin).1, rfl, hvalue⟩
  · rintro ⟨other, hin, rfl, hvalue⟩
    exact ⟨other, (hmem other).mpr ⟨hin, hk⟩, rfl, hvalue⟩

end hyperkv
