import HyperKV.Htable.Table

open Outcome OpenAddressing

namespace hyperkv

variable {mc : Machine} {ht : HashTable}

/-- Every insertion that the operation makes, and every one of the resizes it
    triggers, meets a slot it may take. Overwriting inserts nothing. -/
def htable_lands (mc : Machine) (ht : HashTable) : HashOp → Bool
  | .set key value =>
    ht.items.any (fun item => item.key = key) || (htable_scheme mc).lands 1 ht ⟨.STR_T, key, .str value⟩
  | .del key => (htable_scheme mc).shrinkLands (htable_scheme mc).hasSpot 1 ht key

/-- The finite map that a table of strings stands for. -/
abbrev StrMap := CStr → Option CStr

def StrMap.step (m : StrMap) : HashOp → StrMap
  | .set key value => fun k => if k = key then some value else m k
  | .del key => fun k => if k = key then none else m k

/-- The table's items are the bindings of the map. -/
def Refines (ht : HashTable) (m : StrMap) : Prop :=
  ∀ item, item ∈ ht.items ↔ ∃ value, m item.key = some value ∧ item = ⟨.STR_T, item.key, .str value⟩

theorem htable_init_refines (size : Int) : Refines (htable_init size) (fun _ => none) := by
  intro item
  rw [htable_init_items]
  simp

/-- Adding or overwriting one binding. -/
theorem Refines.set {m : StrMap} {ht' : HashTable} (h : Refines ht m) {key value : CStr}
    (hmem : ∀ item, item ∈ ht'.items ↔ item = ⟨.STR_T, key, .str value⟩ ∨ item ∈ ht.items ∧ item.key ≠ key) :
    Refines ht' (m.step (.set key value)) := by
  intro item
  simp only [hmem item, StrMap.step]
  constructor
  · rintro (rfl | ⟨hin, hne⟩)
    · exact ⟨value, if_pos rfl, rfl⟩
    · rw [if_neg hne]
      exact (h item).mp hin
  · rintro ⟨v, hv, heq⟩
    by_cases hkey : item.key = key
    · rw [if_pos hkey] at hv
      cases hv
      rw [hkey] at heq
      exact Or.inl heq
    · rw [if_neg hkey] at hv
      exact Or.inr ⟨(h item).mpr ⟨v, hv, heq⟩, hkey⟩

theorem Refines.del {m : StrMap} {ht' : HashTable} (h : Refines ht m) {key : CStr}
    (hmem : ∀ item, item ∈ ht'.items ↔ item ∈ ht.items ∧ item.key ≠ key) :
    Refines ht' (m.step (.del key)) := by
  intro item
  rw [hmem item, StrMap.step, h item]
  by_cases hkey : item.key = key
  · simp [hkey]
  · simp [hkey]

/-- An insertion that drops nothing adds exactly the new item. -/
theorem htable_insert_lands (h : TableOk mc ht) {key : CStr} (habsent : Absent ht key) {type : ItemType}
    {value : Value} (hlands : (htable_scheme mc).lands 1 ht ⟨type, key, value⟩) :
    Ensures (IndexFault mc) (htable_insert mc ht type key value) (fun ht' => TableOk mc ht' ∧
      ∀ item, item ∈ ht'.items ↔ item = ⟨type, key, value⟩ ∨ item ∈ ht.items) := by
  refine Ensures.map (fromTable_ensures
    ((Scheme.lands_ensures (htable_lawful mc) 0 h.findable h.sized hlands).mono ?_))
  rintro ⟨ht', taken⟩ ⟨hinserted, hmem⟩
  exact ⟨⟨hinserted.findable, hinserted.distinct h.distinct habsent, hinserted.sized⟩, hmem⟩

theorem htable_set_lands (h : TableOk mc ht) {key value : CStr} (hlands : htable_lands mc ht (.set key value))
    (hstring : ∀ item ∈ ht.items, item.key = key → item.type = .STR_T) :
    Ensures (IndexFault mc) (htable_set mc ht key value) (fun r => TableOk mc r.1 ∧
      ∀ item, item ∈ r.1.items ↔ item = ⟨.STR_T, key, .str value⟩ ∨ item ∈ ht.items ∧ item.key ≠ key) := by
  refine (htable_set_cases h key value).mono ?_
  rintro ⟨ht', done⟩ (⟨habsent, _, hinsert⟩ | ⟨p, item, hold, htype, _⟩ | ⟨p, item, hold, _, heq⟩)
  · have hspot : (htable_scheme mc).lands 1 ht ⟨.STR_T, key, .str value⟩ := by
      rcases Bool.or_eq_true_iff.mp hlands with hany | hspot
      · obtain ⟨item, hmem, hkey⟩ := List.any_eq_true.mp hany
        exact absurd (of_decide_eq_true hkey) (habsent item hmem)
      · exact hspot
    obtain ⟨hok, hmem⟩ := (htable_insert_lands h habsent hspot).of_eq_ok hinsert
    refine ⟨hok, fun item => (hmem item).trans (or_congr_right ?_)⟩
    exact (and_iff_left_of_imp (habsent item)).symm
  · exact absurd (hstring item hold.mem hold.key_eq) htype
  · cases heq
    exact h.replace ⟨.STR_T, key, .str value⟩ hold rfl

theorem htable_del_lands (h : TableOk mc ht) {key : CStr} (hlands : htable_lands mc ht (.del key)) :
    Ensures (IndexFault mc) (htable_del mc ht key) (fun r => TableOk mc r.1 ∧
      ∀ item, item ∈ r.1.items ↔ item ∈ ht.items ∧ item.key ≠ key) := by
  refine ((htable_del_spec h key).and (fromTable_ensures
    (Scheme.shrinkLands_ensures (htable_lawful mc) 0 h.findable h.sized hlands)).anyFault).mono ?_
  rintro ⟨ht', found⟩ ⟨⟨hok, _⟩, hr⟩
  refine ⟨hok, fun other => ?_⟩
  cases found with
  | false =>
    obtain ⟨rfl, hnone⟩ := hr
    exact (and_iff_left_of_imp (hnone other)).symm
  | true =>
    obtain ⟨p, item, hslot, rfl, hresized, hmem⟩ := hr
    exact (hmem other).trans (Scheme.mem_clear h.distinct hslot)

/-- A step that lands follows the map. -/
theorem hashOp_step_refines {m : StrMap} (hok : TableOk mc ht) (h : Refines ht m) {op : HashOp}
    (hlands : htable_lands mc ht op) :
    Ensures (IndexFault mc) (op.step mc ht) (fun ht' => TableOk mc ht' ∧ Refines ht' (m.step op)) := by
  cases op with
  | set key value =>
    have hstring : ∀ item ∈ ht.items, item.key = key → item.type = .STR_T := by
      intro item hmem _
      obtain ⟨_, _, heq⟩ := (h item).mp hmem
      rw [heq]
    exact Ensures.map ((htable_set_lands hok hlands hstring).mono (fun r hr => ⟨hr.1, h.set hr.2⟩))
  | del key => exact Ensures.map ((htable_del_lands hok hlands).mono (fun r hr => ⟨hr.1, h.del hr.2⟩))

/-- A run that lands everywhere follows the map. -/
theorem htable_run_refines (mc : Machine) (ops : List HashOp)
    (hlands : meets (HashOp.step mc) (htable_lands mc) (htable_init HT_BASE_SIZE) ops) :
    Ensures (IndexFault mc) (htable_run mc ops)
      (fun ht => TableOk mc ht ∧ Refines ht (ops.foldl StrMap.step (fun _ => none))) := by
  refine Ensures.simulate (fun ht m => TableOk mc ht ∧ Refines ht m) StrMap.step ?_ ops _ _
    ⟨htable_init_ok mc (fun _ => by decide), htable_init_refines _⟩ hlands
  rintro ht m op ⟨hok, hrefines⟩ hop
  exact hashOp_step_refines hok hrefines hop

/-- A table that stands for a map answers like it. -/
theorem htable_get_refines {m : StrMap} (hok : TableOk mc ht) (h : Refines ht m) (key : CStr) :
    Ensures (IndexFault mc) (htable_get mc ht key) (fun r => r = m key) := by
  refine (htable_search_spec hok key).bind ?_
  intro r hr
  cases r with
  | none =>
    have hnone : m key = none := by
      refine Option.eq_none_iff_forall_ne_some.mpr (fun value hm => ?_)
      exact hr ⟨.STR_T, key, .str value⟩ ((h _).mpr ⟨value, hm, rfl⟩) rfl
    exact hnone.symm
  | some found =>
    obtain ⟨p, item⟩ := found
    obtain ⟨value, hm, heq⟩ := (h item).mp hr.mem
    rw [hr.key_eq] at hm heq
    simp only [heq, Machine.read_str, ok_bind]
    exact hm.symm

/-- The value given to the last `htable_set` of `key` that comes after its last
    `htable_del`. -/
def last_set (key : CStr) (ops : List HashOp) : Option CStr :=
  ops.foldl (fun found op => match op with
    | .set k value => if key = k then some value else found
    | .del k => if key = k then none else found) none

theorem last_set_eq (key : CStr) (ops : List HashOp) :
    last_set key ops = ops.foldl StrMap.step (fun _ => none) key := by
  have hfold : ∀ (m : StrMap) (found : Option CStr), m key = found →
      ops.foldl (fun found op => match op with
        | .set k value => if key = k then some value else found
        | .del k => if key = k then none else found) found = ops.foldl StrMap.step m key := by
    induction ops with
    | nil => exact fun m found h => h.symm
    | cons op ops ih =>
      intro m found h
      subst h
      cases op <;> exact ih _ _ rfl
  exact hfold _ _ rfl

/-- The table refines a finite map in every run that lands everywhere. -/
theorem htable_run_get (mc : Machine) (ops : List HashOp)
    (hlands : meets (HashOp.step mc) (htable_lands mc) (htable_init HT_BASE_SIZE) ops) :
    Ensures (IndexFault mc) (htable_run mc ops) (fun ht => ∀ key,
      Ensures (IndexFault mc) (htable_get mc ht key) (fun r => r = last_set key ops)) := by
  refine (htable_run_refines mc ops hlands).mono ?_
  rintro ht ⟨hok, hrefines⟩ key
  refine (htable_get_refines hok hrefines key).mono (fun r hr => ?_)
  rw [hr, last_set_eq]

theorem htable_run_get_grown :
    Ensures (IndexFault machine)
      (htable_run machine [.set (cstr "a") (cstr "1"), .set (cstr "b") (cstr "2"), .del (cstr "a"),
        .set (cstr "b") (cstr "3"), .set (cstr "c") (cstr "4")])
      (fun ht => ∀ key, Ensures (IndexFault machine) (htable_get machine ht key) (fun r =>
        r = last_set key [.set (cstr "a") (cstr "1"), .set (cstr "b") (cstr "2"), .del (cstr "a"),
          .set (cstr "b") (cstr "3"), .set (cstr "c") (cstr "4")])) :=
  htable_run_get machine _ (by decide +kernel)

/-- Two slots: `sdbm` of `d` is even, so every probe of `d` looks at the slot that
    `b` took, and `d` is dropped. -/
theorem htable_run_dropped :
    ¬ Ensures (IndexFault machine)
      (htable_run machine [.set (cstr "b") (cstr "1"), .set (cstr "d") (cstr "2")])
      (fun ht => Ensures (IndexFault machine) (htable_get machine ht (cstr "d")) (fun r =>
        r = last_set (cstr "d") [.set (cstr "b") (cstr "1"), .set (cstr "d") (cstr "2")])) := by
  decide +kernel

end hyperkv
