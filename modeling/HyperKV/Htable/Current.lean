import HyperKV.Htable.Map

open Outcome OpenAddressing

namespace hyperkv

variable {mc : Machine} {ht ht' : HashTable} {m : StrMap} {key value : CStr}

/-- Bindings of the map may be missing from the table, but each item is one. -/
def Current (ht : HashTable) (m : StrMap) : Prop :=
  ∀ item ∈ ht.items, ∃ value, m item.key = some value ∧ item = ⟨.STR_T, item.key, .str value⟩

theorem htable_init_current (size : Int) : Current (htable_init size) (fun _ => none) := by
  intro item hitem
  rw [htable_init_items] at hitem
  cases hitem

theorem Current.set (h : Current ht m)
    (hmem : ∀ item ∈ ht'.items, item = ⟨.STR_T, key, .str value⟩ ∨ item ∈ ht.items ∧ item.key ≠ key) :
    Current ht' (m.step (.set key value)) := by
  intro item hitem
  rcases hmem item hitem with rfl | ⟨hold, hne⟩
  · exact ⟨value, if_pos rfl, rfl⟩
  · obtain ⟨old, hm, heq⟩ := h item hold
    exact ⟨old, (if_neg hne).trans hm, heq⟩

theorem Current.del (h : Current ht m) (hmem : ∀ item ∈ ht'.items, item ∈ ht.items ∧ item.key ≠ key) :
    Current ht' (m.step (.del key)) := by
  intro item hitem
  obtain ⟨hold, hne⟩ := hmem item hitem
  obtain ⟨old, hm, heq⟩ := h item hold
  exact ⟨old, (if_neg hne).trans hm, heq⟩

/-- Whether or not the insertion finds a slot, and whatever the resizes drop. -/
theorem htable_set_current (hok : TableOk mc ht) (h : Current ht m) (key value : CStr) :
    Ensures (IndexFault mc) (htable_set mc ht key value)
      (fun r => TableOk mc r.1 ∧ Current r.1 (m.step (.set key value))) := by
  refine ((htable_set_spec hok key value).and (htable_set_cases hok key value).anyFault).mono ?_
  rintro ⟨ht', done⟩ ⟨⟨hok', hmem⟩, ⟨habsent, _, _⟩ | ⟨p, item, hold, htype, _⟩ | ⟨p, item, hold, _, heq⟩⟩
  · exact ⟨hok', h.set fun item hitem => (hmem item hitem).imp id fun hin => ⟨hin, habsent item hin⟩⟩
  · obtain ⟨_, _, hstring⟩ := h item hold.mem
    rw [hstring] at htype
    exact absurd rfl htype
  · cases heq
    exact ⟨hok', h.set fun other hother =>
      ((hok.replace ⟨.STR_T, key, .str value⟩ hold rfl).2 other).mp hother⟩

theorem hashOp_step_current (hok : TableOk mc ht) (h : Current ht m) (op : HashOp) :
    Ensures (IndexFault mc) (op.step mc ht) (fun ht' => TableOk mc ht' ∧ Current ht' (m.step op)) := by
  cases op with
  | set key value => exact Ensures.map (htable_set_current hok h key value)
  | del key => exact Ensures.map ((htable_del_spec hok key).mono fun r hr => ⟨hr.1, h.del hr.2⟩)

theorem htable_run_current (mc : Machine) (ops : List HashOp) :
    Ensures (IndexFault mc) (htable_run mc ops)
      (fun ht => TableOk mc ht ∧ Current ht (ops.foldl StrMap.step (fun _ => none))) := by
  refine Ensures.simulate (fun ht m => TableOk mc ht ∧ Current ht m) StrMap.step ?_ ops _ _
    ⟨htable_init_ok mc (fun _ => by decide), htable_init_current _⟩ (meets_true ops _)
  rintro ht m op ⟨hok, hcurrent⟩ -
  exact hashOp_step_current hok hcurrent op

/-- No lookup, after any run, gives a value that was overwritten or deleted, or one
    that was given to another key: what an insertion or a resize drops is missing. -/
theorem htable_get_current (mc : Machine) (ops : List HashOp) :
    Ensures (IndexFault mc) (htable_run mc ops) (fun ht => ∀ key,
      Ensures (IndexFault mc) (htable_get mc ht key) (fun r => r = none ∨ r = last_set key ops)) := by
  refine (htable_run_current mc ops).mono ?_
  rintro ht ⟨hok, hcurrent⟩ key
  refine (htable_search_spec hok key).bind ?_
  intro r hr
  cases r with
  | none => exact .inl rfl
  | some found =>
    obtain ⟨p, item⟩ := found
    obtain ⟨value, hm, heq⟩ := hcurrent item hr.mem
    rw [hr.key_eq] at hm heq
    rw [last_set_eq]
    simp only [heq, Machine.read_str, ok_bind]
    exact .inr hm.symm

end hyperkv
