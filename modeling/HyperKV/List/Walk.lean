import HyperKV.List.Linked

open Outcome DoublyLinked

namespace hyperkv

open CList

variable {ls : CList} {run : List (Nat × CStr)} {before : Option Nat}

private theorem list_walk_spec (h : Segment ls.nodes before run none) (steps : Nat) :
    list_walk ls steps (first run none) = .ok (first (run.drop steps) none) := by
  induction steps generalizing run before with
  | zero => rfl
  | succ steps ih =>
    cases run with
    | nil => rfl
    | cons node run =>
      rw [first_cons, list_walk, node_ok h.1, ok_bind]
      exact ih h.2

theorem list_index_spec (h : ls.Linked run) (id : Int) :
    list_index ls id = .ok (first (run.drop id.toNat) none) := by
  rw [list_index, h.head]
  exact list_walk_spec h.segment _

/-- The node that a position of the sequence lives at. -/
theorem CList.Linked.node_at (h : ls.Linked run) {i : Nat} {node : Nat × CStr} (hnode : run[i]? = some node) :
    ∃ next prev, ls.node (some node.1) = .ok ⟨node.2, next, prev⟩ := by
  obtain ⟨front, back, rfl, _⟩ := List.append_of_mem (List.mem_of_getElem? hnode)
  exact ⟨_, _, node_ok (segment_append.mp h.segment).2.1⟩

/-- Writing a value leaves every link as it is. -/
theorem CList.Linked.modify_value {front back : List (Nat × CStr)} {node : Nat × CStr}
    (h : ls.Linked (front ++ node :: back)) (value : CStr) :
    ∃ ls', ls.modify (some node.1) (fun nd => { nd with value := value }) = .ok ls' ∧
      ls'.Linked (front ++ (node.1, value) :: back) := by
  obtain ⟨hfront, hnode, hback⟩ := segment_append.mp h.segment
  obtain ⟨hnotfront, hnotback, _⟩ := nodup_around h.nodup
  refine ⟨_, modify_ok hnode _, segment_append.mpr ⟨?_, ?_, ?_⟩, ?_, ?_, ?_, ?_⟩
  · exact hfront.set_other hnotfront _
  · exact List.getElem?_set_self (List.getElem?_eq_some_iff.mp hnode).1
  · exact hback.set_other hnotback _
  · simpa only [List.map_append, List.map_cons] using h.nodup
  · rw [first_append]
    exact h.head.trans (first_append _ _ _)
  · rw [last_append]
    exact h.tail.trans (last_append _ _ _)
  · simpa only [List.length_append, List.length_cons] using h.len

/-- A position inside the sequence is replaced; past its end nothing happens. -/
theorem list_set_spec (h : ls.Linked run) (id : Int) (value : CStr) :
    ∃ ls', list_set ls id value = .ok (decide (id.toNat < run.length), ls') ∧
      ∃ run', ls'.Linked run' ∧ run'.map Prod.snd = (run.map Prod.snd).set id.toNat value := by
  rw [list_set, h.head, list_walk_spec h.segment, ok_bind]
  rcases Nat.lt_or_ge id.toNat run.length with hlt | hge
  · have hsplit := List.take_append_drop id.toNat run
    rw [List.drop_eq_getElem_cons hlt] at hsplit ⊢
    rw [← hsplit] at h
    obtain ⟨ls', hmodify, hlinked⟩ := h.modify_value value
    refine ⟨ls', ?_, _, hlinked, ?_⟩
    · simp only [first_cons, hmodify, ok_bind, hlt, decide_true]
      rfl
    · rw [List.set_eq_take_append_cons_drop, if_pos (by rwa [List.length_map]), List.map_append,
        List.map_cons,
        List.map_take, List.map_drop]
  · refine ⟨ls, ?_, run, h, ?_⟩
    · simp only [List.drop_eq_nil_of_le hge, first_nil, Nat.not_lt.mpr hge, decide_false]
      rfl
    · rw [List.set_eq_of_length_le (by rwa [List.length_map])]

private theorem list_pos_loop_spec (h : Segment ls.nodes before run none) (value : CStr) (steps : Nat)
    (hsteps : run.length ≤ steps) (i : Int) :
    list_pos_loop ls value steps i (first run none) =
      .ok (if value ∈ run.map Prod.snd then i + (run.map Prod.snd).idxOf value else -1) := by
  induction run generalizing before steps i with
  | nil =>
    cases steps <;> rfl
  | cons node run ih =>
    obtain ⟨steps, rfl⟩ := Nat.exists_eq_add_of_lt (Nat.lt_of_lt_of_le (Nat.succ_pos _) hsteps)
    rw [Nat.zero_add, first_cons, list_pos_loop, node_ok h.1, ok_bind]
    rcases eq_or_ne node.2 value with heq | hne
    · rw [if_pos heq, List.map_cons, heq, if_pos List.mem_cons_self, List.idxOf_cons_self]
      exact congrArg Except.ok (Int.add_zero i).symm
    · rw [if_neg hne]
      refine (ih h.2 steps (by rw [List.length_cons] at hsteps; omega) (i + 1)).trans ?_
      have hmem : value ∈ (node :: run).map Prod.snd ↔ value ∈ run.map Prod.snd := by
        rw [List.map_cons, List.mem_cons, or_iff_right hne.symm]
      rw [List.map_cons, List.idxOf_cons_ne _ hne]
      simp only [← List.map_cons, hmem, Nat.succ_eq_add_one, Int.natCast_add, Int.natCast_one]
      congr 2
      omega

/-- The position of the first occurrence, or `-1`. -/
theorem list_pos_spec (h : ls.Linked run) (value : CStr) :
    list_pos ls value =
      .ok (if value ∈ run.map Prod.snd then ((run.map Prod.snd).idxOf value : Int) else -1) := by
  have hloop := list_pos_loop_spec h.segment value ls.nodes.length h.length_le 0
  rw [← h.head, Int.zero_add] at hloop
  exact hloop

private theorem list_skip_spec (h : Segment ls.nodes before run none) (steps : Nat)
    (hsteps : steps ≤ run.length) :
    list_skip ls steps (first run none) = .ok (first (run.drop steps) none) := by
  induction steps generalizing run before with
  | zero => rfl
  | succ steps ih =>
    cases run with
    | nil => cases hsteps
    | cons node run =>
      rw [first_cons, list_skip, node_ok h.1, ok_bind]
      exact ih h.2 (Nat.le_of_succ_le_succ hsteps)

private theorem list_collect_spec (h : Segment ls.nodes before run none) (steps : Nat)
    (hsteps : steps ≤ run.length) :
    list_collect ls steps (first run none) = .ok ((run.map Prod.snd).take steps) := by
  induction steps generalizing run before with
  | zero => rfl
  | succ steps ih =>
    cases run with
    | nil => cases hsteps
    | cons node run =>
      rw [first_cons, list_collect, node_ok h.1, ok_bind]
      simp only [ih h.2 (Nat.le_of_succ_le_succ hsteps)]
      rfl

/-- A range inside the list; `htable_check_ids` admits no other. -/
theorem list_range_spec (h : ls.Linked run) {begin stop : Int} (hbegin : 0 ≤ begin) (hle : begin ≤ stop)
    (hstop : stop < ls.len) :
    list_range ls begin stop =
      .ok (((run.map Prod.snd).drop begin.toNat).take (stop - begin + 1).toNat) := by
  have hlen := h.len
  have hdrop : Segment ls.nodes (last (run.take begin.toNat) none) (run.drop begin.toNat) none := by
    have hsegment := h.segment
    rw [← List.take_append_drop begin.toNat run] at hsegment
    exact (segment_append.mp hsegment).2
  have hcount : (stop - begin.toNat + 1).toNat = (stop - begin + 1).toNat := by omega
  rw [list_range, h.head, list_skip_spec h.segment _ (by omega), ok_bind, hcount,
    list_collect_spec hdrop _ (by rw [List.length_drop]; omega), List.map_drop]

/-- A list stands for one sequence only. -/
theorem CList.Linked.values_eq {run' : List (Nat × CStr)} (h : ls.Linked run) (h' : ls.Linked run') :
    run.map Prod.snd = run'.map Prod.snd := by
  have hlength : run.length = run'.length := by
    have hlen := h.len
    have hlen' := h'.len
    omega
  have hcollect := list_collect_spec h.segment run.length le_rfl
  have hcollect' := list_collect_spec h'.segment run.length hlength.le
  rw [← h.head, List.take_of_length_le (by rw [List.length_map])] at hcollect
  rw [← h'.head, List.take_of_length_le (by rw [List.length_map, hlength])] at hcollect'
  exact Except.ok.inj (hcollect.symm.trans hcollect')

end hyperkv
