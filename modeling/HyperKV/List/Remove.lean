import HyperKV.List.Linked

open Outcome DoublyLinked

namespace hyperkv

open CList

/-- The sequence without the first occurrences of `value`, as many as the budget
    allows; no budget removes them all. -/
def removeUpTo (value : CStr) : Option Nat → List (Nat × CStr) → List (Nat × CStr)
  | _, [] => []
  | some 0, run => run
  | budget, node :: run =>
    if node.2 = value then removeUpTo value (budget.map (· - 1)) run
    else node :: removeUpTo value budget run

/-- The loop's `count` against the occurrences it may still remove. -/
def Budget (pos count : Int) : Option Nat → Prop
  | none => pos = 0
  | some left => (0 < pos ∧ count = left) ∨ (pos < 0 ∧ count = -left)

theorem removeUpTo_zero (value : CStr) (run : List (Nat × CStr)) : removeUpTo value (some 0) run = run := by
  cases run <;> rfl

theorem removeUpTo_cons (value : CStr) {budget : Option Nat} (hbudget : budget ≠ some 0)
    (node : Nat × CStr) (run : List (Nat × CStr)) :
    removeUpTo value budget (node :: run) =
      if node.2 = value then removeUpTo value (budget.map (· - 1)) run
      else node :: removeUpTo value budget run := by
  rcases budget with _ | (_ | left)
  · rfl
  · exact absurd rfl hbudget
  · rfl

/-- The order in which the loop meets the nodes: from the tail when `pos` is
    negative. -/
def orient {α : Type} (pos : Int) (run : List α) : List α := if pos ≥ 0 then run else run.reverse

/-- What is left of the sequence when the loop is done. -/
def remaining (count : Int) (value : CStr) (run : List (Nat × CStr)) : List (Nat × CStr) :=
  orient count (removeUpTo value (if count = 0 then none else some count.natAbs) (orient count run))

theorem Budget.spent {pos count : Int} {budget : Option Nat} (h : Budget pos count budget) :
    (pos ≠ 0 ∧ count = 0) ↔ budget = some 0 := by
  cases budget with
  | none =>
    have hpos : pos = 0 := h
    simp [hpos]
  | some left =>
    rw [Option.some.injEq]
    rcases h with ⟨hpos, rfl⟩ | ⟨hpos, rfl⟩ <;> omega

theorem Budget.spend {pos count : Int} {budget : Option Nat} (h : Budget pos count budget)
    (hgo : budget ≠ some 0) :
    Budget pos (if pos ≥ 0 then count - 1 else count + 1) (budget.map (· - 1)) := by
  cases budget with
  | none => exact h
  | some left =>
    have hleft : left ≠ 0 := fun heq => hgo (by rw [heq])
    rcases h with ⟨hpos, rfl⟩ | ⟨hpos, rfl⟩
    · rw [if_pos (by omega)]
      exact Or.inl ⟨hpos, by simp only; omega⟩
    · rw [if_neg (by omega)]
      exact Or.inr ⟨hpos, by simp only; omega⟩

variable {ls : CList} {front back : List (Nat × CStr)} {node : Nat × CStr}

/-- `node` is unlinked from between `front` and `back`; its own links, the
    length and the arena's extent are left as they are. -/
structure Unlinked (ls ls' : CList) (front : List (Nat × CStr)) (node : Nat × CStr)
    (back : List (Nat × CStr)) : Prop where
  segment : Segment ls'.nodes none (front ++ back) none
  head : ls'.head = first (front ++ back) none
  tail : ls'.tail = last (front ++ back) none
  len : ls'.len = ls.len
  size : ls'.nodes.length = ls.nodes.length
  node : ls'.nodes[node.1]? = some (some ⟨node.2, first back none, last front none⟩)

private theorem node_del_only (h : ls.Linked [node]) :
    ∃ ls', node_del ls (some node.1) = .ok ls' ∧ Unlinked ls ls' [] node [] := by
  have hhead : ls.head = some node.1 := h.head
  have hone : ls.len - 1 = 0 := by simp [h.len]
  refine ⟨{ ls with head := none, tail := none }, ?_, trivial, rfl, rfl, rfl, rfl, h.head_node⟩
  rw [node_del, if_neg (by simp [hhead]), if_pos hone]
  rfl

private theorem node_del_first {second : Nat × CStr} (h : ls.Linked (node :: second :: back)) :
    ∃ ls', node_del ls (some node.1) = .ok ls' ∧ Unlinked ls ls' [] node (second :: back) := by
  have hhead : ls.head = some node.1 := h.head
  have hlength := h.len
  rw [List.length_cons, List.length_cons] at hlength
  have hmany : ¬ ls.len - 1 = 0 := by omega
  obtain ⟨hnotin, hnodup⟩ := List.nodup_cons.mp h.nodup
  have hne : second.1 ≠ node.1 := fun heq => hnotin (by simp [heq])
  have hback := h.segment.2
  have hmodify := modify_ok (l := { ls with head := some second.1 }) hback.1
    (fun nd => { nd with prev := none })
  refine ⟨{ ls with
    nodes := ls.nodes.set second.1 (some ⟨second.2, first back none, none⟩), head := some second.1 },
    ?_, ?_, rfl, h.tail, rfl, List.length_set, (List.getElem?_set_ne hne).trans h.head_node⟩
  · simp only [node_del, hhead, if_neg hmany, node_ok h.head_node, ok_bind]
    exact hmodify
  · exact hback.relink_first (List.nodup_cons.mp hnodup).1 none

private theorem node_del_last {prior : Nat × CStr} (h : ls.Linked (front ++ [prior] ++ [node])) :
    ∃ ls', node_del ls (some node.1) = .ok ls' ∧ Unlinked ls ls' (front ++ [prior]) node [] := by
  have htail : some node.1 = ls.tail := by rw [h.tail, last_concat]
  have hhead : ls.head = first front (some prior.1) := by rw [h.head, List.append_assoc, first_append]; rfl
  have hlength := h.len
  simp only [List.length_append, List.length_singleton] at hlength
  have hmany : ¬ ls.len - 1 = 0 := by omega
  obtain ⟨hnotin, _, hnodup⟩ := nodup_around h.nodup
  rw [List.append_nil] at hnodup
  rw [List.map_append, List.mem_append, not_or] at hnotin
  have hne : prior.1 ≠ node.1 := fun heq => hnotin.2 (by simp [heq])
  have hfront := (segment_append.mp h.segment).1
  have hnothead : ¬ some node.1 = ls.head := by
    rw [hhead]
    exact (first_ne hnotin.1 (fun heq => hne (Option.some.inj heq))).symm
  have hguard : ¬ (ls.head = none ∨ some node.1 = none) := by
    rw [hhead]
    cases front <;> simp
  have hmodify := modify_ok (l := { ls with tail := some prior.1 }) (segment_append.mp hfront).2.1
    (fun nd => { nd with next := none })
  have hnode := h.last_node
  rw [last_concat] at hnode
  refine ⟨{ ls with
    nodes := ls.nodes.set prior.1 (some ⟨prior.2, none, last front none⟩), tail := some prior.1 },
    ?_, ?_, ?_, ?_, rfl, List.length_set, ?_⟩
  · rw [node_del, if_neg hguard, if_neg hmany, if_neg hnothead, if_pos htail, node_ok hnode, ok_bind]
    exact hmodify
  · rw [List.append_nil]
    exact hfront.relink_last (nodup_around hnodup).1 none
  · rw [List.append_nil, first_append]
    exact hhead
  · rw [List.append_nil, last_concat]
  · rw [last_concat]
    exact (List.getElem?_set_ne hne).trans hnode

private theorem node_del_between {prior second : Nat × CStr}
    (h : ls.Linked (front ++ [prior] ++ node :: second :: back)) :
    ∃ ls', node_del ls (some node.1) = .ok ls' ∧
      Unlinked ls ls' (front ++ [prior]) node (second :: back) := by
  have htail : ls.tail = last back (some second.1) := by rw [h.tail, last_append]; rfl
  have hhead : ls.head = first front (some prior.1) := by rw [h.head, List.append_assoc, first_append]; rfl
  have hlength := h.len
  simp only [List.length_append, List.length_cons, List.length_nil] at hlength
  have hmany : ¬ ls.len - 1 = 0 := by omega
  obtain ⟨hnotfront, hnotback, hnodup⟩ := nodup_around h.nodup
  rw [List.map_append, List.mem_append, not_or] at hnotfront
  rw [List.map_cons, List.mem_cons, not_or] at hnotback
  obtain ⟨hsecondfront, hsecondback, hfrontback⟩ := nodup_around hnodup
  rw [List.append_assoc] at hfrontback
  obtain ⟨hpriorfront, hpriorback, _⟩ := nodup_around hfrontback
  have hprior : prior.1 ≠ node.1 := fun heq => hnotfront.2 (by simp [heq])
  have hpair : prior.1 ≠ second.1 := fun heq => hsecondfront (by simp [heq])
  obtain ⟨hfront, hnode, hback⟩ := segment_append.mp h.segment
  rw [last_concat, first_cons] at hnode
  have hpriornode := (segment_append.mp hfront).2.1
  have hnothead : ¬ some node.1 = ls.head := by
    rw [hhead]
    exact (first_ne hnotfront.1 (fun heq => hprior (Option.some.inj heq))).symm
  have hnottail : ¬ some node.1 = ls.tail := by
    rw [htail]
    exact (last_ne hnotback.2 (fun heq => hnotback.1 (Option.some.inj heq).symm)).symm
  have hguard : ¬ (ls.head = none ∨ some node.1 = none) := by
    rw [hhead]
    cases front <;> simp
  -- first the predecessor skips the node, then the successor
  have hskip := modify_ok hpriornode (fun nd => { nd with next := some second.1 })
  have hsecondnode : (ls.nodes.set prior.1 (some ⟨prior.2, some second.1, last front none⟩))[second.1]? =
      some (some ⟨second.2, first back none, some node.1⟩) := (List.getElem?_set_ne hpair).trans hback.1
  have hreturn := modify_ok
    (l := { ls with nodes := ls.nodes.set prior.1 (some ⟨prior.2, some second.1, last front none⟩) })
    hsecondnode (fun nd => { nd with prev := some prior.1 })
  refine ⟨{ ls with
    nodes := (ls.nodes.set prior.1 (some ⟨prior.2, some second.1, last front none⟩)).set second.1
      (some ⟨second.2, first back none, some prior.1⟩) }, ?_, ?_, ?_, ?_, rfl, ?_, ?_⟩
  · simp only [node_del, if_neg hguard, if_neg hmany, if_neg hnothead, if_neg hnottail, node_ok hnode,
      ok_bind]
    rw [hskip, ok_bind]
    exact hreturn
  · refine segment_append.mpr ⟨?_, ?_⟩
    · exact (hfront.relink_last hpriorfront (some second.1)).set_other hsecondfront _
    · rw [last_concat]
      exact (hback.set_other (by simpa [hpair] using hpriorback) _).relink_first hsecondback (some prior.1)
  · rw [List.append_assoc, first_append]
    exact hhead
  · rw [last_append]
    exact htail
  · rw [List.length_set, List.length_set]
  · rw [last_concat, List.getElem?_set_ne (fun heq => hnotback.1 heq.symm), List.getElem?_set_ne hprior]
    exact hnode

/-- The only node, a node at an end, or one between two others. -/
theorem node_del_spec (h : ls.Linked (front ++ node :: back)) :
    ∃ ls', node_del ls (some node.1) = .ok ls' ∧ Unlinked ls ls' front node back := by
  rcases List.eq_nil_or_concat front with rfl | ⟨front, prior, rfl⟩
  · cases back with
    | nil => exact node_del_only h
    | cons second back => exact node_del_first h
  · rw [List.concat_eq_append] at h ⊢
    cases back with
    | nil => exact node_del_last h
    | cons second back => exact node_del_between h

/-- One removal of the loop: unlinked, counted and freed, the node hands over to
    its neighbour in the direction of the walk. -/
private theorem list_rem_step (h : ls.Linked (front ++ node :: back)) {pos count : Int}
    (hgo : ¬ (pos ≠ 0 ∧ count = 0)) (steps : Nat) (i : Int) :
    ∃ ls', list_rem_loop node.2 pos (steps + 1) i count ls (some node.1) =
        list_rem_loop node.2 pos steps (i + 1) (if pos ≥ 0 then count - 1 else count + 1) ls'
          (if pos ≥ 0 then first back none else last front none) ∧
      ls'.Linked (front ++ back) := by
  obtain ⟨ls', hdel, hun⟩ := node_del_spec h
  obtain ⟨hnotfront, hnotback, hnodup⟩ := nodup_around h.nodup
  have hnotin : node.1 ∉ (front ++ back).map Prod.fst := by
    rw [List.map_append, List.mem_append, not_or]
    exact ⟨hnotfront, hnotback⟩
  refine ⟨({ ls' with len := ls'.len - 1 } : CList).free node.1, ?_, ?_⟩
  · have hnode := node_ok (segment_append.mp h.segment).2.1
    have hnode' := node_ok (l := { ls' with len := ls'.len - 1 }) hun.node
    rw [list_rem_loop, if_neg hgo, hnode, ok_bind, if_pos rfl, hdel, ok_bind]
    simp only [hnode', ok_bind]
  · refine ⟨hun.segment.set_other hnotin none, hnodup, hun.head, hun.tail, ?_⟩
    have hlen := h.len
    change ls'.len - 1 = _
    rw [hun.len, hlen]
    simp only [List.length_append, List.length_cons]
    omega

private theorem list_rem_pass (h : ls.Linked (front ++ node :: back)) {value : CStr} (hne : node.2 ≠ value)
    {pos count : Int} (hgo : ¬ (pos ≠ 0 ∧ count = 0)) (steps : Nat) (i : Int) :
    list_rem_loop value pos (steps + 1) i count ls (some node.1) =
      list_rem_loop value pos steps i count ls (if pos ≥ 0 then first back none else last front none) := by
  have hnode := node_ok (segment_append.mp h.segment).2.1
  rw [list_rem_loop, if_neg hgo, hnode, ok_bind, if_neg hne, ok_bind]

/-- The node that the loop looks at when `todo` is left. -/
private def cursor (pos : Int) (todo : List (Nat × CStr)) : Option Nat :=
  if pos ≥ 0 then first todo none else last todo.reverse none

private theorem cursor_cons (pos : Int) (node : Nat × CStr) (todo : List (Nat × CStr)) :
    cursor pos (node :: todo) = some node.1 := by
  unfold cursor
  split
  · rfl
  · rw [List.reverse_cons, last_concat]

/-- The sequence around the node that the loop looks at. -/
private theorem orient_split (pos : Int) (done : List (Nat × CStr)) (node : Nat × CStr)
    (todo : List (Nat × CStr)) :
    ∃ front back, orient pos (done ++ node :: todo) = front ++ node :: back ∧
      orient pos (done ++ todo) = front ++ back ∧
      (if pos ≥ 0 then first back none else last front none) = cursor pos todo := by
  unfold orient cursor
  rcases lt_or_ge pos 0 with hneg | hnonneg
  · refine ⟨todo.reverse, done.reverse, ?_, ?_, ?_⟩
    · rw [if_neg (by omega), List.reverse_append, List.reverse_cons, List.append_assoc]
      rfl
    · rw [if_neg (by omega), List.reverse_append]
    · rw [if_neg (by omega), if_neg (by omega)]
  · refine ⟨done, todo, ?_, ?_, ?_⟩
    · rw [if_pos hnonneg]
    · rw [if_pos hnonneg]
    · rw [if_pos hnonneg, if_pos hnonneg]

/-- The loop, by induction on the nodes it has not met yet. -/
private theorem list_rem_loop_spec (value : CStr) (pos : Int) : ∀ (todo done : List (Nat × CStr))
    (ls : CList) (budget : Option Nat) (count i : Int) (steps : Nat), todo.length ≤ steps →
    Budget pos count budget → ls.Linked (orient pos (done ++ todo)) →
    ∃ ls', list_rem_loop value pos steps i count ls (cursor pos todo) =
        .ok (i + ((todo.length : Int) - (removeUpTo value budget todo).length), ls') ∧
      ls'.Linked (orient pos (done ++ removeUpTo value budget todo)) := by
  intro todo
  induction todo with
  | nil =>
    intro done ls budget count i steps _ _ h
    have hcursor : cursor pos [] = none := by unfold cursor; split <;> rfl
    have hnil : removeUpTo value budget [] = [] := by cases budget <;> rfl
    rw [hcursor, hnil]
    refine ⟨ls, ?_, h⟩
    simp [list_rem_loop]
  | cons node todo ih =>
    intro done ls budget count i steps hsteps hbudget h
    obtain ⟨steps, rfl⟩ := Nat.exists_eq_add_of_lt (Nat.lt_of_lt_of_le (Nat.succ_pos _) hsteps)
    rw [Nat.zero_add] at hsteps ⊢
    rw [List.length_cons] at hsteps ⊢
    rw [cursor_cons]
    by_cases hspent : budget = some 0
    · subst hspent
      obtain ⟨front, back, hsplit, _⟩ := orient_split pos done node todo
      rw [hsplit] at h
      refine ⟨ls, ?_, by rwa [removeUpTo_zero, hsplit]⟩
      rw [list_rem_loop, if_pos (hbudget.spent.mpr rfl), removeUpTo_zero, List.length_cons]
      simp [pure, Except.pure]
    · have hgo : ¬ (pos ≠ 0 ∧ count = 0) := fun hstop => hspent (hbudget.spent.mp hstop)
      obtain ⟨front, back, hsplit, hrest, hnext⟩ := orient_split pos done node todo
      have h' := h
      rw [hsplit] at h'
      rw [removeUpTo_cons value hspent]
      rcases eq_or_ne node.2 value with rfl | hne
      · obtain ⟨ls', hloop, hlinked⟩ := list_rem_step h' hgo steps i
        rw [← hrest] at hlinked
        rw [hloop, hnext, if_pos rfl]
        obtain ⟨ls'', heq, hdone⟩ := ih done ls' _ _ (i + 1) steps (by omega) (hbudget.spend hspent) hlinked
        refine ⟨ls'', heq.trans ?_, hdone⟩
        congr 2
        omega
      · rw [list_rem_pass h' hne hgo, hnext, if_neg hne, List.length_cons]
        have hshift : ∀ rest, done ++ node :: rest = (done ++ [node]) ++ rest := by simp
        rw [hshift] at h ⊢
        obtain ⟨ls', heq, hdone⟩ := ih (done ++ [node]) ls budget count i steps (by omega) hbudget h
        refine ⟨ls', heq.trans ?_, hdone⟩
        congr 2
        omega

/-- The specification of `list_rem`: it removes the occurrences that its count
    asks for, answers how many, and stops. -/
theorem list_rem_spec {run : List (Nat × CStr)} (h : ls.Linked run) (count : Int) (value : CStr) :
    ∃ ls', list_rem ls count value =
        .ok ((run.length : Int) - (remaining count value run).length, ls') ∧
      ls'.Linked (remaining count value run) := by
  have horient : orient count (orient count run) = run := by
    unfold orient
    split
    · rfl
    · exact List.reverse_reverse run
  have hlength : ∀ l : List (Nat × CStr), (orient count l).length = l.length := by
    intro l
    unfold orient
    split
    · rfl
    · exact List.length_reverse
  have hbudget : Budget count count (if count = 0 then none else some count.natAbs) := by
    split
    · assumption
    · simp only [Budget]
      omega
  have hcursor : (if count ≥ 0 then ls.head else ls.tail) = cursor count (orient count run) := by
    unfold cursor orient
    split
    · exact h.head
    · rw [List.reverse_reverse]
      exact h.tail
  obtain ⟨ls', heq, hlinked⟩ :=
    list_rem_loop_spec value count (orient count run) [] ls _ count 0 ls.nodes.length
    (by rw [hlength]; exact h.length_le) hbudget (by rwa [List.nil_append, horient])
  refine ⟨ls', ?_, hlinked⟩
  rw [list_rem, hcursor, heq, hlength, remaining, hlength, Int.zero_add]

end hyperkv
