import HyperKV.List.Linked

open Outcome DoublyLinked

namespace hyperkv

open CList

variable {ls : CList} {run : List (Nat × CStr)}

/-- The shared end of both pops: the node is detached and handed out. -/
private theorem detach_ok {l : CList} {a : Nat} {n : ListNode} (h : l.nodes[a]? = some (some n)) :
    (do let l ← l.modify (some a) (fun nd => { nd with next := none, prev := none })
        return (some (← l.node (some a)), l) : Exec (Option ListNode × CList)) =
      .ok (some ⟨n.value, none, none⟩, { l with nodes := l.nodes.set a (some ⟨n.value, none, none⟩) }) := by
  have hnode := node_ok (l := { l with nodes := l.nodes.set a (some ⟨n.value, none, none⟩) })
    (List.getElem?_set_self (List.getElem?_eq_some_iff.mp h).1)
  rw [modify_ok h]
  exact congrArg (fun r : Exec ListNode => r >>= fun nd =>
    Except.ok (some nd, ({ l with nodes := l.nodes.set a (some ⟨n.value, none, none⟩) } : CList))) hnode

theorem list_lpop_empty (h : ls.Linked []) : list_lpop ls = .ok (none, ls) := by
  have hlen : ls.len ≤ 0 := by simp [h.len]
  exact if_pos hlen

theorem list_rpop_empty (h : ls.Linked []) : list_rpop ls = .ok (none, ls) := by
  have hlen : ls.len ≤ 0 := by simp [h.len]
  exact if_pos hlen

theorem list_lpop_spec {node : Nat × CStr} (h : ls.Linked (node :: run)) :
    ∃ ls', list_lpop ls = .ok (some ⟨node.2, none, none⟩, ls') ∧ ls'.Linked run := by
  have hlength := h.len
  rw [List.length_cons] at hlength
  have hlen : ¬ ls.len ≤ 0 := by omega
  have hhead : ls.head = some node.1 := h.head
  obtain ⟨hnotin, hnodup⟩ := List.nodup_cons.mp h.nodup
  cases run with
  | nil =>
    have hone : ¬ ls.len - 1 > 0 := by simp [hlength]
    refine ⟨{ ls with
      nodes := ls.nodes.set node.1 (some ⟨node.2, none, none⟩), head := none, tail := none,
      len := ls.len - 1 }, ?_, trivial, List.nodup_nil, rfl, rfl, by simp [hlength]⟩
    rw [list_lpop, if_neg hlen, hhead, if_neg hone]
    exact detach_ok (l := { ls with head := none, tail := none, len := ls.len - 1 }) h.head_node
  | cons second run =>
    have hmany : ls.len - 1 > 0 := by rw [hlength, List.length_cons]; omega
    have hne : second.1 ≠ node.1 := fun heq => hnotin (by simp [heq])
    have hsecond : second.1 ∉ run.map Prod.fst := (List.nodup_cons.mp hnodup).1
    have hseg := h.segment.2
    have hnode := h.head_node
    rw [first_cons] at hnode
    refine ⟨{ ls with
      nodes := (ls.nodes.set second.1 (some ⟨second.2, first run none, none⟩)).set node.1
        (some ⟨node.2, none, none⟩),
      head := some second.1, len := ls.len - 1 }, ?_, ?_, hnodup, rfl, h.tail, ?_⟩
    · have hmodify := modify_ok (l := { ls with head := some second.1 }) hseg.1
        (fun nd => { nd with prev := none })
      simp only [list_lpop, if_neg hlen, hhead, if_pos hmany, node_ok hnode, ok_bind, hmodify]
      refine detach_ok (l := { ls with
        nodes := ls.nodes.set second.1 (some ⟨second.2, first run none, none⟩),
        head := some second.1, len := ls.len - 1 }) (n := ⟨node.2, some second.1, none⟩) ?_
      exact (List.getElem?_set_ne hne).trans hnode
    · exact (hseg.relink_first hsecond none).set_other hnotin _
    · change ls.len - 1 = _
      omega

theorem list_rpop_spec {node : Nat × CStr} (h : ls.Linked (run ++ [node])) :
    ∃ ls', list_rpop ls = .ok (some ⟨node.2, none, none⟩, ls') ∧ ls'.Linked run := by
  have hlength := h.len
  rw [List.length_append, List.length_singleton] at hlength
  have hlen : ¬ ls.len ≤ 0 := by omega
  have htail : ls.tail = some node.1 := by rw [h.tail, last_concat]
  obtain ⟨hnotin, _, hnodup⟩ := nodup_around h.nodup
  rw [List.append_nil] at hnodup
  rcases List.eq_nil_or_concat run with rfl | ⟨run, prior, rfl⟩
  · have hone : ¬ ls.len - 1 > 0 := by simp [hlength]
    refine ⟨{ ls with
      nodes := ls.nodes.set node.1 (some ⟨node.2, none, none⟩), head := none, tail := none,
      len := ls.len - 1 }, ?_, trivial, List.nodup_nil, rfl, rfl, by simp [hlength]⟩
    rw [list_rpop, if_neg hlen, htail, if_neg hone]
    exact detach_ok (l := { ls with head := none, tail := none, len := ls.len - 1 }) h.last_node
  · rw [List.concat_eq_append] at h hlength hnotin hnodup ⊢
    have hmany : ls.len - 1 > 0 := by rw [hlength, List.length_append, List.length_singleton]; omega
    have hne : prior.1 ≠ node.1 := fun heq => hnotin (by simp [heq])
    have hseg := (segment_append.mp h.segment).1
    have hlast := h.last_node
    rw [last_concat] at hlast
    refine ⟨{ ls with
      nodes := (ls.nodes.set prior.1 (some ⟨prior.2, none, last run none⟩)).set node.1
        (some ⟨node.2, none, none⟩),
      tail := some prior.1, len := ls.len - 1 }, ?_, ?_, hnodup, ?_, ?_, ?_⟩
    · have hmodify := modify_ok (l := { ls with tail := some prior.1 }) (segment_append.mp hseg).2.1
        (fun nd => { nd with next := none })
      simp only [list_rpop, if_neg hlen, htail, if_pos hmany, node_ok hlast, ok_bind, hmodify]
      refine detach_ok (l := { ls with
        nodes := ls.nodes.set prior.1 (some ⟨prior.2, none, last run none⟩),
        tail := some prior.1, len := ls.len - 1 }) (n := ⟨node.2, none, some prior.1⟩) ?_
      exact (List.getElem?_set_ne hne).trans hlast
    · exact (hseg.relink_last (nodup_around hnodup).1 none).set_other hnotin _
    · refine h.head.trans ?_
      rw [first_append]
      cases run <;> rfl
    · rw [last_concat]
    · change ls.len - 1 = _
      omega

end hyperkv
