import Mathlib.Data.List.Nodup
import Mathlib.Data.List.Perm.Subperm
import HyperKV.List

open DoublyLinked

namespace hyperkv

namespace CList

/-- The nodes of the list are those of `run`, each linked to its neighbours, and
    the three fields of the C struct agree with them. -/
structure Linked (ls : CList) (run : List (Nat × CStr)) : Prop where
  segment : Segment ls.nodes none run none
  nodup : (run.map Prod.fst).Nodup
  head : ls.head = first run none
  tail : ls.tail = last run none
  len : ls.len = run.length

/-- The list stands for a sequence of strings. -/
def Represents (ls : CList) (values : List CStr) : Prop := ∃ run, ls.Linked run ∧ run.map Prod.snd = values

theorem node_ok {l : CList} {a : Nat} {nd : ListNode} (h : l.nodes[a]? = some (some nd)) :
    l.node (some a) = .ok nd := by
  simp only [node, h]

theorem modify_ok {l : CList} {a : Nat} {nd : ListNode} (h : l.nodes[a]? = some (some nd))
    (f : ListNode → ListNode) :
    l.modify (some a) f = .ok { l with nodes := l.nodes.set a (some (f nd)) } := by
  simp only [modify, node_ok h]
  rfl

end CList

open CList

theorem list_init_linked : list_init.Linked [] :=
  ⟨trivial, List.nodup_nil, rfl, rfl, rfl⟩

variable {ls : CList} {run : List (Nat × CStr)}

/-- A fresh address is not in the run. -/
theorem CList.Linked.fresh (h : ls.Linked run) : ls.nodes.length ∉ run.map Prod.fst := by
  intro hmem
  obtain ⟨node, hnode, heq⟩ := List.mem_map.mp hmem
  have := h.segment.lt_length hnode
  omega

theorem CList.Linked.length_le (h : ls.Linked run) : run.length ≤ ls.nodes.length := by
  have hsub : run.map Prod.fst ⊆ List.range ls.nodes.length := by
    intro a ha
    obtain ⟨node, hnode, rfl⟩ := List.mem_map.mp ha
    exact List.mem_range.mpr (h.segment.lt_length hnode)
  have hle := (h.nodup.subperm hsub).length_le
  simpa only [List.length_map, List.length_range] using hle

/-- The first node of a non-empty list, and the segment behind it. -/
theorem CList.Linked.head_node {node : Nat × CStr} (h : ls.Linked (node :: run)) :
    ls.nodes[node.1]? = some (some ⟨node.2, first run none, none⟩) := h.segment.1

/-- The last node of a non-empty list. -/
theorem CList.Linked.last_node {node : Nat × CStr} (h : ls.Linked (run ++ [node])) :
    ls.nodes[node.1]? = some (some ⟨node.2, none, last run none⟩) :=
  (segment_append.mp h.segment).2.1

theorem list_lpush_spec (h : ls.Linked run) (value : CStr) :
    ∃ ls', list_lpush ls value = .ok ls' ∧ ls'.Linked ((ls.nodes.length, value) :: run) := by
  have hfresh := h.fresh
  cases run with
  | nil =>
    have hlen : ¬ ls.len > 0 := by simp [h.len]
    refine ⟨{ ls.alloc ⟨value, none, none⟩ with
      head := some ls.nodes.length, tail := some ls.nodes.length, len := ls.len + 1 }, if_neg hlen, ?_⟩
    exact ⟨⟨List.getElem?_concat_length, trivial⟩, by simp, rfl, rfl, by simp [h.len]⟩
  | cons node run =>
    have hlen : ls.len > 0 := by rw [h.len, List.length_cons]; omega
    have hhead : ls.head = some node.1 := h.head
    have hnew : ls.nodes.length ≠ node.1 := fun heq => hfresh (by simp [heq])
    have hseg := h.segment.concat (some ⟨value, some node.1, none⟩)
    have hnotin : node.1 ∉ run.map Prod.fst := (List.nodup_cons.mp h.nodup).1
    refine ⟨{ ls with
      nodes := (ls.alloc ⟨value, some node.1, none⟩).nodes.set node.1
        (some ⟨node.2, first run none, some ls.nodes.length⟩),
      head := some ls.nodes.length, len := ls.len + 1 }, ?_, ?_⟩
    · have hmodify := modify_ok (l := ls.alloc ⟨value, some node.1, none⟩) hseg.1
        (fun nd => { nd with prev := some ls.nodes.length })
      simp only [list_lpush, if_pos hlen, hhead, hmodify]
      rfl
    · refine ⟨⟨?_, hseg.relink_first hnotin _⟩, List.nodup_cons.mpr ⟨hfresh, h.nodup⟩, rfl, h.tail, ?_⟩
      · rw [List.getElem?_set_ne hnew.symm]
        exact List.getElem?_concat_length
      · simp [h.len]

theorem list_rpush_spec (h : ls.Linked run) (value : CStr) :
    ∃ ls', list_rpush ls value = .ok ls' ∧ ls'.Linked (run ++ [(ls.nodes.length, value)]) := by
  have hfresh := h.fresh
  rcases List.eq_nil_or_concat run with rfl | ⟨run, node, rfl⟩
  · have hlen : ¬ ls.len > 0 := by simp [h.len]
    refine ⟨{ ls.alloc ⟨value, none, none⟩ with
      tail := some ls.nodes.length, head := some ls.nodes.length, len := ls.len + 1 }, if_neg hlen, ?_⟩
    exact ⟨⟨List.getElem?_concat_length, trivial⟩, by simp, rfl, rfl, by simp [h.len]⟩
  · rw [List.concat_eq_append] at h hfresh ⊢
    have hlen : ls.len > 0 := by rw [h.len, List.length_append, List.length_singleton]; omega
    have htail : ls.tail = some node.1 := by rw [h.tail, last_concat]
    have hnew : ls.nodes.length ≠ node.1 := fun heq => hfresh (by simp [heq])
    have hseg := h.segment.concat (some ⟨value, none, some node.1⟩)
    have hnotin : node.1 ∉ run.map Prod.fst := (nodup_around h.nodup).1
    refine ⟨{ ls with
      nodes := (ls.alloc ⟨value, none, some node.1⟩).nodes.set node.1
        (some ⟨node.2, some ls.nodes.length, last run none⟩),
      tail := some ls.nodes.length, len := ls.len + 1 }, ?_, ?_⟩
    · have hmodify := modify_ok (l := ls.alloc ⟨value, none, some node.1⟩) (segment_append.mp hseg).2.1
        (fun nd => { nd with next := some ls.nodes.length })
      simp only [list_rpush, if_pos hlen, htail, hmodify]
      rfl
    · refine ⟨segment_append.mpr ⟨hseg.relink_last hnotin _, ?_, trivial⟩, ?_, ?_, ?_, ?_⟩
      · rw [List.getElem?_set_ne hnew.symm, last_concat]
        exact List.getElem?_concat_length
      · rw [List.map_append, List.nodup_append_comm]
        exact List.nodup_cons.mpr ⟨hfresh, h.nodup⟩
      · rw [first_append]
        exact h.head.trans (by rw [first_append]; cases run <;> rfl)
      · rw [last_concat]
      · have hlen' := h.len
        simp only [List.length_append, List.length_cons, List.length_nil] at hlen' ⊢
        omega

end hyperkv
