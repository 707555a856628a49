import Mathlib.Data.List.Induction
import HyperKV.List.Pop
import HyperKV.List.Remove
import HyperKV.List.Walk

open Outcome DoublyLinked

namespace hyperkv

open CList

/-! ## Removal by count -/

/-- A sequence without its first `n` occurrences of `value`. -/
def eraseFirst (value : CStr) (n : Nat) (values : List CStr) : List CStr :=
  (fun l => l.erase value)^[n] values

/-- What `LREM` is to keep: it deletes from the head, from the tail, or everywhere. -/
def kept (count : Int) (value : CStr) (values : List CStr) : List CStr :=
  if count > 0 then eraseFirst value count.natAbs values
  else if count < 0 then (eraseFirst value count.natAbs values.reverse).reverse
  else values.filter (· ≠ value)

/-- How many occurrences `LREM` is to delete. -/
def deleted (count : Int) (value : CStr) (values : List CStr) : Nat :=
  if count = 0 then values.count value else min count.natAbs (values.count value)

example : kept (-1) (cstr "a") [cstr "a", cstr "b", cstr "a", cstr "c"] = [cstr "a", cstr "b", cstr "c"] := by
  decide

theorem eraseFirst_nil (value : CStr) (n : Nat) : eraseFirst value n [] = [] :=
  Function.iterate_fixed rfl n

theorem eraseFirst_cons_self (value : CStr) (n : Nat) (values : List CStr) :
    eraseFirst value (n + 1) (value :: values) = eraseFirst value n values := by
  unfold eraseFirst
  rw [Function.iterate_succ_apply, List.erase_cons_head]

theorem eraseFirst_cons_ne {value other : CStr} (hne : other ≠ value) (n : Nat) (values : List CStr) :
    eraseFirst value n (other :: values) = other :: eraseFirst value n values := by
  induction n generalizing values with
  | zero => rfl
  | succ n ih =>
    have hhead : (other :: values).erase value = other :: values.erase value :=
      List.erase_cons_tail (by simpa using hne)
    have hfirst := ih (values.erase value)
    unfold eraseFirst at hfirst ⊢
    rw [Function.iterate_succ_apply, Function.iterate_succ_apply, hhead]
    exact hfirst

theorem removeUpTo_some_values (value : CStr) (n : Nat) (run : List (Nat × CStr)) :
    (removeUpTo value (some n) run).map Prod.snd = eraseFirst value n (run.map Prod.snd) := by
  induction run generalizing n with
  | nil =>
    rw [List.map_nil, eraseFirst_nil]
    cases n <;> rfl
  | cons node run ih =>
    cases n with
    | zero => rfl
    | succ n =>
      rw [List.map_cons]
      rw [removeUpTo_cons value (by simp)]
      by_cases hvalue : node.2 = value
      · rw [if_pos hvalue, hvalue, eraseFirst_cons_self]
        exact ih n
      · rw [if_neg hvalue, eraseFirst_cons_ne hvalue, List.map_cons, ih (n + 1)]

theorem removeUpTo_none_values (value : CStr) (run : List (Nat × CStr)) :
    (removeUpTo value none run).map Prod.snd = (run.map Prod.snd).filter (· ≠ value) := by
  induction run with
  | nil => rfl
  | cons node run ih =>
    rw [removeUpTo_cons value (by simp), List.map_cons]
    by_cases hvalue : node.2 = value
    · rw [if_pos hvalue, List.filter_cons_of_neg (by simpa using hvalue)]
      exact ih
    · rw [if_neg hvalue, List.filter_cons_of_pos (by simpa using hvalue), List.map_cons, ih]

/-- The loop keeps what the command is to keep. -/
theorem remaining_values (count : Int) (value : CStr) (run : List (Nat × CStr)) :
    (remaining count value run).map Prod.snd = kept count value (run.map Prod.snd) := by
  unfold remaining orient kept
  rcases lt_trichotomy count 0 with hneg | rfl | hpos
  · rw [if_neg (by omega), if_neg (by omega), if_neg (by omega), if_neg (by omega), if_pos hneg,
      List.map_reverse, removeUpTo_some_values, List.map_reverse]
  · rw [if_neg (lt_irrefl 0), if_neg (lt_irrefl 0)]
    exact removeUpTo_none_values value run
  · rw [if_pos (by omega), if_neg (by omega), if_pos (by omega), if_pos hpos, removeUpTo_some_values]

theorem length_eraseFirst (value : CStr) (n : Nat) (values : List CStr) :
    (eraseFirst value n values).length + min n (values.count value) = values.length := by
  induction values generalizing n with
  | nil =>
    rw [eraseFirst_nil]
    simp
  | cons head values ih =>
    by_cases hvalue : head = value
    · subst hvalue
      cases n with
      | zero => simp [eraseFirst]
      | succ n =>
        have htail := ih n
        rw [eraseFirst_cons_self, List.count_cons_self, List.length_cons]
        omega
    · have htail := ih n
      rw [eraseFirst_cons_ne hvalue, List.count_cons_of_ne hvalue, List.length_cons, List.length_cons]
      omega

theorem length_kept (count : Int) (value : CStr) (values : List CStr) :
    (kept count value values).length + deleted count value values = values.length := by
  unfold kept deleted
  rcases lt_trichotomy count 0 with hneg | rfl | hpos
  · have hlength := length_eraseFirst value count.natAbs values.reverse
    rw [List.count_reverse, List.length_reverse] at hlength
    rw [if_neg (by omega), if_pos hneg, if_neg (by omega), List.length_reverse]
    exact hlength
  · rw [if_neg (by omega), if_neg (by omega), if_pos rfl]
    have hsplit := List.length_eq_length_filter_add (l := values) (fun v => decide (v ≠ value))
    have hcount : values.count value = (values.filter (fun v => !decide (v ≠ value))).length := by
      rw [List.count, List.countP_eq_length_filter]
      congr 1
      apply List.filter_congr
      intro v _
      by_cases hv : v = value <;> simp [hv]
    omega
  · have hlength := length_eraseFirst value count.natAbs values
    rw [if_pos hpos, if_neg (by omega)]
    exact hlength

variable {ls : CList} {run : List (Nat × CStr)}

/-- `list_rem` in terms of the sequence. -/
theorem list_rem_kept (h : ls.Linked run) (count : Int) (value : CStr) :
    ∃ ls', list_rem ls count value = .ok ((deleted count value (run.map Prod.snd) : Int), ls') ∧
      ∃ run', ls'.Linked run' ∧ run'.map Prod.snd = kept count value (run.map Prod.snd) := by
  obtain ⟨ls', hrem, hlinked⟩ := list_rem_spec h count value
  have hvalues := remaining_values count value run
  have hlength := length_kept count value (run.map Prod.snd)
  rw [← hvalues, List.length_map, List.length_map] at hlength
  have hanswer : (run.length : Int) - (remaining count value run).length =
      deleted count value (run.map Prod.snd) := by omega
  rw [hanswer] at hrem
  exact ⟨ls', hrem, _, hlinked, hvalues⟩

/-- `list_rem` keeps exactly the values that its count spares, answers how many
    it deleted, and takes that number off the length. It returns on every list. -/
theorem list_rem_deletes {values : List CStr} (h : ls.Represents values) (count : Int) (value : CStr) :
    ∃ ls', list_rem ls count value = .ok ((deleted count value values : Int), ls') ∧
      ls'.Represents (kept count value values) ∧ ls'.len = ls.len - deleted count value values := by
  obtain ⟨run, hlinked, rfl⟩ := h
  obtain ⟨ls', hrem, run', hlinked', hvalues⟩ := list_rem_kept hlinked count value
  have hlength := length_kept count value (run.map Prod.snd)
  rw [← hvalues, List.length_map, List.length_map] at hlength
  have hlen := hlinked.len
  have hlen' := hlinked'.len
  exact ⟨ls', hrem, ⟨run', hlinked', hvalues⟩, by omega⟩

theorem list_rem_deletes_last_two :
    ∃ ls', list_rem ⟨3, some 0, some 2,
        [some ⟨cstr "a", some 1, none⟩, some ⟨cstr "a", some 2, some 0⟩, some ⟨cstr "a", none, some 1⟩]⟩
        (-2) (cstr "a") = .ok (2, ls') ∧
      ls'.Represents [cstr "a"] ∧ ls'.len = 1 := by
  have hthree : CList.Represents ⟨3, some 0, some 2,
      [some ⟨cstr "a", some 1, none⟩, some ⟨cstr "a", some 2, some 0⟩, some ⟨cstr "a", none, some 1⟩]⟩
      [cstr "a", cstr "a", cstr "a"] :=
    ⟨[(0, cstr "a"), (1, cstr "a"), (2, cstr "a")],
      ⟨⟨rfl, rfl, rfl, trivial⟩, by decide, rfl, rfl, rfl⟩, rfl⟩
  exact list_rem_deletes hthree (-2) (cstr "a")

/-! ## Runs of the six operations -/

/-- The operations that change a list. -/
inductive ListOp where
  | lpush (value : CStr)
  | rpush (value : CStr)
  | lpop
  | rpop
  | set (id : Nat) (value : CStr)
  | rem (count : Int) (value : CStr)
  deriving DecidableEq, Repr

/-- What an operation returns. -/
inductive ListAnswer where
  | done
  | popped (value : Option CStr)
  | found (res : Bool)
  | removed (n : Int)
  deriving DecidableEq, Repr

def ListOp.step (ls : CList) : ListOp → Exec (ListAnswer × CList)
  | .lpush value => do return (.done, ← list_lpush ls value)
  | .rpush value => do return (.done, ← list_rpush ls value)
  | .lpop => do
    let (node, ls) ← list_lpop ls
    return (.popped (node.map DoublyLinked.Node.value), ls)
  | .rpop => do
    let (node, ls) ← list_rpop ls
    return (.popped (node.map DoublyLinked.Node.value), ls)
  | .set id value => do
    let (res, ls) ← list_set ls id value
    return (.found res, ls)
  | .rem count value => do
    let (n, ls) ← list_rem ls count value
    return (.removed n, ls)

/-- The same operation on the sequence that the list stands for. -/
def ListOp.apply (values : List CStr) : ListOp → ListAnswer × List CStr
  | .lpush value => (.done, value :: values)
  | .rpush value => (.done, values ++ [value])
  | .lpop => (.popped values.head?, values.tail)
  | .rpop => (.popped values.getLast?, values.dropLast)
  | .set id value => (.found (id < values.length), values.set id value)
  | .rem count value => (.removed (deleted count value values), kept count value values)

/-- The answers of a run, and the list that it leaves. -/
def list_run (ls : CList) : List ListOp → Exec (List ListAnswer × CList)
  | [] => .ok ([], ls)
  | op :: ops => do
    let (answer, ls) ← op.step ls
    let (answers, ls) ← list_run ls ops
    return (answer :: answers, ls)

def sequence_run (values : List CStr) : List ListOp → List ListAnswer × List CStr
  | [] => ([], values)
  | op :: ops =>
    let (answer, values) := op.apply values
    let (answers, values) := sequence_run values ops
    (answer :: answers, values)

/-- Visiting a node and following one of its links, `steps` times; with the
    nodes visited comes the link of the last one. -/
def CList.follow (ls : CList) (link : ListNode → Option Nat) :
    Nat → Option Nat → Exec (List (Nat × CStr) × Option Nat)
  | 0, cur => .ok ([], cur)
  | _ + 1, none => .error .nullPointer
  | steps + 1, some a => do
    let nd ← ls.node (some a)
    let (visited, cur) ← ls.follow link steps (link nd)
    return ((a, nd.value) :: visited, cur)

/-- The list as it is met by walking `len` steps from either end: the same nodes
    in both directions, each of them once, between `head` and `tail`. -/
structure CList.Walked (ls : CList) (visited : List (Nat × CStr)) : Prop where
  len : ls.len = visited.length
  nodup : (visited.map Prod.fst).Nodup
  forward : ls.follow DoublyLinked.Node.next ls.len.toNat ls.head = .ok (visited, none)
  backward : ls.follow DoublyLinked.Node.prev ls.len.toNat ls.tail = .ok (visited.reverse, none)
  head : ls.head = (visited.map Prod.fst).head?
  tail : ls.tail = (visited.map Prod.fst).getLast?
  empty : ls.head = none ∧ ls.tail = none ↔ ls.len = 0

theorem follow_next (ls : CList) {before : Option Nat} (h : Segment ls.nodes before run none) :
    ls.follow DoublyLinked.Node.next run.length (first run none) = .ok (run, none) := by
  induction run generalizing before with
  | nil => rfl
  | cons node run ih =>
    rw [List.length_cons, first_cons, CList.follow, node_ok h.1, ok_bind]
    simp only [ih h.2, ok_bind]
    rfl

theorem follow_prev (ls : CList) {after : Option Nat} (h : Segment ls.nodes none run after) :
    ls.follow DoublyLinked.Node.prev run.length (last run none) = .ok (run.reverse, none) := by
  induction run using List.reverseRecOn generalizing after with
  | nil => rfl
  | append_singleton run node ih =>
    obtain ⟨hfront, hnode, _⟩ := segment_append.mp h
    rw [List.length_append, List.length_singleton, last_concat, CList.follow, node_ok hnode, ok_bind]
    simp only [ih hfront, ok_bind, List.reverse_append, List.reverse_singleton]
    rfl

theorem first_eq_head? (run : List (Nat × CStr)) : first run none = (run.map Prod.fst).head? := by
  cases run <;> rfl

theorem last_eq_getLast? (run : List (Nat × CStr)) : last run none = (run.map Prod.fst).getLast? := by
  rcases List.eq_nil_or_concat run with rfl | ⟨front, node, rfl⟩
  · rfl
  · rw [List.concat_eq_append, last_concat, List.map_append, List.map_singleton, List.getLast?_concat]

theorem CList.Linked.walked (h : ls.Linked run) : ls.Walked run := by
  have hlen : ls.len.toNat = run.length := by
    rw [h.len]
    exact Int.toNat_natCast _
  have hforward := follow_next ls h.segment
  have hbackward := follow_prev ls h.segment
  have hempty : ls.head = none ∧ ls.tail = none ↔ ls.len = 0 := by
    rw [h.head, h.tail, h.len]
    cases run with
    | nil => exact iff_of_true ⟨rfl, rfl⟩ rfl
    | cons node run =>
      apply iff_of_false
      · intro hnull
        cases hnull.1
      · rw [List.length_cons]
        omega
  rw [← h.head, ← hlen] at hforward
  rw [← h.tail, ← hlen] at hbackward
  exact ⟨h.len, h.nodup, hforward, hbackward, h.head.trans (first_eq_head? run),
    h.tail.trans (last_eq_getLast? run), hempty⟩

/-- One operation, by cases on which it is. -/
theorem ListOp.step_linked (h : ls.Linked run) (op : ListOp) :
    ∃ ls', op.step ls = .ok ((op.apply (run.map Prod.snd)).1, ls') ∧
      ∃ run', ls'.Linked run' ∧ run'.map Prod.snd = (op.apply (run.map Prod.snd)).2 := by
  cases op with
  | lpush value =>
    obtain ⟨ls', hpush, hlinked⟩ := list_lpush_spec h value
    refine ⟨ls', ?_, _, hlinked, rfl⟩
    rw [ListOp.step, hpush]
    rfl
  | rpush value =>
    obtain ⟨ls', hpush, hlinked⟩ := list_rpush_spec h value
    refine ⟨ls', ?_, _, hlinked, List.map_append⟩
    rw [ListOp.step, hpush]
    rfl
  | lpop =>
    cases run with
    | nil =>
      refine ⟨ls, ?_, [], h, rfl⟩
      rw [ListOp.step, list_lpop_empty h]
      rfl
    | cons node run =>
      obtain ⟨ls', hpop, hlinked⟩ := list_lpop_spec h
      refine ⟨ls', ?_, run, hlinked, rfl⟩
      rw [ListOp.step, hpop]
      rfl
  | rpop =>
    rcases List.eq_nil_or_concat run with rfl | ⟨front, node, rfl⟩
    · refine ⟨ls, ?_, [], h, rfl⟩
      rw [ListOp.step, list_rpop_empty h]
      rfl
    · rw [List.concat_eq_append] at h ⊢
      obtain ⟨ls', hpop, hlinked⟩ := list_rpop_spec h
      have hvalues : (front ++ [node]).map Prod.snd = front.map Prod.snd ++ [node.2] := List.map_append
      rw [hvalues]
      refine ⟨ls', ?_, front, hlinked, List.dropLast_concat.symm⟩
      rw [ListOp.step, hpop, ListOp.apply, List.getLast?_concat]
      rfl
  | set id value =>
    obtain ⟨ls', hset, run', hlinked, hvalues⟩ := list_set_spec h id value
    refine ⟨ls', ?_, run', hlinked, hvalues⟩
    rw [ListOp.step, hset, ListOp.apply, List.length_map]
    rfl
  | rem count value =>
    obtain ⟨ls', hrem, run', hlinked, hvalues⟩ := list_rem_kept h count value
    refine ⟨ls', ?_, run', hlinked, hvalues⟩
    rw [ListOp.step, hrem]
    rfl

theorem list_run_linked (h : ls.Linked run) (ops : List ListOp) :
    ∃ ls', list_run ls ops = .ok ((sequence_run (run.map Prod.snd) ops).1, ls') ∧
      ∃ run', ls'.Linked run' ∧ run'.map Prod.snd = (sequence_run (run.map Prod.snd) ops).2 := by
  induction ops generalizing ls run with
  | nil => exact ⟨ls, rfl, run, h, rfl⟩
  | cons op ops ih =>
    obtain ⟨ls₁, hstep, run₁, hlinked₁, hvalues₁⟩ := op.step_linked h
    obtain ⟨ls₂, hrest, run₂, hlinked₂, hvalues₂⟩ := ih hlinked₁
    rw [hvalues₁] at hrest hvalues₂
    refine ⟨ls₂, ?_, run₂, hlinked₂, hvalues₂⟩
    rw [list_run, hstep, ok_bind]
    simp only [hrest, ok_bind]
    rfl

/-- Every run from an empty list answers as the sequence does, and leaves a list
    that both walks find to hold that sequence. -/
theorem list_run_refines (ops : List ListOp) :
    ∃ ls, list_run list_init ops = .ok ((sequence_run [] ops).1, ls) ∧
      ∃ visited, ls.Walked visited ∧ visited.map Prod.snd = (sequence_run [] ops).2 := by
  obtain ⟨ls, hrun, run, hlinked, hvalues⟩ := list_run_linked list_init_linked ops
  exact ⟨ls, hrun, run, hlinked.walked, hvalues⟩

end hyperkv
