import HyperKV.List.Sequence

open Outcome DoublyLinked

namespace hyperkv

/-- `while (ls->len--)`. Every turn frees a node, so the number of nodes ever
    allocated bounds it. -/
def list_free_loop : Nat → Int → CList → Option Nat → Exec CList
  | steps, len, ls, cur =>
    if len = 0 then .ok ls
    else
      match steps, cur with
      | _, none => .error .nullPointer
      | 0, some _ => .error .endless
      | steps + 1, some a => do
        let nd ← ls.node (some a)
        list_free_loop steps (len - 1) (ls.free a) nd.next

/-- What is left of the nodes when the list is freed. -/
def list_free (ls : CList) : Exec CList := list_free_loop ls.nodes.length ls.len ls ls.head

/-- The nodes that have not been freed. -/
def CList.allocated (ls : CList) : Nat := ls.nodes.countP Option.isSome

open CList

variable {ls : CList} {run : List (Nat × CStr)}

/-! ## What each operation allocates -/

theorem allocated_alloc (ls : CList) (nd : ListNode) : (ls.alloc nd).allocated = ls.allocated + 1 := by
  rw [allocated, alloc, List.countP_append]
  rfl

theorem allocated_set {a : Nat} {nd : ListNode} (h : ls.nodes[a]? = some (some nd))
    (x : Option ListNode) :
    (ls.nodes.set a x).countP Option.isSome + 1 = ls.allocated + (if x.isSome then 1 else 0) := by
  obtain ⟨hlt, hget⟩ := List.getElem?_eq_some_iff.mp h
  have hpos : 0 < ls.allocated := List.countP_pos_iff.mpr ⟨some nd, List.mem_of_getElem? h, rfl⟩
  have hset := List.countP_set (p := Option.isSome) (a := x) hlt
  rw [hget, if_pos Option.isSome_some] at hset
  rw [hset]
  unfold allocated at hpos ⊢
  omega

theorem allocated_free {a : Nat} {nd : ListNode} (h : ls.nodes[a]? = some (some nd)) :
    (ls.free a).allocated + 1 = ls.allocated :=
  allocated_set h none

theorem node_live (ls : CList) (p : Option Nat) :
    Ensures AnyFault (ls.node p) (fun nd => ∃ a, p = some a ∧ ls.nodes[a]? = some (some nd)) := by
  unfold node
  split
  · trivial
  next a =>
    split
    next nd hnode => exact ⟨a, rfl, hnode⟩
    next => trivial

theorem modify_allocated (ls : CList) (p : Option Nat) (f : ListNode → ListNode) :
    Ensures AnyFault (ls.modify p f) (fun ls' => ls'.allocated = ls.allocated) := by
  cases p with
  | none => trivial
  | some a =>
    refine (node_live ls (some a)).bind fun nd hnd => ?_
    obtain ⟨_, heq, hnode⟩ := hnd
    cases heq
    exact Nat.succ_inj.mp (allocated_set hnode (some (f nd)))

theorem list_lpush_allocated (ls : CList) (value : CStr) :
    Ensures AnyFault (list_lpush ls value) (fun ls' => ls'.allocated = ls.allocated + 1) := by
  unfold list_lpush
  split
  · refine (modify_allocated _ _ _).bind fun ls' hls' => ?_
    exact hls'.trans (allocated_alloc _ _)
  · exact allocated_alloc _ _

theorem list_rpush_allocated (ls : CList) (value : CStr) :
    Ensures AnyFault (list_rpush ls value) (fun ls' => ls'.allocated = ls.allocated + 1) := by
  unfold list_rpush
  split
  · refine (modify_allocated _ _ _).bind fun ls' hls' => ?_
    exact hls'.trans (allocated_alloc _ _)
  · exact allocated_alloc _ _

/-- The shared end of both pops. -/
theorem detach_allocated {l : CList} (h : l.allocated = ls.allocated) (node : Option Nat) :
    Ensures AnyFault (do
      let l ← ({ l with len := l.len - 1 } : CList).modify node
        (fun nd => { nd with next := none, prev := none })
      return (some (← l.node node), l) : Exec (Option ListNode × CList))
      (fun r => r.2.allocated = ls.allocated) :=
  (modify_allocated _ _ _).bind fun _ hls' => Ensures.bind_any fun _ => hls'.trans h

theorem list_lpop_allocated (ls : CList) :
    Ensures AnyFault (list_lpop ls) (fun r => r.2.allocated = ls.allocated) := by
  unfold list_lpop
  split
  · exact rfl
  · dsimp only
    split
    · refine Ensures.bind_any fun nd => (modify_allocated _ _ _).bind fun ls' hls' => ?_
      exact detach_allocated hls' _
    · exact detach_allocated (l := { ls with head := none, tail := none }) rfl _

theorem list_rpop_allocated (ls : CList) :
    Ensures AnyFault (list_rpop ls) (fun r => r.2.allocated = ls.allocated) := by
  unfold list_rpop
  split
  · exact rfl
  · dsimp only
    split
    · refine Ensures.bind_any fun nd => (modify_allocated _ _ _).bind fun ls' hls' => ?_
      exact detach_allocated hls' _
    · exact detach_allocated (l := { ls with head := none, tail := none }) rfl _

theorem list_set_allocated (ls : CList) (id : Int) (value : CStr) :
    Ensures AnyFault (list_set ls id value) (fun r => r.2.allocated = ls.allocated) := by
  unfold list_set
  refine Ensures.bind_any fun cur => ?_
  cases cur with
  | none => exact rfl
  | some a => exact (modify_allocated _ _ _).bind fun ls' hls' => hls'

theorem node_del_allocated (ls : CList) (nd : Option Nat) :
    Ensures AnyFault (node_del ls nd) (fun ls' => ls'.allocated = ls.allocated) := by
  unfold node_del
  split
  · exact rfl
  split
  · exact rfl
  split
  · exact Ensures.bind_any fun nd => modify_allocated _ _ _
  split
  · exact Ensures.bind_any fun nd => modify_allocated _ _ _
  · refine Ensures.bind_any fun nd₁ => Ensures.bind_any fun nd₂ => ?_
    refine (modify_allocated _ _ _).bind fun ls' hls' => ?_
    exact (modify_allocated _ _ _).mono fun ls'' hls'' => hls''.trans hls'

/-- Every removal that the loop counts frees a node. -/
theorem list_rem_loop_allocated (value : CStr) (pos : Int) (steps : Nat) (i count : Int) (ls : CList)
    (cur : Option Nat) : Ensures AnyFault (list_rem_loop value pos steps i count ls cur)
      (fun r => r.2.allocated + r.1 = ls.allocated + i) := by
  induction steps generalizing i count ls cur with
  | zero =>
    cases cur with
    | none => exact rfl
    | some a => trivial
  | succ steps ih =>
    cases cur with
    | none => exact rfl
    | some a =>
      unfold list_rem_loop
      split
      · exact rfl
      refine Ensures.bind_any fun nd => ?_
      split
      · refine (node_del_allocated ls _).bind fun ls' hls' => ?_
        refine (node_live _ _).bind fun nd' hnd' => ?_
        obtain ⟨_, heq, hnode⟩ := hnd'
        cases heq
        refine (ih _ _ _ _).mono fun r hr => ?_
        have hfree := allocated_free hnode
        have hlen : CList.allocated { ls' with len := ls'.len - 1 } = ls'.allocated := rfl
        omega
      · exact Ensures.bind_any fun nd' => ih _ _ _ _

theorem list_rem_allocated (ls : CList) (count : Int) (value : CStr) :
    Ensures AnyFault (list_rem ls count value) (fun r => r.2.allocated + r.1 = ls.allocated) :=
  (list_rem_loop_allocated value count ls.nodes.length 0 count ls _).mono fun _ hr =>
    hr.trans (Int.add_zero _)

/-! ## Runs -/

/-- The nodes that an operation allocates, by what it answers. -/
def ListAnswer.allocates : ListAnswer → Int
  | .done => 1
  | .removed n => -n
  | _ => 0

/-- A pop that gives a value. -/
def ListAnswer.pops : ListAnswer → Bool
  | .popped value => value.isSome
  | _ => false

theorem ListOp.step_allocated (ls : CList) (op : ListOp) :
    Ensures AnyFault (op.step ls) (fun r => r.2.allocated = ls.allocated + r.1.allocates) := by
  cases op with
  | lpush value => exact (list_lpush_allocated ls value).bind fun _ hls' => congrArg Int.ofNat hls'
  | rpush value => exact (list_rpush_allocated ls value).bind fun _ hls' => congrArg Int.ofNat hls'
  | lpop => exact (list_lpop_allocated ls).bind fun _ hr =>
    (congrArg Int.ofNat hr).trans (Int.add_zero _).symm
  | rpop => exact (list_rpop_allocated ls).bind fun _ hr =>
    (congrArg Int.ofNat hr).trans (Int.add_zero _).symm
  | set id value =>
    exact (list_set_allocated ls id value).bind fun _ hr =>
      (congrArg Int.ofNat hr).trans (Int.add_zero _).symm
  | rem count value => exact (list_rem_allocated ls count value).bind fun _ hr => eq_sub_of_add_eq hr

/-- A value that is popped leaves the sequence, and its node stays allocated. -/
theorem ListOp.apply_length (values : List CStr) (op : ListOp) :
    (op.apply values).2.length + (if (op.apply values).1.pops then 1 else 0 : Nat) =
      values.length + (op.apply values).1.allocates := by
  cases op with
  | lpush value => rfl
  | rpush value =>
    simp only [apply, List.length_append, ListAnswer.pops, ListAnswer.allocates]
    rfl
  | lpop =>
    cases values with
    | nil => rfl
    | cons value values => rfl
  | rpop =>
    rcases List.eq_nil_or_concat values with rfl | ⟨front, value, rfl⟩
    · rfl
    · simp [apply, ListAnswer.pops, ListAnswer.allocates]
  | set id value => simp [apply, ListAnswer.pops, ListAnswer.allocates]
  | rem count value =>
    have hlength := length_kept count value values
    simp only [apply, ListAnswer.pops, ListAnswer.allocates, if_false, Bool.false_eq_true]
    omega

/-- The nodes in memory are those of the list, and those that were popped. -/
theorem list_run_accounted {n : Nat} (h : ls.Linked run) (hheld : ls.allocated = run.length + n)
    (ops : List ListOp) :
    ∃ ls' run', list_run ls ops = .ok ((sequence_run (run.map Prod.snd) ops).1, ls') ∧
      ls'.Linked run' ∧ ls'.allocated =
        run'.length + (n + (sequence_run (run.map Prod.snd) ops).1.countP ListAnswer.pops) := by
  induction ops generalizing ls run n with
  | nil => exact ⟨ls, run, rfl, h, hheld⟩
  | cons op ops ih =>
    obtain ⟨ls₁, hstep, run₁, hlinked₁, hvalues₁⟩ := op.step_linked h
    have hallocated := (op.step_allocated ls).of_eq_ok hstep
    have hlength := op.apply_length (run.map Prod.snd)
    rw [← hvalues₁, List.length_map, List.length_map] at hlength
    have hheld₁ : ls₁.allocated =
        run₁.length + (n + if (op.apply (run.map Prod.snd)).1.pops then 1 else 0) := by
      dsimp only at hallocated
      omega
    obtain ⟨ls', run', hrest, hlinked', hheld'⟩ := ih hlinked₁ hheld₁
    rw [hvalues₁] at hrest hheld'
    refine ⟨ls', run', ?_, hlinked', ?_⟩
    · rw [list_run, hstep, ok_bind]
      simp only [hrest, ok_bind]
      rfl
    · rw [hheld', sequence_run, List.countP_cons]
      omega

/-! ## Freeing a list -/

/-- The nodes of the run are freed, and no others. -/
theorem list_free_loop_spec {before : Option Nat} (h : Segment ls.nodes before run none)
    (hnodup : (run.map Prod.fst).Nodup) {steps : Nat} (hsteps : run.length ≤ steps) :
    ∃ ls', list_free_loop steps run.length ls (first run none) = .ok ls' ∧
      ls'.allocated + run.length = ls.allocated := by
  induction run generalizing ls before steps with
  | nil =>
    refine ⟨ls, ?_, rfl⟩
    unfold list_free_loop
    exact if_pos rfl
  | cons node run ih =>
    obtain ⟨steps, rfl⟩ := Nat.exists_eq_add_of_lt (Nat.lt_of_lt_of_le (Nat.succ_pos _) hsteps)
    rw [Nat.zero_add, List.length_cons] at hsteps
    obtain ⟨hnotin, hnodup⟩ := List.nodup_cons.mp hnodup
    have hrest : Segment (ls.free node.1).nodes (some node.1) run none := h.2.set_other hnotin none
    obtain ⟨ls', hloop, hallocated⟩ := ih hrest hnodup (Nat.le_of_succ_le_succ hsteps)
    have hfree := allocated_free h.1
    refine ⟨ls', ?_, ?_⟩
    · unfold list_free_loop
      rw [if_neg (by rw [List.length_cons]; omega), Nat.zero_add, first_cons]
      dsimp only
      rw [node_ok h.1, ok_bind, List.length_cons]
      rw [show (((run.length + 1 : Nat) : Int) - 1) = run.length from by omega]
      exact hloop
    · rw [List.length_cons]
      omega

theorem CList.Linked.free (h : ls.Linked run) :
    ∃ ls', list_free ls = .ok ls' ∧ ls'.allocated + run.length = ls.allocated := by
  obtain ⟨ls', hfree, hallocated⟩ := list_free_loop_spec h.segment h.nodup h.length_le
  rw [← h.len, ← h.head] at hfree
  exact ⟨ls', hfree, hallocated⟩

/-- After any run a list can be freed: no node is freed twice, none is followed after
    it was freed, and what stays in memory is the nodes that were popped. -/
theorem list_run_free (ops : List ListOp) :
    ∃ ls ls', list_run list_init ops = .ok ((sequence_run [] ops).1, ls) ∧ list_free ls = .ok ls' ∧
      ls'.allocated = (sequence_run [] ops).1.countP ListAnswer.pops := by
  obtain ⟨ls, run, hrun, hlinked, hheld⟩ := list_run_accounted (n := 0) list_init_linked rfl ops
  obtain ⟨ls', hfree, hallocated⟩ := hlinked.free
  rw [List.map_nil, Nat.zero_add] at hheld
  exact ⟨ls, ls', hrun, hfree, by omega⟩

end hyperkv
