import Mathlib.Data.List.Nodup

namespace DoublyLinked

variable {V : Type}

/-- A node of a doubly linked list; the links are addresses in an arena. -/
structure Node (V : Type) where
  value : V
  next : Option Nat
  prev : Option Nat
  deriving DecidableEq, Repr

/-- The address at which a run of nodes starts, or `after` when it is empty. -/
def first (run : List (Nat × V)) (after : Option Nat) : Option Nat :=
  match run with
  | [] => after
  | node :: _ => some node.1

/-- The address at which a run of nodes ends, or `before` when it is empty. -/
def last : List (Nat × V) → Option Nat → Option Nat
  | [], before => before
  | node :: run, _ => last run (some node.1)

/-- The nodes of `run` sit in the arena, linked in order in both directions,
    between the neighbours `before` and `after`. -/
def Segment (nodes : List (Option (Node V))) : Option Nat → List (Nat × V) → Option Nat → Prop
  | _, [], _ => True
  | before, node :: run, after =>
    nodes[node.1]? = some (some ⟨node.2, first run after, before⟩) ∧ Segment nodes (some node.1) run after

@[simp] theorem first_nil (after : Option Nat) : first ([] : List (Nat × V)) after = after := rfl

@[simp] theorem first_cons (node : Nat × V) (run : List (Nat × V)) (after : Option Nat) :
    first (node :: run) after = some node.1 := rfl

@[simp] theorem last_nil (before : Option Nat) : last ([] : List (Nat × V)) before = before := rfl

@[simp] theorem last_cons (node : Nat × V) (run : List (Nat × V)) (before : Option Nat) :
    last (node :: run) before = last run (some node.1) := rfl

theorem first_append (run rest : List (Nat × V)) (after : Option Nat) :
    first (run ++ rest) after = first run (first rest after) := by
  cases run <;> rfl

theorem last_append (run rest : List (Nat × V)) (before : Option Nat) :
    last (run ++ rest) before = last rest (last run before) := by
  induction run generalizing before with
  | nil => rfl
  | cons node run ih => exact ih (some node.1)

@[simp] theorem last_concat (run : List (Nat × V)) (node : Nat × V) (before : Option Nat) :
    last (run ++ [node]) before = some node.1 := by
  rw [last_append]
  rfl

theorem first_ne {run : List (Nat × V)} {after : Option Nat} {a : Nat} (ha : a ∉ run.map Prod.fst)
    (hafter : after ≠ some a) : first run after ≠ some a := by
  cases run with
  | nil => exact hafter
  | cons node run =>
    intro heq
    exact ha (by simp [Option.some.inj heq])

theorem last_ne {run : List (Nat × V)} {before : Option Nat} {a : Nat} (ha : a ∉ run.map Prod.fst)
    (hbefore : before ≠ some a) : last run before ≠ some a := by
  induction run generalizing before with
  | nil => exact hbefore
  | cons node run ih =>
    rw [List.map_cons, List.mem_cons, not_or] at ha
    exact ih ha.2 (fun heq => ha.1 (Option.some.inj heq).symm)

/-- The addresses around a node of a run without repetition. -/
theorem nodup_around {front back : List (Nat × V)} {node : Nat × V}
    (h : ((front ++ node :: back).map Prod.fst).Nodup) :
    node.1 ∉ front.map Prod.fst ∧ node.1 ∉ back.map Prod.fst ∧ ((front ++ back).map Prod.fst).Nodup := by
  rw [List.map_append, List.map_cons, List.nodup_middle, List.nodup_cons, List.mem_append, not_or] at h
  rw [List.map_append]
  exact ⟨h.1.1, h.1.2, h.2⟩

variable {nodes : List (Option (Node V))} {before after : Option Nat} {run rest : List (Nat × V)}

theorem segment_append : Segment nodes before (run ++ rest) after ↔
    Segment nodes before run (first rest after) ∧ Segment nodes (last run before) rest after := by
  induction run generalizing before with
  | nil => simp [Segment]
  | cons node run ih =>
    simp only [List.cons_append, Segment, last_cons, ih, first_append, and_assoc]

/-- Only the nodes of the run matter. -/
theorem Segment.congr {nodes' : List (Option (Node V))} (h : Segment nodes before run after)
    (hsame : ∀ node ∈ run, nodes'[node.1]? = nodes[node.1]?) : Segment nodes' before run after := by
  induction run generalizing before with
  | nil => trivial
  | cons node run ih =>
    refine ⟨?_, ih h.2 (fun other hother => hsame other (List.mem_cons_of_mem _ hother))⟩
    rw [hsame node List.mem_cons_self]
    exact h.1

theorem Segment.lt_length (h : Segment nodes before run after) {node : Nat × V} (hnode : node ∈ run) :
    node.1 < nodes.length := by
  induction run generalizing before with
  | nil => cases hnode
  | cons head run ih =>
    rcases List.mem_cons.mp hnode with rfl | htail
    · exact (List.getElem?_eq_some_iff.mp h.1).1
    · exact ih h.2 htail

/-- Writing at an address outside the run. -/
theorem Segment.set_other (h : Segment nodes before run after) {a : Nat} (ha : a ∉ run.map Prod.fst)
    (x : Option (Node V)) : Segment (nodes.set a x) before run after := by
  refine h.congr (fun node hnode => List.getElem?_set_ne ?_)
  rintro rfl
  exact ha (List.mem_map_of_mem hnode)

/-- Allocating at the end of the arena. -/
theorem Segment.concat (h : Segment nodes before run after) (x : Option (Node V)) :
    Segment (nodes ++ [x]) before run after :=
  h.congr (fun _ hnode => List.getElem?_append_left (h.lt_length hnode))

/-- Pointing the first node of a run to another predecessor. -/
theorem Segment.relink_first {node : Nat × V} (h : Segment nodes before (node :: run) after)
    (hnotin : node.1 ∉ run.map Prod.fst) (before' : Option Nat) :
    Segment (nodes.set node.1 (some ⟨node.2, first run after, before'⟩)) before' (node :: run) after := by
  refine ⟨?_, h.2.set_other hnotin _⟩
  exact List.getElem?_set_self (h.lt_length List.mem_cons_self)

/-- Pointing the last node of a run to another successor. -/
theorem Segment.relink_last {node : Nat × V} (h : Segment nodes before (run ++ [node]) after)
    (hnotin : node.1 ∉ run.map Prod.fst) (after' : Option Nat) :
    Segment (nodes.set node.1 (some ⟨node.2, after', last run before⟩)) before (run ++ [node]) after' := by
  have hlt := h.lt_length (List.mem_append_right run List.mem_cons_self)
  rw [segment_append] at h ⊢
  exact ⟨h.1.set_other hnotin _, List.getElem?_set_self hlt, trivial⟩

end DoublyLinked
