import HyperKV.Types

namespace hyperkv

namespace CList

/-- Following a node pointer. -/
def node (ls : CList) (p : Option Nat) : Exec ListNode :=
  match p with
  | none => .error .nullPointer
  | some a =>
    match ls.nodes[a]? with
    | some (some nd) => .ok nd
    | _ => .error .freed

/-- Assigning through a node pointer. -/
def modify (ls : CList) (p : Option Nat) (f : ListNode → ListNode) : Exec CList :=
  match p with
  | none => .error .nullPointer
  | some a => do
    let nd ← ls.node p
    return { ls with nodes := ls.nodes.set a (some (f nd)) }

/-- Allocating a node; its address is the old number of nodes. -/
def alloc (ls : CList) (nd : ListNode) : CList := { ls with nodes := ls.nodes ++ [some nd] }

def free (ls : CList) (a : Nat) : CList := { ls with nodes := ls.nodes.set a none }

end CList

def list_init : CList := ⟨0, none, none, []⟩

def list_lpush (ls : CList) (value : CStr) : Exec CList := do
  let new_node := some ls.nodes.length
  if ls.len > 0 then
    let ls ← (ls.alloc ⟨value, ls.head, none⟩).modify ls.head (fun nd => { nd with prev := new_node })
    return { ls with head := new_node, len := ls.len + 1 }
  else
    return { ls.alloc ⟨value, none, none⟩ with head := new_node, tail := new_node, len := ls.len + 1 }

def list_rpush (ls : CList) (value : CStr) : Exec CList := do
  let new_node := some ls.nodes.length
  if ls.len > 0 then
    let ls ← (ls.alloc ⟨value, none, ls.tail⟩).modify ls.tail (fun nd => { nd with next := new_node })
    return { ls with tail := new_node, len := ls.len + 1 }
  else
    return { ls.alloc ⟨value, none, none⟩ with tail := new_node, head := new_node, len := ls.len + 1 }

/-- The popped node stays allocated, detached; its value is the caller's. -/
def list_lpop (ls : CList) : Exec (Option ListNode × CList) := do
  if ls.len ≤ 0 then
    return (none, ls)
  let node := ls.head
  let ls ←
    if ls.len - 1 > 0 then do
      let ls : CList := { ls with head := (← ls.node node).next }
      ls.modify ls.head (fun nd => { nd with prev := none })
    else pure { ls with head := none, tail := none }
  let ls ← ({ ls with len := ls.len - 1 } : CList).modify node
    (fun nd => { nd with next := none, prev := none })
  return (some (← ls.node node), ls)

def list_rpop (ls : CList) : Exec (Option ListNode × CList) := do
  if ls.len ≤ 0 then
    return (none, ls)
  let node := ls.tail
  let ls ←
    if ls.len - 1 > 0 then do
      let ls : CList := { ls with tail := (← ls.node node).prev }
      ls.modify ls.tail (fun nd => { nd with next := none })
    else pure { ls with head := none, tail := none }
  let ls ← ({ ls with len := ls.len - 1 } : CList).modify node
    (fun nd => { nd with next := none, prev := none })
  return (some (← ls.node node), ls)

/-- `steps` times `cur = cur->next`, stopping early at null. -/
def list_walk (ls : CList) : Nat → Option Nat → Exec (Option Nat)
  | 0, cur => .ok cur
  | _ + 1, none => .ok none
  | steps + 1, some a => do list_walk ls steps (← ls.node (some a)).next

def list_index (ls : CList) (id : Int) : Exec (Option Nat) := list_walk ls id.toNat ls.head

def list_set (ls : CList) (id : Int) (value : CStr) : Exec (Bool × CList) := do
  match ← list_walk ls id.toNat ls.head with
  | none => return (false, ls)
  | some cur => return (true, ← ls.modify (some cur) (fun nd => { nd with value := value }))

/-- A walk over a well-formed list visits each of its nodes once, so the number
    of nodes ever allocated bounds it. -/
def list_pos_loop (ls : CList) (value : CStr) : Nat → Int → Option Nat → Exec Int
  | _, _, none => .ok (-1)
  | 0, _, some _ => .error .endless
  | steps + 1, i, some cur => do
    let nd ← ls.node (some cur)
    if nd.value = value then return i
    list_pos_loop ls value steps (i + 1) nd.next

def list_pos (ls : CList) (value : CStr) : Exec Int := list_pos_loop ls value ls.nodes.length 0 ls.head

/-- Unlinks `nd`, leaving its own links as they are. -/
def node_del (ls : CList) (nd : Option Nat) : Exec CList := do
  if ls.head = none ∨ nd = none then
    return ls
  if ls.len - 1 = 0 then
    return { ls with head := none, tail := none }
  if nd = ls.head then
    let ls : CList := { ls with head := (← ls.node nd).next }
    ls.modify ls.head (fun nd => { nd with prev := none })
  else if nd = ls.tail then
    let ls : CList := { ls with tail := (← ls.node nd).prev }
    ls.modify ls.tail (fun nd => { nd with next := none })
  else
    let next := (← ls.node nd).next
    let prev := (← ls.node nd).prev
    let ls ← ls.modify prev (fun nd => { nd with next := next })
    ls.modify next (fun nd => { nd with prev := prev })

def list_rem_loop (value : CStr) (pos : Int) : Nat → Int → Int → CList → Option Nat → Exec (Int × CList)
  | _, i, _, ls, none => .ok (i, ls)
  | 0, _, _, _, some _ => .error .endless
  | steps + 1, i, count, ls, some cur => do
    if pos ≠ 0 ∧ count = 0 then
      return (i, ls)
    if (← ls.node (some cur)).value = value then
      let ls ← node_del ls (some cur)
      let ls : CList := { ls with len := ls.len - 1 }
      let nd ← ls.node (some cur)
      list_rem_loop value pos steps (i + 1) (if pos ≥ 0 then count - 1 else count + 1) (ls.free cur)
        (if pos ≥ 0 then nd.next else nd.prev)
    else
      let nd ← ls.node (some cur)
      list_rem_loop value pos steps i count ls (if pos ≥ 0 then nd.next else nd.prev)

def list_rem (ls : CList) (count : Int) (value : CStr) : Exec (Int × CList) :=
  list_rem_loop value count ls.nodes.length 0 count ls (if count ≥ 0 then ls.head else ls.tail)

/-- `while (id < begin)`: here a null `cur` is followed. -/
def list_skip (ls : CList) : Nat → Option Nat → Exec (Option Nat)
  | 0, cur => .ok cur
  | steps + 1, cur => do list_skip ls steps (← ls.node cur).next

def list_collect (ls : CList) : Nat → Option Nat → Exec (List CStr)
  | 0, _ => .ok []
  | steps + 1, cur => do
    let nd ← ls.node cur
    return nd.value :: (← list_collect ls steps nd.next)

def list_range (ls : CList) (first last : Int) : Exec (List CStr) := do
  let cur ← list_skip ls first.toNat ls.head
  list_collect ls (last - first.toNat + 1).toNat cur

end hyperkv
