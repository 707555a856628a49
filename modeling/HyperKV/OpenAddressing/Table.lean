import Mathlib.Data.List.Basic
import HyperKV.Outcome

namespace OpenAddressing

/-- One slot of an open-addressing array: never used, vacated by a removal, or
    holding an item. -/
inductive Slot (α : Type) where
  | null
  | deleted
  | live (item : α)
  deriving DecidableEq, Repr

def Slot.item? {α : Type} : Slot α → Option α
  | .live x => some x
  | _ => none

/-- Slots an insertion may take. -/
def Slot.isFree {α : Type} : Slot α → Bool
  | .live _ => false
  | _ => true

def Slot.isDeleted {α : Type} : Slot α → Bool
  | .deleted => true
  | _ => false

/-- What can go wrong in a table operation: a probe index outside the array, or
    more nested resizes than the bound the operation was given. -/
inductive Fault where
  | outOfRange
  | tooDeep
  deriving DecidableEq, Repr

/-- A table keeps an item counter next to its array; nothing here says that the
    counter is right. -/
structure Table (α : Type) where
  used : Int
  slots : List (Slot α)

namespace Table

variable {α : Type}

def size (t : Table α) : Nat := t.slots.length

/-- The live items, in slot order. -/
def items (t : Table α) : List α := t.slots.filterMap Slot.item?

def empty (n : Nat) : Table α := ⟨0, List.replicate n .null⟩

def write (t : Table α) (p : Nat) (s : Slot α) : Table α := { t with slots := t.slots.set p s }

end Table

/-- The parameters of an open-addressing table: the key of an item, the probe
    index of a key at an attempt, whether an insertion looks for an equal item
    on its way, how the machine keeps a counter, the sizes asked for after an
    insertion and a removal, and the array allocated for an asked size. -/
structure Scheme (K α : Type) where
  key : α → K
  path : K → Nat → Nat → Int
  checks : Bool
  count : Int → Int
  grow : Int → Nat → Option Int
  shrink : Int → Nat → Option Int
  capacity : Int → Option Nat

/-- Where an insertion loop stops: at a slot it may take, or at an equal item. -/
inductive Spot where
  | free (p : Nat)
  | equal
  deriving DecidableEq, Repr

namespace Scheme

variable {K α β : Type} (S : Scheme K α)

/-- The slot that attempt `i` of the probe for `k` looks at, with its index;
    `none` when that index is outside the array. -/
def slotAt (t : Table α) (k : K) (i : Nat) : Option (Nat × Slot α) :=
  if 0 ≤ S.path k t.size i then
    t.slots[(S.path k t.size i).toNat]?.map (fun s => ((S.path k t.size i).toNat, s))
  else none

/-- The probing loop: attempts `i`, `i + 1`, ... until `stop` answers. -/
def scan (t : Table α) (k : K) (stop : Nat → Slot α → Option β) : Nat → Nat → Except Fault (Option β)
  | 0, _ => .ok none
  | attempts + 1, i =>
    match S.slotAt t k i with
    | none => .error .outOfRange
    | some (p, s) =>
      match stop p s with
      | some b => .ok (some b)
      | none => scan t k stop attempts (i + 1)

/-- One pass over the whole probe path of `k`. -/
def probe (t : Table α) (k : K) (stop : Nat → Slot α → Option β) : Except Fault (Option β) :=
  S.scan t k stop t.size 0

variable [DecidableEq K]

/-- A search ends at the first null slot or at a live item with the key; it
    walks over deleted slots. -/
def searchStop (k : K) (p : Nat) : Slot α → Option (Option (Nat × α))
  | .null => some none
  | .deleted => none
  | .live x => if S.key x = k then some (some (p, x)) else none

def search (t : Table α) (k : K) : Except Fault (Option (Nat × α)) :=
  Option.join <$> S.probe t k (S.searchStop k)

def insertStop (k : K) (p : Nat) : Slot α → Option Spot
  | .null | .deleted => some (.free p)
  | .live x => if S.checks ∧ S.key x = k then some .equal else none

def findSpot (t : Table α) (k : K) : Except Fault (Option Spot) := S.probe t k (S.insertStop k)

def place (t : Table α) (p : Nat) (x : α) : Table α :=
  { t.write p (.live x) with used := S.count (t.used + 1) }

def clear (t : Table α) (p : Nat) : Table α :=
  { t.write p .deleted with used := S.count (t.used - 1) }

/-- Builds the array anew. The counter is kept: only arrays change places. -/
def rebuild (ins : Table α → α → Except Fault (Table α × Bool)) (t : Table α) (n : Nat) :
    Except Fault (Table α) := do
  let new ← t.items.foldlM (fun acc x => Prod.fst <$> ins acc x) (Table.empty n)
  return { t with slots := new.slots }

def resizeWith (ins : Table α → α → Except Fault (Table α × Bool)) (t : Table α) (asked : Int) :
    Except Fault (Table α) :=
  match S.capacity asked with
  | none => .ok t
  | some n => rebuild ins t n

def resizeUp (resize : Table α → Int → Except Fault (Table α)) (t : Table α) : Except Fault (Table α) :=
  match S.grow t.used t.size with
  | none => .ok t
  | some asked => resize t asked

def resizeDown (resize : Table α → Int → Except Fault (Table α)) (t : Table α) : Except Fault (Table α) :=
  match S.shrink t.used t.size with
  | none => .ok t
  | some asked => resize t asked

/-- An insertion loop. When no slot stops it, the item is silently dropped. -/
def insertWith (resize : Table α → Int → Except Fault (Table α)) (t : Table α) (x : α) :
    Except Fault (Table α × Bool) := do
  match ← S.findSpot t (S.key x) with
  | some (.free p) => return (← S.resizeUp resize (S.place t p x), true)
  | some .equal => return (t, false)
  | none => return (t, false)

/-- Insertion and resizing call each other; `depth` bounds the nesting. -/
def insert : Nat → Table α → α → Except Fault (Table α × Bool)
  | 0 => S.insertWith (fun _ _ => .error .tooDeep)
  | depth + 1 => S.insertWith (S.resizeWith (insert depth))

def resize (depth : Nat) : Table α → Int → Except Fault (Table α) := S.resizeWith (S.insert depth)

/-- The resize an insertion at `depth` may still make. -/
def nestedResize : Nat → Table α → Int → Except Fault (Table α)
  | 0 => fun _ _ => .error .tooDeep
  | depth + 1 => S.resize depth

theorem insert_eq (depth : Nat) : S.insert depth = S.insertWith (S.nestedResize depth) := by
  cases depth <;> rfl

def remove (depth : Nat) (t : Table α) (k : K) : Except Fault (Table α × Bool) := do
  match ← S.search t k with
  | none => return (t, false)
  | some (p, _) => return (← S.resizeDown (S.resize depth) (S.clear t p), true)

end Scheme

end OpenAddressing
