import HyperKV.DoublyLinked
import HyperKV.Machine
import HyperKV.OpenAddressing.Table

open Outcome OpenAddressing

namespace hyperkv

/-- Why a run of the C program has no further behaviour: a table operation
    faulted, a null or freed pointer was followed, a value was read at a type
    other than its own, an argument past `argc` was read, or a pointer walk
    outlived its list. -/
inductive Fault where
  | table (fault : OpenAddressing.Fault)
  | nullPointer
  | freed
  | wrongType
  | noArgument
  | endless
  deriving DecidableEq, Repr

abbrev Exec := Except Fault

def fromTable {α : Type} (x : Except OpenAddressing.Fault α) : Exec α := x.mapError .table

/-- Following a `char *` that may be null. -/
def deref (str : Option CStr) : Exec CStr :=
  match str with
  | none => .error .nullPointer
  | some s => .ok s

def HT_BASE_SIZE : Int := 2

/-- The tag of a stored item. -/
inductive ItemType where
  | STR_T
  | HASH_T
  | LIST_T
  | SET_T
  deriving DecidableEq, Repr

structure HashTableItem (V : Type) where
  type : ItemType
  key : CStr
  value : V

/-- A list node; `next` and `prev` are addresses among the list's own nodes. -/
abbrev ListNode := DoublyLinked.Node CStr

/-- The C `List`, with every node it ever allocated; a freed node is `none`. -/
structure CList where
  len : Int
  head : Option Nat
  tail : Option Nat
  nodes : List (Option ListNode)
  deriving DecidableEq, Repr

/-- The C `Set`: its `members` array is the table's slots. -/
abbrev CSet := Table CStr

/-- What a `void *value` really points to, whatever the item's tag says. -/
inductive Value where
  | str (s : CStr)
  | hash (ht : Table (HashTableItem Value))
  | list (ls : CList)
  | set (st : CSet)

/-- The C `HashTable`; the top-level store and every nested hash have this type. -/
abbrev HashTable := Table (HashTableItem Value)

namespace Value

/-- The type that a value is read at without being reinterpreted. -/
def type : Value → ItemType
  | .str _ => .STR_T
  | .hash _ => .HASH_T
  | .list _ => .LIST_T
  | .set _ => .SET_T

/-- The casts of the source. A pointer cast to another type than the pointee's
    is about to be read as something it is not. -/
def asHash : Value → Exec HashTable
  | .hash ht => .ok ht
  | _ => .error .wrongType

def asList : Value → Exec CList
  | .list ls => .ok ls
  | _ => .error .wrongType

def asSet : Value → Exec CSet
  | .set st => .ok st
  | _ => .error .wrongType

/-- The first field of the struct, an `int`. -/
def first_int : Value → Int
  | .str _ => 0
  | .hash ht => ht.size
  | .list ls => ls.len
  | .set st => st.size

end Value

/-! ## The machine -/

/-- The bytes of a struct up to the first NUL. No struct has more than 24 bytes, and
    the pointer at its end has a NUL among its own. -/
abbrev StructText := { s : CStr // s.length < 24 }

/-- The text that is read where a `char *` points to a struct, for the struct found
    under a key: two equal structs lie at two addresses. With `none` such a read is a
    fault, so that it can be seen. -/
abbrev Casts := Option (CStr → Value → StructText)

/-- What the program computes depends on beyond its source. The arithmetic is given
    separately for the probe index of `hash_func` and for the counters and sizes that
    decide when a table is resized. -/
structure Machine where
  index : IntArith
  load : IntArith
  cast : Casts

/-- The value under a key, read through a `char *` whatever it is. -/
def Machine.read_str (mc : Machine) (key : CStr) : Value → Exec CStr
  | .str s => .ok s
  | value =>
    match mc.cast with
    | none => .error .wrongType
    | some text => .ok (text key value).val

/-- The text that a struct with fewer than 2^24 slots or nodes is read as. -/
def first_int_text (value : Value) : StructText :=
  ⟨c_text (int_bytes value.first_int),
    Nat.lt_of_le_of_lt (length_c_text_le _) (Nat.lt_of_sub_eq_succ rfl)⟩

/-- The program as compiled: its `int`s have 32 bits. -/
def machine : Machine := ⟨.int32, .int32, some fun _ => first_int_text⟩

inductive ListDirection where
  | LEFT
  | RIGHT
  deriving DecidableEq, Repr

end hyperkv
