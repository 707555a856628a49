import HyperKV.Load

open OpenAddressing

namespace hyperkv

/-- `set_resize`, `set_resize_up`, `set_resize_down` and the probing loops of
    `set_add` and `set_rem` are the scheme's; the members are their own keys. -/
def set_scheme (mc : Machine) : Scheme CStr CStr := scheme mc id true

def set_init (size : Int) : CSet := Table.empty (init_size size)

def set_add (mc : Machine) (set : CSet) (key : CStr) : Exec (CSet × Bool) :=
  fromTable ((set_scheme mc).insert 1 set key)

def set_rem (mc : Machine) (set : CSet) (key : CStr) : Exec (CSet × Bool) :=
  fromTable ((set_scheme mc).remove 1 set key)

def set_ismember (mc : Machine) (set : CSet) (key : CStr) : Exec Bool :=
  fromTable (Option.isSome <$> (set_scheme mc).search set key)

/-- The members in slot order, without the array's terminating null. -/
def set_members (set : CSet) : List CStr := set.items

/-- The two operations of a set, and their runs. -/
inductive SetOp where
  | add (member : CStr)
  | rem (member : CStr)
  deriving DecidableEq, Repr

def SetOp.step (mc : Machine) (set : CSet) : SetOp → Exec CSet
  | .add member => Prod.fst <$> set_add mc set member
  | .rem member => Prod.fst <$> set_rem mc set member

def set_run (mc : Machine) (ops : List SetOp) : Exec CSet :=
  ops.foldlM (SetOp.step mc) (set_init HT_BASE_SIZE)

end hyperkv
