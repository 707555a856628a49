import HyperKV.Interpreter

open Outcome

namespace hyperkv

variable {mc : Machine} {ht : HashTable} {cmd : Command} {tolerated : Fault → Prop} {P : CStr × HashTable → Prop}

/-- A command is refused for its number of arguments, or its body runs. -/
theorem with_argc_ensures {accepted : Nat → Bool} {expected : String} {body : Handler}
    (hbody : accepted cmd.argc → Ensures tolerated (body ht cmd) P)
    (hrefused : P (reply_err_argc cmd.argc expected, ht)) :
    Ensures tolerated (with_argc accepted expected body ht cmd) P := by
  rw [with_argc]
  split
  · rename_i haccepted
    exact hbody haccepted
  · exact hrefused

/-- A command is refused for the type of its first key, or its body runs. -/
theorem with_type_any {expected : String} {body : CStr → Handler}
    (hbody : ∀ key, Ensures AnyFault (body key ht cmd) P) (hrefused : P (reply_err_type, ht)) :
    Ensures AnyFault (with_type mc expected body ht cmd) P := by
  refine Ensures.bind_any (fun key => Ensures.bind_any (fun type => ?_))
  split
  · exact hbody key
  · exact hrefused

/-- A loop over arguments, with an invariant indexed by the arguments left. -/
theorem count_oks_loop {α : Type} {op : HashTable → α → Exec (HashTable × Bool)}
    (inv : List α → HashTable → Prop)
    (hop : ∀ a rest ht, inv (a :: rest) ht → Ensures tolerated (op ht a) (fun r => inv rest r.1))
    (args : List α) (h : inv args ht) : Ensures tolerated (count_oks op args ht) (fun r => inv [] r.2) := by
  refine Ensures.foldlM (fun rest (r : Int × HashTable) => inv rest r.2) (fun a rest r hr => ?_) args
    (0, ht) h
  exact (hop a rest r.2 hr).bind (fun _ hr' => hr')

theorem count_oks_ensures {α : Type} {op : HashTable → α → Exec (HashTable × Bool)} (inv : HashTable → Prop)
    (hop : ∀ ht a, inv ht → Ensures tolerated (op ht a) (fun r => inv r.1))
    (args : List α) (h : inv ht) : Ensures tolerated (count_oks op args ht) (fun r => inv r.2) :=
  count_oks_loop (fun _ => inv) (fun a _ ht hht => hop ht a hht) args h

end hyperkv
