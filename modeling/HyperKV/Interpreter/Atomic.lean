import HyperKV.Interpreter.ReadOnly

open Outcome

namespace hyperkv

variable {mc : Machine}

/-- A reply that starts with `-` comes with the store the command found. -/
def Atomic (ht : HashTable) (r : CStr × HashTable) : Prop := r.1.head? = some CChar.minus → r.2 = ht

/-- A handler whose error replies change nothing. -/
def AtomicHandler (handler : Handler) : Prop := ∀ ht cmd, Ensures AnyFault (handler ht cmd) (Atomic ht)

theorem reply_string_head (str : Option CStr) : (reply_string str).head? ≠ some CChar.minus := by
  cases str with
  | none => decide
  | some str =>
    intro h
    exact absurd (Option.some.inj h) (by decide)

theorem reply_integer_head (x : Int) : (reply_integer x).head? ≠ some CChar.minus := by
  intro h
  exact absurd (Option.some.inj h) (by decide)

/-! ## The frames -/

theorem with_argc_atomic {accepted : Nat → Bool} {expected : String} {body : Handler}
    (hbody : AtomicHandler body) : AtomicHandler (with_argc accepted expected body) :=
  fun ht cmd => with_argc_ensures (fun _ => hbody ht cmd) (fun _ => rfl)

theorem with_type_atomic {expected : String} {body : CStr → Handler}
    (hbody : ∀ key, AtomicHandler (body key)) : AtomicHandler (with_type mc expected body) :=
  fun ht cmd => with_type_any (fun key => hbody key ht cmd) (fun _ => rfl)

/-- A handler that writes, and answers with something else than an error. -/
theorem write_atomic {α : Type} {ht : HashTable} (x : Exec α) {reply : α → CStr} {store : α → HashTable}
    (hreply : ∀ a, (reply a).head? ≠ some CChar.minus) :
    Ensures AnyFault (do let a ← x; return (reply a, store a)) (Atomic ht) :=
  Ensures.bind_any (fun a h => absurd h (hreply a))

theorem quiet {ht ht' : HashTable} {reply : CStr} (hreply : reply.head? ≠ some CChar.minus) :
    Ensures (AnyFault (ε := Fault)) (.ok (reply, ht')) (Atomic ht) := fun h => absurd h hreply

theorem unchanged {ht : HashTable} {reply : CStr} :
    Ensures (AnyFault (ε := Fault)) (.ok (reply, ht)) (Atomic ht) := fun _ => rfl

/-! ## The handlers with a check between their frames and their writes -/

theorem exec_step_atomic (missing : String) (answer change : Int) :
    AtomicHandler (exec_step mc missing answer change) := by
  refine with_argc_atomic (with_type_atomic (fun key ht cmd => Ensures.bind_any (fun res => ?_)))
  cases res with
  | none => exact Ensures.bind_any (fun r => quiet (reply_integer_head _))
  | some res =>
    simp only
    split
    · exact Ensures.bind_any (fun r => quiet (reply_integer_head _))
    · exact unchanged

theorem exec_stepby_atomic (combine : Int → Int → Int) : AtomicHandler (exec_stepby mc combine) := by
  refine with_argc_atomic (with_type_atomic (fun key ht cmd =>
    Ensures.bind_any (fun res => Ensures.bind_any (fun operand => ?_))))
  split
  · exact Ensures.bind_any (fun r => quiet (reply_integer_head _))
  · refine Ensures.bind_any (fun res => ?_)
    split
    · exact Ensures.bind_any (fun r => quiet (reply_integer_head _))
    · exact unchanged

theorem exec_lset_atomic : AtomicHandler (exec_lset mc) := by
  refine with_argc_atomic (with_type_atomic (fun key ht cmd => Ensures.bind_any (fun index => ?_)))
  split
  · refine Ensures.bind_any ?_
    rintro ⟨code, id⟩
    simp only
    split
    · exact unchanged
    · exact Ensures.bind_any (fun value => Ensures.bind_any (fun r => quiet (reply_string_head _)))
  · exact unchanged

theorem exec_lrem_atomic : AtomicHandler (exec_lrem mc) := by
  refine with_argc_atomic (with_type_atomic (fun key ht cmd => Ensures.bind_any (fun count => ?_)))
  split
  · exact Ensures.bind_any (fun value => Ensures.bind_any (fun r => quiet (reply_integer_head _)))
  · exact unchanged

/-! ## The others -/

theorem count_oks_atomic {α : Type} {op : HashTable → α → Exec (HashTable × Bool)} {args : List α}
    {ht : HashTable} :
    Ensures AnyFault (do let (oks, ht) ← count_oks op args ht; return (reply_integer oks, ht)) (Atomic ht) :=
  write_atomic _ (fun _ => reply_integer_head _)

theorem exec_push_atomic (dir : ListDirection) : AtomicHandler (exec_push mc dir) :=
  with_argc_atomic (with_type_atomic (fun _ _ _ => write_atomic _ (fun _ => reply_integer_head _)))

theorem exec_pop_atomic (dir : ListDirection) : AtomicHandler (exec_pop mc dir) :=
  with_argc_atomic (with_type_atomic (fun _ _ _ => write_atomic _ (fun _ => reply_string_head _)))

/-- A command that only reads changes nothing whatever it answers. -/
theorem fns_atomic (type : CommandType) : AtomicHandler (fns mc type) := by
  cases hwrites : type.writes with
  | false => exact fun ht cmd => (fns_readOnly hwrites ht cmd).mono (fun _ hr _ => hr)
  | true =>
    cases type with
    | DEL =>
      change AtomicHandler (exec_del mc)
      exact with_argc_atomic (fun _ _ => count_oks_atomic)
    | SET =>
      change AtomicHandler (exec_set mc)
      exact with_argc_atomic (fun _ _ => write_atomic _ (fun _ => reply_string_head _))
    | MSET =>
      change AtomicHandler (exec_mset mc)
      exact with_argc_atomic (fun _ _ => write_atomic _ (fun _ => reply_string_head _))
    | INCR => exact exec_step_atomic _ _ _
    | DECR => exact exec_step_atomic _ _ _
    | INCRBY => exact exec_stepby_atomic _
    | DECRBY => exact exec_stepby_atomic _
    | HSET =>
      change AtomicHandler (exec_hset mc)
      exact with_argc_atomic (with_type_atomic (fun _ _ _ => count_oks_atomic))
    | HDEL =>
      change AtomicHandler (exec_hdel mc)
      exact with_argc_atomic (with_type_atomic (fun _ _ _ => count_oks_atomic))
    | LPUSH => exact exec_push_atomic .LEFT
    | LPOP => exact exec_pop_atomic .LEFT
    | RPUSH => exact exec_push_atomic .RIGHT
    | RPOP => exact exec_pop_atomic .RIGHT
    | LSET => exact exec_lset_atomic
    | LREM => exact exec_lrem_atomic
    | SADD =>
      change AtomicHandler (exec_sadd mc)
      exact with_argc_atomic (with_type_atomic (fun _ _ _ => count_oks_atomic))
    | SREM =>
      change AtomicHandler (exec_srem mc)
      exact with_argc_atomic (with_type_atomic (fun _ _ _ => count_oks_atomic))
    | _ => cases hwrites

/-- Whatever the store, a command that is answered with an error has left the
    store, with everything nested in it, as it was. -/
theorem interpret_error_unchanged (mc : Machine) (ht ht' : HashTable) (cmd : Command) (reply : CStr)
    (h : interpret mc ht cmd = .ok (reply, ht')) (herror : reply.head? = some CChar.minus) : ht' = ht :=
  (fns_atomic cmd.type ht cmd).of_eq_ok h herror

theorem interpret_error_unchanged_hset :
    ∃ reply ht', interpret machine ⟨1, [.live ⟨.STR_T, cstr "k", .str (cstr "v")⟩, .null]⟩
        ⟨.HSET, [cstr "k", cstr "f", cstr "x"]⟩ = .ok (reply, ht') ∧
      reply.head? = some CChar.minus ∧ ht' = ⟨1, [.live ⟨.STR_T, cstr "k", .str (cstr "v")⟩, .null]⟩ :=
  have h : interpret machine ⟨1, [.live ⟨.STR_T, cstr "k", .str (cstr "v")⟩, .null]⟩
      ⟨.HSET, [cstr "k", cstr "f", cstr "x"]⟩ =
      .ok (reply_err_type, ⟨1, [.live ⟨.STR_T, cstr "k", .str (cstr "v")⟩, .null]⟩) := rfl
  ⟨_, _, h, by decide, interpret_error_unchanged machine _ _ _ _ h (by decide)⟩

end hyperkv
