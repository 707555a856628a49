import HyperKV.Interpreter.Frames

open Outcome

namespace hyperkv

variable {mc : Machine} {ht : HashTable}

/-- A handler that leaves the store it was given. -/
def ReadOnly (handler : Handler) : Prop := ∀ ht cmd, Ensures AnyFault (handler ht cmd) (fun r => r.2 = ht)

/-! ## The frames -/

theorem with_argc_readOnly {accepted : Nat → Bool} {expected : String} {body : Handler}
    (hbody : ReadOnly body) : ReadOnly (with_argc accepted expected body) :=
  fun ht cmd => with_argc_ensures (fun _ => hbody ht cmd) rfl

theorem with_type_readOnly {expected : String} {body : CStr → Handler} (hbody : ∀ key, ReadOnly (body key)) :
    ReadOnly (with_type mc expected body) :=
  fun ht cmd => with_type_any (fun key => hbody key ht cmd) rfl

/-- Answering from a read. -/
theorem answer_readOnly {α : Type} (read : Exec α) (reply : α → CStr) :
    Ensures AnyFault (do return (reply (← read), ht)) (fun r => r.2 = ht) :=
  Ensures.bind_any (fun _ => rfl)

/-- A handler of one type that answers from a read of its key. -/
theorem typed_readOnly {α : Type} {accepted : Nat → Bool} {expected_argc expected : String}
    (read : CStr → HashTable → Command → Exec α) (reply : α → CStr) :
    ReadOnly (with_argc accepted expected_argc (with_type mc expected fun key ht cmd => do
      return (reply (← read key ht cmd), ht))) :=
  with_argc_readOnly (with_type_readOnly (fun _ _ _ => answer_readOnly _ reply))

/-- A handler of one type that answers from a read of its key and one argument. -/
theorem typed_arg_readOnly {α : Type} {accepted : Nat → Bool} {expected_argc expected : String}
    (read : CStr → HashTable → CStr → Exec α) (reply : α → CStr) :
    ReadOnly (with_argc accepted expected_argc (with_type mc expected fun key ht cmd => do
      let arg ← cmd.arg 1
      return (reply (← read key ht arg), ht))) :=
  with_argc_readOnly (with_type_readOnly (fun _ _ _ => Ensures.bind_any (fun _ => answer_readOnly _ reply)))

/-! ## The handlers -/

theorem exec_exists_readOnly : ReadOnly (exec_exists mc) := by
  refine with_argc_readOnly (fun ht cmd => ?_)
  refine (count_oks_ensures (· = ht) (fun _ _ hsame => ?_) cmd.argv rfl).bind (fun _ hr => hr)
  exact Ensures.bind_any (fun _ => hsame)

theorem exec_hmget_readOnly : ReadOnly (exec_hmget mc) := by
  refine with_argc_readOnly (with_type_readOnly (fun key ht cmd => Ensures.bind_any (fun found => ?_)))
  split
  · exact answer_readOnly _ _
  · exact rfl

theorem exec_lindex_readOnly : ReadOnly (exec_lindex mc) := by
  refine with_argc_readOnly (with_type_readOnly (fun key ht cmd => Ensures.bind_any (fun index => ?_)))
  split
  · refine Ensures.bind_any ?_
    rintro ⟨code, id⟩
    dsimp only
    split
    · exact rfl
    · exact answer_readOnly _ _
  · exact rfl

theorem exec_lrange_readOnly : ReadOnly (exec_lrange mc) := by
  refine with_argc_readOnly (with_type_readOnly (fun key ht cmd =>
    Ensures.bind_any (fun bgn => Ensures.bind_any (fun stop => ?_))))
  split
  · refine Ensures.bind_any ?_
    rintro ⟨code, bgn, stop⟩
    dsimp only
    split
    · exact rfl
    · exact answer_readOnly _ _
  · exact rfl

theorem exec_smismember_readOnly : ReadOnly (exec_smismember mc) := by
  refine with_argc_readOnly (with_type_readOnly (fun key ht cmd => Ensures.bind_any (fun found => ?_)))
  split
  · exact answer_readOnly _ _
  · exact rfl

/-- The commands whose handlers may change the store. -/
def CommandType.writes : CommandType → Bool
  | .DEL | .SET | .MSET | .INCR | .DECR | .INCRBY | .DECRBY | .HSET | .HDEL | .LPUSH | .LPOP | .RPUSH | .RPOP
  | .LSET | .LREM | .SADD | .SREM => true
  | _ => false

/-- Every other command leaves the store as it was. -/
theorem fns_readOnly {type : CommandType} (htype : type.writes = false) : ReadOnly (fns mc type) := by
  cases type with
  | EXISTS => exact exec_exists_readOnly
  | TYPE =>
    change ReadOnly (exec_type mc)
    exact with_argc_readOnly (fun _ _ => Ensures.bind_any (fun _ => answer_readOnly _ _))
  | GET =>
    change ReadOnly (exec_get mc)
    exact typed_readOnly _ _
  | MGET =>
    change ReadOnly (exec_mget mc)
    exact typed_readOnly _ _
  | STRLEN =>
    change ReadOnly (exec_strlen mc)
    exact typed_readOnly _ _
  | HGET =>
    change ReadOnly (exec_hget mc)
    exact typed_arg_readOnly _ _
  | HGETALL =>
    change ReadOnly (exec_hgetall mc)
    exact typed_readOnly _ _
  | HEXISTS =>
    change ReadOnly (exec_hexists mc)
    exact typed_arg_readOnly _ _
  | HKEYS =>
    change ReadOnly (exec_hkeyvals mc true)
    exact typed_readOnly _ _
  | HVALS =>
    change ReadOnly (exec_hkeyvals mc false)
    exact typed_readOnly _ _
  | HMGET => exact exec_hmget_readOnly
  | HLEN =>
    change ReadOnly (exec_hlen mc)
    exact typed_readOnly _ _
  | LLEN =>
    change ReadOnly (exec_llen mc)
    exact typed_readOnly _ _
  | LINDEX => exact exec_lindex_readOnly
  | LRANGE => exact exec_lrange_readOnly
  | LPOS =>
    change ReadOnly (exec_lpos mc)
    exact typed_arg_readOnly _ _
  | SISMEMBER =>
    change ReadOnly (exec_sismember mc)
    exact typed_arg_readOnly _ _
  | SMEMBERS =>
    change ReadOnly (exec_smembers mc)
    exact typed_readOnly _ _
  | SMISMEMBER => exact exec_smismember_readOnly
  | QUIT => exact fun _ _ => rfl
  | SHUTDOWN => exact fun _ _ => rfl
  | UNKNOWN => exact fun _ _ => rfl
  | NOOP => exact fun _ _ => rfl
  | _ => cases htype

end hyperkv
