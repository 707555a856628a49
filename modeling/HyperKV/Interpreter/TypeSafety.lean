import HyperKV.Interpreter.Atomic
import HyperKV.Interpreter.Faults

open Outcome

namespace hyperkv

variable {mc : Machine} {ht : HashTable}

/-- The type that a command asks of its first key. -/
def CommandType.key_type : CommandType → Option ItemType
  | .GET | .MGET | .INCR | .DECR | .INCRBY | .DECRBY | .STRLEN => some .STR_T
  | .HSET | .HGET | .HDEL | .HGETALL | .HEXISTS | .HKEYS | .HVALS | .HMGET | .HLEN => some .HASH_T
  | .LPUSH | .LPOP | .RPUSH | .RPOP | .LLEN | .LINDEX | .LRANGE | .LSET | .LREM | .LPOS => some .LIST_T
  | .SADD | .SREM | .SISMEMBER | .SMEMBERS | .SMISMEMBER => some .SET_T
  | _ => none

/-- A handler with both checks, the second one for this type. -/
def TypedHandler (mc : Machine) (type : ItemType) (handler : Handler) : Prop :=
  ∃ accepted expected_argc expected body,
    handler = with_argc accepted expected_argc (with_type mc expected body) ∧
      cstr expected = type.name ∧ ∀ n, accepted n → 0 < n

theorem with_argc_typed {accepted : Nat → Bool} {expected_argc expected : String} {body : CStr → Handler}
    {type : ItemType} (hname : cstr expected = type.name) (hargc : ∀ n, accepted n → 0 < n) :
    TypedHandler mc type (with_argc accepted expected_argc (with_type mc expected body)) :=
  ⟨_, _, _, _, rfl, hname, hargc⟩

theorem fns_typed {command : CommandType} {type : ItemType} (h : command.key_type = some type) :
    TypedHandler mc type (fns mc command) := by
  cases command <;> cases h <;>
    simp only [fns, exec_get, exec_mget, exec_incr, exec_decr, exec_step, exec_incrby, exec_decrby,
      exec_stepby, exec_strlen, exec_hset, exec_hget, exec_hdel, exec_hgetall, exec_hexists, exec_hkeys,
      exec_hvals, exec_hkeyvals, exec_hmget, exec_hlen, exec_lpush, exec_rpush, exec_push, exec_lpop,
      exec_rpop, exec_pop, exec_llen, exec_lindex, exec_lrange, exec_lset, exec_lrem, exec_lpos, exec_sadd,
      exec_srem, exec_sismember, exec_smembers, exec_smismember] <;>
    exact with_argc_typed rfl (by grind)

/-- A command of one type is refused on a key of another. -/
theorem typed_handler_refuses {type : ItemType} {handler : Handler} (hhandler : TypedHandler mc type handler)
    (h : StoreOk mc ht) {cmd : Command} {key : CStr} (hkey : cmd.argv[0]? = some key)
    (hother : ¬ TypedAt ht key type) :
    Ensures (IndexFault mc) (handler ht cmd) (fun r => r.1.head? = some CChar.minus ∧ r.2 = ht) := by
  obtain ⟨accepted, expected_argc, expected, body, rfl, hname, hargc⟩ := hhandler
  refine with_argc_ensures (fun haccepted => ?_) ⟨rfl, rfl⟩
  refine with_type_ensures h type hname (hargc _ haccepted) (fun _ _ _ => Missed.indexFault) ?_
    (fun _ _ _ => ⟨rfl, rfl⟩)
  intro first hfirst htyped
  rw [hkey] at hfirst
  cases hfirst
  exact absurd htyped hother

/-- A string is not stored under a key of another type. -/
theorem htable_set_refuses (h : StoreOk mc ht) {key : CStr} (hother : ¬ TypedAt ht key .STR_T)
    (value : CStr) :
    Ensures (IndexFault mc) (htable_set mc ht key value) (fun r => r = (ht, false)) := by
  refine (htable_set_cases h.table key value).mono ?_
  rintro r (⟨habsent, _⟩ | ⟨p, item, _, _, heq⟩ | ⟨p, item, hold, htype, _⟩)
  · exact absurd (habsent.typedAt _) hother
  · exact heq
  · refine absurd (fun other hmem hkey => ?_) hother
    rw [hold.unique h.table hmem hkey, htype]

theorem exec_set_refuses (h : StoreOk mc ht) {cmd : Command} {key : CStr} (hkey : cmd.argv[0]? = some key)
    (hother : ¬ TypedAt ht key .STR_T) (hargc : cmd.argc ≤ 2) :
    Ensures (IndexFault mc) (exec_set mc ht cmd) (fun r => r = (reply_string (some (cstr "OK")), ht)) := by
  rw [exec_set, with_argc, if_pos (decide_eq_true hargc)]
  refine Ensures.bind (P := fun ht' => ht' = ht) ?_ (fun ht' heq => by rw [heq]; rfl)
  have hset : ∀ value,
      Ensures (IndexFault mc) (Prod.fst <$> htable_set mc ht key value) (fun ht' => ht' = ht) :=
    fun value => Ensures.map ((htable_set_refuses h hother value).mono (fun r hr => by rw [hr]))
  have harg : cmd.arg 0 = .ok key := by rw [Command.arg, hkey]
  split
  · rw [harg, ok_bind]
    exact hset []
  · split
    · obtain ⟨value, hvalue, _⟩ := cmd.arg_ok (i := 1) (by omega)
      rw [harg, ok_bind, hvalue, ok_bind]
      exact hset value
    · rfl

theorem exec_mset_reply (h : StoreOk mc ht) (cmd : Command) (hargc : cmd.argc ≥ 2 ∧ cmd.argc % 2 = 0) :
    Ensures (IndexFault mc) (exec_mset mc ht cmd) (fun r => r.1 = reply_string (some (cstr "OK"))) := by
  rw [exec_mset, with_argc, if_pos (by simpa using hargc)]
  exact (Ensures.foldlM (fun _ ht => StoreOk mc ht)
    (fun pair _ _ h => Ensures.map (htable_set_storeOk h pair.1 pair.2)) (pairs cmd.argv) _ h).bind
    (fun _ _ => rfl)

/-- The tags of the store and of the hashes in it name the types of their values. -/
theorem StoreOk.tags (h : StoreOk mc ht) : ∀ item ∈ ht.items, item.value.type = item.type ∧
    ∀ t, item.value = .hash t → ∀ field ∈ t.items, field.value.type = field.type := by
  intro item hmem
  have hitem := h.items item hmem
  refine ⟨hitem.type_eq, fun t hvalue field hfield => ?_⟩
  obtain ⟨t', hvalue', ops, hrun⟩ := hitem.hash (by rw [← hitem.type_eq, hvalue]; rfl)
  rw [hvalue] at hvalue'
  cases hvalue'
  obtain ⟨value, heq⟩ := (htable_run_hashOk hrun).strings field hfield
  rw [heq]
  rfl

/-- In every reachable store tags name the types of the values. A command other than
    an `MGET` that names a key of another type behind a first key it may read never
    reads a value at another type: on the machine that makes every such read a fault
    it meets none. A command of one type refuses a first key of another; `SET` and the
    pairs of `MSET` skip such a key, and answer `OK` all the same. -/
theorem interpret_type_safe (mc : Machine) {ht : HashTable} (h : Reachable mc ht) (cmd : Command)
    (hcmd : ¬ Reinterprets ht cmd) :
    (∀ item ∈ ht.items, item.value.type = item.type ∧
      ∀ t, item.value = .hash t → ∀ field ∈ t.items, field.value.type = field.type) ∧
    Ensures (fun e => e ≠ .wrongType) (interpret { mc with cast := none } ht cmd) (fun _ => True) ∧
    (∀ type key, cmd.type.key_type = some type → cmd.argv[0]? = some key → ¬ TypedAt ht key type →
      Ensures (IndexFault mc) (interpret mc ht cmd) (fun r => r.1.head? = some CChar.minus ∧ r.2 = ht)) ∧
    (∀ key, cmd.type = .SET → cmd.argc ≤ 2 → cmd.argv[0]? = some key → ¬ TypedAt ht key .STR_T →
      Ensures (IndexFault mc) (interpret mc ht cmd) (fun r => r = (reply_string (some (cstr "OK")), ht))) ∧
    (cmd.type = .MSET → cmd.argc ≥ 2 ∧ cmd.argc % 2 = 0 →
      Ensures (IndexFault mc) (interpret mc ht cmd) (fun r => r.1 = reply_string (some (cstr "OK")))) ∧
    ∀ key value, ¬ TypedAt ht key .STR_T →
      Ensures (IndexFault mc) (htable_set mc ht key value) (fun r => r = (ht, false)) := by
  have hok := h.storeOk
  refine ⟨hok.tags, ?_, ?_, ?_, ?_, fun key value hother => htable_set_refuses hok hother value⟩
  · refine ((interpret_spec (hok.recast none) cmd).tolerate ?_).mono (fun _ _ => trivial)
    rintro e (⟨rfl, _⟩ | ⟨_, _, hmget⟩ | ⟨rfl, _⟩)
    · simp
    · exact absurd hmget hcmd
    · simp
  · exact fun type key htype hkey hother => typed_handler_refuses (fns_typed htype) hok hkey hother
  · intro key htype hargc hkey hother
    rw [interpret, htype]
    exact exec_set_refuses hok hkey hother hargc
  · intro htype hargc
    rw [interpret, htype]
    exact exec_mset_reply hok cmd hargc

theorem interpret_type_safe_hash :
    Ensures (IndexFault machine) (run_commands machine [⟨.HSET, [cstr "b", cstr "1", cstr "2"]⟩]) (fun ht =>
      Ensures (IndexFault machine) (interpret machine ht ⟨.GET, [cstr "b"]⟩)
        (fun r => r.1.head? = some CChar.minus ∧ r.2 = ht)) := by
  have hother : Ensures (IndexFault machine) (run_commands machine [⟨.HSET, [cstr "b", cstr "1", cstr "2"]⟩])
      (fun ht => ¬ TypedAt ht (cstr "b") .STR_T) := by
    decide +kernel
  refine hother.mono_eq (fun ht hrun hstring => ?_)
  exact (interpret_type_safe machine ⟨_, hrun⟩ ⟨.GET, [cstr "b"]⟩ (fun hmget => by cases hmget.1)).2.2.1
    .STR_T (cstr "b") rfl rfl hstring

/-- `SET` of a key that holds a hash answers neither an error nor nil. -/
theorem interpret_set_hash :
    ¬ Ensures (IndexFault machine)
      (run_commands machine [⟨.HSET, [cstr "b", cstr "1", cstr "2"]⟩] >>= fun ht =>
        interpret machine ht ⟨.SET, [cstr "b", cstr "hello"]⟩)
      (fun r => r.1.head? = some CChar.minus ∨ r.1 = reply_string none) := by
  decide +kernel

end hyperkv
