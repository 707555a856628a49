import HyperKV.Htable.SmallStores
import HyperKV.Interpreter.Faults
import HyperKV.Interpreter.Listings

open Outcome OpenAddressing

namespace hyperkv

variable {ht : HashTable} {k : Nat} {cmd : Command} {P : CStr × HashTable → Prop}

/-- A handler that does the same in both arithmetics, while the insertions that its
    arguments ask for leave all tables small. -/
def SameSmall (handler : Machine → Handler) : Prop :=
  ∀ k ht cmd, SmallStore k ht → k + cmd.argc ≤ 8192 →
    Same (handler machine ht cmd) (handler unbounded ht cmd) (fun r => SmallStore (k + cmd.argc) r.2)

/-! ## The frames -/

theorem with_argc_same {accepted : Nat → Bool} {expected : String} {body' body : Handler}
    (hbody : accepted cmd.argc → Same (body' ht cmd) (body ht cmd) P)
    (hrefused : P (reply_err_argc cmd.argc expected, ht)) :
    Same (with_argc accepted expected body' ht cmd) (with_argc accepted expected body ht cmd) P :=
  Same.ite hbody fun _ => Ensures.same hrefused

theorem with_type_same {expected : String} {body' body : CStr → Handler} (h : SmallStore k ht)
    (hk : k ≤ 8192)
    (hbody : ∀ key, Same (body' key ht cmd) (body key ht cmd) P) (hrefused : P (reply_err_type, ht)) :
    Same (with_type machine expected body' ht cmd) (with_type unbounded expected body ht cmd) P := by
  unfold with_type
  rw [htable_type_small h.table hk]
  refine (ensures_any (cmd.arg 0)).bind_same fun key _ => (ensures_any _).bind_same fun type _ => ?_
  exact Same.ite (fun _ => hbody key) fun _ => Ensures.same hrefused

/-- A loop that makes at most one insertion into each table for each of its arguments. -/
theorem loop_same {α σ : Type} (store : σ → HashTable) {step' step : σ → α → Exec σ}
    (hstep : ∀ k s a, SmallStore k (store s) → k + 1 ≤ 8192 →
      Same (step' s a) (step s a) (fun s' => SmallStore (k + 1) (store s')))
    (args : List α) {s : σ} (h : SmallStore k (store s)) (hk : k + args.length ≤ 8192) :
    Same (args.foldlM step' s) (args.foldlM step s)
      (fun s' => SmallStore (k + args.length) (store s')) := by
  refine (Same.foldlM (fun rest s => ∃ j, j + rest.length = k + args.length ∧ SmallStore j (store s)) ?_
    args s ⟨k, rfl, h⟩).mono ?_
  · rintro a rest s ⟨j, hj, hs⟩
    rw [List.length_cons] at hj
    exact (hstep j s a hs (by omega)).mono fun s' hs' => ⟨j + 1, by omega, hs'⟩
  · rintro s' ⟨j, hj, hs'⟩
    exact hs'.mono (by rw [← hj]; exact Nat.le_add_right ..)

theorem count_oks_same {α : Type} {op' op : HashTable → α → Exec (HashTable × Bool)}
    (hop : ∀ k ht a, SmallStore k ht → k + 1 ≤ 8192 →
      Same (op' ht a) (op ht a) (fun r => SmallStore (k + 1) r.1))
    (args : List α) (h : SmallStore k ht) (hk : k + args.length ≤ 8192) :
    Same (do let (oks, ht) ← count_oks op' args ht; return (reply_integer oks, ht))
      (do let (oks, ht) ← count_oks op args ht; return (reply_integer oks, ht))
      (fun r => SmallStore (k + args.length) r.2) := by
  refine (loop_same Prod.snd (fun j s a hs hj => ?_) args (s := (0, ht)) h hk).bind
    fun _ hr => Ensures.same hr
  exact (hop j s.2 a hs hj).bind fun _ hr => Ensures.same hr

/-! ## The handlers that write -/

theorem tail_length_le (cmd : Command) : cmd.argv.tail.length ≤ cmd.argc := by
  rw [List.length_tail]
  exact Nat.sub_le ..

/-- What a handler of one type does behind both checks. -/
theorem typed_same {accepted : Nat → Bool} {argc expected : String} {body : Machine → CStr → Handler}
    (hbody : ∀ k ht cmd key, SmallStore k ht → k + cmd.argc ≤ 8192 → accepted cmd.argc →
      Same (body machine key ht cmd) (body unbounded key ht cmd)
        (fun r => SmallStore (k + cmd.argc) r.2)) :
    SameSmall fun mc => with_argc accepted argc (with_type mc expected (body mc)) := by
  intro k ht cmd h hk
  have hweak := h.mono (Nat.le_add_right k cmd.argc)
  exact with_argc_same (fun haccepted => with_type_same h (by omega)
    (fun key => hbody k ht cmd key h hk haccepted) hweak) hweak

theorem exec_del_same : SameSmall exec_del := by
  intro k ht cmd h hk
  refine with_argc_same (fun _ => ?_) (h.mono (Nat.le_add_right ..))
  refine count_oks_same (fun j ht key hht hj => ?_) cmd.argv h hk
  exact (htable_del_store hht (by omega) key).mono fun _ hr => hr.mono (Nat.le_succ j)

theorem exec_set_same : SameSmall exec_set := by
  intro k ht cmd h hk
  have hweak := h.mono (Nat.le_add_right k cmd.argc)
  refine with_argc_same (fun _ => ?_) hweak
  refine Same.bind (P := SmallStore (k + cmd.argc)) ?_ fun _ hht => Ensures.same hht
  refine Same.ite (fun hone => ?_) fun _ => Same.ite (fun htwo => ?_) fun _ => Ensures.same hweak
  · refine (ensures_any (cmd.arg 0)).bind_same fun key _ => Same.map ?_
    exact (htable_set_store h (by omega) key []).mono fun _ hr => hr.mono (by omega)
  · refine (ensures_any (cmd.arg 0)).bind_same fun key _ =>
      (ensures_any (cmd.arg 1)).bind_same fun value _ => ?_
    exact Same.map ((htable_set_store h (by omega) key value).mono fun _ hr => hr.mono (by omega))

theorem exec_mset_same : SameSmall exec_mset := by
  intro k ht cmd h hk
  refine with_argc_same (fun _ => ?_) (h.mono (Nat.le_add_right ..))
  have hlen := length_pairs cmd.argv
  change 2 * _ ≤ cmd.argc at hlen
  refine (loop_same id (fun j s pair hs hj => ?_) (pairs cmd.argv) h (by omega)).bind
    fun _ hht => Ensures.same (hht.mono (by omega))
  exact Same.map (htable_set_store hs hj pair.1 pair.2)

/-- Storing one text. -/
theorem set_answer_same (h : SmallStore k ht) (hk : k + cmd.argc ≤ 8192) (hargc : 1 ≤ cmd.argc)
    (key value reply : CStr) :
    Same (do let (ht, _) ← htable_set machine ht key value; return (reply, ht))
      (do let (ht, _) ← htable_set unbounded ht key value; return (reply, ht))
      (fun r => SmallStore (k + cmd.argc) r.2) :=
  (htable_set_store h (by omega) key value).bind fun _ hr => Ensures.same (hr.mono (by omega))

theorem exec_step_same (missing : String) (answer change : Int) :
    SameSmall fun mc => exec_step mc missing answer change := by
  refine typed_same fun k ht cmd key h hk haccepted => ?_
  have hargc : 1 ≤ cmd.argc := Nat.le_of_eq (of_decide_eq_true haccepted).symm
  rw [htable_get_small h.table (by omega)]
  refine (ensures_any _).bind_same fun res _ => ?_
  cases res with
  | none => exact set_answer_same h hk hargc key _ _
  | some res =>
    refine Same.ite (fun _ => set_answer_same h hk hargc key _ _) fun _ => ?_
    exact Ensures.same (h.mono (Nat.le_add_right ..))

theorem exec_stepby_same (combine : Int → Int → Int) : SameSmall fun mc => exec_stepby mc combine := by
  refine typed_same fun k ht cmd key h hk haccepted => ?_
  have hargc : 1 ≤ cmd.argc := by
    have htwo : cmd.argc = 2 := of_decide_eq_true haccepted
    omega
  rw [htable_get_small h.table (by omega)]
  refine (ensures_any _).bind_same fun res _ => (ensures_any (cmd.arg 1)).bind_same fun operand _ => ?_
  refine Same.ite (fun _ => set_answer_same h hk hargc key _ _) fun _ => ?_
  refine (ensures_any (deref res)).bind_same fun text _ => ?_
  refine Same.ite (fun _ => set_answer_same h hk hargc key _ _) fun _ => ?_
  exact Ensures.same (h.mono (Nat.le_add_right ..))

theorem exec_hset_same : SameSmall exec_hset := by
  refine typed_same fun k ht cmd key h hk _ => ?_
  have hlen := length_pairs cmd.argv.tail
  have htail := tail_length_le cmd
  refine (count_oks_same (fun j ht pair hht hj => ?_) (pairs cmd.argv.tail) h (by omega)).mono
    fun _ hr => hr.mono (by omega)
  exact htable_hset_store hht hj key pair.1 pair.2

/-- A handler that counts over all arguments behind the key. -/
theorem count_tail_same {op : Machine → HashTable → CStr → CStr → Exec (HashTable × Bool)}
    {accepted : Nat → Bool}
    {argc expected : String}
    (hop : ∀ k ht key a, SmallStore k ht → k + 1 ≤ 8192 →
      Same (op machine ht key a) (op unbounded ht key a) (fun r => SmallStore (k + 1) r.1)) :
    SameSmall fun mc => with_argc accepted argc <| with_type mc expected fun key ht cmd => do
      let (oks, ht) ← count_oks (fun ht a => op mc ht key a) cmd.argv.tail ht
      return (reply_integer oks, ht) := by
  refine typed_same fun k ht cmd key h hk _ => ?_
  have htail := tail_length_le cmd
  exact (count_oks_same (fun j ht a hht hj => hop j ht key a hht hj) cmd.argv.tail h (by omega)).mono
    fun _ hr => hr.mono (by omega)

theorem exec_hdel_same : SameSmall exec_hdel :=
  count_tail_same fun j _ key field hht hj =>
    (htable_hdel_store hht (by omega) key field).mono fun _ hr => hr.mono (Nat.le_succ j)

theorem exec_sadd_same : SameSmall exec_sadd :=
  count_tail_same fun _ _ key value hht hj => htable_sadd_store hht hj key value

theorem exec_srem_same : SameSmall exec_srem :=
  count_tail_same fun j _ key value hht hj =>
    (htable_srem_store hht (by omega) key value).mono fun _ hr => hr.mono (Nat.le_succ j)

theorem exec_push_same (dir : ListDirection) : SameSmall fun mc => exec_push mc dir := by
  refine typed_same fun k ht cmd key h hk _ => ?_
  have htail := tail_length_le cmd
  refine (loop_same Prod.snd (fun j s value hs hj => ?_) cmd.argv.tail (s := (0, ht)) h
    (by omega)).bind fun _ hr => Ensures.same (hr.mono (by omega))
  exact (htable_push_store hs hj key value dir).bind fun _ hr => Ensures.same hr

theorem exec_pop_same (dir : ListDirection) : SameSmall fun mc => exec_pop mc dir := by
  refine typed_same fun k ht cmd key h hk _ => ?_
  exact (htable_pop_store h (by omega) key dir).bind fun _ hr =>
    Ensures.same (hr.mono (Nat.le_add_right ..))

theorem exec_lset_same : SameSmall exec_lset := by
  refine typed_same fun k ht cmd key h hk _ => ?_
  have hweak := h.mono (Nat.le_add_right k cmd.argc)
  have hcheck : htable_check_id machine ht = htable_check_id unbounded ht := by
    unfold htable_check_id
    rw [htable_search_small h.table (by omega)]
  refine (ensures_any (cmd.arg 1)).bind_same fun index _ =>
    Same.ite (fun _ => ?_) fun _ => Ensures.same hweak
  rw [hcheck]
  refine (ensures_any _).bind_same fun r _ => Same.ite (fun _ => Ensures.same hweak) fun _ => ?_
  refine (ensures_any (cmd.arg 2)).bind_same fun value _ => ?_
  exact (htable_lset_store h (by omega) key r.2 value).bind fun _ hr =>
    Ensures.same (hr.mono (Nat.le_add_right ..))

theorem exec_lrem_same : SameSmall exec_lrem := by
  refine typed_same fun k ht cmd key h hk _ => ?_
  have hweak := h.mono (Nat.le_add_right k cmd.argc)
  refine (ensures_any (cmd.arg 1)).bind_same fun count _ =>
    Same.ite (fun _ => ?_) fun _ => Ensures.same hweak
  refine (ensures_any (cmd.arg 2)).bind_same fun value _ => ?_
  exact (htable_lrem_store h (by omega) key _ value).bind fun _ hr =>
    Ensures.same (hr.mono (Nat.le_add_right ..))

/-! ## The handlers that read -/

theorem exec_exists_same : SameSmall exec_exists := by
  intro k ht cmd h hk
  refine with_argc_same (fun _ => ?_) (h.mono (Nat.le_add_right ..))
  refine count_oks_same (fun j ht key hht hj => ?_) cmd.argv h hk
  rw [htable_exists_small hht.table (by omega)]
  exact (ensures_any _).bind_same fun _ _ => Ensures.same (hht.mono (Nat.le_succ j))

/-- They look at the tables through `htable_search` and `set_ismember` only. -/
theorem fns_read_same {type : CommandType} (htype : type.writes = false) :
    SameSmall fun mc => fns mc type := by
  intro k ht cmd h hk
  have hsearch := htable_search_small h.table (by omega)
  have htyped := htable_type_small h.table (by omega)
  have hget := htable_get_small h.table (by omega)
  have hhget := htable_hget_small h (by omega)
  have hexists := htable_exists_small h.table (by omega)
  have hismember := htable_sismember_small h (by omega)
  have hkept : Ensures AnyFault (fns unbounded type ht cmd) (fun r => SmallStore (k + cmd.argc) r.2) :=
    (fns_readOnly htype ht cmd).mono fun r hr => hr ▸ h.mono (Nat.le_add_right ..)
  refine ⟨?_, hkept⟩
  cases type with
  | EXISTS => exact (exec_exists_same k ht cmd h hk).eq
  | TYPE => simp only [fns, exec_type, with_argc, htyped]
  | GET | MGET | STRLEN =>
    simp only [fns, exec_get, exec_mget, exec_strlen, with_argc, with_type, htyped, hget]
  | HGET | HEXISTS | HMGET =>
    simp only [fns, exec_hget, exec_hexists, exec_hmget, with_argc, with_type, htyped, hhget, hexists]
  | HGETALL | HKEYS | HVALS | HLEN =>
    simp only [fns, exec_hgetall, exec_hkeys, exec_hvals, exec_hkeyvals, exec_hlen, with_argc,
      with_type, htyped, htable_hgetall, htable_hkeyvals, htable_hlen, hsearch, copy_pair_unbounded,
      copy_side_unbounded]
  | LLEN | LINDEX | LRANGE | LPOS =>
    simp only [fns, exec_llen, exec_lindex, exec_lrange, exec_lpos, with_argc, with_type, htyped,
      htable_llen, htable_check_id, htable_lindex, htable_check_ids, htable_lrange, htable_lpos, hsearch]
  | SISMEMBER | SMISMEMBER | SMEMBERS =>
    simp only [fns, exec_sismember, exec_smismember, exec_smembers, with_argc, with_type, htyped,
      htable_smembers, hismember, hexists, hsearch]
  | QUIT | SHUTDOWN | UNKNOWN | NOOP => rfl
  | _ => cases htype

/-! ## Every command -/

theorem interpret_same (h : SmallStore k ht) (hk : k + cmd.argc ≤ 8192) :
    Same (interpret machine ht cmd) (interpret unbounded ht cmd)
      (fun r => SmallStore (k + cmd.argc) r.2) := by
  unfold interpret
  cases hwrites : cmd.type.writes with
  | false => exact fns_read_same hwrites k ht cmd h hk
  | true =>
    cases htype : cmd.type with
    | DEL => exact exec_del_same k ht cmd h hk
    | SET => exact exec_set_same k ht cmd h hk
    | MSET => exact exec_mset_same k ht cmd h hk
    | INCR => exact exec_step_same _ _ _ k ht cmd h hk
    | DECR => exact exec_step_same _ _ _ k ht cmd h hk
    | INCRBY => exact exec_stepby_same _ k ht cmd h hk
    | DECRBY => exact exec_stepby_same _ k ht cmd h hk
    | HSET => exact exec_hset_same k ht cmd h hk
    | HDEL => exact exec_hdel_same k ht cmd h hk
    | LPUSH => exact exec_push_same .LEFT k ht cmd h hk
    | LPOP => exact exec_pop_same .LEFT k ht cmd h hk
    | RPUSH => exact exec_push_same .RIGHT k ht cmd h hk
    | RPOP => exact exec_pop_same .RIGHT k ht cmd h hk
    | LSET => exact exec_lset_same k ht cmd h hk
    | LREM => exact exec_lrem_same k ht cmd h hk
    | SADD => exact exec_sadd_same k ht cmd h hk
    | SREM => exact exec_srem_same k ht cmd h hk
    | _ =>
      rw [htype] at hwrites
      cases hwrites

end hyperkv
