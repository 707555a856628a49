import HyperKV.Htable.Reads
import HyperKV.Interpreter.Frames

open Outcome

namespace hyperkv

variable {mc : Machine} {ht : HashTable} {key : CStr}

/-- Behind the check of `argc` every argument that is read is there. -/
theorem Command.arg_ok (cmd : Command) {i : Nat} (h : i < cmd.argc) :
    ∃ s, cmd.arg i = .ok s ∧ cmd.argv[i]? = some s := by
  have hget := List.getElem?_eq_getElem h
  refine ⟨cmd.argv[i], ?_, hget⟩
  rw [Command.arg, hget]

/-! ## The frames -/

/-- A handler that meets no fault but an overflowing probe index, and keeps the
    store sound. -/
def SafeHandler (mc : Machine) (handler : Handler) : Prop :=
  ∀ ht cmd, StoreOk mc ht → Ensures (IndexFault mc) (handler ht cmd) (fun r => StoreOk mc r.2)

/-- A wrong number of arguments is answered without looking at the store. -/
theorem with_argc_safe {accepted : Nat → Bool} {expected : String} {body : Handler}
    (hbody : ∀ ht cmd, StoreOk mc ht → accepted cmd.argc →
      Ensures (IndexFault mc) (body ht cmd) (fun r => StoreOk mc r.2)) :
    SafeHandler mc (with_argc accepted expected body) :=
  fun ht cmd h => with_argc_ensures (hbody ht cmd h) h

/-- The body sees a key that it may read; any other is refused with the store as it
    was. -/
theorem with_type_ensures {tolerated : Fault → Prop} {P : CStr × HashTable → Prop} {expected : String}
    {body : CStr → Handler} {cmd : Command} (h : StoreOk mc ht) (type : ItemType)
    (hname : cstr expected = type.name) (hargc : 0 < cmd.argc)
    (htolerated : ∀ key e, cmd.argv[0]? = some key → Missed mc ht key e → tolerated e)
    (hbody : ∀ key, cmd.argv[0]? = some key → TypedAt ht key type → Ensures tolerated (body key ht cmd) P)
    (herror : ∀ key, cmd.argv[0]? = some key → ¬ TypedAt ht key type → P (reply_err_type, ht)) :
    Ensures tolerated (with_type mc expected body ht cmd) P := by
  obtain ⟨key, harg, hkey⟩ := cmd.arg_ok hargc
  rw [with_type, harg, ok_bind, hname]
  refine ((htable_type_spec h.table key).tolerate (fun e => htolerated key e hkey)).bind ?_
  intro name hchecked
  by_cases htype : is_type name type.name = true
  · rw [if_pos htype]
    exact hbody key hkey ((hchecked type).mp htype)
  · rw [if_neg htype]
    exact herror key hkey (fun htyped => htype ((hchecked type).mpr htyped))

/-- The frame of the handlers of one type. -/
theorem typed_safe {accepted : Nat → Bool} {expected_argc expected : String} {body : CStr → Handler}
    (type : ItemType) (hname : cstr expected = type.name) (hargc : ∀ n, accepted n → 0 < n)
    (hbody : ∀ key ht cmd, StoreOk mc ht → accepted cmd.argc → TypedAt ht key type →
      Ensures (IndexFault mc) (body key ht cmd) (fun r => StoreOk mc r.2)) :
    SafeHandler mc (with_argc accepted expected_argc (with_type mc expected body)) :=
  with_argc_safe (fun ht cmd h haccepted =>
    with_type_ensures h type hname (hargc _ haccepted) (fun _ _ _ => Missed.indexFault)
      (fun key _ htyped => hbody key ht cmd h haccepted htyped) (fun _ _ _ => h))

/-- A command of one type on a key it may read. -/
theorem typed_ensures {accepted : Nat → Bool} {expected_argc expected : String} {body : CStr → Handler}
    {cmd : Command} {type : ItemType} {tolerated : Fault → Prop} {P : CStr × HashTable → Prop}
    (h : StoreOk mc ht) (key : CStr) (htolerated : ∀ e, Missed mc ht key e → tolerated e)
    (hname : cstr expected = type.name) (haccepted : accepted cmd.argc) (hkey : cmd.argv[0]? = some key)
    (htyped : TypedAt ht key type) (hbody : Ensures tolerated (body key ht cmd) P) :
    Ensures tolerated (with_argc accepted expected_argc (with_type mc expected body) ht cmd) P := by
  have hargc : 0 < cmd.argc := (List.getElem?_eq_some_iff.mp hkey).1
  have hfirst : ∀ first e, cmd.argv[0]? = some first → Missed mc ht first e → tolerated e := by
    intro first e hfirst
    rw [hkey] at hfirst
    cases hfirst
    exact htolerated e
  rw [with_argc, if_pos haccepted]
  refine with_type_ensures h type hname hargc hfirst ?_ ?_
  · intro first hfirst _
    rw [hkey] at hfirst
    cases hfirst
    exact hbody
  · intro first hfirst hother
    rw [hkey] at hfirst
    cases hfirst
    exact absurd htyped hother

/-- Answering from a read. -/
theorem answer_safe {α : Type} (h : StoreOk mc ht) {read : Exec α} {P : α → Prop} {reply : α → CStr}
    (hread : Ensures (IndexFault mc) read P) :
    Ensures (IndexFault mc) (do return (reply (← read), ht)) (fun r => StoreOk mc r.2) :=
  hread.bind (fun _ _ => h)

/-- A loop over the arguments, each of which keeps the store sound and the type of
    the key. -/
theorem count_oks_safe {α : Type} {op : HashTable → α → Exec (HashTable × Bool)} (args : List α)
    {type : ItemType} (h : StoreOk mc ht) (htyped : TypedAt ht key type)
    (hop : ∀ ht a, StoreOk mc ht → TypedAt ht key type →
      Ensures (IndexFault mc) (op ht a) (fun r => StoreOk mc r.1 ∧ TypedAt r.1 key type)) :
    Ensures (IndexFault mc) (do let (oks, ht) ← count_oks op args ht; return (reply_integer oks, ht))
      (fun r => StoreOk mc r.2) :=
  (count_oks_ensures (fun ht => StoreOk mc ht ∧ TypedAt ht key type)
    (fun ht a hht => hop ht a hht.1 hht.2) args
    ⟨h, htyped⟩).bind (fun _ hr => hr.1)

/-! ## The handlers -/

theorem exec_del_safe : SafeHandler mc (exec_del mc) :=
  with_argc_safe (fun _ cmd h _ =>
    (count_oks_ensures (StoreOk mc)
      (fun _ key h => (htable_del_storeOk h key).mono (fun _ hr => hr.1)) cmd.argv
      h).bind (fun _ hr => hr))

theorem exec_exists_safe : SafeHandler mc (exec_exists mc) := by
  refine with_argc_safe (fun ht cmd h _ => ?_)
  refine (count_oks_ensures (StoreOk mc) (fun ht key h => ?_) cmd.argv h).bind (fun _ hr => hr)
  exact (htable_exists_spec h.table key).bind (fun _ _ => h)

/-- `TYPE` reads the tag of any value. -/
theorem exec_type_safe : SafeHandler mc (exec_type mc) := by
  refine with_argc_safe (fun ht cmd h haccepted => ?_)
  obtain ⟨key, harg, _⟩ := cmd.arg_ok (i := 0) (by simp at haccepted; omega)
  rw [harg, ok_bind]
  exact (ensures_of_missed (htable_type_spec h.table key)).bind (fun _ _ => h)

/-- `SET` has no check of the type: `htable_set` makes it. -/
theorem exec_set_safe : SafeHandler mc (exec_set mc) := by
  refine with_argc_safe (fun ht cmd h _ => ?_)
  refine Ensures.bind (P := StoreOk mc) ?_ (fun _ hr => hr)
  split
  · rename_i hone
    obtain ⟨key, harg, _⟩ := cmd.arg_ok (i := 0) (by omega)
    rw [harg, ok_bind]
    exact Ensures.map (htable_set_storeOk h key [])
  · split
    · rename_i htwo
      obtain ⟨key, harg, _⟩ := cmd.arg_ok (i := 0) (by omega)
      obtain ⟨value, harg', _⟩ := cmd.arg_ok (i := 1) (by omega)
      rw [harg, ok_bind, harg', ok_bind]
      exact Ensures.map (htable_set_storeOk h key value)
    · exact h

theorem exec_mset_safe : SafeHandler mc (exec_mset mc) :=
  with_argc_safe (fun _ cmd h _ =>
    (Ensures.foldlM (fun _ ht => StoreOk mc ht)
      (fun pair _ _ h => Ensures.map (htable_set_storeOk h pair.1 pair.2)) (pairs cmd.argv) _ h).bind
      (fun _ hr => hr))

theorem exec_get_safe : SafeHandler mc (exec_get mc) :=
  typed_safe .STR_T rfl (by simp) (fun _ _ _ h _ htyped =>
    answer_safe h (ensures_of_missed (htable_get_spec h htyped)))

theorem exec_strlen_safe : SafeHandler mc (exec_strlen mc) :=
  typed_safe .STR_T rfl (by simp) (fun _ _ _ h _ htyped =>
    answer_safe h (ensures_of_missed (htable_get_spec h htyped)))

/-- `INCR` and `DECR` look at the value only where there is one. -/
theorem exec_step_safe (missing : String) (answer change : Int) :
    SafeHandler mc (exec_step mc missing answer change) := by
  refine typed_safe .STR_T rfl (by simp) (fun key ht cmd h _ htyped => ?_)
  refine (ensures_of_missed (htable_get_spec h htyped)).bind ?_
  intro res _
  cases res with
  | none => exact (htable_set_storeOk h key _).bind (fun _ hr => hr)
  | some res =>
    simp only
    split
    · exact (htable_set_storeOk h key _).bind (fun _ hr => hr)
    · exact h

theorem exec_hset_safe : SafeHandler mc (exec_hset mc) :=
  typed_safe .HASH_T rfl (by simp; omega) (fun _ _ cmd h _ htyped =>
    count_oks_safe (pairs cmd.argv.tail) h htyped
      (fun _ pair h htyped => htable_hset_storeOk h htyped pair.1 pair.2))

theorem exec_hdel_safe : SafeHandler mc (exec_hdel mc) :=
  typed_safe .HASH_T rfl (by simp; omega) (fun _ _ cmd h _ htyped =>
    count_oks_safe cmd.argv.tail h htyped (fun _ field h htyped => htable_hdel_storeOk h htyped field))

theorem exec_hget_safe : SafeHandler mc (exec_hget mc) := by
  refine typed_safe .HASH_T rfl (by simp) (fun key ht cmd h haccepted htyped => ?_)
  obtain ⟨field, harg, _⟩ := cmd.arg_ok (i := 1) (by simp at haccepted; omega)
  rw [harg, ok_bind]
  exact answer_safe h (htable_hget_spec h htyped field)

theorem exec_hexists_safe : SafeHandler mc (exec_hexists mc) := by
  refine typed_safe .HASH_T rfl (by simp) (fun key ht cmd h haccepted htyped => ?_)
  obtain ⟨field, harg, _⟩ := cmd.arg_ok (i := 1) (by simp at haccepted; omega)
  rw [harg, ok_bind]
  exact (htable_hget_spec h htyped field).bind (fun _ _ => h)

theorem exec_hgetall_safe : SafeHandler mc (exec_hgetall mc) :=
  typed_safe .HASH_T rfl (by simp) (fun _ _ _ h _ htyped => answer_safe h (htable_hgetall_spec h htyped))

theorem exec_hkeyvals_safe (ky : Bool) : SafeHandler mc (exec_hkeyvals mc ky) :=
  typed_safe .HASH_T rfl (by simp) (fun _ _ _ h _ htyped => answer_safe h (htable_hkeyvals_spec h htyped ky))

theorem exec_hlen_safe : SafeHandler mc (exec_hlen mc) :=
  typed_safe .HASH_T rfl (by simp) (fun _ _ _ h _ htyped => answer_safe h (htable_hlen_spec h htyped))

/-- Every field is read as `HGET` reads it. -/
theorem exec_hmget_safe : SafeHandler mc (exec_hmget mc) := by
  refine typed_safe .HASH_T rfl (by simp; omega) (fun key ht cmd h _ htyped => ?_)
  refine (htable_exists_spec h.table key).bind (fun found _ => ?_)
  cases found with
  | true => exact answer_safe h (Ensures.mapM cmd.argv.tail (fun field _ => htable_hget_spec h htyped field))
  | false => exact h

/-- The type of the key lasts from push to push. -/
theorem exec_push_safe (dir : ListDirection) : SafeHandler mc (exec_push mc dir) := by
  refine typed_safe .LIST_T rfl (by simp; omega) (fun key ht cmd h _ htyped => ?_)
  refine (Ensures.foldlM (fun _ (r : Int × HashTable) => StoreOk mc r.2 ∧ TypedAt r.2 key .LIST_T)
    (fun value _ r hr => ?_) cmd.argv.tail (0, ht) ⟨h, htyped⟩).bind (fun _ hr => hr.1)
  exact (htable_push_storeOk hr.1 hr.2 value dir).bind (fun _ hr' => hr')

/-- There is a node to pop: no stored list is empty. -/
theorem exec_pop_safe (dir : ListDirection) : SafeHandler mc (exec_pop mc dir) :=
  typed_safe .LIST_T rfl (by simp) (fun _ _ _ h _ htyped =>
    (htable_pop_storeOk h htyped dir).bind (fun _ hr => hr.1))

theorem exec_llen_safe : SafeHandler mc (exec_llen mc) :=
  typed_safe .LIST_T rfl (by simp) (fun _ _ _ h _ htyped =>
    answer_safe h (ensures_of_missed (htable_llen_spec h htyped)))

theorem exec_lindex_safe : SafeHandler mc (exec_lindex mc) := by
  refine typed_safe .LIST_T rfl (by simp) (fun key ht cmd h haccepted htyped => ?_)
  obtain ⟨index, harg, _⟩ := cmd.arg_ok (i := 1) (by simp at haccepted; omega)
  rw [harg, ok_bind]
  split
  · refine (ensures_of_missed (htable_check_id_spec h htyped _)).bind ?_
    rintro ⟨code, id⟩ _
    simp only
    split
    · exact h
    · refine Ensures.bind (P := fun _ => True) ?_ (fun _ _ => h)
      split
      · exact (ensures_of_missed (htable_lindex_spec h htyped id)).mono (fun _ _ => trivial)
      · trivial
  · exact h

/-- The walk stays in the list, for `htable_check_ids` admits no other range. -/
theorem exec_lrange_safe : SafeHandler mc (exec_lrange mc) := by
  refine typed_safe .LIST_T rfl (by simp) (fun key ht cmd h haccepted htyped => ?_)
  obtain ⟨bgn, harg, _⟩ := cmd.arg_ok (i := 1) (by simp at haccepted; omega)
  obtain ⟨stop, harg', _⟩ := cmd.arg_ok (i := 2) (by simp at haccepted; omega)
  rw [harg, ok_bind, harg', ok_bind]
  split
  · refine (ensures_of_missed (htable_check_ids_spec h htyped _ _)).bind ?_
    rintro ⟨code, bgn, stop⟩ hr
    simp only
    split
    · exact h
    · rename_i hcode
      refine Ensures.bind (P := fun _ => True) ?_ (fun _ _ => h)
      split
      · rename_i hpos
        rcases hr with ⟨_, heq⟩ | ⟨values, hstored, _, hchecked⟩
        · cases heq
          exact absurd hpos (by decide)
        · split at hchecked
          · rename_i hrange
            exact (ensures_of_missed
              (htable_lrange_spec h htyped hstored hrange.2.1 hrange.1 hrange.2.2)).mono (fun _ _ => trivial)
          · exact absurd hchecked hcode
      · trivial
  · exact h

/-- The value is looked at only behind the check of the index. -/
theorem exec_lset_safe : SafeHandler mc (exec_lset mc) := by
  refine typed_safe .LIST_T rfl (by simp) (fun key ht cmd h haccepted htyped => ?_)
  obtain ⟨index, harg, _⟩ := cmd.arg_ok (i := 1) (by simp at haccepted; omega)
  obtain ⟨value, harg', _⟩ := cmd.arg_ok (i := 2) (by simp at haccepted; omega)
  rw [harg, ok_bind]
  split
  · refine (ensures_of_missed (htable_check_id_spec h htyped _)).bind ?_
    rintro ⟨code, id⟩ _
    simp only
    split
    · exact h
    · rw [harg', ok_bind]
      exact (htable_lset_storeOk h htyped id value).bind (fun _ hr => hr.1)
  · exact h

theorem exec_lrem_safe : SafeHandler mc (exec_lrem mc) := by
  refine typed_safe .LIST_T rfl (by simp) (fun key ht cmd h haccepted htyped => ?_)
  obtain ⟨count, harg, _⟩ := cmd.arg_ok (i := 1) (by simp at haccepted; omega)
  obtain ⟨value, harg', _⟩ := cmd.arg_ok (i := 2) (by simp at haccepted; omega)
  rw [harg, ok_bind]
  split
  · rw [harg', ok_bind]
    exact (htable_lrem_storeOk h htyped _ value).bind (fun _ hr => hr.1)
  · exact h

theorem exec_lpos_safe : SafeHandler mc (exec_lpos mc) := by
  refine typed_safe .LIST_T rfl (by simp) (fun key ht cmd h haccepted htyped => ?_)
  obtain ⟨value, harg, _⟩ := cmd.arg_ok (i := 1) (by simp at haccepted; omega)
  rw [harg, ok_bind]
  exact (ensures_of_missed (htable_lpos_spec h htyped value)).bind (fun _ _ => h)

theorem exec_sadd_safe : SafeHandler mc (exec_sadd mc) :=
  typed_safe .SET_T rfl (by simp; omega) (fun _ _ cmd h _ htyped =>
    count_oks_safe cmd.argv.tail h htyped (fun _ value h htyped => htable_sadd_storeOk h htyped value))

theorem exec_srem_safe : SafeHandler mc (exec_srem mc) :=
  typed_safe .SET_T rfl (by simp; omega) (fun _ _ cmd h _ htyped =>
    count_oks_safe cmd.argv.tail h htyped (fun _ value h htyped => htable_srem_storeOk h htyped value))

theorem exec_sismember_safe : SafeHandler mc (exec_sismember mc) := by
  refine typed_safe .SET_T rfl (by simp) (fun key ht cmd h haccepted htyped => ?_)
  obtain ⟨value, harg, _⟩ := cmd.arg_ok (i := 1) (by simp at haccepted; omega)
  rw [harg, ok_bind]
  exact (htable_sismember_spec h htyped value).bind (fun _ _ => h)

theorem exec_smembers_safe : SafeHandler mc (exec_smembers mc) :=
  typed_safe .SET_T rfl (by simp) (fun _ _ _ h _ htyped => answer_safe h (htable_smembers_spec h htyped))

theorem exec_smismember_safe : SafeHandler mc (exec_smismember mc) := by
  refine typed_safe .SET_T rfl (by simp; omega) (fun key ht cmd h _ htyped => ?_)
  refine (htable_exists_spec h.table key).bind (fun found _ => ?_)
  cases found with
  | true =>
    refine (Ensures.mapM (R := fun _ _ => True) cmd.argv.tail (fun value _ => ?_)).bind (fun _ _ => h)
    exact (htable_sismember_spec h htyped value).bind (fun _ _ => trivial)
  | false => exact h

/-! ## The two handlers that may fault -/

/-- `MGET` passes the type check on its first key, and names a key of another
    type after it, which it then reads as a string. -/
def Reinterprets (ht : HashTable) (cmd : Command) : Prop :=
  cmd.type = .MGET ∧ (∀ key, cmd.argv[0]? = some key → TypedAt ht key .STR_T) ∧
    ∃ key ∈ cmd.argv, ¬ TypedAt ht key .STR_T

/-- `INCRBY` or `DECRBY` names a missing key and an operand that is no number:
    the missing value is then examined. -/
def ReadsNull (ht : HashTable) (cmd : Command) : Prop :=
  (cmd.type = .INCRBY ∨ cmd.type = .DECRBY) ∧
    ∃ key operand, cmd.argv = [key, operand] ∧ Absent ht key ∧ is_number operand = false

/-- The faults a command may meet. Reading a struct as a string is one only where the
    machine makes it one. -/
def Tolerated (mc : Machine) (ht : HashTable) (cmd : Command) (e : Fault) : Prop :=
  IndexFault mc e ∨ (e = .wrongType ∧ mc.cast = none ∧ Reinterprets ht cmd) ∨
    (e = .nullPointer ∧ ReadsNull ht cmd)

/-- What is read under a key as a string: the string, nil, or under a key of another
    type the text of its struct. -/
def ReadAt (ht : HashTable) (key : CStr) (str : Option CStr) : Prop :=
  StringAt ht key str ∨ ¬ TypedAt ht key .STR_T ∧ ∃ text : StructText, str = some text.val

/-- A read of any key as a string. What it finds under a key of another type depends
    on the machine alone. -/
theorem htable_get_any (h : StoreOk mc ht) (key : CStr) :
    Ensures (fun e => IndexFault mc e ∨ (e = .wrongType ∧ mc.cast = none ∧ ¬ TypedAt ht key .STR_T))
      (htable_get mc ht key) (ReadAt ht key) := by
  by_cases htyped : TypedAt ht key .STR_T
  · exact ((htable_get_spec h htyped).tolerate (fun _ he => Or.inl he.indexFault)).mono (fun _ => Or.inl)
  refine ((htable_search_spec h.table key).tolerate (fun _ => Or.inl)).bind ?_
  intro r hr
  cases r with
  | none => exact absurd (hr.typedAt _) htyped
  | some found =>
    obtain ⟨p, item⟩ := found
    have htype := (h.items item hr.mem).type_eq
    have hother : item.type ≠ .STR_T := by
      refine fun heq => htyped (fun other hmem hkey => ?_)
      rw [hr.unique h.table hmem hkey, heq]
    cases hvalue : item.value with
    | str s => exact absurd (by rw [← htype, hvalue]; rfl) hother
    | _ =>
      simp only [hvalue, Machine.read_str]
      cases hcast : mc.cast with
      | none => exact Or.inr ⟨rfl, rfl, htyped⟩
      | some text => exact Or.inr ⟨htyped, _, rfl⟩

/-- `MGET` reads keys that nobody has checked: only the first has passed. -/
theorem exec_mget_spec (h : StoreOk mc ht) {cmd : Command} (hcmd : cmd.type = .MGET) :
    Ensures (Tolerated mc ht cmd) (exec_mget mc ht cmd) (fun r => StoreOk mc r.2) := by
  rw [exec_mget, with_argc]
  split
  · rename_i haccepted
    refine with_type_ensures h .STR_T rfl (by simp at haccepted; omega)
      (fun _ _ _ he => Or.inl he.indexFault) ?_ (fun _ _ _ => h)
    intro first hfirst htyped
    have hchecked : ∀ key, cmd.argv[0]? = some key → TypedAt ht key .STR_T := by
      intro key hkey
      rw [hfirst] at hkey
      cases hkey
      exact htyped
    refine (Ensures.mapM (R := fun _ _ => True) cmd.argv (fun key hkey => ?_)).bind (fun _ _ => h)
    refine ((htable_get_any h key).tolerate ?_).mono (fun _ _ => trivial)
    rintro e (hindex | ⟨hwrong, hcast, hother⟩)
    · exact Or.inl hindex
    · exact Or.inr (Or.inl ⟨hwrong, hcast, hcmd, hchecked, key, hkey, hother⟩)
  · exact h

/-- `INCRBY` and `DECRBY` pass on the null that stands for a missing key, when the
    operand is no number. -/
theorem exec_stepby_spec (h : StoreOk mc ht) {cmd : Command} (hcmd : cmd.type = .INCRBY ∨ cmd.type = .DECRBY)
    (combine : Int → Int → Int) :
    Ensures (Tolerated mc ht cmd) (exec_stepby mc combine ht cmd) (fun r => StoreOk mc r.2) := by
  have hindex : ∀ e, IndexFault mc e → Tolerated mc ht cmd e := fun _ => Or.inl
  rw [exec_stepby, with_argc]
  split
  · rename_i haccepted
    have htwo : cmd.argc = 2 := by simpa using haccepted
    refine with_type_ensures h .STR_T rfl (by omega) (fun _ e _ he => hindex e he.indexFault) ?_
      (fun _ _ _ => h)
    intro key hkey htyped
    refine ((htable_get_spec h htyped).tolerate (fun e he => hindex e he.indexFault)).bind ?_
    intro res hres
    obtain ⟨operand, harg, hoperand⟩ := cmd.arg_ok (i := 1) (by omega)
    rw [harg, ok_bind]
    cases res with
    | none =>
      cases hnumber : is_number operand with
      | true =>
        exact ((htable_set_storeOk h key _).tolerate hindex).bind (fun _ hr => hr)
      | false =>
        -- the null result is passed on to `is_number`
        refine Or.inr (Or.inr ⟨rfl, hcmd, key, operand, ?_, hres, hnumber⟩)
        obtain ⟨type, argv⟩ := cmd
        obtain ⟨first, second, rfl⟩ := List.length_eq_two.mp htwo
        cases hkey
        cases hoperand
        rfl
    | some res =>
      simp only [Option.isNone_some, Bool.false_and, Bool.false_eq_true, if_false, deref, ok_bind]
      split
      · exact ((htable_set_storeOk h key _).tolerate hindex).bind (fun _ hr => hr)
      · exact h
  · exact h

end hyperkv
