import HyperKV.Interpreter.Framing
import HyperKV.Interpreter.Safe

open Outcome OpenAddressing hyperkv.Resp

namespace hyperkv

/-! ## The frames -/

variable {mc : Machine} {ht : HashTable} {cmd : Command}

/-- A framed reply, and a store whose strings are short. -/
def FramedReply (r : CStr × HashTable) : Prop := Framed r.1 ∧ Contents Short r.2

/-- A handler that, given short strings, replies with one value, and stores only
    short strings. -/
def FramedHandler (handler : Handler) : Prop :=
  ∀ ht cmd, Contents Short ht → (∀ s ∈ cmd.argv, Short s) → Ensures AnyFault (handler ht cmd) FramedReply

theorem framed_ok {reply : CStr} (hreply : Framed reply) (h : Contents Short ht) :
    Ensures (AnyFault (ε := Fault)) (.ok (reply, ht)) FramedReply := ⟨hreply, h⟩

theorem arg_short (h : ∀ s ∈ cmd.argv, Short s) (i : Nat) : Ensures AnyFault (cmd.arg i) Short := by
  unfold Command.arg
  split
  · exact ensures_error.mpr trivial
  · rename_i s hs
    exact h s (List.mem_of_getElem? hs)

theorem tail_short (h : ∀ s ∈ cmd.argv, Short s) : ∀ s ∈ cmd.argv.tail, Short s :=
  fun s hs => h s (List.mem_of_mem_tail hs)

theorem pairs_short {l : List CStr} (h : ∀ s ∈ l, Short s) :
    ∀ pair ∈ pairs l, Short pair.1 ∧ Short pair.2 := by
  induction l using pairs.induct with
  | case1 a b rest ih =>
    rw [List.forall_mem_cons, List.forall_mem_cons] at h
    rw [pairs, List.forall_mem_cons]
    exact ⟨⟨h.1, h.2.1⟩, ih h.2.2⟩
  | case2 l hshape =>
    rw [pairs]
    · exact fun pair hmem => by cases hmem
    · exact hshape

theorem short_intostr {x : Int} (hlow : -2147483648 ≤ x) (hhigh : x < 2147483648) : Short (intostr x) := by
  have hlen := length_decimal_le hlow hhigh
  unfold Short intostr
  omega

theorem short_struct (text : StructText) : Short text.val := by
  have hlen := text.property
  unfold Short
  omega

theorem with_argc_framed {accepted : Nat → Bool} {expected : String} {body : Handler}
    (hexpected : CChar.cr ∉ cstr expected) (hbody : FramedHandler body) :
    FramedHandler (with_argc accepted expected body) :=
  fun ht cmd h hargs => with_argc_ensures (fun _ => hbody ht cmd h hargs) ⟨framed_err_argc _ hexpected, h⟩

theorem with_type_framed {expected : String} {body : CStr → Handler}
    (hbody : ∀ key, FramedHandler (body key)) : FramedHandler (with_type mc expected body) :=
  fun ht cmd h hargs => with_type_any (fun key => hbody key ht cmd h hargs) ⟨framed_err_type, h⟩

/-- Answering from a read. -/
theorem answer_framed {α : Type} {read : Exec α} {R : α → Prop} {reply : α → CStr} (h : Contents Short ht)
    (hread : Ensures AnyFault read R) (hreply : ∀ a, R a → Framed (reply a)) :
    Ensures AnyFault (do return (reply (← read), ht)) FramedReply :=
  hread.bind (fun a ha => framed_ok (hreply a ha) h)

/-- Answering with a number from a read of whatever is there. -/
theorem count_framed {α : Type} {read : Exec α} {reply : α → Int} (h : Contents Short ht) :
    Ensures AnyFault (do return (reply_integer (reply (← read)), ht)) FramedReply :=
  answer_framed h (ensures_any read) (fun _ _ => framed_integer _)

theorem count_oks_framed {α : Type} {op : HashTable → α → Exec (HashTable × Bool)} {args : List α}
    (h : Contents Short ht)
    (hop : ∀ ht a, Contents Short ht → a ∈ args → Ensures AnyFault (op ht a) (fun r => Contents Short r.1)) :
    Ensures AnyFault (do let (oks, ht) ← count_oks op args ht; return (reply_integer oks, ht))
      FramedReply := by
  refine (count_oks_loop (fun rest ht => Contents Short ht ∧ ∀ a ∈ rest, a ∈ args) ?_ args
    ⟨h, fun _ ha => ha⟩).bind (fun r hr => framed_ok (framed_integer _) hr.1)
  rintro a rest ht ⟨hht, hrest⟩
  rw [List.forall_mem_cons] at hrest
  exact (hop ht a hht hrest.1).mono (fun _ hr => ⟨hr, hrest.2⟩)

/-! ## The handlers -/

theorem exec_set_framed : FramedHandler (exec_set mc) := by
  refine with_argc_framed (by decide) (fun ht cmd h hargs => ?_)
  refine Ensures.bind (P := Contents Short) ?_ (fun ht' hht' => framed_ok framed_OK hht')
  · split
    · refine Ensures.bind_any (fun key => Ensures.map (htable_set_contents h ?_))
      decide
    · split
      · refine Ensures.bind_any (fun key => (arg_short hargs 1).bind (fun value hvalue => ?_))
        exact Ensures.map (htable_set_contents h hvalue)
      · exact h

theorem exec_mset_framed : FramedHandler (exec_mset mc) := by
  refine with_argc_framed (by decide) (fun ht cmd h hargs => ?_)
  refine Ensures.bind (P := Contents Short) ?_ (fun ht' hht' => framed_ok framed_OK hht')
  · refine (Ensures.foldlM (fun rest ht => Contents Short ht ∧ ∀ pair ∈ rest, Short pair.1 ∧ Short pair.2) ?_
      (pairs cmd.argv) ht ⟨h, pairs_short hargs⟩).mono (fun _ hr => hr.1)
    rintro pair rest ht ⟨hht, hrest⟩
    rw [List.forall_mem_cons] at hrest
    exact Ensures.map ((htable_set_contents hht hrest.1.2).mono (fun _ hr => ⟨hr, hrest.2⟩))

theorem exec_mget_framed : FramedHandler (exec_mget mc) := by
  refine with_argc_framed (by decide) (with_type_framed (fun key ht cmd h hargs => ?_))
  refine answer_framed h ?_ (fun arr harr => framed_array_n harr)
  exact Ensures.mapM_forall cmd.argv (fun key _ => htable_get_contents short_struct h key)

theorem exec_step_framed {missing : String} {answer change : Int} (hmissing : Short (cstr missing)) :
    FramedHandler (exec_step mc missing answer change) := by
  refine with_argc_framed (by decide) (with_type_framed (fun key ht cmd h hargs => ?_))
  refine Ensures.bind_any (fun res => ?_)
  cases res with
  | none => exact (htable_set_contents h hmissing).bind (fun r hr => framed_ok (framed_integer _) hr)
  | some res =>
    dsimp only
    split
    · have hbounds := int32_bounds (strtoi res + change)
      refine (htable_set_contents h (short_intostr hbounds.1 hbounds.2)).bind (fun r hr => ?_)
      exact framed_ok (framed_integer _) hr
    · exact framed_ok framed_err_intid h

theorem exec_stepby_framed (combine : Int → Int → Int) : FramedHandler (exec_stepby mc combine) := by
  refine with_argc_framed (by decide) (with_type_framed (fun key ht cmd h hargs => ?_))
  refine Ensures.bind_any (fun res => Ensures.bind_any (fun operand => ?_))
  split
  · have hbounds := strtoi_bounds operand
    refine (htable_set_contents h (short_intostr hbounds.1 hbounds.2)).bind (fun r hr => ?_)
    exact framed_ok (framed_integer _) hr
  · refine Ensures.bind_any (fun res => ?_)
    split
    · have hbounds := int32_bounds (combine (strtoi res) (strtoi operand))
      refine (htable_set_contents h (short_intostr hbounds.1 hbounds.2)).bind (fun r hr => ?_)
      exact framed_ok (framed_integer _) hr
    · exact framed_ok framed_err_intid h

theorem exec_type_framed : FramedHandler (exec_type mc) := by
  refine with_argc_framed (by decide) (fun ht cmd h hargs => Ensures.bind_any (fun key => ?_))
  have hname : Ensures AnyFault (htable_type mc ht key) Short := by
    refine Ensures.bind_any (fun found => ?_)
    cases found with
    | none => exact ensures_ok.mpr (by decide)
    | some found =>
      refine ensures_ok.mpr ?_
      cases found.2.type <;> decide
  refine answer_framed h hname (fun name hshort => framed_string (fun s hs => ?_))
  cases hs
  exact hshort

theorem exec_get_framed : FramedHandler (exec_get mc) :=
  with_argc_framed (by decide) (with_type_framed (fun key _ _ h _ =>
    answer_framed h (htable_get_contents short_struct h key) (fun _ => framed_string)))

theorem exec_hset_framed : FramedHandler (exec_hset mc) := by
  refine with_argc_framed (by decide) (with_type_framed (fun key ht cmd h hargs => ?_))
  refine count_oks_framed h (fun ht pair hht hmem => ?_)
  obtain ⟨hfield, hvalue⟩ := pairs_short (tail_short hargs) pair hmem
  exact htable_hset_contents hht hfield hvalue

theorem exec_hget_framed : FramedHandler (exec_hget mc) :=
  with_argc_framed (by decide) (with_type_framed (fun key _ _ h _ => Ensures.bind_any (fun field =>
    answer_framed h (htable_hget_contents short_struct h key field) (fun _ => framed_string))))

theorem exec_hgetall_framed : FramedHandler (exec_hgetall mc) :=
  with_argc_framed (by decide) (with_type_framed (fun key _ _ h _ =>
    answer_framed h (htable_hgetall_contents short_struct h key) (fun _ => framed_array)))

theorem exec_hkeyvals_framed (ky : Bool) : FramedHandler (exec_hkeyvals mc ky) :=
  with_argc_framed (by decide) (with_type_framed (fun key _ _ h _ =>
    answer_framed h (htable_hkeyvals_contents short_struct h key ky) (fun _ => framed_array)))

theorem framed_empty : Framed (reply_array none) := framed_array (fun _ hs => by cases hs)

theorem exec_hmget_framed : FramedHandler (exec_hmget mc) := by
  refine with_argc_framed (by decide) (with_type_framed (fun key ht cmd h hargs => ?_))
  refine Ensures.bind_any (fun found => ?_)
  split
  · refine answer_framed h ?_ (fun arr harr => framed_array_n harr)
    exact Ensures.mapM_forall cmd.argv.tail (fun field _ => htable_hget_contents short_struct h key field)
  · exact framed_ok framed_empty h

theorem exec_push_framed (dir : ListDirection) : FramedHandler (exec_push mc dir) := by
  refine with_argc_framed (by decide) (with_type_framed (fun key ht cmd h hargs => ?_))
  refine (Ensures.foldlM (fun rest (r : Int × HashTable) => Contents Short r.2 ∧ ∀ s ∈ rest, Short s) ?_
    cmd.argv.tail (0, ht) ⟨h, tail_short hargs⟩).bind (fun r hr => framed_ok (framed_integer _) hr.1)
  rintro value rest r ⟨hr, hrest⟩
  rw [List.forall_mem_cons] at hrest
  exact (htable_push_contents hr hrest.1 dir).bind (fun _ hr' => ⟨hr', hrest.2⟩)

theorem exec_pop_framed (dir : ListDirection) : FramedHandler (exec_pop mc dir) :=
  with_argc_framed (by decide) (with_type_framed (fun key _ _ h _ =>
    (htable_pop_contents h key dir).bind (fun _ hr => framed_ok (framed_string hr.2) hr.1)))

theorem exec_lindex_framed : FramedHandler (exec_lindex mc) := by
  refine with_argc_framed (by decide) (with_type_framed (fun key ht cmd h hargs => ?_))
  refine Ensures.bind_any (fun index => ?_)
  split
  · refine Ensures.bind_any ?_
    rintro ⟨code, id⟩
    dsimp only
    split
    · exact framed_ok framed_err_intid h
    · refine Ensures.bind (P := Answers Short) ?_ (fun res hres => framed_ok (framed_string hres) h)
      split
      · exact htable_lindex_contents h key id
      · exact answers_none
  · exact framed_ok framed_err_intid h

theorem exec_lrange_framed : FramedHandler (exec_lrange mc) := by
  refine with_argc_framed (by decide) (with_type_framed (fun key ht cmd h hargs => ?_))
  refine Ensures.bind_any (fun bgn => Ensures.bind_any (fun stop => ?_))
  split
  · refine Ensures.bind_any ?_
    rintro ⟨code, bgn, stop⟩
    dsimp only
    split
    · exact framed_ok framed_err_intid h
    · refine Ensures.bind (P := fun r => ∀ s ∈ r.getD [], Short s) ?_
        (fun res hres => framed_ok (framed_array hres) h)
      split
      · exact htable_lrange_contents h key bgn stop
      · exact fun s hs => by cases hs
  · exact framed_ok framed_err_intid h

theorem exec_lset_framed : FramedHandler (exec_lset mc) := by
  refine with_argc_framed (by decide) (with_type_framed (fun key ht cmd h hargs => ?_))
  refine Ensures.bind_any (fun index => ?_)
  split
  · refine Ensures.bind_any ?_
    rintro ⟨code, id⟩
    dsimp only
    split
    · exact framed_ok framed_err_intid h
    · refine (arg_short hargs 2).bind (fun value hvalue => ?_)
      refine (htable_lset_contents h key id hvalue).bind (fun r hr => framed_ok ?_ hr)
      split
      · exact framed_OK
      · exact framed_string answers_none
  · exact framed_ok framed_err_intid h

theorem exec_lrem_framed : FramedHandler (exec_lrem mc) := by
  refine with_argc_framed (by decide) (with_type_framed (fun key ht cmd h hargs => ?_))
  refine Ensures.bind_any (fun count => ?_)
  split
  · refine Ensures.bind_any (fun value => ?_)
    exact (htable_lrem_contents h key _ value).bind (fun r hr => framed_ok (framed_integer _) hr)
  · exact framed_ok framed_err_intid h

theorem exec_lpos_framed : FramedHandler (exec_lpos mc) := by
  refine with_argc_framed (by decide) (with_type_framed (fun key ht cmd h hargs => ?_))
  refine Ensures.bind_any (fun value => Ensures.bind_any (fun res => framed_ok ?_ h))
  split
  · exact framed_string answers_none
  · exact framed_integer _

theorem exec_smembers_framed : FramedHandler (exec_smembers mc) :=
  with_argc_framed (by decide) (with_type_framed (fun key _ _ h _ =>
    answer_framed h (htable_smembers_contents h key) (fun _ => framed_array)))

theorem exec_smismember_framed : FramedHandler (exec_smismember mc) := by
  refine with_argc_framed (by decide) (with_type_framed (fun key ht cmd h hargs => ?_))
  refine Ensures.bind_any (fun found => ?_)
  split
  · refine Ensures.bind (P := fun arr => ∀ str ∈ arr, Answers Short str) ?_
      (fun arr harr => framed_ok (framed_array_n harr) h)
    refine Ensures.mapM_forall cmd.argv.tail (fun value _ => Ensures.bind_any (fun b s hs => ?_))
    cases hs
    cases b <;> decide
  · exact framed_ok framed_empty h

/-! ## Every command -/

/-- The commands that are answered: the others only signal to the loop. -/
def CommandType.answered : CommandType → Bool
  | .QUIT | .SHUTDOWN | .NOOP => false
  | _ => true

theorem fns_framed {type : CommandType} (htype : type.answered) : FramedHandler (fns mc type) := by
  cases type with
  | DEL =>
    change FramedHandler (exec_del mc)
    refine with_argc_framed (by decide) (fun ht cmd h _ => ?_)
    exact count_oks_framed h (fun ht key hht _ => htable_del_every hht key)
  | EXISTS =>
    change FramedHandler (exec_exists mc)
    refine with_argc_framed (by decide) (fun ht cmd h _ => ?_)
    exact count_oks_framed h (fun ht key hht _ => Ensures.bind_any (fun _ => hht))
  | TYPE => exact exec_type_framed
  | SET => exact exec_set_framed
  | GET => exact exec_get_framed
  | MSET => exact exec_mset_framed
  | MGET => exact exec_mget_framed
  | INCR => exact exec_step_framed (by decide)
  | DECR => exact exec_step_framed (by decide)
  | INCRBY => exact exec_stepby_framed _
  | DECRBY => exact exec_stepby_framed _
  | STRLEN =>
    change FramedHandler (exec_strlen mc)
    exact with_argc_framed (by decide) (with_type_framed (fun key ht cmd h _ => count_framed h))
  | HSET => exact exec_hset_framed
  | HGET => exact exec_hget_framed
  | HDEL =>
    change FramedHandler (exec_hdel mc)
    refine with_argc_framed (by decide) (with_type_framed (fun key ht cmd h _ => ?_))
    exact count_oks_framed h (fun ht field hht _ => htable_hdel_contents hht key field)
  | HGETALL => exact exec_hgetall_framed
  | HEXISTS =>
    change FramedHandler (exec_hexists mc)
    refine with_argc_framed (by decide) (with_type_framed (fun key ht cmd h _ => ?_))
    exact Ensures.bind_any (fun field => Ensures.bind_any (fun res => framed_ok (framed_integer _) h))
  | HKEYS => exact exec_hkeyvals_framed true
  | HVALS => exact exec_hkeyvals_framed false
  | HMGET => exact exec_hmget_framed
  | HLEN =>
    change FramedHandler (exec_hlen mc)
    exact with_argc_framed (by decide) (with_type_framed (fun key ht cmd h _ => count_framed h))
  | LPUSH => exact exec_push_framed .LEFT
  | LPOP => exact exec_pop_framed .LEFT
  | RPUSH => exact exec_push_framed .RIGHT
  | RPOP => exact exec_pop_framed .RIGHT
  | LLEN =>
    change FramedHandler (exec_llen mc)
    exact with_argc_framed (by decide) (with_type_framed (fun key ht cmd h _ => count_framed h))
  | LINDEX => exact exec_lindex_framed
  | LRANGE => exact exec_lrange_framed
  | LSET => exact exec_lset_framed
  | LREM => exact exec_lrem_framed
  | LPOS => exact exec_lpos_framed
  | SADD =>
    change FramedHandler (exec_sadd mc)
    refine with_argc_framed (by decide) (with_type_framed (fun key ht cmd h hargs => ?_))
    exact count_oks_framed h (fun ht value hht hmem => htable_sadd_contents hht (tail_short hargs value hmem))
  | SREM =>
    change FramedHandler (exec_srem mc)
    refine with_argc_framed (by decide) (with_type_framed (fun key ht cmd h _ => ?_))
    exact count_oks_framed h (fun ht value hht _ => htable_srem_contents hht key value)
  | SISMEMBER =>
    change FramedHandler (exec_sismember mc)
    refine with_argc_framed (by decide) (with_type_framed (fun key ht cmd h _ => ?_))
    exact Ensures.bind_any (fun value => count_framed h)
  | SMEMBERS => exact exec_smembers_framed
  | SMISMEMBER => exact exec_smismember_framed
  | UNKNOWN =>
    have hline : CChar.cr ∉ cstr "ERR unrecognized command" := by decide
    exact fun ht cmd h _ => framed_ok (framed_error hline) h
  | QUIT => cases htype
  | SHUTDOWN => cases htype
  | NOOP => cases htype

/-- The arguments of a command that came in over a connection are parts of one
    line, which `readline` cuts at 1024 bytes; an `int` holds their lengths. -/
def Command.Short (cmd : Command) : Prop := ∀ s ∈ cmd.argv, hyperkv.Short s

/-- Commands that only signal leave the store alone. -/
theorem interpret_short (h : Contents Short ht) (hcmd : cmd.Short) :
    Ensures AnyFault (interpret mc ht cmd) (fun r => Contents Short r.2) := by
  cases hanswered : cmd.type.answered with
  | true => exact (fns_framed hanswered ht cmd h hcmd).mono (fun _ hr => hr.2)
  | false =>
    obtain ⟨type, argv⟩ := cmd
    cases type <;> first | exact h | cases hanswered

theorem run_short {cmds : List Command} (hcmds : ∀ cmd ∈ cmds, cmd.Short) :
    Ensures AnyFault (run_commands mc cmds) (Contents Short) := by
  refine (Ensures.foldlM (fun rest ht => Contents Short ht ∧ ∀ cmd ∈ rest, cmd.Short) ?_ cmds _
    ⟨htable_init_contents _, hcmds⟩).mono (fun _ hht => hht.1)
  rintro cmd rest ht ⟨hht, hrest⟩
  rw [List.forall_mem_cons] at hrest
  exact Ensures.map ((interpret_short hht hrest.1).mono (fun _ hr => ⟨hr, hrest.2⟩))

/-- However many commands came before, and whatever they stored, a command that
    is answered is answered with one complete value, which the loop writes. -/
theorem replies_framed (mc : Machine) {cmds : List Command} {cmd : Command} {ht ht' : HashTable} {reply : CStr}
    (hcmds : ∀ cmd ∈ cmds, cmd.Short) (hrun : run_commands mc cmds = .ok ht) (hcmd : cmd.Short)
    (hanswered : cmd.type.answered) (hreply : interpret mc ht cmd = .ok (reply, ht')) :
    Framed reply ∧ dispatch reply = .writes reply := by
  have hcontents : Contents Short ht := (run_short hcmds).of_eq_ok hrun
  have hframed := ((fns_framed hanswered ht cmd hcontents hcmd).of_eq_ok hreply).1
  exact ⟨hframed, framed_dispatch hframed⟩

/-- Stored text that looks like protocol stays inside its bulk string. -/
theorem replies_framed_crlf :
    Ensures (fun _ => False) (run_commands machine [⟨.RPUSH, [cstr "l", cstr "x\r\n$9\r\n", cstr "12"]⟩])
      (fun ht => Ensures (fun _ => False) (interpret machine ht ⟨.LRANGE, [cstr "l", cstr "0", cstr "-1"]⟩)
        (fun r => r.1 = cstr "*2\r\n$7\r\nx\r\n$9\r\n\r\n:12\r\n" ∧
          Framed r.1 ∧ dispatch r.1 = .writes r.1)) := by
  have hrun : Ensures (fun _ => False)
      (run_commands machine [⟨.RPUSH, [cstr "l", cstr "x\r\n$9\r\n", cstr "12"]⟩])
      (fun ht => Ensures (fun _ => False) (interpret machine ht ⟨.LRANGE, [cstr "l", cstr "0", cstr "-1"]⟩)
        (fun r => r.1 = cstr "*2\r\n$7\r\nx\r\n$9\r\n\r\n:12\r\n")) := by
    decide +kernel
  refine hrun.mono_eq (fun ht hht hinterpret => hinterpret.mono_eq (fun r hr htext => ⟨htext, ?_⟩))
  refine replies_framed machine ?_ hht ?_ rfl hr
  · exact List.forall_mem_singleton.mpr (by unfold Command.Short; decide)
  · unfold Command.Short
    decide

end hyperkv
