import HyperKV.Interpreter.Safe

open Outcome

namespace hyperkv

variable {mc : Machine} {ht : HashTable}

theorem fns_safe {type : CommandType} (hmget : type ≠ .MGET) (hincrby : type ≠ .INCRBY)
    (hdecrby : type ≠ .DECRBY) : SafeHandler mc (fns mc type) := by
  cases type with
  | DEL => exact exec_del_safe
  | EXISTS => exact exec_exists_safe
  | TYPE => exact exec_type_safe
  | SET => exact exec_set_safe
  | GET => exact exec_get_safe
  | MSET => exact exec_mset_safe
  | MGET => exact absurd rfl hmget
  | INCR => exact exec_step_safe _ _ _
  | DECR => exact exec_step_safe _ _ _
  | INCRBY => exact absurd rfl hincrby
  | DECRBY => exact absurd rfl hdecrby
  | STRLEN => exact exec_strlen_safe
  | HSET => exact exec_hset_safe
  | HGET => exact exec_hget_safe
  | HDEL => exact exec_hdel_safe
  | HGETALL => exact exec_hgetall_safe
  | HEXISTS => exact exec_hexists_safe
  | HKEYS => exact exec_hkeyvals_safe true
  | HVALS => exact exec_hkeyvals_safe false
  | HMGET => exact exec_hmget_safe
  | HLEN => exact exec_hlen_safe
  | LPUSH => exact exec_push_safe .LEFT
  | LPOP => exact exec_pop_safe .LEFT
  | RPUSH => exact exec_push_safe .RIGHT
  | RPOP => exact exec_pop_safe .RIGHT
  | LLEN => exact exec_llen_safe
  | LINDEX => exact exec_lindex_safe
  | LRANGE => exact exec_lrange_safe
  | LSET => exact exec_lset_safe
  | LREM => exact exec_lrem_safe
  | LPOS => exact exec_lpos_safe
  | SADD => exact exec_sadd_safe
  | SREM => exact exec_srem_safe
  | SISMEMBER => exact exec_sismember_safe
  | SMEMBERS => exact exec_smembers_safe
  | SMISMEMBER => exact exec_smismember_safe
  | QUIT => exact fun _ _ h => h
  | SHUTDOWN => exact fun _ _ h => h
  | UNKNOWN => exact fun _ _ h => h
  | NOOP => exact fun _ _ h => h

/-- Every command keeps the store sound, and faults only where a probe index
    overflows, a counter command reads null or, on a machine that makes it a fault,
    `MGET` reads a struct as a string. -/
theorem interpret_spec (h : StoreOk mc ht) (cmd : Command) :
    Ensures (Tolerated mc ht cmd) (interpret mc ht cmd) (fun r => StoreOk mc r.2) := by
  by_cases hmget : cmd.type = .MGET
  · rw [interpret, hmget]
    exact exec_mget_spec h hmget
  by_cases hincrby : cmd.type = .INCRBY
  · rw [interpret, hincrby]
    exact exec_stepby_spec h (Or.inl hincrby) _
  by_cases hdecrby : cmd.type = .DECRBY
  · rw [interpret, hdecrby]
    exact exec_stepby_spec h (Or.inr hdecrby) _
  exact (fns_safe hmget hincrby hdecrby ht cmd h).tolerate (fun _ => Or.inl)

/-- Every store that the server reaches is sound. -/
theorem Reachable.storeOk (h : Reachable mc ht) : StoreOk mc ht := by
  obtain ⟨cmds, hrun⟩ := h
  have hstep : ∀ ht cmd, StoreOk mc ht →
      Ensures AnyFault (Prod.snd <$> interpret mc ht cmd) (fun ht' => StoreOk mc ht') :=
    fun ht cmd hht => Ensures.map (interpret_spec hht cmd).anyFault
  exact (Ensures.foldlM (fun _ ht => StoreOk mc ht) (fun cmd _ ht => hstep ht cmd) cmds _
    (htable_init_storeOk mc (by decide))).of_eq_ok hrun

/-! ## The null pointer -/

theorem exec_stepby_faults (h : StoreOk mc ht) {cmd : Command} (hcmd : ReadsNull ht cmd)
    (combine : Int → Int → Int) : Ensures AnyFault (exec_stepby mc combine ht cmd) (fun _ => False) := by
  obtain ⟨_, key, operand, hargv, habsent, hnumber⟩ := hcmd
  have hargc : cmd.argc = 2 := by rw [Command.argc, hargv]; rfl
  have hkey : ∀ first, cmd.argv[0]? = some first → first = key := by
    intro first hfirst
    rw [hargv] at hfirst
    exact (Option.some.inj hfirst).symm
  rw [exec_stepby, with_argc, if_pos (decide_eq_true hargc)]
  refine with_type_ensures h .STR_T rfl (by omega) (fun _ _ _ _ => trivial) ?_ ?_
  · intro first hfirst htyped
    cases hkey first hfirst
    refine (htable_get_spec h htyped).anyFault.bind ?_
    intro res hres
    cases res with
    | some res => exact absurd habsent hres.not_absent
    | none =>
      have harg : cmd.arg 1 = .ok operand := by rw [Command.arg, hargv]; rfl
      rw [harg, ok_bind, hnumber]
      trivial
  · intro first hfirst hwrong
    cases hkey first hfirst
    exact hwrong (habsent.typedAt _)

/-- In every reachable store a command gets a reply, without a null pointer being
    followed, exactly when it is not one of the two counter commands that follow one;
    what remains is an overflowing probe index. A struct that `MGET` reads as a string
    is read as some text. -/
theorem interpret_replies (mc : Machine) {text : CStr → Value → StructText} (hcast : mc.cast = some text)
    {ht : HashTable} (h : Reachable mc ht) (cmd : Command) :
    (¬ ReadsNull ht cmd → Ensures (IndexFault mc) (interpret mc ht cmd) (fun _ => True)) ∧
    (ReadsNull ht cmd → ∀ r, interpret mc ht cmd ≠ .ok r) := by
  constructor
  · intro hnull
    refine ((interpret_spec h.storeOk cmd).tolerate ?_).mono (fun _ _ => trivial)
    rintro e (hindex | ⟨_, hnone, _⟩ | ⟨_, hcmd⟩)
    · exact hindex
    · rw [hcast] at hnone
      cases hnone
    · exact absurd hcmd hnull
  · intro hcmd r hr
    have hfaults : Ensures AnyFault (interpret mc ht cmd) (fun _ => False) := by
      rw [interpret]
      rcases hcmd.1 with htype | htype
      · rw [htype]
        exact exec_stepby_faults h.storeOk hcmd _
      · rw [htype]
        exact exec_stepby_faults h.storeOk hcmd _
    exact hfaults.of_eq_ok hr

theorem interpret_replies_fresh :
    Ensures (IndexFault machine)
      (interpret machine (htable_init HT_BASE_SIZE) ⟨.INCRBY, [cstr "x", cstr "5"]⟩) (fun _ => True) ∧
    ∀ r, interpret machine (htable_init HT_BASE_SIZE) ⟨.INCRBY, [cstr "x", cstr "abc"]⟩ ≠ .ok r := by
  refine ⟨(interpret_replies machine rfl ⟨[], rfl⟩ _).1 (fun hnull => ?_),
    (interpret_replies machine rfl ⟨[], rfl⟩ _).2 ⟨Or.inl rfl, _, _, rfl, ?_, by decide⟩⟩
  · obtain ⟨_, key, operand, hargv, _, hnumber⟩ := hnull
    cases hargv
    exact absurd hnumber (by decide)
  · intro item hmem
    rw [htable_init_items] at hmem
    cases hmem

/-- `MGET` of a hash behind a missing key answers the first byte of the hash's size. -/
example :
    Ensures (IndexFault machine)
      (run_commands machine [⟨.HSET, [cstr "h", cstr "f", cstr "v"]⟩] >>= fun ht =>
        interpret machine ht ⟨.MGET, [cstr "x", cstr "h"]⟩)
      (fun r => r.1 = cstr "*2\r\n$-1\r\n$1\r\n\x02\r\n") := by
  decide +kernel

/-- `INCRBY x abc` on a fresh server. -/
theorem interpret_reads_null :
    ¬ Ensures (IndexFault machine)
      (run_commands machine [] >>= fun ht => interpret machine ht ⟨.INCRBY, [cstr "x", cstr "abc"]⟩)
      (fun _ => True) := by
  decide +kernel

end hyperkv
