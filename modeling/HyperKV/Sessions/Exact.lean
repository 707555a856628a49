import HyperKV.Keyspace.Exact
import HyperKV.Sessions.Serial

open Outcome SerialServer

namespace hyperkv

variable {mc mc' : Machine} {sys sys' : System} {acts : List Act}

/-- The log is only written at its end. -/
theorem System.Moves.log_prefix {act : Act} (hmoves : sys.Moves mc act sys') :
    sys.log <+: sys'.log := by
  cases hmoves with
  | connect => exact List.prefix_rfl
  | send => exact List.prefix_rfl
  | eof => exact List.prefix_rfl
  | accept => exact List.prefix_rfl
  | receive => exact List.prefix_rfl
  | stop => exact List.prefix_rfl
  | serve heap hphase hrepl hne =>
    unfold System.serve
    split
    · exact List.prefix_rfl
    · split
      · exact List.prefix_rfl
      · exact List.prefix_append ..

/-- What went down stays down. -/
theorem System.Moves.stays_down {act : Act} (hmoves : sys.Moves mc act sys')
    (hdown : sys.phase = .down) :
    sys'.phase = .down := by
  cases hmoves with
  | connect _ hup => exact absurd hdown hup
  | send => exact hdown
  | eof => exact hdown
  | accept hphase =>
    rw [hphase] at hdown
    cases hdown
  | receive => exact hdown
  | stop => exact hdown
  | serve heap hphase =>
    rw [hphase] at hdown
    cases hdown

theorem System.run_log (hrun : acts.foldlM (System.step mc) sys = some sys') : sys.log <+: sys'.log :=
  System.run_keeps (P := fun next => sys.log <+: next.log) List.prefix_rfl
    (fun h hmoves => h.trans hmoves.log_prefix) hrun

theorem System.run_down (hrun : acts.foldlM (System.step mc) sys = some sys')
    (hdown : sys.phase = .down) :
    sys'.phase = .down :=
  System.run_keeps (P := fun next => next.phase = .down) hdown
    (fun h hmoves => hmoves.stays_down h) hrun

theorem arguments_append (cmds more : List Command) :
    arguments (cmds ++ more) = arguments cmds + arguments more := by
  unfold arguments
  rw [List.map_append, List.sum_append]

theorem System.arguments_le (h : sys.log <+: sys'.log) :
    arguments sys.commands ≤ arguments sys'.commands := by
  obtain ⟨more, hmore⟩ := h
  unfold System.commands
  rw [← hmore, List.map_append, arguments_append]
  exact Nat.le_add_right ..

/-! ## Turns and steps -/

/-- Two arithmetics that execute commands alike while all tables are small. -/
def Alike (mc mc' : Machine) : Prop :=
  ∀ k ht cmd, SmallStore k ht → k + cmd.argc ≤ 8192 →
    Same (interpret mc' ht cmd) (interpret mc ht cmd) (fun r => SmallStore (k + cmd.argc) r.2)

theorem alike_machine : Alike unbounded machine := fun _ _ _ h hk => interpret_same h hk

theorem alike_unbounded : Alike machine unbounded := by
  intro k ht cmd h hk
  have hsame := interpret_same h hk
  rw [hsame.eq]
  exact Ensures.same hsame.ensures

section

variable (halike : Alike mc mc') (h : SmallStore (arguments sys.commands) sys.ht)
include halike h

theorem System.serve_alike {cfd : Nat} {repl : Repl} {heap : List UInt8}
    (hup : (sys.serve mc cfd repl heap).phase ≠ .down)
    (hargs : arguments (sys.serve mc cfd repl heap).commands ≤ 8192) :
    sys.serve mc' cfd repl heap = sys.serve mc cfd repl heap ∧
      SmallStore (arguments (sys.serve mc cfd repl heap).commands) (sys.serve mc cfd repl heap).ht := by
  unfold System.serve at hup hargs ⊢
  rcases hread : readline heap repl.conn.to_server with ⟨_ | msg, to_server⟩
  · rw [hread] at hup
    exact absurd rfl hup
  · rw [hread] at hup hargs
    simp only [handle_eq] at hup hargs ⊢
    have htotal : ∀ resp : CStr, arguments ((sys.log ++ [(cfd, msg, resp)]).map
        fun e : Nat × CStr × CStr => command e.2.1) = arguments sys.commands + (command msg).argc := by
      intro resp
      rw [List.map_append, arguments_append]
      rfl
    cases hr : interpret mc sys.ht (command msg) with
    | error e =>
      rw [hr] at hup
      exact absurd rfl hup
    | ok r =>
      rw [hr] at hargs
      have hsmall : arguments sys.commands + (command msg).argc ≤ 8192 := htotal r.1 ▸ hargs
      have hsame := halike _ _ _ h hsmall
      rw [hsame.eq, hr]
      refine ⟨rfl, ?_⟩
      have hstore := hsame.ensures.of_eq_ok hr
      rw [← htotal r.1] at hstore
      exact hstore

theorem System.step_alike {act : Act} (hstep : sys.step mc act = some sys') (hup : sys'.phase ≠ .down)
    (hargs : arguments sys'.commands ≤ 8192) :
    sys.step mc' act = some sys' ∧ SmallStore (arguments sys'.commands) sys'.ht := by
  cases System.step_moves hstep with
  | connect => exact ⟨hstep, h⟩
  | send => exact ⟨hstep, h⟩
  | eof => exact ⟨hstep, h⟩
  | accept => exact ⟨hstep, h⟩
  | receive => exact ⟨hstep, h⟩
  | stop => exact ⟨hstep, h⟩
  | serve heap hphase hrepl hne =>
    obtain ⟨hserve, hstore⟩ := System.serve_alike halike h hup hargs
    refine ⟨?_, hstore⟩
    simp only [System.step, hphase, hrepl, Option.bind_some, if_pos hne, hserve]

theorem System.run_alike (hrun : acts.foldlM (System.step mc) sys = some sys')
    (hup : sys'.phase ≠ .down)
    (hargs : arguments sys'.commands ≤ 8192) : acts.foldlM (System.step mc') sys = some sys' := by
  induction acts generalizing sys with
  | nil => exact hrun
  | cons act acts ih =>
    rw [List.foldlM_cons, Option.bind_eq_bind, Option.bind_eq_some_iff] at hrun
    obtain ⟨next, hstep, hrest⟩ := hrun
    have hmore := System.arguments_le (System.run_log hrest)
    obtain ⟨hsame, hstore⟩ := System.step_alike halike h hstep
      (fun hdown => hup (System.run_down hrest hdown)) (by omega)
    rw [List.foldlM_cons, hsame]
    exact ih hstore hrest

end

/-- As long as the server is up and has been sent no more than 8192 arguments, the
    interleavings of the program with its 32 bits are those of exact arithmetic, with
    the same states: the same replies, and the same store. -/
theorem small_sessions_exact {sys : System} (hup : sys.phase ≠ .down)
    (hargs : arguments sys.commands ≤ 8192)
    (acts : List Act) : System.run machine acts = some sys ↔ System.run unbounded acts = some sys :=
  ⟨fun hrun => System.run_alike alike_unbounded smallStore_init hrun hup hargs,
    fun hrun => System.run_alike alike_machine smallStore_init hrun hup hargs⟩

theorem small_sessions_exact_two :
    System.run machine two_clients = some two_clients_end ↔
      System.run unbounded two_clients = some two_clients_end :=
  small_sessions_exact (by decide +kernel) (by decide +kernel) two_clients

end hyperkv
