import HyperKV.Keyspace.Runs
import HyperKV.Parser.Tokens
import HyperKV.SerialServer.Waiting
import HyperKV.Sessions

open Outcome KeyedStore SerialServer

namespace hyperkv

/-- The server as a handler of lines. -/
def service (mc : Machine) : Service CStr CStr HashTable where
  handle ht msg := (handle mc ht msg).toOption
  verdict := verdict

/-! ## What is on a connection -/

/-- The bytes on a connection are those of its one message, which fits the buffer
    that it is read into. -/
inductive Carries : Connection → Bool → Line CStr CStr → Prop where
  | idle : Carries ⟨[], []⟩ false .idle
  | asked {inp : CStr} (h : inp.length ≤ 1022) : Carries ⟨writeline inp, []⟩ true (.asked inp)
  | answered {resp : CStr} (h : resp.length ≤ 1022) : Carries ⟨[], writeline resp⟩ true (.answered resp)
  | closed : Carries ⟨[], []⟩ true .closed

/-- The client has not gone on beyond the end of its connection. -/
def Repl.Attached (repl : Repl) : Prop := repl.lost = [] ∧ repl.made_up = []

/-- A client of the protocol stands for a process in `repl`, until that goes on beyond
    the end of its connection: then there is nothing left for it to read. -/
structure Repl.Shows (repl : Repl) (cl : Client CStr CStr) : Prop where
  carries : repl.Attached → Carries repl.conn repl.waits cl.line
  detached : ¬ repl.Attached → repl.conn.to_client = []
  asked : cl.asked = repl.inputs
  answered : cl.answered = repl.resps

/-- A state of the protocol stands for one of the processes. Only on a closed connection
    does a client go on, or stop. -/
structure System.Shows (sys : System) (s : State Nat CStr CStr HashTable) : Prop where
  phase : sys.phase = s.phase
  backlog : sys.backlog = s.backlog
  ht : sys.ht = s.store
  repl : ∀ cfd, Option.Rel Repl.Shows sys.repls[cfd]? (s.client cfd)
  accepted : sys.accepted = s.accepted
  log : sys.log = s.log
  gone : ∀ cfd repl, sys.repls[cfd]? = some repl → ¬ repl.Attached ∨ repl.stopped = true →
    sys.closed cfd = true

/-- The lines that the clients have sent. -/
def System.inputs (sys : System) : List CStr := sys.repls.flatMap Repl.inputs

/-- Every line and every reply so far leaves room in the buffer of `readline` for
    the newline and the NUL. -/
structure System.Fits (sys : System) : Prop where
  inputs : ∀ inp ∈ sys.inputs, inp.length ≤ 1022
  resps : ∀ e ∈ sys.log, e.2.2.length ≤ 1022

instance (sys : System) : Decidable sys.Fits :=
  decidable_of_iff ((∀ inp ∈ sys.inputs, inp.length ≤ 1022) ∧ ∀ e ∈ sys.log, e.2.2.length ≤ 1022)
    ⟨fun h => ⟨h.1, h.2⟩, fun h => ⟨h.inputs, h.resps⟩⟩

section Shows

variable {mc : Machine} {sys sys' : System} {s : State Nat CStr CStr HashTable} {cfd : Nat} {repl : Repl}
  {cl : Client CStr CStr}

theorem System.closed_iff (sys : System) (cfd : Nat) :
    sys.closed cfd = true ↔ sys.phase = .down ∨ cfd ∈ sys.accepted ∧ sys.phase ≠ .serving cfd := by
  unfold System.closed
  simp

theorem System.not_closed_serving (hphase : sys.phase = .serving cfd) : sys.closed cfd ≠ true := by
  rw [Ne, System.closed_iff, hphase]
  rintro (hdown | ⟨_, hother⟩)
  · cases hdown
  · exact hother rfl

theorem System.Shows.attached (h : sys.Shows s) (hrepl : sys.repls[cfd]? = some repl)
    (hopen : sys.closed cfd ≠ true) : repl.Attached := by
  by_contra hgone
  exact hopen (h.gone cfd repl hrepl (.inl hgone))

theorem Repl.Shows.attached_of_ne (h : repl.Shows cl) (hne : repl.conn.to_client ≠ []) : repl.Attached := by
  by_contra hgone
  exact hne (h.detached hgone)

theorem Carries.idle_of_not {conn : Connection} {waits : Bool} {line : Line CStr CStr}
    (h : Carries conn waits line) (hwaits : waits = false) : conn = ⟨[], []⟩ ∧ line = .idle := by
  cases h with
  | idle => exact ⟨rfl, rfl⟩
  | asked => cases hwaits
  | answered => cases hwaits
  | closed => cases hwaits

theorem Carries.asked_of_ne {conn : Connection} {waits : Bool} {line : Line CStr CStr}
    (h : Carries conn waits line) (hne : conn.to_server ≠ []) :
    ∃ inp : CStr, (∀ heap, readline heap conn.to_server = (some inp, [])) ∧
      conn = ⟨writeline inp, []⟩ ∧ waits = true ∧ line = .asked inp := by
  cases h with
  | idle => exact absurd rfl hne
  | asked hlen => exact ⟨_, fun heap => readline_writeline heap hlen, rfl, rfl, rfl⟩
  | answered => exact absurd rfl hne
  | closed => exact absurd rfl hne

theorem Carries.answered_of_ne {conn : Connection} {waits : Bool} {line : Line CStr CStr}
    (h : Carries conn waits line) (hne : conn.to_client ≠ []) :
    ∃ resp : CStr, (∀ heap, readline heap conn.to_client = (some resp, [])) ∧
      conn = ⟨[], writeline resp⟩ ∧ line = .answered resp := by
  cases h with
  | idle => exact absurd rfl hne
  | asked => exact absurd rfl hne
  | answered hlen => exact ⟨_, fun heap => readline_writeline heap hlen, rfl, rfl⟩
  | closed => exact absurd rfl hne

/-- A client that does not wait for a reply has nothing to read. -/
theorem Repl.Shows.to_client_eq_nil (h : repl.Shows cl) (hwaits : repl.waits = false) :
    repl.conn.to_client = [] := by
  by_cases hattached : repl.Attached
  · rw [((h.carries hattached).idle_of_not hwaits).1]
  · exact h.detached hattached

theorem System.Shows.client (h : sys.Shows s) (hrepl : sys.repls[cfd]? = some repl) :
    ∃ cl, s.client cfd = some cl ∧ repl.Shows cl := by
  have hrel := h.repl cfd
  rw [hrepl] at hrel
  cases hc : s.client cfd with
  | none =>
    rw [hc] at hrel
    cases hrel
  | some cl =>
    rw [hc] at hrel
    cases hrel with
    | some hshows => exact ⟨cl, rfl, hshows⟩

theorem System.Shows.fresh (h : sys.Shows s) : s.client sys.repls.length = none := by
  have hrel := h.repl sys.repls.length
  rw [List.getElem?_eq_none (Nat.le_refl _)] at hrel
  cases hc : s.client sys.repls.length with
  | none => rfl
  | some cl =>
    rw [hc] at hrel
    cases hrel

theorem lt_of_repl (hrepl : sys.repls[cfd]? = some repl) : cfd < sys.repls.length :=
  (List.getElem?_eq_some_iff.mp hrepl).1

/-- A change to one client on both sides. -/
theorem System.Shows.update (h : sys.Shows s) (hcfd : cfd < sys.repls.length) (hcl : repl.Shows cl)
    (hgone : ¬ repl.Attached ∨ repl.stopped = true → sys.closed cfd = true) :
    (sys.update cfd repl).Shows { s with client := Function.update s.client cfd (some cl) } where
  phase := h.phase
  backlog := h.backlog
  ht := h.ht
  accepted := h.accepted
  log := h.log
  repl cfd' := by
    change Option.Rel Repl.Shows (sys.repls.set cfd repl)[cfd']?
      (Function.update s.client cfd (some cl) cfd')
    by_cases heq : cfd' = cfd
    · subst heq
      rw [Function.update_self, List.getElem?_set_self hcfd]
      exact .some hcl
    · rw [Function.update_of_ne heq, List.getElem?_set_ne (Ne.symm heq)]
      exact h.repl cfd'
  gone cfd' repl' hrepl' := by
    change (sys.repls.set cfd repl)[cfd']? = some repl' at hrepl'
    by_cases heq : cfd' = cfd
    · subst heq
      rw [List.getElem?_set_self hcfd] at hrepl'
      cases hrepl'
      exact hgone
    · rw [List.getElem?_set_ne (Ne.symm heq)] at hrepl'
      exact h.gone cfd' repl' hrepl'

/-- A change to one client that the protocol does not see. -/
theorem System.Shows.unseen (h : sys.Shows s) (hcfd : cfd < sys.repls.length) (hc : s.client cfd = some cl)
    (hcl : repl.Shows cl) (hgone : ¬ repl.Attached ∨ repl.stopped = true → sys.closed cfd = true) :
    (sys.update cfd repl).Shows s := by
  have hsame : Function.update s.client cfd (some cl) = s.client := by
    rw [← hc]
    exact Function.update_eq_self cfd s.client
  have hupdate := h.update hcfd hcl hgone
  rwa [hsame] at hupdate

/-! ## Each step of the processes is one of the protocol, or not seen by it -/

/-- What the protocol can go on to from a state, with a step or with none. -/
abbrev ShownFrom (mc : Machine) (s : State Nat CStr CStr HashTable) (sys : System) : Prop :=
  ∃ s', Relation.ReflTransGen (Step (service mc)) s s' ∧ sys.Shows s'

theorem System.Shows.connect (h : sys.Shows s) (typed : CStr) (hup : sys.phase ≠ .down) :
    ShownFrom mc s (sys.connect typed) := by
  refine ⟨_, .single (.connect (h.phase ▸ hup) h.fresh), h.phase, ?_, h.ht, fun cfd => ?_, h.accepted,
    h.log, fun cfd repl hrepl hgone => ?_⟩
  · exact congrArg (· ++ [sys.repls.length]) h.backlog
  · change Option.Rel Repl.Shows (sys.repls ++ [Repl.opened typed])[cfd]?
      (Function.update s.client sys.repls.length (some ⟨.idle, [], []⟩) cfd)
    by_cases heq : cfd = sys.repls.length
    · subst heq
      rw [Function.update_self, List.getElem?_concat_length]
      exact .some ⟨fun _ => .idle, fun _ => rfl, rfl, rfl⟩
    · rw [Function.update_of_ne heq]
      have hrel := h.repl cfd
      by_cases hlt : cfd < sys.repls.length
      · rwa [List.getElem?_append_left hlt]
      · rw [List.getElem?_eq_none (by rw [List.length_append, List.length_singleton]; omega)]
        rwa [List.getElem?_eq_none (by omega)] at hrel
  · change (sys.repls ++ [Repl.opened typed])[cfd]? = some repl at hrepl
    by_cases hlt : cfd < sys.repls.length
    · rw [List.getElem?_append_left hlt] at hrepl
      exact h.gone cfd repl hrepl hgone
    · have hnew : repl = Repl.opened typed := by
        have hmem := List.mem_of_getElem? (List.getElem?_append_right (Nat.le_of_not_lt hlt) ▸ hrepl)
        exact List.mem_singleton.mp hmem
      subst hnew
      rcases hgone with hdetached | hstopped
      · exact absurd ⟨rfl, rfl⟩ hdetached
      · cases hstopped

theorem System.mem_inputs (hrepl : sys.repls[cfd]? = some repl) {inp : CStr} (h : inp ∈ repl.inputs) :
    inp ∈ sys.inputs :=
  List.mem_flatMap.mpr ⟨repl, List.mem_of_getElem? hrepl, h⟩

/-- A line is asked on an open connection, and lost on a closed one. -/
theorem System.Shows.write (h : sys.Shows s) (hrepl : sys.repls[cfd]? = some repl)
    (hwaits : repl.waits = false) (stdin inp : CStr)
    (hfits : (sys.update cfd ({ repl with stdin := stdin }.write (sys.closed cfd) inp)).Fits) :
    ShownFrom mc s (sys.update cfd ({ repl with stdin := stdin }.write (sys.closed cfd) inp)) := by
  obtain ⟨cl, hcl, hshows⟩ := h.client hrepl
  have hlt := lt_of_repl hrepl
  unfold Repl.write at hfits ⊢
  by_cases hclosed : sys.closed cfd = true
  · rw [if_pos hclosed]
    refine ⟨s, .refl, h.unseen hlt hcl ?_ (fun _ => hclosed)⟩
    refine ⟨fun hattached => ?_, fun _ => hshows.to_client_eq_nil hwaits, hshows.asked, hshows.answered⟩
    exact absurd hattached.1 (List.append_ne_nil_of_right_ne_nil _ (List.cons_ne_nil _ _))
  · rw [if_neg hclosed] at hfits ⊢
    have hattached := h.attached hrepl hclosed
    obtain ⟨hconn, hline⟩ := (hshows.carries hattached).idle_of_not hwaits
    have hlen : inp.length ≤ 1022 :=
      hfits.inputs _ (System.mem_inputs (List.getElem?_set_self hlt)
        (List.mem_append_right _ (List.mem_singleton_self _)))
    rw [hconn]
    have hshows' : Repl.Shows
        { repl with
          conn := ⟨writeline inp, []⟩, stdin := stdin, waits := true, inputs := repl.inputs ++ [inp] }
        ⟨.asked inp, cl.asked ++ [inp], cl.answered⟩ :=
      ⟨fun _ => .asked hlen, fun hdetached => absurd hattached hdetached,
        congrArg (· ++ [inp]) hshows.asked, hshows.answered⟩
    exact ⟨_, .single (.ask hcl hline), h.update hlt hshows' (h.gone cfd repl hrepl)⟩

theorem System.Shows.accept (h : sys.Shows s) (honce : (s.accepted ++ s.backlog).Nodup) {backlog : List Nat}
    (hphase : sys.phase = .accepting) (hbacklog : sys.backlog = cfd :: backlog) : ShownFrom mc s
      { sys with phase := .serving cfd, backlog := backlog, accepted := sys.accepted ++ [cfd] } := by
  refine ⟨_, .single (.accept (h.phase ▸ hphase) (h.backlog ▸ hbacklog)), ?_⟩
  refine ⟨rfl, rfl, h.ht, h.repl, congrArg (· ++ [cfd]) h.accepted, h.log, fun cfd' repl hrepl hgone => ?_⟩
  have hended := (System.closed_iff sys cfd').mp (h.gone cfd' repl hrepl hgone)
  rw [hphase] at hended
  have hmem : cfd' ∈ sys.accepted := (hended.resolve_left (by simp)).1
  refine (System.closed_iff _ cfd').mpr (.inr ⟨List.mem_append_left _ hmem, fun hserving => ?_⟩)
  -- nobody is accepted twice
  obtain rfl : cfd = cfd' := Phase.serving.inj hserving
  rw [← h.accepted, ← h.backlog, hbacklog] at honce
  exact (List.nodup_append.mp honce).2.2 cfd hmem cfd List.mem_cons_self rfl

theorem System.Shows.down (h : sys.Shows s) : ShownFrom mc s { sys with phase := .down } :=
  ⟨_, .single .crash, rfl, h.backlog, h.ht, h.repl, h.accepted, h.log,
    fun cfd _ _ _ => (System.closed_iff _ cfd).mpr (.inl rfl)⟩

/-- A reply is sent if it is an answer. -/
theorem carries_replied {resp : CStr} (hlen : resp.length ≤ 1022) :
    Carries ⟨[], replied resp⟩ true ((verdict resp).line resp) := by
  unfold replied verdict dispatch
  by_cases hq : resp.head? = some CChar.q
  · rw [if_pos hq]
    exact .closed
  · rw [if_neg hq]
    by_cases hx : resp.head? = some CChar.x
    · rw [if_pos hx]
      exact .closed
    · rw [if_neg hx]
      exact .answered hlen

theorem System.Shows.serve (h : sys.Shows s) (hphase : sys.phase = .serving cfd)
    (hrepl : sys.repls[cfd]? = some repl) (hne : repl.conn.to_server ≠ []) (heap : List UInt8)
    (hfits : (sys.serve mc cfd repl heap).Fits) : ShownFrom mc s (sys.serve mc cfd repl heap) := by
  obtain ⟨cl, hcl, hshows⟩ := h.client hrepl
  have hattached := h.attached hrepl (System.not_closed_serving hphase)
  obtain ⟨inp, hread, hconn, hwaits, hline⟩ := (hshows.carries hattached).asked_of_ne hne
  cases hhandle : handle mc sys.ht inp with
  | error e =>
    have hserve : sys.serve mc cfd repl heap = { sys with phase := .down } := by
      simp only [System.serve, hread, hhandle]
    rw [hserve]
    exact h.down
  | ok r =>
    obtain ⟨resp, ht⟩ := r
    have hserve : sys.serve mc cfd repl heap =
        { sys.update cfd { repl with conn := ⟨[], replied resp⟩ } with
          phase := (verdict resp).phase cfd, ht := ht, log := sys.log ++ [(cfd, inp, resp)] } := by
      simp only [System.serve, hread, hhandle]
      rw [hconn]
      rfl
    rw [hserve] at hfits ⊢
    have hresp : resp.length ≤ 1022 :=
      hfits.resps (cfd, inp, resp) (List.mem_append_right _ (List.mem_singleton_self _))
    have hr : (service mc).handle s.store inp = some (resp, ht) := by
      change (handle mc s.store inp).toOption = _
      rw [← h.ht, hhandle]
      rfl
    have hshows' : Repl.Shows { repl with conn := ⟨[], replied resp⟩ }
        ⟨(verdict resp).line resp, cl.asked, cl.answered⟩ := by
      refine ⟨fun _ => ?_, fun hdetached => absurd hattached hdetached, hshows.asked, hshows.answered⟩
      change Carries ⟨[], replied resp⟩ repl.waits _
      rw [hwaits]
      exact carries_replied hresp
    have hupdate := h.update (lt_of_repl hrepl) hshows' (h.gone cfd repl hrepl)
    refine ⟨_, .single (.handle (h.phase ▸ hphase) hcl hline hr), ?_⟩
    refine ⟨rfl, hupdate.backlog, rfl, hupdate.repl, hupdate.accepted,
      congrArg (· ++ [(cfd, inp, resp)]) h.log, fun cfd' repl' hrepl' hgone => ?_⟩
    -- who was not being served before is not being served now
    have hended := (System.closed_iff _ cfd').mp (hupdate.gone cfd' repl' hrepl' hgone)
    refine (System.closed_iff _ cfd').mpr (.inr ?_)
    obtain ⟨hmem, hother⟩ := hended.resolve_left (by simp [System.update, hphase])
    refine ⟨hmem, fun hserving => hother ?_⟩
    rw [Verdict.eq_of_serving hserving]
    exact hphase

theorem System.Shows.receive (h : sys.Shows s) (hrepl : sys.repls[cfd]? = some repl)
    (hread : repl.conn.to_client ≠ [] ∨ sys.closed cfd = true) (heap : List UInt8) :
    ShownFrom mc s (sys.update cfd (repl.receive heap)) := by
  obtain ⟨cl, hcl, hshows⟩ := h.client hrepl
  unfold Repl.receive
  by_cases hnil : repl.conn.to_client = []
  · rw [if_pos hnil]
    refine ⟨s, .refl, h.unseen (lt_of_repl hrepl) hcl ?_ (fun _ => hread.resolve_left (absurd hnil))⟩
    refine ⟨fun hattached => ?_, fun _ => hnil, hshows.asked, hshows.answered⟩
    exact absurd hattached.2 (List.append_ne_nil_of_right_ne_nil _ (List.cons_ne_nil _ _))
  · rw [if_neg hnil]
    have hattached := hshows.attached_of_ne hnil
    obtain ⟨resp, hreads, hconn, hline⟩ := (hshows.carries hattached).answered_of_ne hnil
    rw [hreads, hconn]
    have hshows' : Repl.Shows { repl with conn := ⟨[], []⟩, waits := false, resps := repl.resps ++ [resp] }
        ⟨.idle, cl.asked, cl.answered ++ [resp]⟩ :=
      ⟨fun _ => .idle, fun _ => rfl, hshows.asked, congrArg (· ++ [resp]) hshows.answered⟩
    exact ⟨_, .single (.hear hcl hline),
      h.update (lt_of_repl hrepl) hshows' (h.gone cfd repl hrepl)⟩

theorem System.Shows.stop (h : sys.Shows s) (hrepl : sys.repls[cfd]? = some repl)
    (hclosed : sys.closed cfd = true) : ShownFrom mc s (sys.update cfd { repl with stopped := true }) := by
  obtain ⟨cl, hcl, hshows⟩ := h.client hrepl
  exact ⟨s, .refl, h.unseen (lt_of_repl hrepl) hcl
    ⟨hshows.carries, hshows.detached, hshows.asked, hshows.answered⟩ (fun _ => hclosed)⟩

/-- All that a step can do. -/
inductive System.Moves (mc : Machine) (sys : System) : Act → System → Prop where
  | connect (typed : CStr) (hup : sys.phase ≠ .down) : Moves mc sys (.connect typed) (sys.connect typed)
  | send {cfd : Nat} {repl : Repl} (hrepl : sys.repls[cfd]? = some repl) (hwaits : repl.waits = false)
    (hruns : repl.stopped = false) (hmore : repl.stdin ≠ []) :
    Moves mc sys (.send cfd) (sys.update cfd (repl.send (sys.closed cfd)))
  | eof {cfd : Nat} {repl : Repl} {heap : List UInt8} {inp : CStr} (hrepl : sys.repls[cfd]? = some repl)
    (hwaits : repl.waits = false) (hruns : repl.stopped = false) (hdone : repl.stdin = [])
    (hinp : c_string heap = some inp) :
    Moves mc sys (.eof cfd heap) (sys.update cfd (repl.write (sys.closed cfd) inp))
  | accept {cfd : Nat} {backlog : List Nat} (hphase : sys.phase = .accepting)
    (hbacklog : sys.backlog = cfd :: backlog) :
    Moves mc sys .accept { sys with
      phase := .serving cfd, backlog := backlog, accepted := sys.accepted ++ [cfd] }
  | serve {cfd : Nat} {repl : Repl} (heap : List UInt8) (hphase : sys.phase = .serving cfd)
    (hrepl : sys.repls[cfd]? = some repl) (hne : repl.conn.to_server ≠ []) :
    Moves mc sys (.serve heap) (sys.serve mc cfd repl heap)
  | receive {cfd : Nat} {repl : Repl} (heap : List UInt8) (hrepl : sys.repls[cfd]? = some repl)
    (hwaits : repl.waits = true) (hruns : repl.stopped = false)
    (hread : repl.conn.to_client ≠ [] ∨ sys.closed cfd = true) :
    Moves mc sys (.receive cfd heap) (sys.update cfd (repl.receive heap))
  | stop {cfd : Nat} {repl : Repl} (hrepl : sys.repls[cfd]? = some repl) (hruns : repl.stopped = false)
    (hclosed : sys.closed cfd = true) :
    Moves mc sys (.stop cfd) (sys.update cfd { repl with stopped := true })

theorem System.step_moves {act : Act} (hstep : sys.step mc act = some sys') : sys.Moves mc act sys' := by
  cases act with
  | connect typed =>
    rw [System.step, Option.ite_none_right_eq_some] at hstep
    obtain ⟨hup, hsys⟩ := hstep
    cases hsys
    exact .connect typed hup
  | send cfd =>
    rw [System.step, Option.bind_eq_some_iff] at hstep
    obtain ⟨repl, hrepl, hsys⟩ := hstep
    rw [Option.ite_none_right_eq_some] at hsys
    obtain ⟨⟨hwaits, hruns, hmore⟩, hsys⟩ := hsys
    cases hsys
    exact .send hrepl hwaits hruns hmore
  | eof cfd heap =>
    rw [System.step, Option.bind_eq_some_iff] at hstep
    obtain ⟨repl, hrepl, hsys⟩ := hstep
    rw [Option.ite_none_right_eq_some, Option.map_eq_some_iff] at hsys
    obtain ⟨⟨hwaits, hruns, hdone⟩, inp, hinp, hsys⟩ := hsys
    cases hsys
    exact .eof hrepl hwaits hruns hdone hinp
  | accept =>
    simp only [System.step] at hstep
    split at hstep
    next cfd backlog hphase hbacklog =>
      cases hstep
      exact .accept hphase hbacklog
    next => cases hstep
  | serve heap =>
    simp only [System.step] at hstep
    split at hstep
    next cfd hphase =>
      rw [Option.bind_eq_some_iff] at hstep
      obtain ⟨repl, hrepl, hsys⟩ := hstep
      rw [Option.ite_none_right_eq_some] at hsys
      obtain ⟨hne, hsys⟩ := hsys
      cases hsys
      exact .serve heap hphase hrepl hne
    next => cases hstep
  | receive cfd heap =>
    rw [System.step, Option.bind_eq_some_iff] at hstep
    obtain ⟨repl, hrepl, hsys⟩ := hstep
    rw [Option.ite_none_right_eq_some] at hsys
    obtain ⟨⟨hwaits, hruns, hread⟩, hsys⟩ := hsys
    cases hsys
    exact .receive heap hrepl hwaits hruns hread
  | stop cfd =>
    rw [System.step, Option.bind_eq_some_iff] at hstep
    obtain ⟨repl, hrepl, hsys⟩ := hstep
    rw [Option.ite_none_right_eq_some] at hsys
    obtain ⟨⟨hruns, hclosed⟩, hsys⟩ := hsys
    cases hsys
    exact .stop hrepl hruns hclosed

/-- What every step keeps holds after a run. -/
theorem System.run_keeps {P : System → Prop} {acts : List Act} (h : P sys)
    (hkeeps : ∀ {sys act next}, P sys → System.Moves mc sys act next → P next)
    (hrun : acts.foldlM (System.step mc) sys = some sys') : P sys' := by
  induction acts generalizing sys with
  | nil =>
    cases hrun
    exact h
  | cons act acts ih =>
    rw [List.foldlM_cons, Option.bind_eq_bind, Option.bind_eq_some_iff] at hrun
    obtain ⟨next, hstep, hrest⟩ := hrun
    exact ih (hkeeps h (System.step_moves hstep)) hrest

theorem System.Shows.moves {act : Act} (h : sys.Shows s) (honce : (s.accepted ++ s.backlog).Nodup)
    (hmoves : sys.Moves mc act sys') (hfits : sys'.Fits) : ShownFrom mc s sys' := by
  cases hmoves with
  | connect typed hup => exact h.connect typed hup
  | send hrepl hwaits _ _ => exact h.write hrepl hwaits _ _ hfits
  | eof hrepl hwaits _ _ _ => exact h.write hrepl hwaits _ _ hfits
  | accept hphase hbacklog => exact h.accept honce hphase hbacklog
  | serve heap hphase hrepl hne => exact h.serve hphase hrepl hne heap hfits
  | receive heap hrepl _ _ hread => exact h.receive hrepl hread heap
  | stop hrepl _ hclosed => exact h.stop hrepl hclosed

/-! ## The history only grows -/

/-- What has been sent and what has been logged stays. -/
structure System.Grows (sys sys' : System) : Prop where
  inputs : sys.inputs ⊆ sys'.inputs
  log : sys.log ⊆ sys'.log

theorem System.Fits.of_grows (h : sys'.Fits) (hgrows : sys.Grows sys') : sys.Fits :=
  ⟨fun inp hinp => h.inputs inp (hgrows.inputs hinp), fun e he => h.resps e (hgrows.log he)⟩

theorem System.grows_refl (sys : System) : sys.Grows sys := ⟨List.Subset.refl _, List.Subset.refl _⟩

theorem System.Grows.trans {sys'' : System} (h : sys.Grows sys') (h' : sys'.Grows sys'') :
    sys.Grows sys'' :=
  ⟨List.Subset.trans h.inputs h'.inputs, List.Subset.trans h.log h'.log⟩

/-- A client that has sent what it had sent before. -/
theorem System.grows_update {repl' : Repl} (hrepl : sys.repls[cfd]? = some repl)
    (h : repl.inputs ⊆ repl'.inputs) : sys.Grows (sys.update cfd repl') := by
  refine ⟨fun inp hinp => ?_, List.Subset.refl _⟩
  obtain ⟨other, hother, hinp⟩ := List.mem_flatMap.mp hinp
  obtain ⟨i, hi⟩ := List.mem_iff_getElem?.mp hother
  by_cases heq : i = cfd
  · subst heq
    rw [hrepl] at hi
    cases hi
    exact System.mem_inputs (List.getElem?_set_self (lt_of_repl hrepl)) (h hinp)
  · exact System.mem_inputs ((List.getElem?_set_ne (Ne.symm heq)).trans hi) hinp

theorem Repl.receive_inputs (heap : List UInt8) (repl : Repl) :
    (repl.receive heap).inputs = repl.inputs := by
  unfold Repl.receive
  split
  · rfl
  · split <;> rfl

theorem Repl.inputs_write (closed : Bool) (inp : CStr) (repl : Repl) :
    repl.inputs ⊆ (repl.write closed inp).inputs := by
  unfold Repl.write
  split
  · exact List.Subset.refl _
  · exact List.subset_append_left _ _

theorem System.grows_serve (hrepl : sys.repls[cfd]? = some repl) (heap : List UInt8) :
    sys.Grows (sys.serve mc cfd repl heap) := by
  unfold System.serve
  split
  · exact ⟨sys.grows_refl.inputs, sys.grows_refl.log⟩
  · split
    · exact ⟨sys.grows_refl.inputs, sys.grows_refl.log⟩
    · refine ⟨(System.grows_update hrepl ?_).inputs, List.subset_append_left _ _⟩
      exact List.Subset.refl _

theorem System.Moves.grows {act : Act} (hmoves : sys.Moves mc act sys') : sys.Grows sys' := by
  cases hmoves with
  | connect typed _ =>
    refine ⟨?_, List.Subset.refl _⟩
    unfold System.inputs System.connect
    rw [List.flatMap_append]
    exact List.subset_append_left _ _
  | @send cfd repl hrepl _ _ _ =>
    exact System.grows_update hrepl (Repl.inputs_write _ _ { repl with stdin := (fgets 1023 repl.stdin).2 })
  | eof hrepl _ _ _ _ => exact System.grows_update hrepl (Repl.inputs_write ..)
  | accept _ _ => exact ⟨sys.grows_refl.inputs, sys.grows_refl.log⟩
  | serve heap _ hrepl _ => exact System.grows_serve hrepl heap
  | receive heap hrepl _ _ _ =>
    refine System.grows_update hrepl ?_
    rw [Repl.receive_inputs]
    exact List.Subset.refl _
  | stop hrepl _ _ => exact System.grows_update hrepl (List.Subset.refl _)

/-! ## Runs -/

theorem System.run_grows {acts : List Act} (hrun : acts.foldlM (System.step mc) sys = some sys') :
    sys.Grows sys' :=
  System.run_keeps (System.grows_refl sys) (fun h hmoves => h.trans hmoves.grows) hrun

/-- The processes are in a state that an interleaving of the protocol leads to. -/
def System.Stands (mc : Machine) (sys : System) : Prop :=
  ∃ s, SerialServer.Reachable (service mc) (htable_init HT_BASE_SIZE) s ∧ sys.Shows s

theorem System.Stands.moves {act : Act} (h : sys.Stands mc) (hmoves : sys.Moves mc act sys')
    (hfits : sys'.Fits) : sys'.Stands mc := by
  obtain ⟨s, hreach, hshows⟩ := h
  obtain ⟨s', hs', hshows'⟩ := hshows.moves (SerialServer.Reachable.serial hreach).once hmoves hfits
  exact ⟨s', hreach.trans hs', hshows'⟩

/-- Every interleaving of the processes in which the messages fit is one of the
    protocol. -/
theorem System.Stands.run {acts : List Act} (h : sys.Stands mc)
    (hrun : acts.foldlM (System.step mc) sys = some sys') (hfits : sys'.Fits) : sys'.Stands mc :=
  System.run_keeps (P := fun sys => sys.Fits → sys.Stands mc) (fun _ => h)
    (fun ih hmoves hfits => (ih (hfits.of_grows hmoves.grows)).moves hmoves hfits) hrun hfits

theorem System.start_stands (mc : Machine) : System.start.Stands mc :=
  ⟨_, .refl, rfl, rfl, rfl, fun _ => .none, rfl, rfl, fun _ _ hrepl => by cases hrepl⟩

theorem System.run_stands {acts : List Act} (hrun : System.run mc acts = some sys) (hfits : sys.Fits) :
    sys.Stands mc :=
  (System.start_stands mc).run hrun hfits

end Shows

/-! ## Sessions one after the other -/

/-- The command that a line is parsed as. -/
def command (line : CStr) : Command := command_of (tokens line)

namespace System

/-- The commands of all the clients, in the order in which they were executed. -/
def commands (sys : System) : List Command := sys.log.map fun e => command e.2.1

def replies (sys : System) : List CStr := sys.log.map fun e => e.2.2

end System

theorem handle_eq (mc : Machine) (ht : HashTable) (msg : CStr) :
    handle mc ht msg = interpret mc ht (command msg) := by
  rw [handle, parse_eq]
  rfl

/-- The protocol's history is a run of the interpreter. -/
theorem serve_of_replays {mc : Machine} {ht ht' : HashTable} {l : List (CStr × CStr)}
    (h : Replays (service mc) ht l ht') :
    serve mc (l.map fun e => command e.1) ht = .ok (l.map Prod.snd, ht') := by
  induction l generalizing ht with
  | nil => exact congrArg (fun t => Except.ok ([], t)) h
  | cons e l ih =>
    obtain ⟨ht₁, hr, hrest⟩ := h
    have hinterpret : interpret mc ht (command e.1) = .ok (e.2, ht₁) := by
      rw [← handle_eq]
      change (handle mc ht e.1).toOption = _ at hr
      cases hhandle : handle mc ht e.1 with
      | error => rw [hhandle] at hr; cases hr
      | ok r =>
        rw [hhandle] at hr
        cases hr
        rfl
    rw [List.map_cons, serve, hinterpret, ok_bind]
    dsimp only
    rw [ih hrest]
    rfl

/-- The requests were executed one after the other, session after session in the
    order in which the connections were accepted. Every client gets the replies to
    its own requests, in order, none of them lost or doubled, and has at most one
    request under way. Beyond that no line is lost and no reply made up before the
    server has closed the connection, which it does where it goes down, or the last
    reply ends the session. -/
structure System.Sequential (mc : Machine) (sys : System) : Prop where
  served : hyperkv.serve mc sys.commands (htable_init HT_BASE_SIZE) = .ok (sys.replies, sys.ht)
  sessions : sys.log = sys.accepted.flatMap fun cfd => sys.log.filter (·.1 = cfd)
  once : sys.accepted.Nodup
  asked : ∀ (cfd : Nat) (repl : Repl), sys.repls[cfd]? = some repl →
    (exchanges cfd sys.log).map Prod.fst <+: repl.inputs
  answered : ∀ (cfd : Nat) (repl : Repl), sys.repls[cfd]? = some repl →
    repl.resps <+: (exchanges cfd sys.log).map Prod.snd
  under_way : ∀ (cfd : Nat) (repl : Repl), sys.repls[cfd]? = some repl →
    repl.inputs.length ≤ repl.resps.length + 1
  gone : ∀ (cfd : Nat) (repl : Repl), sys.repls[cfd]? = some repl →
    repl.lost ≠ [] ∨ repl.made_up ≠ [] ∨ repl.stopped = true → sys.closed cfd = true
  closed : ∀ cfd, sys.closed cfd = true → sys.phase = .down ∨
    ∃ e, (exchanges cfd sys.log).getLast? = some e ∧ verdict e.2 ≠ .answers

/-- Whatever the clients do, and in whatever order. -/
theorem sessions_sequential (mc : Machine) {acts : List Act} {sys : System}
    (hrun : System.run mc acts = some sys)
    (hfits : sys.Fits) : sys.Sequential mc := by
  obtain ⟨s, hreach, hshows⟩ := System.run_stands hrun hfits
  have hserial := SerialServer.Reachable.serial hreach
  have hplaced := SerialServer.Reachable.placed hreach
  obtain ⟨phase, _, ht, repls, accepted, log⟩ := sys
  obtain rfl : log = s.log := hshows.log
  obtain rfl : accepted = s.accepted := hshows.accepted
  obtain rfl : ht = s.store := hshows.ht
  obtain rfl : phase = s.phase := hshows.phase
  have hfollows : ∀ cfd repl, repls[cfd]? = some repl → ∃ cl : Client CStr CStr,
      cl.Follows (service mc) (exchanges cfd s.log) ∧ repl.Shows cl := by
    intro cfd repl hrepl
    obtain ⟨cl, hcl, hclient⟩ := hshows.client hrepl
    exact ⟨cl, hserial.follows cfd cl hcl, hclient⟩
  refine ⟨?_, hserial.sessions, (List.nodup_append.mp hserial.once).1, fun cfd repl hrepl => ?_,
    fun cfd repl hrepl => ?_, fun cfd repl hrepl => ?_, fun cfd repl hrepl hgone => ?_,
    fun cfd hclosed => ?_⟩
  · have hserve := serve_of_replays hserial.replays
    rw [List.map_map, List.map_map] at hserve
    exact hserve
  · obtain ⟨cl, hcl, hclient⟩ := hfollows cfd repl hrepl
    exact hclient.asked ▸ hcl.asked
  · obtain ⟨cl, hcl, hclient⟩ := hfollows cfd repl hrepl
    exact hclient.answered ▸ hcl.answered
  · obtain ⟨cl, hcl, hclient⟩ := hfollows cfd repl hrepl
    rw [← hclient.asked, ← hclient.answered]
    exact hcl.under_way
  · refine hshows.gone cfd repl hrepl (or_assoc.mpr hgone |>.imp (fun hwent hattached => ?_) id)
    exact hwent.elim (absurd hattached.1) (absurd hattached.2)
  · by_cases hdown : s.phase = .down
    · exact .inl hdown
    · obtain ⟨haccepted, hother⟩ := ((System.closed_iff _ cfd).mp hclosed).resolve_left hdown
      obtain ⟨cl, hcl, hline⟩ := (hplaced.ended hdown cfd haccepted).resolve_left hother
      obtain ⟨q, r, hlast, hverdict⟩ := (hserial.follows cfd cl hcl).ended hline
      exact .inr ⟨(q, r), hlast, hverdict⟩

/-- Two clients, whose steps are mixed: the second asks before it is accepted. The first
    goes on after its `quit` until it is stopped, and the second beyond the end of its
    input. -/
def two_clients : List Act :=
  [.connect (cstr "set a 1\nincr a\nquit\nget a\n"), .connect (cstr "lpush l x\nllen l\n"),
    .send 1, .send 0, .accept, .serve (List.replicate 1024 0), .receive 0 (List.replicate 1024 0),
    .send 0, .serve (List.replicate 1024 0), .receive 0 (List.replicate 1024 0),
    .send 0, .serve (List.replicate 1024 0), .accept, .receive 0 (writeline (cstr ":2")), .send 0,
    .serve (List.replicate 1024 0), .receive 0 (List.replicate 1024 0), .stop 0,
    .receive 1 (List.replicate 1024 0), .send 1, .serve (List.replicate 1024 0),
    .receive 1 (List.replicate 1024 0), .eof 1 (writeline (cstr "llen l")), .serve (List.replicate 1024 0)]

def two_clients_end : System := (System.run machine two_clients).getD .start

theorem two_clients_run : System.run machine two_clients = some two_clients_end :=
  (Option.getD_of_ne_none (Option.ne_none_iff_isSome.mpr (by decide +kernel)) _).symm

theorem sessions_sequential_two : two_clients_end.Sequential machine :=
  sessions_sequential machine two_clients_run (by decide +kernel)

end hyperkv
