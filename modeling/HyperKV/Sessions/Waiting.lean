import HyperKV.SerialServer.Waiting
import HyperKV.Sessions.Typed

open SerialServer

namespace hyperkv

variable {mc : Machine} {sys sys' : System} {s : State Nat CStr CStr HashTable} {act : Act}

theorem writeline_ne_nil (msg : CStr) : writeline msg ≠ [] :=
  List.append_ne_nil_of_right_ne_nil _ (List.cons_ne_nil _ _)

theorem System.run_append {acts more : List Act} (hrun : System.run mc acts = some sys)
    (hmore : more.foldlM (System.step mc) sys = some sys') :
    System.run mc (acts ++ more) = some sys' := by
  rw [System.run] at hrun ⊢
  rw [List.foldlM_append, hrun]
  exact hmore

/-! ## How long the server and its clients go on -/

/-- What a step from outside brings: itself, and what it leads to. A new client is
    accepted and types, a line that a client makes up at the end of its input is
    answered and read, and a client is stopped once. -/
def Act.brings : Act → Nat
  | .connect typed => 3 * typed.length + 2
  | .eof _ _ => 3
  | .stop _ => 1
  | _ => 0

/-- What a client can still cause: each of its lines is sent, answered and read. -/
def Repl.left (repl : Repl) : Nat :=
  3 * repl.stdin.length + (if repl.waits then 1 else 0) + if repl.conn.to_server = [] then 0 else 1

/-- The steps that are left when nothing comes from outside. -/
def System.left (sys : System) : Nat :=
  (sys.repls.map Repl.left).sum + sys.backlog.length + if sys.phase = .down then 0 else 1

theorem fgets_shorter {stdin : CStr} (h : stdin ≠ []) : (fgets 1023 stdin).2.length < stdin.length := by
  have hlen := congrArg List.length (fgets_append 1023 stdin)
  have hpos := List.length_pos_of_ne_nil (fgets_ne_nil h)
  rw [List.length_append] at hlen
  omega

theorem sum_map_set {α : Type} {f : α → Nat} {l : List α} {i : Nat} {a : α} (ha : l[i]? = some a) (b : α) :
    ((l.set i b).map f).sum + f a = (l.map f).sum + f b := by
  induction l generalizing i with
  | nil => cases ha
  | cons x l ih =>
    cases i with
    | zero =>
      cases ha
      simp only [List.set_cons_zero, List.map_cons, List.sum_cons]
      omega
    | succ i =>
      have hrest := ih ha
      simp only [List.set_cons_succ, List.map_cons, List.sum_cons]
      omega

theorem System.left_update {cfd : Nat} {repl : Repl} (hrepl : sys.repls[cfd]? = some repl) (repl' : Repl) :
    (sys.update cfd repl').left + repl.left = sys.left + repl'.left := by
  have hsum := @sum_map_set Repl Repl.left _ _ _ hrepl repl'
  have hupdate : (sys.update cfd repl').left = ((sys.repls.set cfd repl').map Repl.left).sum +
      sys.backlog.length + if sys.phase = .down then 0 else 1 := rfl
  rw [hupdate, System.left]
  omega

/-- A line under way stands for two steps, its answer and the reading of that. -/
theorem Repl.left_write (closed : Bool) (inp : CStr) (repl : Repl) :
    (repl.write closed inp).left ≤ 3 * repl.stdin.length + 2 := by
  unfold Repl.write Repl.left
  split <;> dsimp only <;> split <;> split <;> omega

/-- A client that has read, or has taken something for a reply, waits no more. -/
theorem Repl.Shows.left_receive {cl : Client CStr CStr} {repl : Repl} (h : repl.Shows cl)
    (hwaits : repl.waits = true) (heap : List UInt8) : (repl.receive heap).left + 1 = repl.left := by
  have hreads : repl.conn.to_client = [] ∨
      ∃ resp, readline heap repl.conn.to_client = (some resp, []) := by
    refine (Decidable.em _).imp id fun hne => ?_
    obtain ⟨resp, hread, _, _⟩ := (h.carries (h.attached_of_ne hne)).answered_of_ne hne
    exact ⟨resp, hread heap⟩
  unfold Repl.receive
  split
  · simp only [Repl.left, hwaits, if_true, Bool.false_eq_true, if_false]
    omega
  next hne =>
    obtain ⟨resp, hread⟩ := hreads.resolve_left hne
    simp only [hread, Repl.left, hwaits, if_true, Bool.false_eq_true, if_false]
    omega

/-- A turn of the server takes a message from the client, or is its last. -/
theorem System.Shows.left_serve (h : sys.Shows s) {cfd : Nat} {repl : Repl}
    (hphase : sys.phase = .serving cfd)
    (hrepl : sys.repls[cfd]? = some repl) (hne : repl.conn.to_server ≠ []) (heap : List UInt8) :
    (sys.serve mc cfd repl heap).left + 1 ≤ sys.left := by
  obtain ⟨cl, hcl, hshows⟩ := h.client hrepl
  have hattached := h.attached hrepl (System.not_closed_serving hphase)
  obtain ⟨inp, hread, _, hwaits, _⟩ := (hshows.carries hattached).asked_of_ne hne
  unfold System.serve
  rw [hread]
  dsimp only
  split
  · simp [System.left, hphase]
  next resp ht _ =>
    have hturn :
        Repl.left { repl with conn := ⟨[], repl.conn.to_client ++ replied resp⟩ } + 1 = repl.left := by
      simp [Repl.left, hne]
    have hsum := System.left_update hrepl { repl with conn := ⟨[], repl.conn.to_client ++ replied resp⟩ }
    have hphase_le : (if (verdict resp).phase cfd = .down then 0 else 1) ≤ 1 := by split <;> omega
    simp only [System.left, System.update, hphase, reduceCtorEq, if_false] at hsum ⊢
    omega

/-- Every step is one of those that were left, or is paid for by what it brings. -/
theorem System.Moves.left_le (hmoves : sys.Moves mc act sys') (h : sys.Shows s) :
    sys'.left + 1 ≤ sys.left + act.brings := by
  cases hmoves with
  | connect typed _ =>
    have hconnect : (sys.connect typed).left = ((sys.repls ++ [Repl.opened typed]).map Repl.left).sum +
        (sys.backlog ++ [sys.repls.length]).length + if sys.phase = .down then 0 else 1 := rfl
    have hopened : (Repl.opened typed).left = 3 * typed.length := rfl
    rw [hconnect, List.map_append, List.map_singleton, List.sum_append, List.sum_singleton, hopened,
      List.length_append, List.length_singleton, System.left]
    simp only [Act.brings]
    omega
  | @send cfd repl hrepl hwaits _ hmore =>
    have hsum := System.left_update hrepl (repl.send (sys.closed cfd))
    have hstdin := fgets_shorter hmore
    have hsent : (repl.send (sys.closed cfd)).left ≤ 3 * (fgets 1023 repl.stdin).2.length + 2 :=
      Repl.left_write _ _ { repl with stdin := (fgets 1023 repl.stdin).2 }
    have hleft : 3 * repl.stdin.length ≤ repl.left := by
      unfold Repl.left
      omega
    omega
  | @eof cfd repl heap inp hrepl _ _ _ _ =>
    have hsum := System.left_update hrepl (repl.write (sys.closed cfd) inp)
    have hsent := Repl.left_write (sys.closed cfd) inp repl
    have hleft : 3 * repl.stdin.length ≤ repl.left := by
      unfold Repl.left
      omega
    simp only [Act.brings]
    omega
  | accept hphase hbacklog =>
    simp [System.left, hphase, hbacklog, Act.brings]
  | serve heap hphase hrepl hne => exact h.left_serve hphase hrepl hne heap
  | @receive cfd repl heap hrepl hwaits _ _ =>
    obtain ⟨cl, _, hshows⟩ := h.client hrepl
    have hsum := System.left_update hrepl (repl.receive heap)
    have hread := hshows.left_receive hwaits heap
    omega
  | @stop cfd repl hrepl _ _ =>
    have hsum := System.left_update hrepl { repl with stopped := true }
    have hsame : Repl.left { repl with stopped := true } = repl.left := rfl
    simp only [Act.brings]
    omega

theorem System.Stands.run_left {more : List Act} (h : sys.Stands mc)
    (hrun : more.foldlM (System.step mc) sys = some sys') (hfits : sys'.Fits) :
    more.length + sys'.left ≤ sys.left + (more.map Act.brings).sum := by
  induction more generalizing sys with
  | nil =>
    cases hrun
    exact Nat.le_of_eq (Nat.zero_add _)
  | cons act more ih =>
    rw [List.foldlM_cons, Option.bind_eq_bind, Option.bind_eq_some_iff] at hrun
    obtain ⟨next, hstep, hrest⟩ := hrun
    have hmoves := System.step_moves hstep
    have hle := ih (h.moves hmoves (hfits.of_grows (System.run_grows hrest))) hrest
    obtain ⟨s, _, hshows⟩ := h
    have hlt := hmoves.left_le hshows
    rw [List.length_cons, List.map_cons, List.sum_cons]
    omega

/-- The server and its clients come to rest, after a number of steps that is known
    beforehand, unless new clients go on to connect, or a client is at the end of its
    input: then it goes on for ever. -/
theorem sessions_settle (mc : Machine) {acts more : List Act} {sys sys' : System}
    (hrun : System.run mc acts = some sys) (hmore : more.foldlM (System.step mc) sys = some sys')
    (hfits : sys'.Fits) : more.length + sys'.left ≤ sys.left + (more.map Act.brings).sum :=
  (System.run_stands hrun (hfits.of_grows (System.run_grows hmore))).run_left hmore hfits

/-- A client that does not leave, and one that queues behind it. -/
def queueing_clients : List Act := [.connect (cstr "set a 1\n"), .connect (cstr "get a\n")]

def queueing : List Act :=
  [.send 0, .send 1, .accept, .serve (List.replicate 1024 0), .receive 0 (List.replicate 1024 0),
    .eof 0 (writeline (cstr "incr a")), .serve (List.replicate 1024 0), .receive 0 (List.replicate 1024 0)]

def queueing_start : System := (System.run machine queueing_clients).getD .start

def queueing_end : System := (queueing.foldlM (System.step machine) queueing_start).getD .start

theorem queueing_start_run : System.run machine queueing_clients = some queueing_start :=
  (Option.getD_of_ne_none (Option.ne_none_iff_isSome.mpr (by decide +kernel)) _).symm

theorem queueing_run : queueing.foldlM (System.step machine) queueing_start = some queueing_end :=
  (Option.getD_of_ne_none (Option.ne_none_iff_isSome.mpr (by decide +kernel)) _).symm

theorem sessions_settle_queueing :
    queueing.length + queueing_end.left ≤ queueing_start.left + (queueing.map Act.brings).sum :=
  sessions_settle machine queueing_start_run queueing_run (by decide +kernel)

/-! ## Who is left waiting -/

/-- Nothing happens any more unless it comes from outside. -/
def System.Quiet (mc : Machine) (sys : System) : Prop :=
  ∀ act : Act, act.brings = 0 → sys.step mc act = none

theorem System.Quiet.sent (h : sys.Quiet mc) {cfd : Nat} {repl : Repl}
    (hrepl : sys.repls[cfd]? = some repl)
    (hwaits : repl.waits = false) (hruns : repl.stopped = false) : repl.stdin = [] := by
  have hsend := h (.send cfd) rfl
  rw [System.step, hrepl, Option.bind_some, ite_eq_right_iff] at hsend
  by_contra hmore
  cases hsend ⟨hwaits, hruns, hmore⟩

theorem System.Quiet.accepted (h : sys.Quiet mc) (hphase : sys.phase = .accepting) :
    sys.backlog = [] := by
  have haccept := h .accept rfl
  cases hbacklog : sys.backlog with
  | nil => rfl
  | cons cfd backlog =>
    simp only [System.step, hphase, hbacklog] at haccept
    cases haccept

theorem System.Quiet.served (h : sys.Quiet mc) {cfd : Nat} {repl : Repl}
    (hphase : sys.phase = .serving cfd)
    (hrepl : sys.repls[cfd]? = some repl) : repl.conn.to_server = [] := by
  have hserve := h (.serve []) rfl
  simp only [System.step, hphase, hrepl, Option.bind_some, ite_eq_right_iff] at hserve
  by_contra hne
  cases hserve hne

/-- Who waits has nothing to read, and its connection is open. -/
theorem System.Quiet.read (h : sys.Quiet mc) {cfd : Nat} {repl : Repl}
    (hrepl : sys.repls[cfd]? = some repl)
    (hwaits : repl.waits = true) (hruns : repl.stopped = false) :
    repl.conn.to_client = [] ∧ sys.closed cfd ≠ true := by
  have hreceive := h (.receive cfd []) rfl
  rw [System.step, hrepl, Option.bind_some, ite_eq_right_iff] at hreceive
  constructor
  · by_contra hne
    cases hreceive ⟨hwaits, hruns, .inl hne⟩
  · intro hclosed
    cases hreceive ⟨hwaits, hruns, .inr hclosed⟩

instance (mc : Machine) (sys : System) : Decidable (sys.Quiet mc) :=
  decidable_of_iff ((∀ cfd : Fin sys.repls.length, sys.repls[cfd].stopped = false →
        if sys.repls[cfd].waits then sys.repls[cfd].conn.to_client = [] ∧ sys.closed cfd ≠ true
        else sys.repls[cfd].stdin = []) ∧
      (sys.phase = .accepting → sys.backlog = []) ∧
      ∀ cfd : Fin sys.repls.length, sys.phase = .serving cfd → sys.repls[cfd].conn.to_server = []) <| by
    constructor
    · rintro ⟨hrepls, haccepted, hserved⟩ act hact
      refine Option.eq_none_iff_forall_ne_some.mpr fun sys' hstep => ?_
      cases System.step_moves hstep with
      | connect => cases hact
      | send hrepl hwaits hruns hmore =>
        obtain ⟨hlt, rfl⟩ := List.getElem?_eq_some_iff.mp hrepl
        have hsent := hrepls ⟨_, hlt⟩ hruns
        simp only [Fin.getElem_fin, hwaits, Bool.false_eq_true, if_false] at hsent
        exact hmore hsent
      | eof => cases hact
      | accept hphase hbacklog =>
        rw [haccepted hphase] at hbacklog
        cases hbacklog
      | serve heap hphase hrepl hne =>
        obtain ⟨hlt, rfl⟩ := List.getElem?_eq_some_iff.mp hrepl
        exact hne (hserved ⟨_, hlt⟩ hphase)
      | receive heap hrepl hwaits hruns hread =>
        obtain ⟨hlt, rfl⟩ := List.getElem?_eq_some_iff.mp hrepl
        have hwaiting := hrepls ⟨_, hlt⟩ hruns
        simp only [Fin.getElem_fin, hwaits, if_true] at hwaiting
        exact hread.elim (absurd hwaiting.1) hwaiting.2
      | stop => cases hact
    · intro h
      refine ⟨fun cfd hruns => ?_, h.accepted, fun cfd hphase => ?_⟩
      · have hrepl := List.getElem?_eq_getElem cfd.isLt
        split
        next hwaits => exact h.read hrepl hwaits hruns
        next hwaits => exact h.sent hrepl (Bool.eq_false_iff.mpr hwaits) hruns
      · exact h.served hphase (List.getElem?_eq_getElem cfd.isLt)

theorem System.Shows.known (h : sys.Shows s) {cfd : Nat} (hknown : s.client cfd ≠ none) :
    ∃ repl, sys.repls[cfd]? = some repl := by
  have hrel := h.repl cfd
  cases hrepl : sys.repls[cfd]? with
  | none =>
    rw [hrepl] at hrel
    cases hc : s.client cfd with
    | none => exact absurd hc hknown
    | some cl =>
      rw [hc] at hrel
      cases hrel
  | some repl => exact ⟨repl, rfl⟩

/-- Who waits with nothing under way has had its last reply. -/
theorem Carries.closed_of_nil {conn : Connection} {waits : Bool} {line : Line CStr CStr}
    (h : Carries conn waits line) (hwaits : waits = true) (hserver : conn.to_server = [])
    (hclient : conn.to_client = []) : line = .closed := by
  cases h with
  | idle => cases hwaits
  | asked => exact absurd hserver (writeline_ne_nil _)
  | answered => exact absurd hclient (writeline_ne_nil _)
  | closed => rfl

/-- A server at rest in a session has a client that has nothing more to type. -/
theorem System.Quiet.idles (h : sys.Quiet mc) (hshows : sys.Shows s) (hplaced : Placed s)
    {cfd : Nat} {repl : Repl}
    (hphase : sys.phase = .serving cfd) (hrepl : sys.repls[cfd]? = some repl) :
    repl.waits = false ∧ repl.stdin = [] := by
  obtain ⟨cl, hcl, hclient⟩ := hshows.client hrepl
  have hopen := System.not_closed_serving hphase
  have hruns : repl.stopped = false := Bool.eq_false_iff.mpr fun hstopped =>
    hopen (hshows.gone cfd repl hrepl (.inr hstopped))
  cases hwaits : repl.waits with
  | false => exact ⟨rfl, h.sent hrepl hwaits hruns⟩
  | true =>
    have hcarries := hclient.carries (hshows.attached hrepl hopen)
    have hline := hcarries.closed_of_nil hwaits (h.served hphase hrepl) (h.read hrepl hwaits hruns).1
    exact absurd hline (hplaced.serving cfd cl (hshows.phase ▸ hphase) hcl)

/-- When nothing happens any more, a client that still waits for a reply queues behind
    one that has typed all that it will and has not left. -/
theorem waiting_blocked (mc : Machine) {acts : List Act} {sys : System}
    (hrun : System.run mc acts = some sys)
    (hfits : sys.Fits) (hquiet : sys.Quiet mc) {cfd : Nat} {repl : Repl}
    (hrepl : sys.repls[cfd]? = some repl)
    (hwaits : repl.waits = true) (hruns : repl.stopped = false) : cfd ∈ sys.backlog ∧
      ∃ other idle, sys.phase = .serving other ∧ sys.repls[other]? = some idle ∧
        idle.waits = false ∧ idle.stdin = [] := by
  obtain ⟨s, hreach, hshows⟩ := System.run_stands hrun hfits
  have hplaced := Reachable.placed hreach
  have hserial := Reachable.serial hreach
  obtain ⟨cl, hcl, hclient⟩ := hshows.client hrepl
  have hopen := (hquiet.read hrepl hwaits hruns).2
  rw [Ne, System.closed_iff, not_or, not_and_not_right] at hopen
  have hplace := hplaced.queued cfd (by rw [hcl]; exact Option.some_ne_none cl)
  rw [← hshows.accepted, ← hshows.backlog, List.mem_append] at hplace
  cases hphase : sys.phase with
  | down => exact absurd hphase hopen.1
  | accepting =>
    rw [hquiet.accepted hphase] at hplace
    have hserving := hopen.2 (hplace.resolve_right List.not_mem_nil)
    rw [hphase] at hserving
    cases hserving
  | serving other =>
    obtain ⟨earlier, haccepted⟩ := hserial.serves other (hshows.phase ▸ hphase)
    have hknown := hserial.known other (by rw [haccepted]; simp)
    obtain ⟨idle, hidle⟩ := hshows.known hknown
    have hidles := hquiet.idles hshows hplaced hphase hidle
    refine ⟨hplace.resolve_left fun hmem => ?_, other, idle, rfl, hidle, hidles⟩
    -- who has been accepted is the one that idles
    have hserving := hopen.2 hmem
    rw [hphase] at hserving
    cases hserving
    rw [hrepl] at hidle
    cases hidle
    rw [hwaits] at hidles
    cases hidles.1

theorem queueing_second : 1 < queueing_end.repls.length := by decide +kernel

theorem waiting_blocked_queueing : 1 ∈ queueing_end.backlog ∧
    ∃ other idle, queueing_end.phase = .serving other ∧ queueing_end.repls[other]? = some idle ∧
      idle.waits = false ∧ idle.stdin = [] :=
  waiting_blocked machine (System.run_append queueing_start_run queueing_run) (by decide +kernel)
    (by decide +kernel)
    (List.getElem?_eq_getElem queueing_second) (by decide +kernel) (by decide +kernel)

end hyperkv
