import HyperKV.Parser
import HyperKV.SerialServer
import HyperKV.Server

open SerialServer

namespace hyperkv

/-! ## The client -/

/-- The characters up to the first newline, but at most `n`, with what is left. -/
def fgets : Nat → CStr → CStr × CStr
  | 0, stdin => ([], stdin)
  | _ + 1, [] => ([], [])
  | n + 1, c :: stdin =>
    if c = CChar.lf then ([c], stdin)
    else
      let (inp, stdin) := fgets n stdin
      (c :: inp, stdin)

/-- A client in `repl`: the bytes on its connection, what its user types, how much of
    that is still to come, and whether the client waits for a reply or was stopped.
    The rest is its history: the lines it has sent and the replies it has read, and,
    from the time when the server had closed the connection, the lines it sent all
    the same and what it took for replies. `repl` looks at nothing that `read` and
    `write` return. -/
structure Repl where
  conn : Connection
  typed : CStr
  stdin : CStr
  waits : Bool
  stopped : Bool
  inputs : List CStr
  resps : List CStr
  lost : List CStr
  made_up : List (Option CStr)
  deriving DecidableEq, Repr

/-- A client that has just connected. -/
def Repl.opened (typed : CStr) : Repl := ⟨⟨[], []⟩, typed, typed, false, false, [], [], [], []⟩

/-- A line is written. What is written on a closed connection arrives nowhere. -/
def Repl.write (closed : Bool) (inp : CStr) (repl : Repl) : Repl :=
  if closed then { repl with waits := true, lost := repl.lost ++ [inp] }
  else
    { repl with
      conn := { repl.conn with to_server := repl.conn.to_server ++ writeline inp }
      waits := true
      inputs := repl.inputs ++ [inp] }

/-- The first half of a turn of `repl`: a line is read from the input and sent. -/
def Repl.send (closed : Bool) (repl : Repl) : Repl :=
  let (inp, stdin) := fgets 1023 repl.stdin
  { repl with stdin := stdin }.write closed inp

/-- The second half. `read` puts nothing into the buffer when the connection is
    closed and empty, and the client takes what the heap holds for the reply. A
    reply that is not a string within its buffer stops the client. -/
def Repl.receive (heap : List UInt8) (repl : Repl) : Repl :=
  if repl.conn.to_client = [] then
    { repl with waits := false, made_up := repl.made_up ++ [(readline heap []).1] }
  else
    match readline heap repl.conn.to_client with
    | (some resp, to_client) =>
      { repl with
        conn := { repl.conn with to_client := to_client }, waits := false, resps := repl.resps ++ [resp] }
    | (none, to_client) => { repl with conn := { repl.conn with to_client := to_client }, stopped := true }

/-! ## The server -/

/-- A request of a client: a line, parsed and executed. -/
def handle (mc : Machine) (ht : HashTable) (msg : CStr) : Exec (CStr × HashTable) := do
  let cmd ← parse msg
  interpret mc ht cmd

/-- What the loop of `rediskw`, and that of `main` around it, make of a reply. -/
def verdict (resp : CStr) : Verdict :=
  match dispatch resp with
  | .writes _ => .answers
  | .returns code => if code = 1 then .stops else .leaves

/-- The bytes that the loop of `rediskw` sends for a reply. -/
def replied (resp : CStr) : List UInt8 :=
  match dispatch resp with
  | .writes msg => writeline msg
  | .returns _ => []

/-- The server and its clients. A connection is known by its place in `repls`, also
    where `accept` gives a descriptor again that was closed. `accepted` and `log` are
    the history: the connections in the order in which they were accepted, and the
    requests with their replies. -/
structure System where
  phase : Phase Nat
  backlog : List Nat
  ht : HashTable
  repls : List Repl
  accepted : List Nat
  log : List (Nat × CStr × CStr)

/-- The steps of the server and of its clients. `heap` is what a buffer holds before
    it is filled. `eof` is a turn of `repl` at the end of its input: `fgets` returns
    NULL, and the new buffer is sent as it is. `stop` is what the signal of a closed
    connection, or garbage taken for a reply, does to a client. -/
inductive Act where
  | connect (typed : CStr)
  | send (cfd : Nat)
  | eof (cfd : Nat) (heap : List UInt8)
  | accept
  | serve (heap : List UInt8)
  | receive (cfd : Nat) (heap : List UInt8)
  | stop (cfd : Nat)
  deriving DecidableEq, Repr

namespace System

def start : System := ⟨.accepting, [], htable_init HT_BASE_SIZE, [], [], []⟩

def update (sys : System) (cfd : Nat) (repl : Repl) : System :=
  { sys with repls := sys.repls.set cfd repl }

/-- The server has closed the connection, or is no more. -/
def closed (sys : System) (cfd : Nat) : Bool :=
  sys.phase = .down || (cfd ∈ sys.accepted && sys.phase ≠ .serving cfd)

def connect (sys : System) (typed : CStr) : System :=
  { sys with
    repls := sys.repls ++ [.opened typed]
    backlog := sys.backlog ++ [sys.repls.length] }

/-- A turn of the loop of `rediskw`, when there is something to read. A fault ends the
    process, and with it all connections. -/
def serve (mc : Machine) (sys : System) (cfd : Nat) (repl : Repl) (heap : List UInt8) : System :=
  match readline heap repl.conn.to_server with
  | (none, _) => { sys with phase := .down }
  | (some msg, to_server) =>
    match handle mc sys.ht msg with
    | .error _ => { sys with phase := .down }
    | .ok (resp, ht) =>
      { sys.update cfd { repl with conn := ⟨to_server, repl.conn.to_client ++ replied resp⟩ } with
        phase := (verdict resp).phase cfd
        ht := ht
        log := sys.log ++ [(cfd, msg, resp)] }

/-- A step, when it can be taken: `read` waits until there is something to read or
    the connection is closed, and `accept` until somebody has connected. -/
def step (mc : Machine) (sys : System) : Act → Option System
  | .connect typed => if sys.phase ≠ .down then some (sys.connect typed) else none
  | .send cfd => sys.repls[cfd]?.bind fun repl =>
    if repl.waits = false ∧ repl.stopped = false ∧ repl.stdin ≠ [] then
      some (sys.update cfd (repl.send (sys.closed cfd)))
    else none
  | .eof cfd heap => sys.repls[cfd]?.bind fun repl =>
    if repl.waits = false ∧ repl.stopped = false ∧ repl.stdin = [] then
      (c_string heap).map fun inp => sys.update cfd (repl.write (sys.closed cfd) inp)
    else none
  | .accept =>
    match sys.phase, sys.backlog with
    | .accepting, cfd :: backlog =>
      some { sys with phase := .serving cfd, backlog := backlog, accepted := sys.accepted ++ [cfd] }
    | _, _ => none
  | .serve heap =>
    match sys.phase with
    | .serving cfd => sys.repls[cfd]?.bind fun repl =>
      if repl.conn.to_server ≠ [] then some (sys.serve mc cfd repl heap) else none
    | _ => none
  | .receive cfd heap => sys.repls[cfd]?.bind fun repl =>
    if repl.waits = true ∧ repl.stopped = false ∧ (repl.conn.to_client ≠ [] ∨ sys.closed cfd = true) then
      some (sys.update cfd (repl.receive heap))
    else none
  | .stop cfd => sys.repls[cfd]?.bind fun repl =>
    if repl.stopped = false ∧ sys.closed cfd = true then
      some (sys.update cfd { repl with stopped := true })
    else none

/-- The state after some steps of the server and its clients, in this order. -/
def run (mc : Machine) (acts : List Act) : Option System := acts.foldlM (step mc) start

end System

end hyperkv
