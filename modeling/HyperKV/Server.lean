import HyperKV.Resp

namespace hyperkv

/-! ## Reading and writing -/

/-- What `writeline` puts on the socket: the message, a newline and the
    terminating NUL. -/
def writeline (msg : CStr) : List UInt8 := msg.map Subtype.val ++ [10, 0]

/-- A C string read from memory: the bytes up to the first NUL. -/
def c_string : List UInt8 → Option CStr
  | [] => none
  | b :: rest => if h : b ≠ 0 then (c_string rest).map (fun str => ⟨b, h⟩ :: str) else some []

/-- One `read` of at most 1024 bytes into a new buffer, whose last character is
    then cut off. The rest of the buffer, and what lies behind it, is whatever
    the heap held; `none` is an access outside of it. -/
def readline (heap stream : List UInt8) : Option CStr × List UInt8 :=
  let msg := stream.take 1024
  let str := c_string (msg ++ heap.drop msg.length)
  (str.bind fun str => if str = [] then none else some str.dropLast, stream.drop 1024)

/-! ## The loop of `rediskw` -/

namespace CChar

def q : CChar := ⟨113, by decide⟩

def x : CChar := ⟨120, by decide⟩

end CChar

/-- What the loop does with a reply. -/
inductive Dispatch where
  | returns (code : Int)
  | writes (msg : CStr)
  deriving DecidableEq, Repr

def dispatch (resp : CStr) : Dispatch :=
  if resp.head? = some CChar.q then .returns 0
  else if resp.head? = some CChar.x then .returns 1
  else .writes resp

/-- The bytes sent and not yet read in each direction of a connection. -/
structure Connection where
  to_server : List UInt8
  to_client : List UInt8
  deriving DecidableEq, Repr

/-- A request and its reply, with what the heap holds where each is read. -/
structure Turn where
  request : CStr
  reply : CStr
  server_heap : List UInt8
  client_heap : List UInt8

/-- A turn: the client writes and the server reads, then the other way. The
    result has the strings that the two calls of `readline` return. -/
def Turn.step (conn : Connection) (turn : Turn) : (Option CStr × Option CStr) × Connection :=
  let (msg, to_server) := readline turn.server_heap (conn.to_server ++ writeline turn.request)
  let (resp, to_client) := readline turn.client_heap (conn.to_client ++ writeline turn.reply)
  ((msg, resp), ⟨to_server, to_client⟩)

/-- In every turn both strings arrive as they were sent, and no byte of them
    stays behind. -/
def Delivered : Connection → List Turn → Prop
  | _, [] => True
  | conn, turn :: turns =>
    (turn.step conn).1 = (some turn.request, some turn.reply) ∧ (turn.step conn).2 = ⟨[], []⟩ ∧
      Delivered (turn.step conn).2 turns

/-! ## What arrives -/

theorem c_string_append (str : CStr) (rest : List UInt8) :
    c_string (str.map Subtype.val ++ 0 :: rest) = some str := by
  induction str with
  | nil => rfl
  | cons c str ih =>
    rw [List.map_cons, List.cons_append, c_string, dif_pos c.property, ih]
    rfl

theorem writeline_eq (msg : CStr) : writeline msg = (msg ++ [CChar.lf]).map Subtype.val ++ [0] := by
  rw [List.map_append, List.append_assoc]
  rfl

theorem length_writeline (msg : CStr) : (writeline msg).length = msg.length + 2 := by
  rw [writeline, List.length_append, List.length_map]
  rfl

theorem readline_writeline (heap : List UInt8) {msg : CStr} (h : msg.length ≤ 1022) :
    readline heap (writeline msg) = (some msg, []) := by
  have hlen : (writeline msg).length ≤ 1024 := by
    rw [length_writeline]
    omega
  have hread : c_string (writeline msg ++ heap.drop (writeline msg).length) = some (msg ++ [CChar.lf]) := by
    rw [writeline_eq, List.append_assoc, List.singleton_append, c_string_append]
  have hne : msg ++ [CChar.lf] ≠ [] := List.append_ne_nil_of_right_ne_nil _ (List.cons_ne_nil _ _)
  unfold readline
  dsimp only
  rw [List.take_of_length_le hlen, List.drop_of_length_le hlen, hread, Option.bind_some, if_neg hne,
    List.dropLast_concat]

/-- The bytes past the buffer stay in the stream. -/
theorem readline_leaves (heap : List UInt8) {msg : CStr} (h : ¬ msg.length ≤ 1022) :
    (readline heap (writeline msg)).2 ≠ [] := by
  have hlen := length_writeline msg
  apply List.ne_nil_of_length_pos
  rw [readline, List.length_drop]
  omega

theorem step_delivered (turn : Turn) :
    ((turn.step ⟨[], []⟩).1 = (some turn.request, some turn.reply) ∧ (turn.step ⟨[], []⟩).2 = ⟨[], []⟩) ↔
      turn.request.length ≤ 1022 ∧ turn.reply.length ≤ 1022 := by
  unfold Turn.step
  simp only [List.nil_append]
  constructor
  · rintro ⟨_, hempty⟩
    rw [Connection.mk.injEq] at hempty
    constructor
    · by_contra hlong
      exact readline_leaves _ hlong hempty.1
    · by_contra hlong
      exact readline_leaves _ hlong hempty.2
  · rintro ⟨hrequest, hreply⟩
    rw [readline_writeline _ hrequest, readline_writeline _ hreply]
    exact ⟨rfl, rfl⟩

/-- On a fresh connection a run of turns is delivered, whatever the heap holds,
    exactly when each of its messages leaves room for the newline and the NUL. -/
theorem delivered_iff (turns : List Turn) :
    Delivered ⟨[], []⟩ turns ↔ ∀ turn ∈ turns, turn.request.length ≤ 1022 ∧ turn.reply.length ≤ 1022 := by
  induction turns with
  | nil => exact iff_of_true trivial (fun turn hmem => by cases hmem)
  | cons turn turns ih =>
    rw [List.forall_mem_cons, ← ih, ← step_delivered turn, Delivered, and_assoc]
    refine and_congr_right (fun _ => and_congr_right (fun hempty => ?_))
    rw [hempty]

/-- A line that fills the buffer of `fgets` arrives without its NUL, which is
    left in the stream. -/
theorem delivered_full_line :
    ¬ Delivered ⟨[], []⟩ [⟨List.replicate 1023 CChar.q, cstr "-ERR unrecognized command\r\n",
      List.replicate 1024 0, List.replicate 1024 0⟩] := by
  intro h
  have hstep := (step_delivered _).mp ⟨h.1, h.2.1⟩
  rw [List.length_replicate] at hstep
  exact absurd hstep.1 (by decide)

end hyperkv
