import HyperKV.Htable

namespace hyperkv

inductive CommandType where
  | DEL | EXISTS | TYPE
  | SET | GET | MSET | MGET | INCR | DECR | INCRBY | DECRBY | STRLEN
  | HSET | HGET | HDEL | HGETALL | HEXISTS | HKEYS | HVALS | HMGET | HLEN
  | LPUSH | LPOP | RPUSH | RPOP | LLEN | LINDEX | LRANGE | LSET | LREM | LPOS
  | SADD | SREM | SISMEMBER | SMEMBERS | SMISMEMBER
  | QUIT | SHUTDOWN | UNKNOWN | NOOP
  deriving DecidableEq, Repr

/-- A parsed command; `argc` is the number of its arguments. -/
structure Command where
  type : CommandType
  argv : List CStr
  deriving DecidableEq, Repr

def Command.argc (cmd : Command) : Nat := cmd.argv.length

def Command.arg (cmd : Command) (i : Nat) : Exec CStr :=
  match cmd.argv[i]? with
  | none => .error .noArgument
  | some s => .ok s

/-! ## Replies -/

def crlf : CStr := cstr "\r\n"

/-- The text of the reply. The buffer that it is written into is `reply_string_size`
    bytes long, and asking for it may end the program: `reply_string_call`. -/
def reply_string (str : Option CStr) : CStr :=
  match str with
  | none => cstr "$-1\r\n"
  | some str => cstr "$" ++ decimal (strlen str) ++ crlf ++ str ++ crlf

/-- The sum is one of `int`s. -/
def reply_string_size (str : CStr) : Int := int32 (strlen str + ndigits (strlen str) + 7)

/-- The reply, if the program does not end where it asks for the buffer. -/
def reply_string_call (str : Option CStr) : Option CStr :=
  match str with
  | none => some (reply_string none)
  | some str => (dmalloc (reply_string_size str)).map fun _ => reply_string (some str)

def reply_integer (x : Int) : CStr := cstr ":" ++ decimal x ++ crlf

/-- How both array encoders send one element. -/
def reply_element (str : Option CStr) : CStr :=
  match str with
  | none => reply_string none
  | some str => if is_number str then reply_integer (strtoi str) else reply_string (some str)

def reply_array_n (arr : List (Option CStr)) : CStr :=
  cstr "*" ++ decimal arr.length ++ crlf ++ arr.flatMap reply_element

def reply_array (arr : Option (List CStr)) : CStr :=
  match arr with
  | none => cstr "*0\r\n"
  | some arr => cstr "*" ++ decimal arr.length ++ crlf ++ arr.flatMap (fun str => reply_element (some str))

def reply_err_argc (given : Nat) (expected : String) : CStr :=
  cstr "-ERR wrong number of arguments (given " ++ decimal given ++ cstr ", expected " ++ cstr expected ++
    cstr ")\r\n"

def reply_err_type : CStr := cstr "-ERR wrongtype operation\r\n"

def reply_err_intid : CStr := cstr "-ERR value is not an integer or out of range\r\n"

/-! ## The shape of the handlers -/

/-- A handler answers with a reply and leaves a store. -/
abbrev Handler := HashTable → Command → Exec (CStr × HashTable)

/-- The frame of every handler: the check of the number of arguments. -/
def with_argc (accepted : Nat → Bool) (expected : String) (body : Handler) : Handler := fun ht cmd =>
  if accepted cmd.argc then body ht cmd
  else .ok (reply_err_argc cmd.argc expected, ht)

/-- The frame of the handlers of one type: the check of the first key's type. -/
def with_type (mc : Machine) (expected : String) (body : CStr → Handler) : Handler := fun ht cmd => do
  let key ← cmd.arg 0
  if is_type (← htable_type mc ht key) (cstr expected) then body key ht cmd
  else return (reply_err_type, ht)

/-- `oks += op(...)` over a range of arguments. -/
def count_oks {α : Type} (op : HashTable → α → Exec (HashTable × Bool)) (args : List α) (ht : HashTable) :
    Exec (Int × HashTable) :=
  args.foldlM (fun (oks, ht) a => do
    let (ht, ok) ← op ht a
    return (oks + ok.toNat, ht)) (0, ht)

/-- The loops with step two. -/
def pairs : List CStr → List (CStr × CStr)
  | a :: b :: rest => (a, b) :: pairs rest
  | _ => []

/-! ## Keys of any type -/

def exec_del (mc : Machine) : Handler := with_argc (fun argc => argc ≥ 1) "1+" fun ht cmd => do
  let (oks, ht) ← count_oks (htable_del mc) cmd.argv ht
  return (reply_integer oks, ht)

def exec_exists (mc : Machine) : Handler := with_argc (fun argc => argc ≥ 1) "1+" fun ht cmd => do
  let (oks, ht) ← count_oks (fun ht key => do return (ht, ← htable_exists mc ht key)) cmd.argv ht
  return (reply_integer oks, ht)

def exec_type (mc : Machine) : Handler := with_argc (fun argc => argc = 1) "1" fun ht cmd => do
  return (reply_string (some (← htable_type mc ht (← cmd.arg 0))), ht)

/-! ## Strings -/

def exec_set (mc : Machine) : Handler := with_argc (fun argc => argc ≤ 2) "0..2" fun ht cmd => do
  let ht ← (
    if cmd.argc = 1 then do Prod.fst <$> htable_set mc ht (← cmd.arg 0) []
    else if cmd.argc = 2 then do Prod.fst <$> htable_set mc ht (← cmd.arg 0) (← cmd.arg 1)
    else pure ht : Exec HashTable)
  return (reply_string (some (cstr "OK")), ht)

def exec_get (mc : Machine) : Handler :=
  with_argc (fun argc => argc = 1) "1" <| with_type mc "string" fun key ht _ => do
    return (reply_string (← htable_get mc ht key), ht)

def exec_mset (mc : Machine) : Handler :=
  with_argc (fun argc => argc ≥ 2 && argc % 2 = 0) "2+" fun ht cmd => do
    let ht ← (pairs cmd.argv).foldlM (fun ht (key, value) => Prod.fst <$> htable_set mc ht key value) ht
    return (reply_string (some (cstr "OK")), ht)

/-- Only the first key's type is checked; the others are read as strings too. -/
def exec_mget (mc : Machine) : Handler :=
  with_argc (fun argc => argc ≥ 1) "1+" <| with_type mc "string" fun _ ht cmd => do
    return (reply_array_n (← cmd.argv.mapM (htable_get mc ht)), ht)

/-- `INCR` and `DECR`: a missing key is set to the text `missing`, answered as
    `answer`; a number is moved by `change`. -/
def exec_step (mc : Machine) (missing : String) (answer change : Int) : Handler :=
  with_argc (fun argc => argc = 1) "1" <| with_type mc "string" fun key ht _ => do
    match ← htable_get mc ht key with
    | none =>
      let (ht, _) ← htable_set mc ht key (cstr missing)
      return (reply_integer answer, ht)
    | some res =>
      if is_number res then
        let tmp := int32 (strtoi res + change)
        let (ht, _) ← htable_set mc ht key (intostr tmp)
        return (reply_integer tmp, ht)
      else
        return (reply_err_intid, ht)

def exec_incr (mc : Machine) : Handler := exec_step mc "1" 1 1

def exec_decr (mc : Machine) : Handler := exec_step mc "-1" (-1) (-1)

/-- `INCRBY` and `DECRBY`: a missing key is set to the operand itself. The value
    found, which is null for a missing key, is then examined before the operand. -/
def exec_stepby (mc : Machine) (combine : Int → Int → Int) : Handler :=
  with_argc (fun argc => argc = 2) "2" <| with_type mc "string" fun key ht cmd => do
    let res ← htable_get mc ht key
    let operand ← cmd.arg 1
    if res.isNone && is_number operand then
      let tmp := strtoi operand
      let (ht, _) ← htable_set mc ht key (intostr tmp)
      return (reply_integer tmp, ht)
    let res ← deref res
    if is_number res && is_number operand then
      let tmp := int32 (combine (strtoi res) (strtoi operand))
      let (ht, _) ← htable_set mc ht key (intostr tmp)
      return (reply_integer tmp, ht)
    return (reply_err_intid, ht)

def exec_incrby (mc : Machine) : Handler := exec_stepby mc (· + ·)

def exec_decrby (mc : Machine) : Handler := exec_stepby mc (· - ·)

def exec_strlen (mc : Machine) : Handler :=
  with_argc (fun argc => argc = 1) "1" <| with_type mc "string" fun key ht _ => do
    return (reply_integer (((← htable_get mc ht key).map strlen).getD 0), ht)

/-! ## Hashes -/

def exec_hset (mc : Machine) : Handler :=
  with_argc (fun argc => argc ≥ 3 && argc % 2 = 1) "3+" <| with_type mc "hash" fun key ht cmd => do
    let (oks, ht) ← count_oks (fun ht (field, value) => htable_hset mc ht key field value)
      (pairs cmd.argv.tail) ht
    return (reply_integer oks, ht)

def exec_hget (mc : Machine) : Handler :=
  with_argc (fun argc => argc = 2) "2" <| with_type mc "hash" fun key ht cmd => do
    return (reply_string (← htable_hget mc ht key (← cmd.arg 1)), ht)

def exec_hdel (mc : Machine) : Handler :=
  with_argc (fun argc => argc ≥ 2) "2+" <| with_type mc "hash" fun key ht cmd => do
    let (oks, ht) ← count_oks (fun ht field => htable_hdel mc ht key field) cmd.argv.tail ht
    return (reply_integer oks, ht)

def exec_hgetall (mc : Machine) : Handler :=
  with_argc (fun argc => argc = 1) "1" <| with_type mc "hash" fun key ht _ => do
    return (reply_array (← htable_hgetall mc ht key), ht)

def exec_hexists (mc : Machine) : Handler :=
  with_argc (fun argc => argc = 2) "2" <| with_type mc "hash" fun key ht cmd => do
    let res ← htable_hget mc ht key (← cmd.arg 1)
    return (reply_integer (if res.isNone then 0 else 1), ht)

def exec_hkeyvals (mc : Machine) (ky : Bool) : Handler :=
  with_argc (fun argc => argc = 1) "1" <| with_type mc "hash" fun key ht _ => do
    return (reply_array (← htable_hkeyvals mc ht key ky), ht)

def exec_hkeys (mc : Machine) : Handler := exec_hkeyvals mc true

def exec_hvals (mc : Machine) : Handler := exec_hkeyvals mc false

def exec_hmget (mc : Machine) : Handler :=
  with_argc (fun argc => argc ≥ 2) "2+" <| with_type mc "hash" fun key ht cmd => do
    if ← htable_exists mc ht key then
      return (reply_array_n (← cmd.argv.tail.mapM (htable_hget mc ht key)), ht)
    else
      return (reply_array none, ht)

def exec_hlen (mc : Machine) : Handler :=
  with_argc (fun argc => argc = 1) "1" <| with_type mc "hash" fun key ht _ => do
    return (reply_integer (← htable_hlen mc ht key), ht)

/-! ## Lists -/

def exec_push (mc : Machine) (dir : ListDirection) : Handler :=
  with_argc (fun argc => argc ≥ 2) "2+" <| with_type mc "list" fun key ht cmd => do
    let (len, ht) ← cmd.argv.tail.foldlM (fun (_, ht) value => do
      let (ht, len) ← htable_push mc ht key value dir
      return (len, ht)) (0, ht)
    return (reply_integer len, ht)

def exec_lpush (mc : Machine) : Handler := exec_push mc .LEFT

def exec_rpush (mc : Machine) : Handler := exec_push mc .RIGHT

def exec_pop (mc : Machine) (dir : ListDirection) : Handler :=
  with_argc (fun argc => argc = 1) "1" <| with_type mc "list" fun key ht _ => do
    let (ht, res) ← htable_pop mc ht key dir
    return (reply_string res, ht)

def exec_lpop (mc : Machine) : Handler := exec_pop mc .LEFT

def exec_rpop (mc : Machine) : Handler := exec_pop mc .RIGHT

def exec_llen (mc : Machine) : Handler :=
  with_argc (fun argc => argc = 1) "1" <| with_type mc "list" fun key ht _ => do
    return (reply_integer (← htable_llen mc ht key), ht)

def exec_lindex (mc : Machine) : Handler :=
  with_argc (fun argc => argc = 2) "2" <| with_type mc "list" fun key ht cmd => do
    let index ← cmd.arg 1
    if is_number index then
      let (code, id) ← htable_check_id mc ht key (strtoi index)
      if code = 0 then
        return (reply_err_intid, ht)
      let res ← (if code > 0 then htable_lindex mc ht key id else pure none : Exec (Option CStr))
      return (reply_string res, ht)
    else
      return (reply_err_intid, ht)

def exec_lrange (mc : Machine) : Handler :=
  with_argc (fun argc => argc = 3) "3" <| with_type mc "list" fun key ht cmd => do
    let bgn ← cmd.arg 1
    let stop ← cmd.arg 2
    if is_number bgn && is_number stop then
      let (code, bgn, stop) ← htable_check_ids mc ht key (strtoi bgn) (strtoi stop)
      if code = 0 then
        return (reply_err_intid, ht)
      let res ← (if code > 0 then htable_lrange mc ht key bgn stop else pure none : Exec (Option (List CStr)))
      return (reply_array res, ht)
    else
      return (reply_err_intid, ht)

def exec_lset (mc : Machine) : Handler :=
  with_argc (fun argc => argc = 3) "3" <| with_type mc "list" fun key ht cmd => do
    let index ← cmd.arg 1
    if is_number index then
      let (code, id) ← htable_check_id mc ht key (strtoi index)
      if code = 0 then
        return (reply_err_intid, ht)
      let (ht, _) ← htable_lset mc ht key id (← cmd.arg 2)
      return (reply_string (if code > 0 then some (cstr "OK") else none), ht)
    else
      return (reply_err_intid, ht)

def exec_lrem (mc : Machine) : Handler :=
  with_argc (fun argc => argc = 3) "3" <| with_type mc "list" fun key ht cmd => do
    let count ← cmd.arg 1
    if is_number count then
      let (ht, res) ← htable_lrem mc ht key (strtoi count) (← cmd.arg 2)
      return (reply_integer res, ht)
    else
      return (reply_err_intid, ht)

def exec_lpos (mc : Machine) : Handler :=
  with_argc (fun argc => argc = 2) "2" <| with_type mc "list" fun key ht cmd => do
    let res ← htable_lpos mc ht key (← cmd.arg 1)
    return (if res < 0 then reply_string none else reply_integer res, ht)

/-! ## Sets -/

def exec_sadd (mc : Machine) : Handler :=
  with_argc (fun argc => argc ≥ 2) "2+" <| with_type mc "set" fun key ht cmd => do
    let (oks, ht) ← count_oks (fun ht value => htable_sadd mc ht key value) cmd.argv.tail ht
    return (reply_integer oks, ht)

def exec_srem (mc : Machine) : Handler :=
  with_argc (fun argc => argc ≥ 2) "2+" <| with_type mc "set" fun key ht cmd => do
    let (oks, ht) ← count_oks (fun ht value => htable_srem mc ht key value) cmd.argv.tail ht
    return (reply_integer oks, ht)

def exec_sismember (mc : Machine) : Handler :=
  with_argc (fun argc => argc = 2) "2" <| with_type mc "set" fun key ht cmd => do
    return (reply_integer (← htable_sismember mc ht key (← cmd.arg 1)).toNat, ht)

def exec_smembers (mc : Machine) : Handler :=
  with_argc (fun argc => argc = 1) "1" <| with_type mc "set" fun key ht _ => do
    return (reply_array (← htable_smembers mc ht key), ht)

def exec_smismember (mc : Machine) : Handler :=
  with_argc (fun argc => argc ≥ 2) "2+" <| with_type mc "set" fun key ht cmd => do
    if ← htable_exists mc ht key then
      let res ← cmd.argv.tail.mapM fun value => do
        return some (intostr (← htable_sismember mc ht key value).toNat)
      return (reply_array_n res, ht)
    else
      return (reply_array none, ht)

/-! ## The rest -/

def exec_unknown : Handler := fun ht _ => .ok (cstr "-ERR unrecognized command\r\n", ht)

def exec_quit : Handler := fun ht _ => .ok (cstr "q", ht)

def exec_shutdown : Handler := fun ht _ => .ok (cstr "x", ht)

def exec_noop : Handler := fun ht _ => .ok ([], ht)

/-- The dispatch table, in the order of the command types. -/
def fns (mc : Machine) : CommandType → Handler
  | .DEL => exec_del mc
  | .EXISTS => exec_exists mc
  | .TYPE => exec_type mc
  | .SET => exec_set mc
  | .GET => exec_get mc
  | .MSET => exec_mset mc
  | .MGET => exec_mget mc
  | .INCR => exec_incr mc
  | .DECR => exec_decr mc
  | .INCRBY => exec_incrby mc
  | .DECRBY => exec_decrby mc
  | .STRLEN => exec_strlen mc
  | .HSET => exec_hset mc
  | .HGET => exec_hget mc
  | .HDEL => exec_hdel mc
  | .HGETALL => exec_hgetall mc
  | .HEXISTS => exec_hexists mc
  | .HKEYS => exec_hkeys mc
  | .HVALS => exec_hvals mc
  | .HMGET => exec_hmget mc
  | .HLEN => exec_hlen mc
  | .LPUSH => exec_lpush mc
  | .LPOP => exec_lpop mc
  | .RPUSH => exec_rpush mc
  | .RPOP => exec_rpop mc
  | .LLEN => exec_llen mc
  | .LINDEX => exec_lindex mc
  | .LRANGE => exec_lrange mc
  | .LSET => exec_lset mc
  | .LREM => exec_lrem mc
  | .LPOS => exec_lpos mc
  | .SADD => exec_sadd mc
  | .SREM => exec_srem mc
  | .SISMEMBER => exec_sismember mc
  | .SMEMBERS => exec_smembers mc
  | .SMISMEMBER => exec_smismember mc
  | .QUIT => exec_quit
  | .SHUTDOWN => exec_shutdown
  | .UNKNOWN => exec_unknown
  | .NOOP => exec_noop

def interpret (mc : Machine) (ht : HashTable) (cmd : Command) : Exec (CStr × HashTable) :=
  fns mc cmd.type ht cmd

/-- The store after a sequence of commands on a fresh server. -/
def run_commands (mc : Machine) (cmds : List Command) : Exec HashTable :=
  cmds.foldlM (fun ht cmd => Prod.snd <$> interpret mc ht cmd) (htable_init HT_BASE_SIZE)

/-- The stores that the server can reach. -/
def Reachable (mc : Machine) (ht : HashTable) : Prop := ∃ cmds, run_commands mc cmds = .ok ht

end hyperkv
