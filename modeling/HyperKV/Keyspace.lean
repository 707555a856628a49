import Mathlib.Data.Finmap
import HyperKV.Interpreter.Lists
import HyperKV.Interpreter.TypeSafety
import HyperKV.KeyedStore

open KeyedStore

namespace hyperkv

/-! ## What a key holds -/

/-- The fields of a hash, each with its value. -/
abbrev Bindings := Finmap fun _ : CStr => CStr

/-- What a key of the server holds, apart from any table, pointer or counter. -/
inductive Datum where
  | string (text : CStr)
  | hash (bindings : Bindings)
  | list (values : List CStr)
  | set (members : Finset CStr)
  deriving DecidableEq

/-- The state of the server as its clients know it. -/
abbrev Keyspace := Store CStr Datum

namespace Datum

def type : Datum → ItemType
  | .string _ => .STR_T
  | .hash _ => .HASH_T
  | .list _ => .LIST_T
  | .set _ => .SET_T

/-- A missing key has every type. -/
def fits (type : ItemType) (d : Option Datum) : Bool := d.all fun d => d.type = type

/-! A missing key is an empty hash, list or set, and the other way round. -/

def text : Option Datum → Option CStr
  | some (.string s) => some s
  | _ => none

def bindings : Option Datum → Bindings
  | some (.hash m) => m
  | _ => ∅

def values : Option Datum → List CStr
  | some (.list l) => l
  | _ => []

def members : Option Datum → Finset CStr
  | some (.set s) => s
  | _ => ∅

def ofBindings (m : Bindings) : Option Datum := if m = ∅ then none else some (.hash m)

def ofValues (l : List CStr) : Option Datum := if l = [] then none else some (.list l)

def ofMembers (s : Finset CStr) : Option Datum := if s = ∅ then none else some (.set s)

end Datum

/-- The value at an end of a sequence, and the others. -/
def ListDirection.take (dir : ListDirection) (values : List CStr) : Option (CStr × List CStr) :=
  match dir with
  | .LEFT => values.head?.map fun value => (value, values.tail)
  | .RIGHT => values.getLast?.map fun value => (value, values.dropLast)

namespace Keyspace

/-! ## Operations on one key

The commands check a key's type before any of these, `set` apart. -/

def delete (key : CStr) : Operation CStr Datum Bool := focus key fun d => (d.isSome, none)

def set (key value : CStr) : Operation CStr Datum Bool := focus key fun d =>
  if Datum.fits .STR_T d then (true, some (.string value)) else (false, d)

def hset (key field value : CStr) : Operation CStr Datum Bool := focus key fun d =>
  (true, Datum.ofBindings ((Datum.bindings d).insert field value))

def hdel (key field : CStr) : Operation CStr Datum Bool := focus key fun d =>
  (((Datum.bindings d).lookup field).isSome, Datum.ofBindings ((Datum.bindings d).erase field))

/-- A push answers the new length. -/
def push (dir : ListDirection) (key value : CStr) : Operation CStr Datum Int := focus key fun d =>
  ((dir.put value (Datum.values d)).length, Datum.ofValues (dir.put value (Datum.values d)))

def pop (dir : ListDirection) (key : CStr) : Operation CStr Datum (Option CStr) := focus key fun d =>
  match dir.take (Datum.values d) with
  | none => (none, d)
  | some (value, rest) => (some value, Datum.ofValues rest)

def lset (key : CStr) (i : Int) (value : CStr) : Operation CStr Datum Bool := focus key fun d =>
  (i.toNat < (Datum.values d).length, Datum.ofValues ((Datum.values d).set i.toNat value))

def lrem (key : CStr) (count : Int) (value : CStr) : Operation CStr Datum Int := focus key fun d =>
  (deleted count value (Datum.values d), Datum.ofValues (kept count value (Datum.values d)))

def sadd (key member : CStr) : Operation CStr Datum Bool := focus key fun d =>
  (member ∉ Datum.members d, Datum.ofMembers (insert member (Datum.members d)))

def srem (key member : CStr) : Operation CStr Datum Bool := focus key fun d =>
  (member ∈ Datum.members d, Datum.ofMembers ((Datum.members d).erase member))

end Keyspace

/-! ## Answers -/

/-- What is told of a key that is read as a string. Under a key of another type it is
    some text, which the key space does not know. -/
inductive Text where
  | known (str : Option CStr)
  | unknown

def Text.Admits : Text → Option CStr → Prop
  | .known str, str' => str' = str
  | .unknown, str' => ∃ text : StructText, str' = some text.val

def Datum.told (d : Option Datum) : Text := if fits .STR_T d then .known (text d) else .unknown

/-- What a client is told. Hashes and sets are told in an order that the key
    space does not know. -/
inductive Answer where
  | bulk (str : Option CStr)
  | int (x : Int)
  | array (strs : List (Option CStr))
  | texts (told : List Text)
  | unordered (strs : Multiset CStr)
  | bindings (m : Bindings)
  | wrongArgc (given : Nat) (expected : String)
  | wrongType
  | notInteger
  | unrecognized
  | quit
  | shutdown
  | silent

namespace Answer

def ok : Answer := .bulk (some (cstr "OK"))

/-- The reply tells the answer, as the encoders of the source write it. -/
def Encodes : Answer → CStr → Prop
  | .bulk str, reply => reply = reply_string str
  | .int x, reply => reply = reply_integer x
  | .array strs, reply => reply = reply_array_n strs
  | .texts told, reply => ∃ strs, List.Forall₂ Text.Admits told strs ∧ reply = reply_array_n strs
  | .unordered strs, reply => ∃ l : List CStr, (l : Multiset CStr) = strs ∧
      reply = reply_array_n (l.map some)
  | .bindings m, reply => ∃ l : List (CStr × CStr), (l : Multiset (CStr × CStr)) =
      m.entries.map (fun b => (b.1, b.2)) ∧
      reply = reply_array_n ((l.flatMap fun b => [b.1, b.2]).map some)
  | .wrongArgc given expected, reply => reply = reply_err_argc given expected
  | .wrongType, reply => reply = reply_err_type
  | .notInteger, reply => reply = reply_err_intid
  | .unrecognized, reply => reply = cstr "-ERR unrecognized command\r\n"
  | .quit, reply => reply = cstr "q"
  | .shutdown, reply => reply = cstr "x"
  | .silent, reply => reply = []

end Answer

/-! ## The commands -/

namespace CommandType

/-- The numbers of arguments that a command takes. -/
def accepts : CommandType → Nat → Bool
  | .DEL | .EXISTS | .MGET => fun argc => argc ≥ 1
  | .TYPE | .GET | .INCR | .DECR | .STRLEN | .HGETALL | .HKEYS | .HVALS | .HLEN | .LPOP | .RPOP | .LLEN
  | .SMEMBERS => fun argc => argc = 1
  | .SET => fun argc => argc ≤ 2
  | .MSET => fun argc => argc ≥ 2 && argc % 2 = 0
  | .INCRBY | .DECRBY | .HGET | .HEXISTS | .LINDEX | .LPOS | .SISMEMBER => fun argc => argc = 2
  | .HSET => fun argc => argc ≥ 3 && argc % 2 = 1
  | .HDEL | .HMGET | .LPUSH | .RPUSH | .SADD | .SREM | .SMISMEMBER => fun argc => argc ≥ 2
  | .LRANGE | .LSET | .LREM => fun argc => argc = 3
  | .QUIT | .SHUTDOWN | .UNKNOWN | .NOOP => fun _ => true

/-- How a refusal words them. -/
def expected : CommandType → String
  | .DEL | .EXISTS | .MGET => "1+"
  | .TYPE | .GET | .INCR | .DECR | .STRLEN | .HGETALL | .HKEYS | .HVALS | .HLEN | .LPOP | .RPOP | .LLEN
  | .SMEMBERS => "1"
  | .SET => "0..2"
  | .MSET | .HDEL | .HMGET | .LPUSH | .RPUSH | .SADD | .SREM | .SMISMEMBER => "2+"
  | .INCRBY | .DECRBY | .HGET | .HEXISTS | .LINDEX | .LPOS | .SISMEMBER => "2"
  | .HSET => "3+"
  | .LRANGE | .LSET | .LREM => "3"
  | .QUIT | .SHUTDOWN | .UNKNOWN | .NOOP => ""

end CommandType

namespace Keyspace

/-- A command as an operation; no answer means that it brings the server down. -/
abbrev Meaning := List CStr → Operation CStr Datum (Option Answer)

/-- How many of the operations succeed. -/
def tally {α : Type} (op : α → Operation CStr Datum Bool) (args : List α) :
    Operation CStr Datum (Option Answer) :=
  (each op args).map fun oks => some (.int (oks.count true))

/-- An answer from what the first key holds. -/
def read (f : Option Datum → List CStr → Answer) : Meaning
  | key :: args => ask fun db => some (f (db key) args)
  | [] => ask fun _ => none

/-- An operation on the first key. -/
def write (f : CStr → List CStr → Operation CStr Datum (Option Answer)) : Meaning
  | key :: args => f key args
  | [] => ask fun _ => none

def number (text : CStr) : Option Int := if is_number text then some (strtoi text) else none

/-- The counters keep 32 bits, as text. -/
def counter (missing : Int) (change : Int → Int) : Option Datum → Option Answer × Option Datum := fun d =>
  match Datum.text d with
  | none => (some (.int missing), some (.string (intostr missing)))
  | some text =>
    match number text with
    | none => (some .notInteger, d)
    | some x => (some (.int (int32 (change x))), some (.string (intostr (int32 (change x)))))

/-- With an operand that is no number a missing value is examined, and a value
    that is there is left alone. -/
def counterby (change : Int → Int → Int) (operand : CStr) : Option Datum → Option Answer × Option Datum :=
  fun d =>
    match number operand with
    | none => (if (Datum.text d).isNone then none else some .notInteger, d)
    | some y => counter y (change · y) d

/-- Reading at an index of the list, when it is in the list. -/
def elementAt (l : List CStr) (i : Int) : Answer :=
  if l = [] then .bulk none
  else if InRange l i then .bulk l[(normalised l.length i).toNat]? else .notInteger

/-- Reading from an index to another. -/
def elementsBetween (l : List CStr) (a b : Int) : Answer :=
  if l = [] then .array []
  else if InRange l a ∧ InRange l b ∧ normalised l.length a ≤ normalised l.length b then
    .array (((l.drop (normalised l.length a).toNat).take
      (normalised l.length b - normalised l.length a + 1).toNat).map some)
  else .notInteger

/-- Writing at an index of the list, when it is in the list. -/
def changeAt (i : Int) (value : CStr) (d : Option Datum) : Option Answer × Option Datum :=
  if Datum.values d = [] then (some (.bulk none), d)
  else if InRange (Datum.values d) i then
    (some .ok, Datum.ofValues ((Datum.values d).set (normalised (Datum.values d).length i).toNat value))
  else (some .notInteger, d)

/-- What each command does to keys of the right type, given as many arguments
    as it takes. -/
def apply : CommandType → Meaning
  | .DEL => fun keys => tally delete keys
  | .EXISTS => fun keys => tally (fun key => ask fun db => (db key).isSome) keys
  | .TYPE => read fun d _ => .bulk (some (match d with | none => cstr "none" | some d => d.type.name))
  | .SET => fun
    | [key] => (set key []).map fun _ => some .ok
    | [key, value] => (set key value).map fun _ => some .ok
    | _ => ask fun _ => some .ok
  | .GET => read fun d _ => .bulk (Datum.text d)
  | .MSET => fun args => (each (fun b => set b.1 b.2) (pairs args)).map fun _ => some .ok
  | .MGET => fun keys => ask fun db => some (.texts (keys.map fun key => Datum.told (db key)))
  | .INCR => write fun key _ => focus key (counter 1 (· + 1))
  | .DECR => write fun key _ => focus key (counter (-1) (· - 1))
  | .INCRBY => write fun key args => focus key (counterby (· + ·) (args.headD []))
  | .DECRBY => write fun key args => focus key (counterby (· - ·) (args.headD []))
  | .STRLEN => read fun d _ => .int (((Datum.text d).map strlen).getD 0)
  | .HSET => write fun key args => tally (fun b => hset key b.1 b.2) (pairs args)
  | .HGET => read fun d args => .bulk ((Datum.bindings d).lookup (args.headD []))
  | .HDEL => write fun key fields => tally (hdel key) fields
  | .HGETALL => read fun d _ => .bindings (Datum.bindings d)
  | .HEXISTS => read fun d args =>
    .int (if ((Datum.bindings d).lookup (args.headD [])).isSome then 1 else 0)
  | .HKEYS => read fun d _ => .unordered (Datum.bindings d).keys.val
  | .HVALS => read fun d _ => .unordered ((Datum.bindings d).entries.map fun b => b.2)
  | .HMGET => read fun d fields => .array
    (if d.isSome then fields.map fun field => (Datum.bindings d).lookup field else [])
  | .HLEN => read fun d _ => .int (Datum.bindings d).keys.card
  | .LPUSH => write fun key values =>
    (each (push .LEFT key) values).map fun lens => some (.int (lens.getLastD 0))
  | .LPOP => write fun key _ => (pop .LEFT key).map fun str => some (.bulk str)
  | .RPUSH => write fun key values =>
    (each (push .RIGHT key) values).map fun lens => some (.int (lens.getLastD 0))
  | .RPOP => write fun key _ => (pop .RIGHT key).map fun str => some (.bulk str)
  | .LLEN => read fun d _ => .int (Datum.values d).length
  | .LINDEX => read fun d args => (number (args.headD [])).elim .notInteger (elementAt (Datum.values d))
  | .LRANGE => read fun d args =>
    (number (args.headD [])).elim .notInteger fun a =>
      (number (args.tail.headD [])).elim .notInteger fun b => elementsBetween (Datum.values d) a b
  | .LSET => write fun key args =>
    (number (args.headD [])).elim (ask fun _ => some .notInteger) fun i =>
      focus key (changeAt i (args.tail.headD []))
  | .LREM => write fun key args =>
    (number (args.headD [])).elim (ask fun _ => some .notInteger) fun count =>
      (lrem key count (args.tail.headD [])).map fun n => some (.int n)
  | .LPOS => read fun d args =>
    if (Datum.values d).contains (args.headD []) then .int ((Datum.values d).idxOf (args.headD []))
    else .bulk none
  | .SADD => write fun key members => tally (sadd key) members
  | .SREM => write fun key members => tally (srem key) members
  | .SISMEMBER => read fun d args => .int (if args.headD [] ∈ Datum.members d then 1 else 0)
  | .SMEMBERS => read fun d _ => .unordered (Datum.members d).val
  | .SMISMEMBER => read fun d members => .array (if d.isSome then
      members.map fun m => some (intostr (if m ∈ Datum.members d then 1 else 0)) else [])
  | .QUIT => fun _ => ask fun _ => some .quit
  | .SHUTDOWN => fun _ => ask fun _ => some .shutdown
  | .UNKNOWN => fun _ => ask fun _ => some .unrecognized
  | .NOOP => fun _ => ask fun _ => some .silent

/-- The first key has the type that the command asks for. -/
def typed (cmd : Command) (db : Keyspace) : Bool :=
  match cmd.type.key_type, cmd.argv with
  | some type, key :: _ => Datum.fits type (db key)
  | _, _ => true

/-- A command, with the two checks that come first. -/
def exec (cmd : Command) : Operation CStr Datum (Option Answer) := fun db =>
  if cmd.type.accepts cmd.argc then
    if typed cmd db then apply cmd.type cmd.argv db else (some .wrongType, db)
  else (some (.wrongArgc cmd.argc cmd.type.expected), db)

end Keyspace

end hyperkv
