import HyperKV.Interpreter

namespace hyperkv

namespace CChar

def double_quote : CChar := ⟨34, by decide⟩

def single_quote : CChar := ⟨39, by decide⟩

/-- In the C locale: a blank, or one of the five controls from tab on. -/
def isspace (c : CChar) : Bool := c.val = 32 || (9 ≤ c.val && c.val ≤ 13)

/-- Either kind opens a string, and either kind closes it. -/
def isquote (c : CChar) : Bool := c = double_quote || c = single_quote

end CChar

/-- The C `Parser`; `current_char` is `none` at the terminating NUL. -/
structure Parser where
  string : CStr
  pos : Nat
  current_char : Option CChar
  deriving DecidableEq, Repr

def parser_init (msg : CStr) : Parser := ⟨msg, 0, msg.head?⟩

def parser_advance (parser : Parser) : Parser :=
  if parser.pos < parser.string.length then
    { parser with pos := parser.pos + 1, current_char := parser.string[parser.pos + 1]? }
  else parser

/-- The turns that every loop over the message is given. -/
def Parser.turns (parser : Parser) : Nat := parser.string.length + 1

/-- The loop of `parse_id` and `parse_string`: characters are appended to the
    token up to one that ends it. -/
def read_until (ends : CChar → Bool) : Nat → CStr → Parser → Exec (CStr × Parser)
  | 0, _, _ => .error .endless
  | turns + 1, token, parser =>
    if !parser.current_char.any ends && parser.pos < parser.string.length then
      read_until ends turns (token ++ parser.current_char.toList) (parser_advance parser)
    else .ok (token, parser)

def parse_id (parser : Parser) : Exec (CStr × Parser) :=
  read_until CChar.isspace parser.turns [] parser

def parse_string (parser : Parser) : Exec (CStr × Parser) := do
  let parser := parser_advance parser
  let (token, parser) ← read_until CChar.isquote parser.turns [] parser
  return (token, parser_advance parser)

def skip_whitespace : Nat → Parser → Exec Parser
  | 0, _ => .error .endless
  | turns + 1, parser =>
    if parser.current_char.any CChar.isspace then skip_whitespace turns (parser_advance parser)
    else .ok parser

/-- The next token, or null, with the parser behind it. -/
def get_next_token (parser : Parser) : Exec (Option CStr × Parser) := do
  if parser.pos < parser.string.length then
    let parser ← skip_whitespace parser.turns parser
    match parser.current_char with
    | none => return (none, parser)
    | some c =>
      if c.isquote then
        let (token, parser) ← parse_string parser
        return (some token, parser)
      else if !c.isspace then
        let (token, parser) ← parse_id parser
        return (some token, parser)
      else return (none, parser)
  else return (none, parser)

def count_tokens : Nat → Parser → Int → Exec Int
  | 0, _, _ => .error .endless
  | turns + 1, dup, argc => do
    let (token, dup) ← get_next_token dup
    if token.isSome then count_tokens turns dup (argc + 1) else return argc

/-- The number of tokens of the message behind the command, counted by a parser
    of its own. -/
def get_argc (parser : Parser) : Exec Int := do
  let dup := parser_init parser.string
  let argc ← count_tokens dup.turns dup 0
  return argc - 1

/-- The words that `parse` compares the first token with, in its order. -/
def command_words : List (String × CommandType) :=
  [("del", .DEL), ("exists", .EXISTS), ("type", .TYPE), ("set", .SET), ("get", .GET), ("mset", .MSET),
    ("mget", .MGET), ("incr", .INCR), ("decr", .DECR), ("incrby", .INCRBY), ("decrby", .DECRBY),
    ("strlen", .STRLEN), ("hset", .HSET), ("hget", .HGET), ("hdel", .HDEL), ("hgetall", .HGETALL),
    ("hexists", .HEXISTS), ("hkeys", .HKEYS), ("hvals", .HVALS), ("hmget", .HMGET), ("hlen", .HLEN),
    ("lpush", .LPUSH), ("lpop", .LPOP), ("rpush", .RPUSH), ("llen", .LLEN), ("lindex", .LINDEX),
    ("lrange", .LRANGE), ("lset", .LSET), ("lrem", .LREM), ("lpos", .LPOS), ("rpop", .RPOP),
    ("sadd", .SADD), ("srem", .SREM), ("sismember", .SISMEMBER), ("smembers", .SMEMBERS),
    ("smismember", .SMISMEMBER), ("quit", .QUIT), ("shutdown", .SHUTDOWN)]

def command_type (token : CStr) : CommandType :=
  ((command_words.find? fun entry => token = cstr entry.1).map Prod.snd).getD .UNKNOWN

/-- The argument loop, which copies each token without looking whether it is
    null. -/
def parse_args : Nat → Parser → Exec (List CStr)
  | 0, _ => .ok []
  | argc + 1, parser => do
    let (token, parser) ← get_next_token parser
    let arg ← deref token
    let args ← parse_args argc parser
    return arg :: args

def parse (msg : CStr) : Exec Command := do
  let (token, parser) ← get_next_token (parser_init msg)
  let argc ← get_argc parser
  if argc ≥ 0 then
    let type := command_type (← deref token)
    let args ← parse_args argc.toNat parser
    return ⟨type, args⟩
  else return ⟨.NOOP, []⟩

example : parse (cstr " SET 'a b'\t\"\"x") = .ok ⟨.UNKNOWN, [cstr "a b", [], cstr "x"]⟩ := by decide

end hyperkv
