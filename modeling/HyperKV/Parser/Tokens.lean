import HyperKV.Parser

open Outcome

namespace hyperkv

/-! ## The tokens of an input -/

/-- The first token of an input, with what follows it. -/
def lex_token (input : CStr) : Option (CStr × CStr) :=
  match input.dropWhile CChar.isspace with
  | [] => none
  | c :: rest =>
    if c.isquote then
      some (rest.takeWhile (!CChar.isquote ·), (rest.dropWhile (!CChar.isquote ·)).tail)
    else some ((c :: rest).takeWhile (!CChar.isspace ·), (c :: rest).dropWhile (!CChar.isspace ·))

theorem length_dropWhile_le (p : CChar → Bool) (input : CStr) : (input.dropWhile p).length ≤ input.length :=
  (List.dropWhile_suffix p).length_le

theorem dropWhile_isspace_head {input rest : CStr} {c : CChar} (h : input.dropWhile CChar.isspace = c :: rest) :
    c.isspace = false := by
  have hhead := List.head?_dropWhile_not CChar.isspace input
  rw [h] at hhead
  simpa using hhead

/-- A token takes at least its first character. -/
theorem lex_token_shorter {input token rest : CStr} (h : lex_token input = some (token, rest)) :
    rest.length < input.length := by
  have hskipped := length_dropWhile_le CChar.isspace input
  unfold lex_token at h
  cases hinput : input.dropWhile CChar.isspace with
  | nil =>
    rw [hinput] at h
    cases h
  | cons c tail =>
    rw [hinput] at h hskipped
    rw [List.length_cons] at hskipped
    dsimp only at h
    split at h
    · obtain ⟨_, rfl⟩ := Prod.mk.inj (Option.some.inj h)
      have hle := length_dropWhile_le (!CChar.isquote ·) tail
      rw [List.length_tail]
      omega
    · obtain ⟨_, rfl⟩ := Prod.mk.inj (Option.some.inj h)
      have hword : (!c.isspace) = true := by
        rw [dropWhile_isspace_head hinput]
        rfl
      have hle := length_dropWhile_le (!CChar.isspace ·) tail
      rw [List.dropWhile_cons, if_pos hword]
      omega

/-- All the tokens of an input. -/
def tokens (input : CStr) : List CStr :=
  match _h : lex_token input with
  | none => []
  | some (token, rest) => token :: tokens rest
termination_by input.length
decreasing_by exact lex_token_shorter _h

theorem tokens_of_none {input : CStr} (h : lex_token input = none) : tokens input = [] := by
  rw [tokens]
  split
  · rfl
  · rename_i heq
    rw [h] at heq
    cases heq

theorem tokens_of_some {input token rest : CStr} (h : lex_token input = some (token, rest)) :
    tokens input = token :: tokens rest := by
  rw [tokens]
  split
  · rename_i heq
    rw [h] at heq
    cases heq
  · rename_i heq
    rw [h] at heq
    cases heq
    rfl

/-- An input has at most as many tokens as characters. -/
theorem length_tokens_le (input : CStr) : (tokens input).length ≤ input.length := by
  induction input using tokens.induct with
  | case1 input h =>
    rw [tokens_of_none h]
    exact Nat.zero_le _
  | case2 input token rest h ih =>
    have hshorter := lex_token_shorter h
    rw [tokens_of_some h, List.length_cons]
    omega

/-! ## The parser and its input -/

/-- The parser has all of the message but `input` behind it, and looks at the
    first character of it. -/
structure Parser.At (msg input : CStr) (parser : Parser) : Prop where
  string : parser.string = msg
  suffix : ∃ read, read ++ input = msg ∧ read.length = parser.pos
  current : parser.current_char = input.head?

variable {msg input : CStr} {parser : Parser}

theorem parser_init_at (msg : CStr) : (parser_init msg).At msg msg := ⟨rfl, ⟨[], rfl, rfl⟩, rfl⟩

theorem Parser.At.pos_eq (h : parser.At msg input) : parser.pos + input.length = parser.string.length := by
  obtain ⟨read, hmsg, hread⟩ := h.suffix
  rw [h.string, ← hmsg, List.length_append, hread]

theorem Parser.At.pos_lt (h : parser.At msg input) : parser.pos < parser.string.length ↔ input ≠ [] := by
  have hpos := h.pos_eq
  rw [← List.length_pos_iff]
  omega

theorem Parser.At.advance {c : CChar} {rest : CStr} (h : parser.At msg (c :: rest)) :
    (parser_advance parser).At msg rest := by
  obtain ⟨read, hmsg, hread⟩ := h.suffix
  rw [parser_advance, if_pos (h.pos_lt.mpr (List.cons_ne_nil c rest))]
  refine ⟨h.string, ⟨read ++ [c], ?_, ?_⟩, ?_⟩
  · rw [List.append_assoc, List.singleton_append, hmsg]
  · rw [List.length_append, hread, List.length_singleton]
  · change parser.string[parser.pos + 1]? = rest.head?
    rw [h.string, ← hmsg, ← hread, List.getElem?_append_right (by omega), Nat.add_sub_cancel_left,
      List.getElem?_cons_succ, List.head?_eq_getElem?]

/-- At the end of the message the parser stays where it is. -/
theorem Parser.At.advance_tail (h : parser.At msg input) : (parser_advance parser).At msg input.tail := by
  cases input with
  | nil =>
    rw [parser_advance, if_neg (fun hlt => h.pos_lt.mp hlt rfl)]
    exact h
  | cons c rest => exact h.advance

theorem read_until_spec (ends : CChar → Bool) (turns : Nat) : ∀ (input token : CStr) (parser : Parser),
    parser.At msg input → input.length < turns →
    Ensures NoFault (read_until ends turns token parser) (fun r =>
      r.1 = token ++ input.takeWhile (!ends ·) ∧ r.2.At msg (input.dropWhile (!ends ·))) := by
  induction turns with
  | zero => exact fun _ _ _ _ hturns => absurd hturns (Nat.not_lt_zero _)
  | succ turns ih =>
    intro input token parser h hturns
    rw [read_until, h.current]
    cases input with
    | nil =>
      rw [if_neg (fun hgoes => h.pos_lt.mp (by simpa using hgoes) rfl), ensures_ok, List.takeWhile_nil,
        List.dropWhile_nil, List.append_nil]
      exact ⟨rfl, h⟩
    | cons c rest =>
      have hlt := h.pos_lt.mpr (List.cons_ne_nil c rest)
      rw [List.head?_cons, Option.any_some, List.takeWhile_cons, List.dropWhile_cons]
      cases hends : ends c with
      | true =>
        rw [if_neg (by simp), ensures_ok, if_neg (by simp), if_neg (by simp), List.append_nil]
        exact ⟨rfl, h⟩
      | false =>
        rw [List.length_cons] at hturns
        rw [if_pos (by simpa using hlt), if_pos (by simp), if_pos (by simp)]
        refine (ih rest _ _ h.advance (by omega)).mono ?_
        rintro ⟨token', parser'⟩ ⟨htoken, hat⟩
        refine ⟨?_, hat⟩
        rw [htoken, Option.toList_some, List.append_assoc, List.singleton_append]

theorem skip_whitespace_spec (turns : Nat) : ∀ (input : CStr) (parser : Parser), parser.At msg input →
    input.length < turns →
    Ensures NoFault (skip_whitespace turns parser) (fun parser' =>
      parser'.At msg (input.dropWhile CChar.isspace)) := by
  induction turns with
  | zero => exact fun _ _ _ hturns => absurd hturns (Nat.not_lt_zero _)
  | succ turns ih =>
    intro input parser h hturns
    rw [skip_whitespace, h.current]
    cases input with
    | nil => exact h
    | cons c rest =>
      rw [List.head?_cons, Option.any_some, List.dropWhile_cons]
      cases hspace : c.isspace with
      | true =>
        rw [List.length_cons] at hturns
        exact ih rest _ h.advance (by omega)
      | false => exact h

theorem Parser.At.turns (h : parser.At msg input) : input.length < parser.turns := by
  have hpos := h.pos_eq
  rw [Parser.turns]
  omega

/-- Reading a token takes the first one off the input that is left. At the end
    of the tokens nothing but whitespace is. -/
theorem get_next_token_spec (h : parser.At msg input) :
    Ensures NoFault (get_next_token parser) (fun r => match lex_token input with
      | none => r.1 = none ∧ r.2.At msg []
      | some (token, rest) => r.1 = some token ∧ r.2.At msg rest) := by
  rw [get_next_token]
  by_cases hlt : parser.pos < parser.string.length
  · rw [if_pos hlt]
    refine (skip_whitespace_spec _ input parser h h.turns).bind ?_
    intro parser' h'
    rw [lex_token, h'.current]
    cases hinput : input.dropWhile CChar.isspace with
    | nil =>
      rw [hinput] at h'
      exact ⟨rfl, h'⟩
    | cons c rest =>
      rw [hinput] at h'
      simp only [List.head?_cons]
      by_cases hquote : c.isquote
      · rw [if_pos hquote, if_pos hquote]
        refine Ensures.bind (P := fun r => r.1 = rest.takeWhile (!CChar.isquote ·) ∧
          r.2.At msg (rest.dropWhile (!CChar.isquote ·)).tail) ?_ ?_
        · refine (read_until_spec CChar.isquote _ rest [] _ h'.advance h'.advance.turns).bind ?_
          rintro ⟨token, parser''⟩ ⟨htoken, h''⟩
          exact ⟨htoken, h''.advance_tail⟩
        · rintro ⟨token, parser''⟩ ⟨htoken, h''⟩
          exact ⟨congrArg some htoken, h''⟩
      · rw [if_neg hquote, if_neg hquote, if_pos (by rw [dropWhile_isspace_head hinput]; rfl)]
        refine (read_until_spec CChar.isspace _ (c :: rest) [] _ h' h'.turns).bind ?_
        rintro ⟨token, parser''⟩ ⟨htoken, h''⟩
        exact ⟨congrArg some htoken, h''⟩
  · have hnil : input = [] := by
      by_contra hne
      exact hlt (h.pos_lt.mpr hne)
    subst hnil
    rw [if_neg hlt]
    exact ⟨rfl, h⟩

/-! ## The counting pass and the reading pass -/

theorem count_tokens_spec (turns : Nat) : ∀ (input : CStr) (dup : Parser) (argc : Int), dup.At msg input →
    (tokens input).length < turns →
    Ensures NoFault (count_tokens turns dup argc) (fun n => n = argc + (tokens input).length) := by
  induction turns with
  | zero => exact fun _ _ _ _ hturns => absurd hturns (Nat.not_lt_zero _)
  | succ turns ih =>
    intro input dup argc h hturns
    rw [count_tokens]
    refine (get_next_token_spec h).bind ?_
    rintro ⟨token, dup'⟩ hr
    cases hlex : lex_token input with
    | none =>
      rw [hlex] at hr
      obtain ⟨rfl, _⟩ := hr
      rw [tokens_of_none hlex]
      exact (Int.add_zero argc).symm
    | some found =>
      obtain ⟨token', rest⟩ := found
      rw [hlex] at hr
      obtain ⟨rfl, hat⟩ := hr
      rw [tokens_of_some hlex, List.length_cons] at hturns ⊢
      refine (ih rest dup' (argc + 1) hat (by omega)).mono ?_
      rintro n rfl
      omega

/-- Where at least so many tokens are left, the argument loop meets no null. -/
theorem parse_args_spec (argc : Nat) : ∀ (input : CStr) (parser : Parser), parser.At msg input →
    argc ≤ (tokens input).length →
    Ensures NoFault (parse_args argc parser) (fun args => args = (tokens input).take argc) := by
  induction argc with
  | zero => exact fun _ _ _ _ => rfl
  | succ argc ih =>
    intro input parser h hleft
    rw [parse_args]
    refine (get_next_token_spec h).bind ?_
    rintro ⟨token, parser'⟩ hr
    cases hlex : lex_token input with
    | none =>
      rw [tokens_of_none hlex] at hleft
      cases hleft
    | some found =>
      obtain ⟨token', rest⟩ := found
      rw [hlex] at hr
      obtain ⟨rfl, hat⟩ := hr
      rw [tokens_of_some hlex, List.length_cons] at hleft
      rw [tokens_of_some hlex, List.take_succ_cons]
      refine (ih rest parser' hat (by omega)).bind ?_
      rintro args rfl
      rfl

/-- The command that a list of tokens stands for. -/
def command_of : List CStr → Command
  | [] => ⟨.NOOP, []⟩
  | word :: args => ⟨command_type word, args⟩

/-- `parse` refines the lexer: both of its passes see the same tokens. -/
theorem parse_eq (msg : CStr) : parse msg = .ok (command_of (tokens msg)) := by
  have hspec : Ensures NoFault (parse msg) (fun cmd => cmd = command_of (tokens msg)) := by
    rw [parse]
    refine (get_next_token_spec (parser_init_at msg)).bind ?_
    rintro ⟨token, parser⟩ hr
    have hstring : parser.string = msg := by
      cases hlex : lex_token msg with
      | none =>
        rw [hlex] at hr
        exact hr.2.string
      | some found =>
        rw [hlex] at hr
        exact hr.2.string
    have hcount : Ensures NoFault (get_argc parser) (fun argc => argc = (tokens msg).length - 1) := by
      have hfew := length_tokens_le msg
      rw [get_argc, hstring]
      refine (count_tokens_spec _ msg _ 0 (parser_init_at msg) ?_).bind ?_
      · change (tokens msg).length < msg.length + 1
        omega
      · rintro n rfl
        exact congrArg (· - 1) (Int.zero_add _)
    refine hcount.bind ?_
    rintro argc rfl
    cases hlex : lex_token msg with
    | none =>
      rw [tokens_of_none hlex]
      exact rfl
    | some found =>
      obtain ⟨word, rest⟩ := found
      rw [hlex] at hr
      obtain ⟨rfl, hat⟩ := hr
      have hlen : ((tokens msg).length : Int) - 1 = (tokens rest).length := by
        rw [tokens_of_some hlex, List.length_cons]
        omega
      dsimp only
      rw [hlen, if_pos (Int.natCast_nonneg _), Int.toNat_natCast, tokens_of_some hlex]
      refine (parse_args_spec _ rest parser hat le_rfl).bind ?_
      rintro args rfl
      rw [List.take_length]
      exact rfl
  obtain ⟨cmd, hparse, rfl⟩ := hspec.exists_ok (fun _ he => he)
  exact hparse

theorem command_type_ne_noop (token : CStr) : command_type token ≠ .NOOP := by
  rw [command_type]
  cases hfound : command_words.find? (fun entry => token = cstr entry.1) with
  | none => exact fun heq => by cases heq
  | some entry =>
    have hmem := List.mem_of_find?_eq_some hfound
    have hall : ∀ entry ∈ command_words, entry.2 ≠ .NOOP := by decide
    exact hall entry hmem

/-- The parsers that calls of `get_next_token` make out of a new one. -/
inductive Reads (msg : CStr) : Parser → Prop where
  | init : Reads msg (parser_init msg)
  | next {parser parser' : Parser} {token : Option CStr} :
      Reads msg parser → get_next_token parser = .ok (token, parser') → Reads msg parser'

/-- What the calls return, up to the first null. -/
inductive TokensFrom : Parser → List CStr → Prop where
  | stop {parser parser' : Parser} : get_next_token parser = .ok (none, parser') → TokensFrom parser []
  | read {parser parser' : Parser} {token : CStr} {rest : List CStr} :
      get_next_token parser = .ok (some token, parser') → TokensFrom parser' rest →
        TokensFrom parser (token :: rest)

/-- A call returns the next token and leaves the parser at the input behind it,
    or returns null and leaves it at the end. -/
theorem get_next_token_cases (h : parser.At msg input) :
    (lex_token input = none ∧ ∃ parser', get_next_token parser = .ok (none, parser') ∧ parser'.At msg []) ∨
      ∃ token rest parser', lex_token input = some (token, rest) ∧
        get_next_token parser = .ok (some token, parser') ∧ parser'.At msg rest := by
  obtain ⟨⟨token, parser'⟩, hnext, hr⟩ := (get_next_token_spec h).exists_ok (fun _ he => he)
  cases hlex : lex_token input with
  | none =>
    rw [hlex] at hr
    obtain ⟨rfl, hat⟩ := hr
    exact Or.inl ⟨rfl, parser', hnext, hat⟩
  | some found =>
    rw [hlex] at hr
    obtain ⟨rfl, hat⟩ := hr
    exact Or.inr ⟨_, _, parser', rfl, hnext, hat⟩

theorem Reads.at_input (h : Reads msg parser) : ∃ input, parser.At msg input := by
  induction h with
  | init => exact ⟨msg, parser_init_at msg⟩
  | next _ hnext ih =>
    obtain ⟨input, hat⟩ := ih
    rcases get_next_token_cases hat with ⟨_, parser', hnext', hat'⟩ | ⟨token, rest, parser', _, hnext', hat'⟩
    · rw [hnext] at hnext'
      cases hnext'
      exact ⟨[], hat'⟩
    · rw [hnext] at hnext'
      cases hnext'
      exact ⟨rest, hat'⟩

theorem tokensFrom (input : CStr) : ∀ parser : Parser, parser.At msg input →
    TokensFrom parser (tokens input) := by
  induction input using tokens.induct with
  | case1 input hlex =>
    intro parser h
    rw [tokens_of_none hlex]
    rcases get_next_token_cases h with ⟨_, parser', hnext, _⟩ | ⟨token, rest, parser', hlex', _⟩
    · exact .stop hnext
    · rw [hlex] at hlex'
      cases hlex'
  | case2 input token rest hlex ih =>
    intro parser h
    rw [tokens_of_some hlex]
    rcases get_next_token_cases h with ⟨hlex', _⟩ | ⟨token', rest', parser', hlex', hnext, hat⟩
    · rw [hlex] at hlex'
      cases hlex'
    · rw [hlex] at hlex'
      cases hlex'
      exact .read hnext (ih parser' hat)

/-- For every message: each call that returns a token moves the parser forward
    and none past the end, so the tokens end; `parse` answers `NOOP` exactly when
    there is none, and otherwise its arguments are the tokens behind the first.
    Its argument loop follows no null, which would be a fault. -/
theorem parse_passes_agree (msg : CStr) :
    (∀ parser, Reads msg parser → ∃ token parser', get_next_token parser = .ok (token, parser') ∧
      parser'.pos ≤ msg.length ∧ (token.isSome → parser.pos < parser'.pos)) ∧
    ∃ found cmd, TokensFrom (parser_init msg) found ∧ parse msg = .ok cmd ∧
      (cmd.type = .NOOP ↔ found = []) ∧ (found ≠ [] → cmd.argc + 1 = found.length) ∧
      cmd.argv = found.tail := by
  constructor
  · intro parser hreads
    obtain ⟨input, hat⟩ := hreads.at_input
    have hpos := hat.pos_eq
    rw [hat.string] at hpos
    rcases get_next_token_cases hat with ⟨_, parser', hnext, hat'⟩ | ⟨token, rest, parser', hlex, hnext, hat'⟩
    · have hpos' := hat'.pos_eq
      rw [hat'.string] at hpos'
      exact ⟨none, parser', hnext, by omega, fun hsome => by cases hsome⟩
    · have hshorter := lex_token_shorter hlex
      have hpos' := hat'.pos_eq
      rw [hat'.string] at hpos'
      exact ⟨some token, parser', hnext, by omega, fun _ => by omega⟩
  · refine ⟨tokens msg, _, tokensFrom msg _ (parser_init_at msg), parse_eq msg, ?_⟩
    cases htokens : tokens msg with
    | nil => exact ⟨iff_of_true rfl rfl, fun hne => absurd rfl hne, rfl⟩
    | cons word args =>
      exact ⟨iff_of_false (command_type_ne_noop word) (List.cons_ne_nil word args), fun _ => rfl, rfl⟩

end hyperkv
