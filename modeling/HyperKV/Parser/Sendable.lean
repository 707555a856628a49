import HyperKV.Parser.Quoting
import HyperKV.Resp

namespace hyperkv

/-! ## The arguments that a line can carry -/

/-- An argument that needs no quotes. -/
def bare (text : CStr) : Bool :=
  match text with
  | [] => false
  | c :: _ => !c.isquote && text.all (!CChar.isspace ·)

/-- Either the argument can stand in quotes, or it can stand without. -/
def expressible (text : CStr) : Bool := quoteless text || bare text

theorem bare_iff {text : CStr} :
    bare text = true ↔ text ≠ [] ∧ (∀ c ∈ text, c.isspace = false) ∧
      ∀ c, text.head? = some c → c.isquote = false := by
  cases text with
  | nil => exact iff_of_false Bool.false_ne_true (fun h => h.1 rfl)
  | cons c rest =>
    rw [bare, Bool.and_eq_true, List.all_eq_true]
    simp only [Bool.not_eq_true']
    constructor
    · rintro ⟨hquote, hspace⟩
      refine ⟨List.cons_ne_nil c rest, hspace, fun d hd => ?_⟩
      cases hd
      exact hquote
    · rintro ⟨_, hspace, hquote⟩
      exact ⟨hquote c rfl, hspace⟩

theorem bare_word {text : CStr} (h : bare text = true) : ∃ word : Word, word.text = text := by
  obtain ⟨hne, hspace, hquote⟩ := bare_iff.mp h
  exact ⟨⟨text, hne, hspace, hquote⟩, rfl⟩

/-- A token was quoted, and has no quote; or it was not, and has no space. -/
theorem lex_token_expressible {input token rest : CStr} (h : lex_token input = some (token, rest)) :
    expressible token = true := by
  unfold lex_token at h
  cases hinput : input.dropWhile CChar.isspace with
  | nil =>
    rw [hinput] at h
    cases h
  | cons c tail =>
    rw [hinput] at h
    dsimp only at h
    rw [expressible, Bool.or_eq_true]
    split at h
    · obtain ⟨rfl, _⟩ := Prod.mk.inj (Option.some.inj h)
      left
      rw [quoteless, List.all_eq_true]
      exact fun c hc => List.mem_takeWhile_imp (p := (!CChar.isquote ·)) hc
    · rename_i hquote
      obtain ⟨rfl, _⟩ := Prod.mk.inj (Option.some.inj h)
      right
      have hspace : c.isspace = false := dropWhile_isspace_head hinput
      have hhead : (c :: tail).takeWhile (!CChar.isspace ·) = c :: tail.takeWhile (!CChar.isspace ·) := by
        rw [List.takeWhile_cons, hspace]
        rfl
      refine bare_iff.mpr ⟨?_, fun d hd => ?_, fun d hd => ?_⟩
      · rw [hhead]
        exact List.cons_ne_nil _ _
      · have hnot := List.mem_takeWhile_imp (p := (!CChar.isspace ·)) hd
        rwa [Bool.not_eq_true'] at hnot
      · rw [hhead] at hd
        cases hd
        exact Bool.eq_false_iff.mpr hquote

theorem tokens_expressible (input : CStr) : ∀ token ∈ tokens input, expressible token = true := by
  induction input using tokens.induct with
  | case1 input h =>
    rw [tokens_of_none h]
    exact List.forall_mem_nil _
  | case2 input token rest h ih =>
    rw [tokens_of_some h]
    exact List.forall_mem_cons.mpr ⟨lex_token_expressible h, ih⟩

/-! ## A line for each command -/

namespace CChar

def space : CChar := ⟨32, by decide⟩

end CChar

/-- An argument as it may be typed. -/
def show_arg (text : CStr) : CStr :=
  if bare text then text else CChar.double_quote :: (text ++ [CChar.double_quote])

/-- A word that `parse` takes for the command. -/
def CommandType.word (type : CommandType) : CStr :=
  cstr (((command_words.find? fun entry => entry.2 = type).map Prod.fst).getD "?")

/-- The command on a line of its own, as a user may type it. -/
def Command.line (cmd : Command) : CStr :=
  if cmd.type = .NOOP then [CChar.lf]
  else cmd.type.word ++ (cmd.argv.flatMap fun arg => CChar.space :: show_arg arg) ++ [CChar.lf]

/-- The commands that can be typed. -/
def Command.sendable (cmd : Command) : Bool :=
  if cmd.type = .NOOP then cmd.argv = [] else cmd.argv.all expressible

theorem lex_token_skip {c : CChar} (h : c.isspace = true) (input : CStr) :
    lex_token (c :: input) = lex_token input := by
  rw [lex_token, List.dropWhile_cons, if_pos h, lex_token]

/-- An argument is read back from before whitespace. -/
theorem lex_token_show {text rest : CStr} (h : expressible text = true)
    (hrest : ∀ c, rest.head? = some c → c.isspace = true) :
    lex_token (CChar.space :: show_arg text ++ rest) = some (text, rest) := by
  rw [List.cons_append, lex_token_skip rfl]
  by_cases hbare : bare text = true
  · obtain ⟨word, rfl⟩ := bare_word hbare
    rw [show_arg, if_pos hbare]
    exact lex_token_word word hrest
  · have hquoteless : quoteless text = true := by
      rw [expressible, Bool.or_eq_true] at h
      exact h.resolve_right hbare
    have hnot : CChar.double_quote ∉ text := by
      intro hmem
      have hq := List.all_eq_true.mp hquoteless _ hmem
      exact absurd hq (by decide)
    let arg : QuotedArg := ⟨[CChar.space], CChar.double_quote, text, List.cons_ne_nil _ _,
      List.forall_mem_singleton.mpr rfl, rfl, hnot⟩
    have hquoted := lex_token_quoteless (show quoteless arg.text = true from hquoteless) rest
    rw [QuotedArg.render, List.singleton_append, List.cons_append, lex_token_skip rfl] at hquoted
    rw [show_arg, if_neg hbare]
    exact hquoted

theorem args_head (args : List CStr) :
    ∀ c, ((args.flatMap fun arg => CChar.space :: show_arg arg) ++ [CChar.lf]).head? = some c →
      c.isspace = true := by
  intro c hc
  cases args with
  | nil =>
    cases hc
    decide
  | cons arg args =>
    cases hc
    decide

theorem tokens_args {args : List CStr} (h : ∀ arg ∈ args, expressible arg = true) :
    tokens ((args.flatMap fun arg => CChar.space :: show_arg arg) ++ [CChar.lf]) = args := by
  induction args with
  | nil => exact tokens_of_none (by decide)
  | cons arg args ih =>
    rw [List.forall_mem_cons] at h
    rw [List.flatMap_cons, List.append_assoc]
    rw [tokens_of_some (lex_token_show h.1 (args_head args)), ih h.2]

theorem word_bare (type : CommandType) : bare type.word = true := by
  cases type <;> decide +kernel

/-- No word stands for two commands. -/
theorem command_type_word {type : CommandType} (h : type ≠ .NOOP) : command_type type.word = type := by
  cases type <;> first | decide +kernel | exact absurd rfl h

/-- A line that is typed for a command is parsed as the command. -/
theorem parse_line {cmd : Command} (h : cmd.sendable = true) : parse cmd.line = .ok cmd := by
  obtain ⟨type, argv⟩ := cmd
  rw [parse_eq]
  by_cases hnoop : type = .NOOP
  · subst hnoop
    have hargv : argv = [] := of_decide_eq_true h
    subst hargv
    exact congrArg (fun l => Except.ok (command_of l)) (tokens_of_none (by decide))
  · rw [Command.sendable, if_neg hnoop, List.all_eq_true] at h
    obtain ⟨word, hword⟩ := bare_word (word_bare type)
    have hrest : ∀ c,
        ((argv.flatMap fun arg => CChar.space :: show_arg arg) ++ [CChar.lf]).head? = some c →
        c.isspace = true := args_head argv
    rw [Command.line, if_neg hnoop, List.append_assoc]
    change Except.ok (command_of (tokens (type.word ++ _))) = _
    rw [← hword, tokens_of_some (lex_token_word word hrest), tokens_args h, command_of, hword,
      command_type_word hnoop]

/-- The commands that some message is parsed as are those that can be typed: no
    message gives an argument that starts with a quote, or that has a quote and a
    space. -/
theorem parse_range (cmd : Command) : (∃ msg, parse msg = .ok cmd) ↔ cmd.sendable = true := by
  constructor
  · rintro ⟨msg, hmsg⟩
    rw [parse_eq] at hmsg
    obtain rfl := Except.ok.inj hmsg
    have hall := tokens_expressible msg
    cases htokens : tokens msg with
    | nil => rfl
    | cons word args =>
      rw [htokens] at hall
      rw [command_of, Command.sendable, if_neg (command_type_ne_noop word), List.all_eq_true]
      exact (List.forall_mem_cons.mp hall).2
  · exact fun h => ⟨cmd.line, parse_line h⟩

end hyperkv
