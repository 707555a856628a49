import Mathlib.Data.List.TakeWhile
import HyperKV.Parser.Tokens

namespace hyperkv

/-- A command word: no whitespace, and no quote in front. -/
structure Word where
  text : CStr
  ne_nil : text ≠ []
  no_space : ∀ c ∈ text, c.isspace = false
  no_quote : ∀ c, text.head? = some c → c.isquote = false

/-- An argument in quotes of a kind that it does not contain, behind whitespace. -/
structure QuotedArg where
  gap : CStr
  quote : CChar
  text : CStr
  gap_ne_nil : gap ≠ []
  gap_space : ∀ c ∈ gap, c.isspace = true
  isquote : quote.isquote = true
  not_mem : quote ∉ text

def QuotedArg.render (arg : QuotedArg) : CStr := arg.gap ++ arg.quote :: (arg.text ++ [arg.quote])

def render (args : List QuotedArg) : CStr := args.flatMap QuotedArg.render

/-- No quote of either kind. -/
def quoteless (text : CStr) : Bool := text.all (!CChar.isquote ·)

theorem isquote_not_isspace {c : CChar} (h : c.isquote = true) : c.isspace = false := by
  rw [CChar.isquote, Bool.or_eq_true, decide_eq_true_eq, decide_eq_true_eq] at h
  rcases h with rfl | rfl <;> decide

/-- A quoted argument is read up to the first quote of any kind in it. -/
theorem lex_token_quoted (arg : QuotedArg) (rest : CStr) :
    lex_token (arg.render ++ rest) = some (arg.text.takeWhile (!CChar.isquote ·),
      ((arg.text ++ arg.quote :: rest).dropWhile (!CChar.isquote ·)).tail) := by
  have hstop : (!arg.quote.isquote) = false := by
    rw [arg.isquote]
    rfl
  have hopen : (arg.render ++ rest).dropWhile CChar.isspace = arg.quote :: (arg.text ++ arg.quote :: rest) := by
    rw [QuotedArg.render, List.append_assoc, List.dropWhile_append_of_pos arg.gap_space, List.cons_append,
      List.dropWhile_cons, isquote_not_isspace arg.isquote, List.append_assoc]
    rfl
  have htoken : (arg.text ++ arg.quote :: rest).takeWhile (!CChar.isquote ·) =
      arg.text.takeWhile (!CChar.isquote ·) := by
    rw [List.takeWhile_append]
    split
    · rename_i hwhole
      rw [List.takeWhile_cons, hstop, (List.takeWhile_prefix _).eq_of_length hwhole]
      exact List.append_nil _
    · rfl
  rw [lex_token, hopen]
  dsimp only
  rw [if_pos arg.isquote, htoken]

theorem quoteless_iff {text : CStr} : quoteless text = true ↔ text.takeWhile (!CChar.isquote ·) = text := by
  rw [quoteless, List.all_eq_true, List.takeWhile_eq_self_iff]

/-- Without a quote in it, the argument ends at its own closing quote. -/
theorem lex_token_quoteless {arg : QuotedArg} (h : quoteless arg.text = true) (rest : CStr) :
    lex_token (arg.render ++ rest) = some (arg.text, rest) := by
  have hall : ∀ c ∈ arg.text, (!c.isquote) = true := List.all_eq_true.mp h
  rw [lex_token_quoted, quoteless_iff.mp h, List.dropWhile_append_of_pos hall, List.dropWhile_cons, arg.isquote]
  rfl

theorem lex_token_nil : lex_token [] = none := rfl

/-- Quoted arguments are read back exactly when none of them has a quote of the
    other kind: the first that has one is cut short there. -/
theorem tokens_render (args : List QuotedArg) :
    tokens (render args) = args.map QuotedArg.text ↔ ∀ arg ∈ args, quoteless arg.text = true := by
  induction args with
  | nil => exact iff_of_true (tokens_of_none lex_token_nil) (fun _ hmem => by cases hmem)
  | cons arg args ih =>
    rw [render, List.flatMap_cons, ← render, List.map_cons, List.forall_mem_cons]
    constructor
    · intro h
      have hquoteless : quoteless arg.text = true := by
        rw [tokens_of_some (lex_token_quoted arg _)] at h
        exact quoteless_iff.mpr (List.cons.inj h).1
      rw [tokens_of_some (lex_token_quoteless hquoteless _)] at h
      exact ⟨hquoteless, ih.mp (List.cons.inj h).2⟩
    · rintro ⟨hquoteless, hrest⟩
      rw [tokens_of_some (lex_token_quoteless hquoteless _), ih.mpr hrest]

/-- What follows the command word starts with whitespace. -/
theorem render_head (args : List QuotedArg) : ∀ c, (render args).head? = some c → c.isspace = true := by
  intro c hc
  cases args with
  | nil => cases hc
  | cons arg args =>
    obtain ⟨d, gap, hgap⟩ := List.exists_cons_of_ne_nil arg.gap_ne_nil
    rw [render, List.flatMap_cons, QuotedArg.render, hgap] at hc
    cases hc
    exact arg.gap_space _ (hgap ▸ List.mem_cons_self)

theorem lex_token_word (word : Word) {rest : CStr} (hrest : ∀ c, rest.head? = some c → c.isspace = true) :
    lex_token (word.text ++ rest) = some (word.text, rest) := by
  obtain ⟨c, tail, htext⟩ := List.exists_cons_of_ne_nil word.ne_nil
  have hall : ∀ d ∈ word.text, (!d.isspace) = true := fun d hd => by rw [word.no_space d hd]; rfl
  have hhead : c.isspace = false := word.no_space c (htext ▸ List.mem_cons_self)
  have hopen : (word.text ++ rest).dropWhile CChar.isspace = c :: (tail ++ rest) := by
    rw [htext, List.cons_append, List.dropWhile_cons, hhead]
    rfl
  have hends : rest.takeWhile (!CChar.isspace ·) = [] ∧ rest.dropWhile (!CChar.isspace ·) = rest := by
    cases rest with
    | nil => exact ⟨rfl, rfl⟩
    | cons d rest =>
      rw [List.takeWhile_cons, List.dropWhile_cons, hrest d rfl]
      exact ⟨rfl, rfl⟩
  rw [lex_token, hopen]
  dsimp only
  rw [if_neg (by rw [word.no_quote c (htext ▸ rfl)]; exact Bool.false_ne_true), ← List.cons_append, ← htext,
    List.takeWhile_append_of_pos hall, List.dropWhile_append_of_pos hall, hends.1, hends.2, List.append_nil]

/-- A command word and its quoted arguments come out of `parse` as they went in
    exactly when no argument has a quote of either kind. -/
theorem quoting_faithful_iff (word : Word) (args : List QuotedArg) :
    (∃ cmd, parse (word.text ++ render args) = .ok cmd ∧ cmd.argc = args.length ∧
      cmd.argv = args.map QuotedArg.text) ↔ ∀ arg ∈ args, quoteless arg.text = true := by
  have htokens := tokens_of_some (lex_token_word word (render_head args))
  rw [← tokens_render, parse_eq, htokens]
  constructor
  · rintro ⟨cmd, hcmd, _, hargv⟩
    cases hcmd
    exact hargv
  · intro h
    refine ⟨_, rfl, ?_, h⟩
    change (tokens (render args)).length = args.length
    rw [h, List.length_map]

/-- The single quote ends the string that the double quote opened. -/
theorem quoting_unfaithful :
    CChar.double_quote ∉ cstr "it's" ∧
      parse (cstr "set \"it's\"") = .ok ⟨.SET, [cstr "it", cstr "s\""]⟩ := by
  decide

end hyperkv
