import HyperKV.Parser.Sendable
import HyperKV.Sessions.Answers

open Outcome KeyedStore SerialServer

namespace hyperkv

/-! ## Lines -/

/-- A line that fits is read whole. -/
theorem fgets_line {n : Nat} {body : CStr} (hbody : CChar.lf ∉ body) (hlen : body.length < n)
    (rest : CStr) :
    fgets n (body ++ CChar.lf :: rest) = (body ++ [CChar.lf], rest) := by
  induction body generalizing n with
  | nil =>
    cases n with
    | zero => exact absurd hlen (Nat.not_lt_zero _)
    | succ n => exact if_pos rfl
  | cons c body ih =>
    rw [List.mem_cons, not_or] at hbody
    cases n with
    | zero => exact absurd hlen (Nat.not_lt_zero _)
    | succ n =>
      have hne : ¬ c = CChar.lf := fun heq => hbody.1 heq.symm
      rw [List.cons_append, fgets, if_neg hne, ih hbody.2 (Nat.lt_of_succ_lt_succ hlen)]
      rfl

/-- A line that `fgets` reads whole. -/
def IsLine (line : CStr) : Prop :=
  ∃ body, line = body ++ [CChar.lf] ∧ CChar.lf ∉ body ∧ body.length < 1023

theorem IsLine.fgets {line : CStr} (h : IsLine line) (rest : CStr) :
    fgets 1023 (line ++ rest) = (line, rest) := by
  obtain ⟨body, rfl, hbody, hlen⟩ := h
  rw [List.append_assoc]
  exact fgets_line hbody hlen rest

theorem fgets_append (n : Nat) (stdin : CStr) : (fgets n stdin).1 ++ (fgets n stdin).2 = stdin := by
  induction n generalizing stdin with
  | zero => rfl
  | succ n ih =>
    cases stdin with
    | nil => rfl
    | cons c stdin =>
      unfold fgets
      split
      · rfl
      · exact congrArg (c :: ·) (ih stdin)

theorem fgets_ne_nil {stdin : CStr} (h : stdin ≠ []) : (fgets 1023 stdin).1 ≠ [] := by
  cases stdin with
  | nil => exact absurd rfl h
  | cons c stdin =>
    unfold fgets
    split <;> exact List.cons_ne_nil _ _

/-- Each of the inputs is what was read, with this left, from what was still to come. -/
def Fed : List CStr → CStr → Prop
  | [], _ => True
  | inp :: inputs, stdin => inp ≠ [] ∧
    fgets 1023 (inp ++ (inputs.flatten ++ stdin)) = (inp, inputs.flatten ++ stdin) ∧ Fed inputs stdin

theorem Fed.read {inputs : List CStr} {stdin : CStr} (h : Fed inputs stdin) (hmore : stdin ≠ []) :
    Fed (inputs ++ [(fgets 1023 stdin).1]) (fgets 1023 stdin).2 := by
  induction inputs with
  | nil =>
    refine ⟨fgets_ne_nil hmore, ?_, trivial⟩
    rw [List.flatten_nil, List.nil_append, fgets_append]
  | cons inp inputs ih =>
    obtain ⟨hne, hread, hrest⟩ := h
    refine ⟨hne, ?_, ih hrest⟩
    change fgets 1023 (inp ++ ((inputs ++ [(fgets 1023 stdin).1]).flatten ++ (fgets 1023 stdin).2)) =
      (inp, (inputs ++ [(fgets 1023 stdin).1]).flatten ++ (fgets 1023 stdin).2)
    rw [List.flatten_append, List.flatten_singleton, List.append_assoc, fgets_append]
    exact hread

/-- Where each line of the input is read whole, the lines are read one by one. -/
theorem Fed.lines {inputs : List CStr} {stdin : CStr} (h : Fed inputs stdin) {lines : List CStr}
    (hlines : ∀ line ∈ lines, IsLine line) (htyped : inputs.flatten ++ stdin = lines.flatten) :
    inputs <+: lines := by
  induction inputs generalizing lines with
  | nil => exact ⟨lines, rfl⟩
  | cons inp inputs ih =>
    obtain ⟨hne, hread, hrest⟩ := h
    rw [List.flatten_cons, List.append_assoc] at htyped
    cases lines with
    | nil => exact absurd (List.append_eq_nil_iff.mp htyped).1 hne
    | cons line lines =>
      rw [List.forall_mem_cons] at hlines
      rw [htyped, List.flatten_cons, hlines.1.fgets] at hread
      obtain ⟨rfl, hleft⟩ := Prod.mk.inj hread
      obtain ⟨unread, hunread⟩ := ih hrest hlines.2 hleft.symm
      exact ⟨unread, congrArg (line :: ·) hunread⟩

/-- What a client sends: its input, line by line, and behind the end of that what its
    buffers held. -/
def Repl.Sends (repl : Repl) : Prop :=
  ∃ lines made, repl.inputs ++ repl.lost = lines ++ made ∧ lines.flatten ++ repl.stdin = repl.typed ∧
    Fed lines repl.stdin ∧ (made = [] ∨ repl.stdin = [])

def System.Sends (sys : System) : Prop := ∀ repl ∈ sys.repls, repl.Sends

section Sends

variable {mc : Machine} {sys sys' : System} {cfd : Nat} {repl repl' : Repl}

/-- Nothing is sent on a connection that is lost again later. -/
theorem Repl.sent_write {closed : Bool} (h : closed = true ∨ repl.lost = []) (inp : CStr) :
    (repl.write closed inp).inputs ++ (repl.write closed inp).lost =
      (repl.inputs ++ repl.lost) ++ [inp] := by
  unfold Repl.write
  split
  · rw [List.append_assoc]
  next hclosed =>
    rw [h.resolve_left hclosed, List.append_nil, List.append_nil]

theorem Repl.write_stdin (closed : Bool) (inp : CStr) (repl : Repl) :
    (repl.write closed inp).stdin = repl.stdin := by
  unfold Repl.write
  split <;> rfl

theorem Repl.write_typed (closed : Bool) (inp : CStr) (repl : Repl) :
    (repl.write closed inp).typed = repl.typed := by
  unfold Repl.write
  split <;> rfl

theorem Repl.Sends.send (h : repl.Sends) {closed : Bool} (hopen : closed = true ∨ repl.lost = [])
    (hmore : repl.stdin ≠ []) : (repl.send closed).Sends := by
  obtain ⟨lines, made, hsent, htyped, hfed, hmade⟩ := h
  rw [hmade.resolve_right hmore, List.append_nil] at hsent
  have hsend : repl.send closed =
      Repl.write closed (fgets 1023 repl.stdin).1 { repl with stdin := (fgets 1023 repl.stdin).2 } := rfl
  rw [hsend]
  refine ⟨lines ++ [(fgets 1023 repl.stdin).1], [], ?_, ?_, ?_, .inl rfl⟩
  · rw [@Repl.sent_write { repl with stdin := (fgets 1023 repl.stdin).2 } closed hopen, List.append_nil,
      ← hsent]
  · rw [Repl.write_stdin, Repl.write_typed, List.flatten_append, List.flatten_singleton, List.append_assoc,
      fgets_append]
    exact htyped
  · rw [Repl.write_stdin]
    exact hfed.read hmore

theorem Repl.Sends.eof (h : repl.Sends) {closed : Bool} (hopen : closed = true ∨ repl.lost = [])
    (hdone : repl.stdin = []) (inp : CStr) : (repl.write closed inp).Sends := by
  obtain ⟨lines, made, hsent, htyped, hfed, _⟩ := h
  refine ⟨lines, made ++ [inp], ?_, ?_, ?_, .inr ?_⟩
  · rw [Repl.sent_write hopen, hsent, List.append_assoc]
  · rwa [Repl.write_stdin, Repl.write_typed]
  · rwa [Repl.write_stdin]
  · rwa [Repl.write_stdin]

theorem Repl.Sends.receive (h : repl.Sends) (heap : List UInt8) : (repl.receive heap).Sends := by
  unfold Repl.receive
  split
  · exact h
  · split <;> exact h

theorem System.Sends.update (h : sys.Sends) (hrepl : repl'.Sends) : (sys.update cfd repl').Sends := by
  intro other hother
  rcases List.mem_or_eq_of_mem_set hother with hold | rfl
  · exact h other hold
  · exact hrepl

theorem System.Moves.sends {act : Act} (hmoves : sys.Moves mc act sys') (hstands : sys.Stands mc)
    (h : sys.Sends) : sys'.Sends := by
  obtain ⟨s, _, hshows⟩ := hstands
  have hopen : ∀ {cfd repl}, sys.repls[cfd]? = some repl → sys.closed cfd = true ∨ repl.lost = [] :=
    fun {cfd repl} hrepl =>
      (Decidable.em (sys.closed cfd = true)).imp id fun hclosed => (hshows.attached hrepl hclosed).1
  cases hmoves with
  | connect typed _ =>
    intro repl hrepl
    rcases List.mem_append.mp hrepl with hold | hnew
    · exact h repl hold
    · cases List.mem_singleton.mp hnew
      exact ⟨[], [], rfl, rfl, trivial, .inl rfl⟩
  | send hrepl _ _ hmore => exact h.update ((h _ (List.mem_of_getElem? hrepl)).send (hopen hrepl) hmore)
  | eof hrepl _ _ hdone _ => exact h.update ((h _ (List.mem_of_getElem? hrepl)).eof (hopen hrepl) hdone _)
  | accept _ _ => exact h
  | @serve cfd repl heap _ hrepl _ =>
    have hsends := h _ (List.mem_of_getElem? hrepl)
    unfold System.serve
    split
    · exact h
    · split
      · exact h
      · exact h.update hsends
  | receive heap hrepl _ _ _ => exact h.update ((h _ (List.mem_of_getElem? hrepl)).receive heap)
  | stop hrepl _ _ =>
    have hsends := h _ (List.mem_of_getElem? hrepl)
    exact h.update hsends

theorem System.run_sends {acts : List Act} (hrun : System.run mc acts = some sys) (hfits : sys.Fits) :
    sys.Sends := by
  have hkept := System.run_keeps (P := fun sys => sys.Fits → sys.Stands mc ∧ sys.Sends)
    (fun _ => ⟨System.start_stands mc, List.forall_mem_nil _⟩) (fun ih hmoves hfits => ?_) hrun
  · exact (hkept hfits).2
  · obtain ⟨hstands, hsends⟩ := ih (hfits.of_grows hmoves.grows)
    exact ⟨hstands.moves hmoves hfits, hmoves.sends hstands hsends⟩

end Sends

/-! ## Commands that are typed -/

/-- A command that can be typed on one line. -/
structure Command.Typable (cmd : Command) : Prop where
  sendable : cmd.sendable
  args : ∀ arg ∈ cmd.argv, CChar.lf ∉ arg
  length : cmd.line.length ≤ 1023

instance (cmd : Command) : Decidable cmd.Typable :=
  decidable_of_iff (cmd.sendable ∧ (∀ arg ∈ cmd.argv, CChar.lf ∉ arg) ∧ cmd.line.length ≤ 1023)
    ⟨fun h => ⟨h.1, h.2.1, h.2.2⟩, fun h => ⟨h.sendable, h.args, h.length⟩⟩

theorem lf_not_mem_show {text : CStr} (h : CChar.lf ∉ text) : CChar.lf ∉ show_arg text := by
  unfold show_arg
  split
  · exact h
  · rw [List.mem_cons, List.mem_append, List.mem_singleton]
    rintro (heq | hmem | heq)
    · exact absurd heq (by decide)
    · exact h hmem
    · exact absurd heq (by decide)

theorem lf_not_mem_word (type : CommandType) : CChar.lf ∉ type.word := by
  cases type <;> decide +kernel

theorem Command.Typable.isLine {cmd : Command} (h : cmd.Typable) : IsLine cmd.line := by
  have hlen := h.length
  unfold Command.line at hlen ⊢
  split
  · exact ⟨[], rfl, List.not_mem_nil, by decide⟩
  · rename_i hnoop
    rw [if_neg hnoop, List.length_append, List.length_singleton] at hlen
    refine ⟨_, rfl, ?_, by omega⟩
    rw [List.mem_append, List.mem_flatMap]
    rintro (hword | ⟨arg, harg, hmem⟩)
    · exact lf_not_mem_word cmd.type hword
    · rcases List.mem_cons.mp hmem with heq | hmem
      · exact absurd heq (by decide)
      · exact lf_not_mem_show (h.args arg harg) hmem

theorem command_line {cmd : Command} (h : cmd.sendable) : command cmd.line = cmd := by
  have hparse := parse_line h
  rw [parse_eq] at hparse
  exact Except.ok.inj hparse

theorem map_command_line {cmds : List Command} (h : ∀ cmd ∈ cmds, cmd.Typable) :
    (cmds.map Command.line).map command = cmds := by
  rw [List.map_map]
  exact (List.map_congr_left (fun cmd hcmd => command_line (h cmd hcmd).sendable)).trans (List.map_id cmds)

/-- Lines that are all there is are all the lines. -/
theorem eq_of_prefix_of_flatten {lines read : List CStr} (hfirst : read <+: lines)
    (hflatten : read.flatten = lines.flatten) (hne : ∀ line ∈ lines, line ≠ []) : read = lines := by
  obtain ⟨unread, rfl⟩ := hfirst
  rw [List.flatten_append, List.self_eq_append_right, List.flatten_eq_nil_iff] at hflatten
  cases unread with
  | nil => rw [List.append_nil]
  | cons line unread =>
    exact absurd (hflatten line List.mem_cons_self) (hne line (List.mem_append_right _ List.mem_cons_self))

/-- The commands that were executed for a client are the first that it typed, and
    behind all of these the lines that it made up. -/
theorem commands_of_typed (mc : Machine) {acts : List Act} {sys : System}
    (hrun : System.run mc acts = some sys)
    (hfits : sys.Fits) {cfd : Nat} {repl : Repl} (hrepl : sys.repls[cfd]? = some repl)
    {cmds : List Command}
    (hcmds : ∀ cmd ∈ cmds, cmd.Typable) (htyped : repl.typed = cmds.flatMap Command.line) :
    ∃ made, sys.commands_of cfd <+: cmds ++ made := by
  obtain ⟨lines, made, hsent, hread, hfed, hmade⟩ :=
    System.run_sends hrun hfits repl (List.mem_of_getElem? hrepl)
  have hline : ∀ line ∈ cmds.map Command.line, IsLine line := by
    intro line hline
    obtain ⟨cmd, hcmd, rfl⟩ := List.mem_map.mp hline
    exact (hcmds cmd hcmd).isLine
  have hlines : lines <+: cmds.map Command.line := hfed.lines hline (hread.trans htyped)
  have hall : lines ++ made <+: cmds.map Command.line ++ made := by
    rcases hmade with rfl | hdone
    · rwa [List.append_nil, List.append_nil]
    · rw [hdone, List.append_nil, htyped] at hread
      rw [eq_of_prefix_of_flatten hlines hread]
      intro line hmem hnil
      obtain ⟨body, rfl, _⟩ := hline line hmem
      exact List.append_ne_nil_of_right_ne_nil _ (List.cons_ne_nil _ _) hnil
  have hasked : (exchanges cfd sys.log).map Prod.fst <+: cmds.map Command.line ++ made :=
    (((sessions_sequential mc hrun hfits).asked cfd repl hrepl).trans
      (hsent ▸ List.prefix_append repl.inputs repl.lost)).trans hall
  have hparsed := hasked.map command
  rw [List.map_append, map_command_line hcmds, List.map_map] at hparsed
  exact ⟨made.map command, hparsed⟩

/-- The second of the two clients. -/
def second_client : Repl := (two_clients_end.repls[1]?).getD (.opened [])

end hyperkv
