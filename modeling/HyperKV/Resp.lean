import HyperKV.Helper.Decimal

namespace hyperkv

namespace CChar

def cr : CChar := ⟨13, by decide⟩

def lf : CChar := ⟨10, by decide⟩

def colon : CChar := ⟨58, by decide⟩

def dollar : CChar := ⟨36, by decide⟩

def star : CChar := ⟨42, by decide⟩

end CChar

namespace Resp

/-- The values that an array may hold: an integer line, nil or a bulk string. -/
inductive Elem where
  | integer (x : Int)
  | nil
  | bulk (s : CStr)
  deriving DecidableEq, Repr

/-- The text that an element stands for. -/
def Elem.text : Elem → Option CStr
  | .integer x => some (decimal x)
  | .nil => none
  | .bulk s => some s

/-- The line before the first CRLF, with what follows it. -/
def read_line : CStr → Option (CStr × CStr)
  | [] => none
  | [_] => none
  | c :: d :: rest =>
    if c = CChar.cr ∧ d = CChar.lf then some ([], rest)
    else (read_line (d :: rest)).map fun (line, rest) => (c :: line, rest)

/-- The number that a line writes: digits, after a minus sign or not. -/
def read_number (line : CStr) : Option Int :=
  let digits := if line.head? = some CChar.minus then line.tail else line
  if digits ≠ [] ∧ digits.all CChar.isdigit then
    some (if line.head? = some CChar.minus then -numeral digits else numeral digits)
  else none

/-- The bytes of a bulk string, which end in CRLF. -/
def read_bulk (n : Nat) (input : CStr) : Option (CStr × CStr) :=
  match input.drop n with
  | c :: d :: rest => if c = CChar.cr ∧ d = CChar.lf then some (input.take n, rest) else none
  | _ => none

def read_elem : CStr → Option (Elem × CStr)
  | [] => none
  | c :: input => do
    let (line, rest) ← read_line input
    let x ← read_number line
    if c = CChar.colon then some (.integer x, rest)
    else if c = CChar.dollar then
      if x = -1 then some (.nil, rest)
      else if x < 0 then none
      else (read_bulk x.toNat rest).map fun (s, rest) => (.bulk s, rest)
    else none

def read_elems : Nat → CStr → Option (List Elem × CStr)
  | 0, input => some ([], input)
  | n + 1, input => do
    let (elem, input) ← read_elem input
    let (elems, rest) ← read_elems n input
    return (elem :: elems, rest)

/-- One array and nothing after it. -/
def read_array : CStr → Option (List Elem)
  | [] => none
  | c :: input => do
    let (line, rest) ← read_line input
    let x ← read_number line
    if c = CChar.star ∧ 0 ≤ x then
      let (elems, rest) ← read_elems x.toNat rest
      if rest = [] then some elems else none
    else none

/-- The strings that an array reply stands for. -/
def strings (reply : CStr) : Option (List (Option CStr)) := (read_array reply).map (List.map Elem.text)

/-- The values that a whole reply may be. -/
inductive Reply where
  | error (line : CStr)
  | one (elem : Elem)
  | array (elems : List Elem)
  deriving DecidableEq, Repr

/-- The first reply of a stream, with what follows it. -/
def read_reply : CStr → Option (Reply × CStr)
  | [] => none
  | c :: input =>
    if c = CChar.minus then (read_line input).map fun (line, rest) => (.error line, rest)
    else if c = CChar.star then do
      let (line, rest) ← read_line input
      let x ← read_number line
      if x < 0 then none
      else (read_elems x.toNat rest).map fun (elems, rest) => (.array elems, rest)
    else (read_elem (c :: input)).map fun (elem, rest) => (.one elem, rest)

/-- One complete reply: it is read off any stream that starts with it, and
    nothing else is. -/
def Framed (reply : CStr) : Prop := ∃ v, ∀ rest, read_reply (reply ++ rest) = some (v, rest)

example : strings (cstr "*3\r\n:-7\r\n$2\r\n\r\n\r\n$-1\r\n") =
    some [some (cstr "-7"), some (cstr "\r\n"), none] := by
  decide

/-! ## Lines and numbers -/

theorem read_line_append {line : CStr} (h : CChar.cr ∉ line) (rest : CStr) :
    read_line (line ++ CChar.cr :: CChar.lf :: rest) = some (line, rest) := by
  induction line with
  | nil => rfl
  | cons c line ih =>
    rw [List.mem_cons, not_or] at h
    have hne : ¬ (c = CChar.cr) := fun heq => h.1 heq.symm
    have htail := ih h.2
    cases line with
    | nil =>
      rw [List.nil_append] at htail
      rw [List.cons_append, List.nil_append, read_line, if_neg (fun hc => hne hc.1), htail]
      rfl
    | cons d line =>
      rw [List.cons_append] at htail
      rw [List.cons_append, List.cons_append, read_line, if_neg (fun hc => hne hc.1), htail]
      rfl

theorem isdigit_ne_cr {s : CStr} (h : s.all CChar.isdigit = true) : CChar.cr ∉ s := by
  intro hmem
  exact absurd (List.all_eq_true.mp h _ hmem) (by decide)

theorem cr_not_mem_decimal (x : Int) : CChar.cr ∉ decimal x := by
  have hdigits := isdigit_ne_cr (decimalNat_isdigit x.natAbs)
  rw [decimal]
  split
  · rw [List.mem_cons, not_or]
    exact ⟨by decide, hdigits⟩
  · exact hdigits

theorem read_number_decimal (x : Int) : read_number (decimal x) = some x := by
  have hne := decimalNat_ne_nil x.natAbs
  have hdigits := decimalNat_isdigit x.natAbs
  by_cases hneg : x < 0
  · have hdecimal : decimal x = CChar.minus :: decimalNat x.natAbs := if_pos hneg
    rw [hdecimal, read_number]
    simp only [List.head?_cons, if_true, List.tail_cons]
    rw [if_pos ⟨hne, hdigits⟩, numeral_decimalNat]
    exact congrArg some (by omega)
  · have hdecimal : decimal x = decimalNat x.natAbs := if_neg hneg
    have hhead : ¬ (decimalNat x.natAbs).head? = some CChar.minus := by
      intro hminus
      exact absurd (List.all_eq_true.mp hdigits _ (List.mem_of_mem_head? hminus)) (by decide)
    rw [hdecimal, read_number]
    simp only [if_neg hhead]
    rw [if_pos ⟨hne, hdigits⟩, numeral_decimalNat]
    exact congrArg some (by omega)

/-- A line of decimal text is read back. -/
theorem read_line_decimal (x : Int) (rest : CStr) :
    read_line (decimal x ++ CChar.cr :: CChar.lf :: rest) = some (decimal x, rest) :=
  read_line_append (cr_not_mem_decimal x) rest

theorem read_bulk_append (s rest : CStr) :
    read_bulk s.length (s ++ CChar.cr :: CChar.lf :: rest) = some (s, rest) := by
  rw [read_bulk, List.drop_left', List.take_left']
  · exact if_pos ⟨rfl, rfl⟩
  · rfl
  · rfl

/-- What is read as a bulk string has the length that was announced. -/
theorem length_read_bulk {n : Nat} {input s rest : CStr} (h : read_bulk n input = some (s, rest)) :
    s.length = n := by
  rw [read_bulk] at h
  split at h
  · rename_i c d rest' hdrop
    split at h
    · cases h
      have hlen := congrArg List.length hdrop
      rw [List.length_drop, List.length_cons, List.length_cons] at hlen
      rw [List.length_take]
      omega
    · cases h
  · cases h

theorem length_read_elems {n : Nat} {input rest : CStr} {elems : List Elem}
    (h : read_elems n input = some (elems, rest)) : elems.length = n := by
  induction n generalizing input elems with
  | zero =>
    cases h
    rfl
  | succ n ih =>
    obtain ⟨⟨elem, input'⟩, _, h⟩ := Option.bind_eq_some_iff.mp h
    obtain ⟨⟨elems', rest'⟩, helems, h⟩ := Option.bind_eq_some_iff.mp h
    cases h
    rw [List.length_cons, ih helems]

end Resp

end hyperkv
