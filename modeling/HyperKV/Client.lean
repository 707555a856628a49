import HyperKV.Interpreter.Buffers

open hyperkv.Resp

namespace hyperkv

/-! ## The decoder -/

/-- The loop of `parse_int`, up to a carriage return; `none` when it walks past
    the end of the reply. -/
def digit_walk (n : Int) : CStr → Option Int
  | [] => none
  | c :: resp => if c = CChar.cr then some n else digit_walk (int32 (int32 (n * 10) + (c.toInt - 48))) resp

/-- The first character, whatever it is, is skipped. -/
def parse_int : CStr → Option Int
  | [] => none
  | _ :: resp =>
    let min := if resp.head? = some CChar.minus then 1 else 0
    (digit_walk 0 (resp.drop min)).map fun n => if min = 1 then int32 (n * -1) else n

/-- What follows the first newline. -/
def skip_line : CStr → Option CStr
  | [] => none
  | c :: resp => if c = CChar.lf then some resp else skip_line resp

/-- The copy of `n` characters may take the terminating NUL with it, and no more.
    The answer is null for a negative length. -/
def parse_str (resp : CStr) : Option (Option CStr) := do
  let n ← parse_int resp
  if n < 0 then
    return none
  let resp ← skip_line resp
  if n.toNat ≤ resp.length + 1 then return some (resp.take n.toNat) else none

/-! ## Integers -/

theorem digit_walk_append {digits : CStr} (h : CChar.cr ∉ digits) (n : Int) (rest : CStr) :
    digit_walk n (digits ++ CChar.cr :: rest) = some (strtoi_loop n digits) := by
  induction digits generalizing n with
  | nil => rfl
  | cons c digits ih =>
    rw [List.mem_cons, not_or] at h
    have hne : ¬ c = CChar.cr := fun heq => h.1 heq.symm
    rw [List.cons_append, digit_walk, if_neg hne, ih h.2]
    rfl

/-- On decimal text the client's loop does what `strtoi` does. -/
theorem parse_int_decimal (c : CChar) {x : Int} (hlow : -2147483648 ≤ x) (hhigh : x < 2147483648)
    (rest : CStr) : parse_int (c :: (decimal x ++ CChar.cr :: rest)) = some x := by
  have hlen := length_decimal_le hlow hhigh
  have hne : decimal x ≠ [] := by
    unfold decimal
    split
    · exact List.cons_ne_nil _ _
    · exact decimalNat_ne_nil _
  have hdigits : digits_of (decimal x) =
      (decimal x).drop (if (decimal x).head? = some CChar.minus then 1 else 0) := by
    rw [digits_of, strlen_eq (by omega), Int.toNat_natCast, List.take_length]
  have hcr : CChar.cr ∉ digits_of (decimal x) := by
    rw [digits_of_decimal hlow hhigh]
    exact isdigit_ne_cr (decimalNat_isdigit _)
  have hwalk : digit_walk 0 ((decimal x ++ CChar.cr :: rest).drop
      (if (decimal x).head? = some CChar.minus then 1 else 0)) =
        some (strtoi_loop 0 (digits_of (decimal x))) := by
    rw [List.drop_append_of_le_length, ← hdigits, digit_walk_append hcr]
    have hpos := List.length_pos_iff.mpr hne
    split <;> omega
  have hvalue := strtoi_decimal hlow hhigh
  unfold strtoi at hvalue
  unfold parse_int
  dsimp only at hvalue ⊢
  rw [List.head?_append_of_ne_nil _ hne, hwalk, Option.map_some]
  refine congrArg some (Eq.trans ?_ hvalue)
  by_cases hminus : (decimal x).head? = some CChar.minus
  · simp only [if_pos hminus, if_true]
  · simp only [if_neg hminus]
    rfl

theorem parse_int_reply {x : Int} (hlow : -2147483648 ≤ x) (hhigh : x < 2147483648) :
    parse_int (reply_integer x) = some x := by
  have htext : reply_integer x = CChar.colon :: (decimal x ++ CChar.cr :: [CChar.lf]) := by
    rw [reply_integer, crlf_eq, List.append_assoc]
    rfl
  rw [htext]
  exact parse_int_decimal _ hlow hhigh _

/-! ## Strings -/

theorem skip_line_append {line : CStr} (h : CChar.lf ∉ line) (rest : CStr) :
    skip_line (line ++ CChar.lf :: rest) = some rest := by
  induction line with
  | nil => rfl
  | cons c line ih =>
    rw [List.mem_cons, not_or] at h
    have hne : ¬ c = CChar.lf := fun heq => h.1 heq.symm
    rw [List.cons_append, skip_line, if_neg hne, ih h.2]

theorem lf_not_mem_decimal (x : Int) : CChar.lf ∉ decimal x := by
  have hdigits : CChar.lf ∉ decimalNat x.natAbs := by
    intro hmem
    exact absurd (List.all_eq_true.mp (decimalNat_isdigit x.natAbs) _ hmem) (by decide)
  unfold decimal
  split
  · rw [List.mem_cons, not_or]
    exact ⟨by decide, hdigits⟩
  · exact hdigits

theorem parse_str_nil : parse_str (reply_string none) = some none := by decide

/-- The announced length, and nothing in the string, says where it ends. -/
theorem parse_str_reply {s : CStr} (h : s.length < 2147483648) :
    parse_str (reply_string (some s)) = some (some s) := by
  have htext : reply_string (some s) =
      CChar.dollar :: (decimal s.length ++ CChar.cr :: CChar.lf :: (s ++ crlf)) := by
    rw [reply_string, strlen_eq h, crlf_eq]
    simp only [List.append_assoc]
    rfl
  have hint : parse_int (reply_string (some s)) = some (s.length : Int) := by
    rw [htext]
    exact parse_int_decimal _ (by omega) (by omega) _
  have hskip : skip_line (reply_string (some s)) = some (s ++ crlf) := by
    have hheader : CChar.lf ∉ CChar.dollar :: (decimal s.length ++ [CChar.cr]) := by
      simp only [List.mem_cons, List.mem_append, List.not_mem_nil, or_false, not_or]
      exact ⟨by decide, lf_not_mem_decimal _, by decide⟩
    have hline := skip_line_append hheader (s ++ crlf)
    rw [htext]
    simpa only [List.cons_append, List.append_assoc, List.nil_append] using hline
  have hlen : ((s.length : Int)).toNat ≤ (s ++ crlf).length + 1 := by
    rw [List.length_append]
    omega
  have hneg : ¬ (s.length : Int) < 0 := by omega
  rw [parse_str, hint, Option.bind_eq_bind, Option.bind_some, if_neg hneg, hskip, Option.bind_eq_bind,
    Option.bind_some, if_pos hlen, Int.toNat_natCast, List.take_left]
  rfl

/-! ## The whole way -/

/-- From 2^31 - 17 characters on the size that the encoder asks for is no `int`. -/
theorem reply_string_call_long {s : CStr} (h : s.length < 2147483648) (hlong : 2147483631 ≤ s.length) :
    reply_string_call (some s) = none := by
  have hdigits : ndigits s.length = 10 := by
    rw [ndigits_eq (by omega) (by omega), Int.natAbs_natCast]
    have hmany : 9 < (Nat.digits 10 s.length).length := (Nat.lt_digits_length_iff (by decide) _).mpr (by omega)
    have hfew := digits_length_le h
    omega
  have hsize : reply_string_size s < 0 := by
    rw [reply_string_size, strlen_eq h, hdigits, int32, Int.bmod_def]
    split <;> omega
  rw [reply_string_call, dmalloc, if_neg (by omega)]
  rfl

theorem reply_string_call_short {s : CStr} (h : s.length < 2147483631) :
    reply_string_call (some s) = some (reply_string (some s)) := by
  have hsize : 0 ≤ reply_string_size s := by
    rw [reply_string_size_eq h, ndigits_eq (by omega) (by omega)]
    omega
  rw [reply_string_call, dmalloc, if_pos hsize]
  rfl

/-- The decoder of the client undoes the encoder of the server: for every integer and
    nil, and for the strings whose reply has a size that is an `int`. -/
theorem decode_encode_iff (s : CStr) (h : s.length < 2147483648) :
    ((reply_string_call (some s)).bind parse_str = some (some s) ↔ s.length < 2147483631) ∧
    (reply_string_call none).bind parse_str = some none ∧
    ∀ x : Int, -2147483648 ≤ x → x < 2147483648 → parse_int (reply_integer x) = some x := by
  refine ⟨⟨fun hdecoded => ?_, fun hshort => ?_⟩, parse_str_nil,
    fun _ hlow hhigh => parse_int_reply hlow hhigh⟩
  · by_contra hlong
    rw [reply_string_call_long h (by omega)] at hdecoded
    cases hdecoded
  · rw [reply_string_call_short hshort, Option.bind_some, parse_str_reply h]

theorem decode_encode_crlf :
    (reply_string_call (some (cstr "\r\n$5"))).bind parse_str = some (some (cstr "\r\n$5")) ∧
      parse_int (reply_integer (-2147483648)) = some (-2147483648) :=
  ⟨(decode_encode_iff _ (by decide)).1.mpr (by decide),
    (decode_encode_iff (cstr "\r\n$5") (by decide)).2.2 _ (by decide) (by decide)⟩

/-- A string of 2^31 - 17 times the same character ends the program. -/
theorem encode_exits : ∃ s : CStr, s = List.replicate 2147483631 CChar.minus ∧ s.length < 2147483648 ∧
    (reply_string_call (some s)).bind parse_str ≠ some (some s) := by
  have hlen : (List.replicate 2147483631 CChar.minus).length = 2147483631 := List.length_replicate
  refine ⟨_, rfl, by omega, ?_⟩
  rw [reply_string_call_long (by omega) (by omega)]
  exact nofun

end hyperkv
