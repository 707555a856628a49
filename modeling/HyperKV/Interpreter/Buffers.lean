import HyperKV.Interpreter.Encoding

namespace hyperkv

/-! ## `ndigits` -/

theorem ndigits_loop_eq (steps : Nat) : ∀ (n : Nat) (res : Int), n ≤ steps →
    ndigits_loop steps n res = res + (Nat.digits 10 n).length := by
  induction steps with
  | zero =>
    intro n res hn
    obtain rfl : n = 0 := by omega
    rw [ndigits_loop, Nat.digits_zero, List.length_nil, Int.natCast_zero, Int.add_zero]
  | succ steps ih =>
    intro n res hn
    rw [ndigits_loop]
    rcases Nat.eq_zero_or_pos n with rfl | hpos
    · rw [if_neg (by omega), Nat.digits_zero, List.length_nil, Int.natCast_zero, Int.add_zero]
    · have htenth : (n : Int).tdiv 10 = ((n / 10 : Nat) : Int) := (Int.ofNat_tdiv n 10).symm
      rw [if_pos (by omega), htenth, ih (n / 10) (res + 1) (by omega), Nat.digits_def' (by decide) hpos,
        List.length_cons]
      omega

/-- `ndigits` counts no digit for zero, and none for the least `int`, whose
    negation is no `int`. -/
theorem ndigits_eq {x : Int} (hlow : -2147483648 < x) (hhigh : x < 2147483648) :
    ndigits x = (Nat.digits 10 x.natAbs).length := by
  have hn : (if x < 0 then int32 (x * -1) else x) = x.natAbs := by
    split
    · rw [int32_of_bounds (by omega) (by omega)]
      omega
    · omega
  unfold ndigits
  rw [hn]
  dsimp only
  rw [Int.toNat_natCast, ndigits_loop_eq x.natAbs _ _ le_rfl, Int.zero_add]

theorem length_decimalNat (n : Nat) : (decimalNat n).length ≤ (Nat.digits 10 n).length + 1 := by
  by_cases h : n = 0
  · subst h
    exact le_rfl
  · rw [decimalNat_eq h, List.length_map, List.length_reverse]
    omega

/-- The text of an `int` other than the least has at most one character more than
    `ndigits` counts: a sign, or the digit of zero. -/
theorem length_decimal_ndigits {x : Int} (hlow : -2147483648 < x) (hhigh : x < 2147483648) :
    ((decimal x).length : Int) ≤ ndigits x + 1 := by
  have hlen := length_decimalNat x.natAbs
  rw [ndigits_eq hlow hhigh, decimal]
  split
  · have hne : x.natAbs ≠ 0 := by omega
    rw [decimalNat_eq hne, List.length_cons, List.length_map, List.length_reverse]
    omega
  · omega

/-! ## The buffers -/

/-- A text that is written into a buffer, and the size the buffer has then. -/
structure Write where
  size : Int
  text : CStr

/-- There is room for the text and its terminating NUL. -/
def Write.Fits (w : Write) : Prop := (w.text.length : Int) + 1 ≤ w.size

/-- A call of one of the functions that compute the size of their buffer. -/
inductive Builder where
  | intostr (x : Int)
  | reply_string (str : Option CStr)
  | reply_integer (x : Int)
  | reply_array_n (arr : List (Option CStr))
  | reply_array (arr : Option (List CStr))
  | reply_err_argc (given : Nat) (expected : String)

def intostr_writes (x : Int) : List Write := [⟨ndigits x + 2, intostr x⟩]

/-- Nil is a copy of a literal. -/
def reply_string_writes : Option CStr → List Write
  | none => []
  | some str => [⟨reply_string_size str, reply_string (some str)⟩]

def reply_integer_writes (x : Int) : List Write := [⟨ndigits x + 5, reply_integer x⟩]

def reply_element_writes : Option CStr → List Write
  | none => reply_string_writes none
  | some str => if is_number str then reply_integer_writes (strtoi str) else reply_string_writes (some str)

/-- The loop that grows `res` by one element after the other. -/
def append_writes (res : CStr) : List (Option CStr) → List Write
  | [] => []
  | str :: arr =>
    reply_element_writes str ++
      ⟨res.length + (reply_element str).length + 1, res ++ reply_element str⟩ ::
        append_writes (res ++ reply_element str) arr

def reply_array_n_writes (arr : List (Option CStr)) : List Write :=
  ⟨ndigits arr.length + 5, cstr "*" ++ decimal arr.length ++ crlf⟩ ::
    append_writes (cstr "*" ++ decimal arr.length ++ crlf) arr

def reply_array_writes : Option (List CStr) → List Write
  | none => []
  | some arr =>
    let res := arr.flatMap (fun str => reply_element (some str))
    append_writes [] (arr.map some) ++ [⟨res.length + ndigits arr.length + 5, reply_array (some arr)⟩]

def reply_err_argc_writes (given : Nat) (expected : String) : List Write :=
  [⟨ndigits given + (cstr expected).length + 54, reply_err_argc given expected⟩]

def Builder.writes : Builder → List Write
  | .intostr x => intostr_writes x
  | .reply_string str => reply_string_writes str
  | .reply_integer x => reply_integer_writes x
  | .reply_array_n arr => reply_array_n_writes arr
  | .reply_array arr => reply_array_writes arr
  | .reply_err_argc given expected => reply_err_argc_writes given expected

/-- The elements that are sent as integers. -/
def element_ints (arr : List (Option CStr)) : List Int :=
  arr.filterMap fun str => (str.filter is_number).map strtoi

/-- The `int`s of the caller that a call writes out. -/
def Builder.ints : Builder → List Int
  | .intostr x => [x]
  | .reply_integer x => [x]
  | .reply_array_n arr => element_ints arr
  | .reply_array (some arr) => element_ints (arr.map some)
  | _ => []

/-- The arguments are ones that C can pass: numbers are `int`s, counts are not
    negative, and strings leave an `int` for the size of their reply. -/
def Builder.Valid : Builder → Prop
  | .intostr x => -2147483648 ≤ x ∧ x < 2147483648
  | .reply_string str => ∀ s ∈ str, s.length < 2147483631
  | .reply_integer x => -2147483648 ≤ x ∧ x < 2147483648
  | .reply_array_n arr => arr.length < 2147483648 ∧ ∀ s, some s ∈ arr → s.length < 2147483631
  | .reply_array arr => ∀ strs ∈ arr, strs.length < 2147483648 ∧ ∀ s ∈ strs, s.length < 2147483631
  | .reply_err_argc given _ => given < 2147483648

def AllFit (writes : List Write) : Prop := ∀ w ∈ writes, w.Fits

theorem fits_iff {size : Int} {text : CStr} : Write.Fits ⟨size, text⟩ ↔ (text.length : Int) + 1 ≤ size := Iff.rfl

theorem allFit_singleton {w : Write} : AllFit [w] ↔ w.Fits := List.forall_mem_singleton

theorem allFit_cons {w : Write} {writes : List Write} : AllFit (w :: writes) ↔ w.Fits ∧ AllFit writes :=
  List.forall_mem_cons

theorem allFit_append {writes writes' : List Write} :
    AllFit (writes ++ writes') ↔ AllFit writes ∧ AllFit writes' := List.forall_mem_append

/-! ## The room in them -/

/-- Two characters besides those counted are room enough, except for the least
    `int`: it takes eleven, and `ndigits` counts none of them. -/
theorem decimal_fits_iff {x : Int} (hlow : -2147483648 ≤ x) (hhigh : x < 2147483648) :
    ((decimal x).length : Int) + 1 ≤ ndigits x + 2 ↔ -2147483648 ≠ x := by
  constructor
  · rintro h rfl
    exact absurd h (by decide)
  · intro hne
    have hlen := length_decimal_ndigits (show -2147483648 < x by omega) hhigh
    omega

theorem intostr_fits {x : Int} (hlow : -2147483648 ≤ x) (hhigh : x < 2147483648) :
    AllFit (intostr_writes x) ↔ -2147483648 ≠ x := by
  rw [intostr_writes, allFit_singleton, fits_iff, intostr]
  exact decimal_fits_iff hlow hhigh

theorem reply_integer_fits {x : Int} (hlow : -2147483648 ≤ x) (hhigh : x < 2147483648) :
    AllFit (reply_integer_writes x) ↔ -2147483648 ≠ x := by
  have hlen : (reply_integer x).length = (decimal x).length + 3 := by
    rw [reply_integer, List.length_append, List.length_append, show (cstr ":").length = 1 from rfl,
      show crlf.length = 2 from rfl]
    omega
  rw [reply_integer_writes, allFit_singleton, fits_iff, hlen, ← decimal_fits_iff hlow hhigh]
  omega

theorem digits_length_le {n : Nat} (h : n < 2147483648) : (Nat.digits 10 n).length ≤ 10 :=
  (Nat.digits_length_le_iff (by decide) n).mpr (Nat.lt_of_lt_of_le h (by decide))

/-- Where the size is the sum that it is meant to be. -/
theorem reply_string_size_eq {str : CStr} (h : str.length < 2147483631) :
    reply_string_size str = str.length + ndigits str.length + 7 := by
  have hdigits := digits_length_le (show str.length < 2147483648 by omega)
  rw [reply_string_size, strlen_eq (by omega), ndigits_eq (by omega) (by omega), Int.natAbs_natCast,
    int32_of_bounds (by omega) (by omega)]

theorem reply_string_fits {str : CStr} (h : str.length < 2147483631) :
    AllFit (reply_string_writes (some str)) := by
  have hlen := length_decimal_ndigits (show -2147483648 < (str.length : Int) by omega) (by omega)
  rw [reply_string_writes, allFit_singleton, fits_iff, reply_string_size_eq h, reply_string,
    strlen_eq (show str.length < 2147483648 by omega)]
  simp only [List.length_append, show (cstr "$").length = 1 from rfl, show crlf.length = 2 from rfl]
  omega

/-- The line with the number of elements. -/
theorem array_header_fits {n : Nat} (h : n < 2147483648) :
    Write.Fits ⟨ndigits n + 5, cstr "*" ++ decimal n ++ crlf⟩ := by
  have hlen := length_decimal_ndigits (show -2147483648 < (n : Int) by omega) (by omega)
  rw [fits_iff]
  simp only [List.length_append, show (cstr "*").length = 1 from rfl, show crlf.length = 2 from rfl]
  omega

theorem reply_element_fits {str : Option CStr} (h : ∀ s, str = some s → s.length < 2147483631) :
    AllFit (reply_element_writes str) ↔ ∀ x, (str.filter is_number).map strtoi = some x → -2147483648 ≠ x := by
  cases str with
  | none => exact iff_of_true (fun w hw => by cases hw) (fun x hx => by cases hx)
  | some s =>
    rw [reply_element_writes, Option.filter_some]
    by_cases hnumber : is_number s
    · obtain ⟨hlow, hhigh⟩ := strtoi_bounds s
      rw [if_pos hnumber, if_pos hnumber, reply_integer_fits hlow hhigh]
      simp only [Option.map_some, Option.some_inj, forall_eq']
    · rw [if_neg hnumber, if_neg hnumber]
      exact iff_of_true (reply_string_fits (h s rfl)) (fun x hx => by cases hx)

/-- The loop always asks for what it appends; what the elements' own buffers
    leave room for is another matter. -/
theorem append_fits {arr : List (Option CStr)} (h : ∀ s, some s ∈ arr → s.length < 2147483631) (res : CStr) :
    AllFit (append_writes res arr) ↔ -2147483648 ∉ element_ints arr := by
  induction arr generalizing res with
  | nil => exact iff_of_true (fun w hw => by cases hw) List.not_mem_nil
  | cons str arr ih =>
    have helement := reply_element_fits (fun s hs => h s (hs ▸ List.mem_cons_self))
    have hgrown : Write.Fits ⟨res.length + (reply_element str).length + 1, res ++ reply_element str⟩ := by
      rw [fits_iff, List.length_append]
      omega
    rw [append_writes, allFit_append, allFit_cons, helement, ih (fun s hs => h s (List.mem_cons_of_mem _ hs)),
      and_iff_right hgrown]
    simp only [element_ints, List.mem_filterMap, List.mem_cons]
    constructor
    · rintro ⟨hfirst, hrest⟩ ⟨other, rfl | hmem, hint⟩
      · exact hfirst _ hint rfl
      · exact hrest ⟨other, hmem, hint⟩
    · intro hnone
      refine ⟨fun x hint heq => hnone ⟨str, Or.inl rfl, heq ▸ hint⟩, ?_⟩
      rintro ⟨other, hmem, hint⟩
      exact hnone ⟨other, Or.inr hmem, hint⟩

theorem reply_array_n_fits {arr : List (Option CStr)} (hcount : arr.length < 2147483648)
    (h : ∀ s, some s ∈ arr → s.length < 2147483631) :
    AllFit (reply_array_n_writes arr) ↔ -2147483648 ∉ element_ints arr := by
  rw [reply_array_n_writes, allFit_cons, append_fits h, and_iff_right (array_header_fits hcount)]

theorem reply_array_fits {arr : List CStr} (hcount : arr.length < 2147483648)
    (h : ∀ s ∈ arr, s.length < 2147483631) :
    AllFit (reply_array_writes (some arr)) ↔ -2147483648 ∉ element_ints (arr.map some) := by
  have helements : ∀ s, some s ∈ arr.map some → s.length < 2147483631 := by
    intro s hs
    obtain ⟨s', hmem, heq⟩ := List.mem_map.mp hs
    cases heq
    exact h s hmem
  have hheader := fits_iff.mp (array_header_fits hcount)
  rw [List.length_append, List.length_append] at hheader
  rw [reply_array_writes, allFit_append, append_fits helements, allFit_singleton, fits_iff, reply_array,
    List.length_append, List.length_append, List.length_append]
  exact and_iff_left (by omega)

theorem reply_err_argc_fits {given : Nat} (h : given < 2147483648) (expected : String) :
    AllFit (reply_err_argc_writes given expected) := by
  have hlen := length_decimal_ndigits (show -2147483648 < (given : Int) by omega) (by omega)
  rw [reply_err_argc_writes, allFit_singleton, fits_iff, reply_err_argc]
  simp only [List.length_append, show (cstr "-ERR wrong number of arguments (given ").length = 38 from rfl,
    show (cstr ", expected ").length = 11 from rfl, show (cstr ")\r\n").length = 3 from rfl]
  omega

/-- Every text fits its buffer exactly when the least `int` is not among the
    numbers that the call is to write. -/
theorem buffers_fit_iff (call : Builder) (h : call.Valid) : AllFit call.writes ↔ -2147483648 ∉ call.ints := by
  cases call with
  | intostr x => exact (intostr_fits h.1 h.2).trans List.mem_singleton.not.symm
  | reply_integer x => exact (reply_integer_fits h.1 h.2).trans List.mem_singleton.not.symm
  | reply_string str =>
    cases str with
    | none => exact iff_of_true (fun w hw => by cases hw) List.not_mem_nil
    | some s => exact iff_of_true (reply_string_fits (h s rfl)) List.not_mem_nil
  | reply_array_n arr => exact reply_array_n_fits h.1 h.2
  | reply_array arr =>
    cases arr with
    | none => exact iff_of_true (fun w hw => by cases hw) List.not_mem_nil
    | some strs => exact reply_array_fits (h strs rfl).1 (h strs rfl).2
  | reply_err_argc given expected => exact iff_of_true (reply_err_argc_fits h expected) List.not_mem_nil

theorem buffers_fit_iff_mixed :
    AllFit (Builder.reply_array_n [some (cstr "0"), none, some (cstr "x\r\n"), some (cstr "-12")]).writes ↔
      -2147483648 ∉
        (Builder.reply_array_n [some (cstr "0"), none, some (cstr "x\r\n"), some (cstr "-12")]).ints := by
  refine buffers_fit_iff _ ⟨by decide, fun s hs => ?_⟩
  have hshort : ∀ str ∈ [some (cstr "0"), none, some (cstr "x\r\n"), some (cstr "-12")],
      ∀ s ∈ str, s.length < 2147483631 := by decide
  exact hshort _ hs s rfl

/-- Twelve bytes into two, and fifteen into five. -/
theorem buffers_overflow :
    intostr_writes (-2147483648) = [⟨2, cstr "-2147483648"⟩] ∧
      reply_integer_writes (-2147483648) = [⟨5, cstr ":-2147483648\r\n"⟩] ∧
      ¬ AllFit (intostr_writes (-2147483648)) ∧ ¬ AllFit (reply_integer_writes (-2147483648)) := by
  refine ⟨rfl, rfl, fun h => (intostr_fits (by decide) (by decide)).mp h rfl,
    fun h => (reply_integer_fits (by decide) (by decide)).mp h rfl⟩

end hyperkv
