import HyperKV.Resp

open hyperkv.Resp

namespace hyperkv

/-- The text after an optional minus sign. -/
def unsigned (str : CStr) : CStr := if str.head? = some CChar.minus then str.tail else str

/-- The number that a text writes, when it is one and fits an `int`. -/
def int_value (str : CStr) : Option Int :=
  (read_number str).filter fun v => -2147483648 ≤ v && v ≤ 2147483647

/-- Recognition and conversion of numbers, for one text: `is_number` accepts what
    writes an `int`, `strtoi` answers with that number, and so what is accepted
    is used with the value that was written. -/
structure NumberSound (str : CStr) : Prop where
  accepts : is_number str = true ↔ (int_value str).isSome
  converts : ∀ v, int_value str = some v → strtoi str = v
  used : is_number str = true → int_value str = some (strtoi str)

/-! ## Numerals -/

theorem digit_toInt {c : CChar} (h : c.isdigit = true) : 48 ≤ c.toInt := by
  rw [CChar.isdigit, Bool.and_eq_true, decide_eq_true_eq, decide_eq_true_eq, UInt8.le_iff_toNat_le,
    UInt8.le_iff_toNat_le] at h
  have hlow : 48 ≤ c.val.toNat := h.1
  have hhigh : c.val.toNat ≤ 57 := h.2
  have hascii : c.val < 128 := UInt8.lt_iff_toNat_lt.mpr (by change c.val.toNat < 128; omega)
  rw [CChar.toInt, if_pos hascii]
  omega

theorem numeral_from {digits : CStr} (h : digits.all CChar.isdigit = true) : ∀ {res : Int}, 0 ≤ res →
    res ≤ digits.foldl (fun res c => res * 10 + (c.toInt - 48)) res := by
  induction digits with
  | nil => exact fun _ => le_rfl
  | cons c digits ih =>
    intro res hres
    rw [List.all_cons, Bool.and_eq_true] at h
    have hdigit : 48 ≤ c.toInt := digit_toInt h.1
    have hstep : res ≤ res * 10 + (c.toInt - 48) := by omega
    rw [List.foldl_cons]
    exact hstep.trans (ih h.2 (hres.trans hstep))

/-- Digits written behind a numeral do not make it smaller. -/
theorem numeral_mono {digits text : CStr} (hbegins : digits <+: text)
    (h : text.all CChar.isdigit = true) : 0 ≤ numeral digits ∧ numeral digits ≤ numeral text := by
  obtain ⟨rest, rfl⟩ := hbegins
  rw [List.all_append, Bool.and_eq_true] at h
  have hnonneg : 0 ≤ numeral digits := numeral_from h.1 le_rfl
  refine ⟨hnonneg, ?_⟩
  rw [numeral, numeral, List.foldl_append]
  exact numeral_from h.2 hnonneg

/-! ## What the loops visit -/

/-- The loops visit the text after the sign, or where `strlen` leaves the `int`s
    a beginning of it. -/
theorem digits_of_begins (str : CStr) : digits_of str <+: unsigned str := by
  unfold digits_of unsigned
  split
  · rw [List.drop_take, List.drop_one]
    exact List.take_prefix _ _
  · rw [List.drop_zero]
    exact List.take_prefix _ _

theorem digits_of_short {str : CStr} (h : str.length < 2147483648) : digits_of str = unsigned str := by
  rw [digits_of, strlen_eq h, Int.toNat_natCast, List.take_length, unsigned]
  split
  · exact List.drop_one
  · exact List.drop_zero

theorem read_number_eq (str : CStr) : read_number str =
    if unsigned str ≠ [] ∧ (unsigned str).all CChar.isdigit then
      some (if str.head? = some CChar.minus then -numeral (unsigned str) else numeral (unsigned str))
    else none := rfl

theorem int_value_eq_some {str : CStr} {v : Int} : int_value str = some v ↔
    read_number str = some v ∧ -2147483648 ≤ v ∧ v ≤ 2147483647 := by
  rw [int_value, Option.filter_eq_some_iff, Bool.and_eq_true, decide_eq_true_eq, decide_eq_true_eq]

/-- `strtoi` keeps the low 32 bits of the numeral that it visits, with its sign. -/
theorem strtoi_eq (str : CStr) : strtoi str =
    int32 (if str.head? = some CChar.minus then -numeral (digits_of str) else numeral (digits_of str)) := by
  rw [strtoi, strtoi_loop_eq]
  split
  · rw [int32, int32, Int.bmod_mul_bmod, ← int32, Int.mul_neg, Int.mul_one]
  · rfl

/-- At least one digit, and no number out of range. -/
def FitsInt (str : CStr) : Prop :=
  unsigned str ≠ [] ∧
    numeral (unsigned str) ≤ if str.head? = some CChar.minus then 2147483648 else 2147483647

theorem int_value_isSome {str : CStr} :
    (int_value str).isSome ↔ (unsigned str).all CChar.isdigit = true ∧ FitsInt str := by
  rw [Option.isSome_iff_exists]
  simp only [int_value_eq_some, read_number_eq]
  constructor
  · rintro ⟨v, hread, hlow, hhigh⟩
    split at hread
    · rename_i hdigits
      refine ⟨hdigits.2, hdigits.1, ?_⟩
      rw [Option.some_inj] at hread
      split
      · rename_i hminus
        rw [if_pos hminus] at hread
        omega
      · rename_i hplus
        rw [if_neg hplus] at hread
        omega
    · cases hread
  · rintro ⟨hdigits, hne, hle⟩
    have hnonneg := (numeral_mono (List.prefix_refl _) hdigits).1
    rw [if_pos ⟨hne, hdigits⟩]
    refine ⟨_, rfl, ?_⟩
    split
    · rename_i hminus
      rw [if_pos hminus] at hle
      omega
    · rename_i hplus
      rw [if_neg hplus] at hle
      omega

/-- The condition on what the loops see. -/
theorem numberSound_visited_iff (str : CStr) :
    NumberSound str ↔ ((digits_of str).all CChar.isdigit = true →
      (unsigned str).all CChar.isdigit = true ∧ FitsInt str ∧
        numeral (digits_of str) = numeral (unsigned str)) := by
  have hbegins := digits_of_begins str
  rw [← and_assoc, ← int_value_isSome]
  constructor
  · intro h hvisited
    have hsome := h.accepts.mp hvisited
    obtain ⟨v, hv⟩ := Option.isSome_iff_exists.mp hsome
    refine ⟨hsome, ?_⟩
    have hstrtoi := h.converts v hv
    obtain ⟨hread, hlow, hhigh⟩ := int_value_eq_some.mp hv
    rw [read_number_eq] at hread
    split at hread
    · rename_i hdigits
      obtain ⟨hnonneg, hle⟩ := numeral_mono hbegins hdigits.2
      rw [strtoi_eq] at hstrtoi
      rw [Option.some_inj] at hread
      split at hread
      · rename_i hminus
        rw [if_pos hminus, int32_of_bounds (by omega) (by omega)] at hstrtoi
        omega
      · rename_i hplus
        rw [if_neg hplus, int32_of_bounds (by omega) (by omega)] at hstrtoi
        omega
    · cases hread
  · intro h
    have hvalue : ∀ v, int_value str = some v → is_number str = true ∧ strtoi str = v := by
      intro v hv
      obtain ⟨hread, hlow, hhigh⟩ := int_value_eq_some.mp hv
      rw [read_number_eq] at hread
      split at hread
      · rename_i hdigits
        have hvisited : (digits_of str).all CChar.isdigit = true :=
          List.all_eq_true.mpr (fun c hc => List.all_eq_true.mp hdigits.2 c (hbegins.subset hc))
        refine ⟨hvisited, ?_⟩
        rw [strtoi_eq, (h hvisited).2, Option.some_inj.mp hread, int32_of_bounds hlow (by omega)]
      · cases hread
    have haccepts : is_number str = true ↔ (int_value str).isSome := by
      refine ⟨fun hnumber => (h hnumber).1, fun hsome => ?_⟩
      obtain ⟨v, hv⟩ := Option.isSome_iff_exists.mp hsome
      exact (hvalue v hv).1
    refine ⟨haccepts, fun v hv => (hvalue v hv).2, fun hnumber => ?_⟩
    obtain ⟨v, hv⟩ := Option.isSome_iff_exists.mp (haccepts.mp hnumber)
    rw [(hvalue v hv).2, hv]

/-- Nothing is cut off a text whose length is an `int`: there the digits must
    only be there, and fit. -/
theorem numberSound_short_iff {str : CStr} (h : str.length < 2147483648) :
    NumberSound str ↔ ((unsigned str).all CChar.isdigit = true → FitsInt str) := by
  rw [numberSound_visited_iff, digits_of_short h]
  simp only [and_true]
  exact ⟨fun hfits hdigits => (hfits hdigits).2, fun hfits hdigits => ⟨hdigits, hfits hdigits⟩⟩

/-- Recognition and conversion are sound for a text exactly when, if the loops
    see nothing but digits, the text has one, it has no others, they fit an
    `int`, and nothing that counts is cut off. Of a text whose length is an `int` the
    loops see all: its digits must only be there, and fit. -/
theorem numberSound_iff (str : CStr) :
    (NumberSound str ↔ ((digits_of str).all CChar.isdigit = true →
      (unsigned str).all CChar.isdigit = true ∧ FitsInt str ∧
        numeral (digits_of str) = numeral (unsigned str))) ∧
    (str.length < 2147483648 →
      (NumberSound str ↔ ((unsigned str).all CChar.isdigit = true → FitsInt str))) :=
  ⟨numberSound_visited_iff str, numberSound_short_iff⟩

theorem not_numberSound {str : CStr} (haccepted : is_number str = true) (hvalue : int_value str = none) :
    ¬ NumberSound str := by
  intro h
  have hsome := h.accepts.mp haccepted
  rw [hvalue] at hsome
  cases hsome

/-- The empty text, a sign alone and a number out of range are accepted. -/
theorem is_number_unsound :
    ¬ NumberSound [] ∧ ¬ NumberSound (cstr "-") ∧ ¬ NumberSound (cstr "99999999999") ∧
      strtoi (cstr "99999999999") = 1215752191 := by
  refine ⟨not_numberSound (by decide) (by decide), not_numberSound (by decide) (by decide), ?_, by decide +kernel⟩
  exact not_numberSound (by decide) (by decide +kernel)

end hyperkv
