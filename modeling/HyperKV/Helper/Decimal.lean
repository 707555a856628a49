import Mathlib.Data.Nat.Digits.Lemmas
import HyperKV.Helper

namespace hyperkv

/-- The number that a text of digits writes, without the bounds of an `int`. -/
def numeral (digits : CStr) : Int := digits.foldl (fun res c => res * 10 + (c.toInt - 48)) 0

theorem digitChar_spec : ∀ d < 10, (digitChar d).isdigit = true ∧ (digitChar d).toInt = 48 + d := by
  decide

theorem decimalNat_eq {n : Nat} (h : n ≠ 0) : decimalNat n = (Nat.digits 10 n).reverse.map digitChar :=
  if_neg h

theorem decimalNat_ne_nil (n : Nat) : decimalNat n ≠ [] := by
  by_cases h : n = 0
  · simp [decimalNat, h]
  · rw [decimalNat_eq h]
    simpa [Nat.digits_eq_nil_iff_eq_zero] using h

theorem decimalNat_isdigit (n : Nat) : (decimalNat n).all CChar.isdigit = true := by
  by_cases h : n = 0
  · subst h
    decide
  · rw [decimalNat_eq h, List.all_eq_true]
    intro c hc
    obtain ⟨d, hd, rfl⟩ := List.mem_map.mp hc
    exact (digitChar_spec d (Nat.digits_lt_base (by decide) (List.mem_reverse.mp hd))).1

theorem numeral_decimalNat (n : Nat) : numeral (decimalNat n) = n := by
  by_cases h : n = 0
  · subst h
    decide
  · have hfold : ∀ digits : List Nat, (∀ d ∈ digits, d < 10) →
        digits.foldr (fun d (res : Int) => res * 10 + ((digitChar d).toInt - 48)) 0 =
          (Nat.ofDigits 10 digits : Nat) := by
      intro digits hdigits
      induction digits with
      | nil => rfl
      | cons d digits ih =>
        rw [List.foldr_cons, ih (fun d' hd' => hdigits d' (List.mem_cons_of_mem _ hd')),
          (digitChar_spec d (hdigits d List.mem_cons_self)).2, Nat.ofDigits_cons]
        push_cast
        ring
    rw [decimalNat_eq h, numeral, List.foldl_map, List.foldl_reverse,
      hfold _ (fun d hd => Nat.digits_lt_base (by decide) hd), Nat.ofDigits_digits]

theorem length_decimalNat_le {n k : Nat} (hk : k ≠ 0) (h : n < 10 ^ k) : (decimalNat n).length ≤ k := by
  by_cases hn : n = 0
  · subst hn
    exact Nat.one_le_iff_ne_zero.mpr hk
  · rw [decimalNat_eq hn, List.length_map, List.length_reverse]
    exact (Nat.digits_length_le_iff (by decide) n).mpr h

theorem length_decimal_le {x : Int} (hlow : -2147483648 ≤ x) (hhigh : x < 2147483648) :
    (decimal x).length ≤ 11 := by
  have hdigits : (decimalNat x.natAbs).length ≤ 10 := length_decimalNat_le (by decide) (by omega)
  rw [decimal]
  split
  · rw [List.length_cons]
    omega
  · omega

theorem strlen_eq {s : CStr} (h : s.length < 2147483648) : strlen s = s.length :=
  int32_of_bounds (by omega) (by omega)

/-! ## `is_number` and `strtoi` on decimal text -/

theorem digits_of_decimal {x : Int} (hlow : -2147483648 ≤ x) (hhigh : x < 2147483648) :
    digits_of (decimal x) = decimalNat x.natAbs := by
  have hlen := length_decimal_le hlow hhigh
  rw [digits_of, strlen_eq (by omega), Int.toNat_natCast, List.take_length, decimal]
  split
  · rfl
  · have hhead : (decimalNat x.natAbs).head? ≠ some CChar.minus := by
      intro hminus
      have hdigit := List.all_eq_true.mp (decimalNat_isdigit x.natAbs) _ (List.mem_of_mem_head? hminus)
      exact absurd hdigit (by decide)
    rw [if_neg hhead]
    rfl

theorem is_number_decimal {x : Int} (hlow : -2147483648 ≤ x) (hhigh : x < 2147483648) :
    is_number (decimal x) = true := by
  rw [is_number, digits_of_decimal hlow hhigh]
  exact decimalNat_isdigit _

/-- The loop of `strtoi` keeps the low 32 bits of the number that it reads. -/
theorem strtoi_loop_eq (digits : CStr) : strtoi_loop 0 digits = int32 (numeral digits) := by
  have hfold : ∀ res : Int, strtoi_loop (int32 res) digits =
      int32 (digits.foldl (fun res c => res * 10 + (c.toInt - 48)) res) := by
    induction digits with
    | nil => exact fun _ => rfl
    | cons c digits ih =>
      intro res
      rw [List.foldl_cons, ← ih]
      have hstep : int32 (int32 (int32 res * 10) + (c.toInt - 48)) = int32 (res * 10 + (c.toInt - 48)) := by
        simp only [int32, Int.bmod_mul_bmod, Int.bmod_add_bmod]
      rw [strtoi_loop, List.foldl_cons, hstep]
      rfl
  exact hfold 0

theorem strtoi_decimal {x : Int} (hlow : -2147483648 ≤ x) (hhigh : x < 2147483648) :
    strtoi (decimal x) = x := by
  have hhead : (decimal x).head? = some CChar.minus ↔ x < 0 := by
    rw [decimal]
    split
    · exact iff_of_true rfl ‹_›
    · refine iff_of_false (fun hminus => ?_) ‹_›
      have hdigit := List.all_eq_true.mp (decimalNat_isdigit x.natAbs) _ (List.mem_of_mem_head? hminus)
      exact absurd hdigit (by decide)
  rw [strtoi, digits_of_decimal hlow hhigh, strtoi_loop_eq, numeral_decimalNat]
  by_cases hneg : x < 0
  · rw [if_pos (hhead.mpr hneg), int32, int32, Int.bmod_mul_bmod, ← int32,
      int32_of_bounds (by omega) (by omega)]
    omega
  · rw [if_neg (fun hminus => hneg (hhead.mp hminus)), int32_of_bounds (by omega) (by omega)]
    omega

theorem strtoi_bounds (s : CStr) : -2147483648 ≤ strtoi s ∧ strtoi s < 2147483648 := by
  rw [strtoi, strtoi_loop_eq]
  split <;> exact int32_bounds _

end hyperkv
