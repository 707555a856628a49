import Mathlib.NumberTheory.Bertrand
import Mathlib.NumberTheory.LucasLehmer
import HyperKV.Helper

namespace hyperkv

/-- From an odd `i` with no smaller divisor of `x` on, trial division by every
    second number decides whether anything up to the square root divides `x`. -/
private theorem is_prime_loop_spec {x : Nat} (hodd : ¬ 2 ∣ x) (steps : Nat) : ∀ i : Nat, 3 ≤ i → i % 2 = 1 →
    (∀ d, 2 ≤ d → d < i → ¬ d ∣ x) → x.sqrt < i + 2 * steps →
    (is_prime_loop x steps i = true ↔ ∀ d, 2 ≤ d → d ≤ x.sqrt → ¬ d ∣ x) := by
  induction steps with
  | zero =>
    intro i _ _ hbelow hsteps
    exact iff_of_true rfl (fun d hd hle => hbelow d hd (by omega))
  | succ steps ih =>
    intro i hthree hi hbelow hsteps
    rw [is_prime_loop]
    rcases Nat.lt_or_ge x.sqrt i with hlt | hle
    · rw [if_neg (by omega)]
      exact iff_of_true rfl (fun d hd hle => hbelow d hd (by omega))
    · rw [if_pos hle]
      by_cases hdvd : x % i = 0
      · rw [if_pos hdvd]
        exact iff_of_false Bool.false_ne_true
          (fun hnone => hnone i (by omega) hle (Nat.dvd_of_mod_eq_zero hdvd))
      · rw [if_neg hdvd]
        refine ih (i + 2) (by omega) (by omega) ?_ (by omega)
        intro d hd hlt hdx
        rcases Nat.lt_trichotomy d i with hdi | rfl | hid
        · exact hbelow d hd hdi hdx
        · exact hdvd (Nat.mod_eq_zero_of_dvd hdx)
        · -- the even number that the loop steps over
          exact hodd ((Nat.dvd_of_mod_eq_zero (by omega)).trans hdx)

theorem is_prime_spec (x : Int) : is_prime x = true ↔ x.toNat.Prime := by
  rw [is_prime]
  rcases lt_or_ge x 2 with hsmall | hlarge
  · rw [if_pos hsmall]
    refine iff_of_false Bool.false_ne_true (fun hprime => ?_)
    have htwo := hprime.two_le
    omega
  · rw [if_neg (by omega)]
    obtain ⟨n, rfl⟩ := Int.eq_ofNat_of_zero_le (show 0 ≤ x by omega)
    rw [Int.toNat_natCast]
    by_cases htwo : n = 2
    · subst htwo
      exact iff_of_true rfl Nat.prime_two
    · rw [if_neg (by omega), Int.tmod_eq_emod_of_nonneg (Int.natCast_nonneg n)]
      by_cases heven : (n : Int) % 2 = 0
      · rw [if_pos heven]
        refine iff_of_false Bool.false_ne_true (fun hprime => ?_)
        have hmod : n % 2 = 0 := by omega
        rcases hprime.eq_two_or_odd with h | h <;> omega
      · rw [if_neg heven]
        have hodd : ¬ 2 ∣ n := by omega
        rw [is_prime_loop_spec hodd n.sqrt 3 le_rfl rfl ?_ (by omega), Nat.prime_def_le_sqrt]
        · exact (and_iff_right (by omega)).symm
        · intro d hd hlt hdn
          have heq : d = 2 := by omega
          exact hodd (heq ▸ hdn)

/-- The search stops at the first prime it meets, if there is one in reach. -/
private theorem next_prime_loop_spec {p : Nat} (hp : p.Prime) (steps : Nat) : ∀ y : Int, y ≤ p →
    (p : Int) ≤ y + steps → (next_prime_loop steps y).toNat.Prime ∧ y ≤ next_prime_loop steps y ∧
      ∀ q : Nat, q.Prime → y ≤ q → next_prime_loop steps y ≤ q := by
  induction steps with
  | zero =>
    intro y hle hreach
    have heq : y = p := by omega
    subst heq
    exact ⟨hp, le_rfl, fun q _ hq => hq⟩
  | succ steps ih =>
    intro y hle hreach
    rw [next_prime_loop]
    by_cases hprime : is_prime y
    · rw [if_pos hprime]
      exact ⟨(is_prime_spec y).mp hprime, le_rfl, fun q _ hq => hq⟩
    · rw [if_neg hprime]
      have hskip : ∀ q : Nat, q.Prime → y ≤ q → y + 1 ≤ q := by
        intro q hq hyq
        rcases Int.lt_or_eq_of_le hyq with hlt | rfl
        · omega
        · exact absurd ((is_prime_spec q).mpr hq) hprime
      obtain ⟨hfound, hge, hleast⟩ := ih (y + 1) (hskip p hp hle) (by omega)
      exact ⟨hfound, by omega, fun q hq hyq => hleast q hq (hskip q hq hyq)⟩

/-- `next_prime` returns the least prime from `x` on: by Bertrand's postulate the
    search meets one before it has doubled `x`. -/
theorem next_prime_spec (x : Int) : (next_prime x).toNat.Prime ∧ x ≤ next_prime x ∧ 2 ≤ next_prime x ∧
    ∀ q : Nat, q.Prime → x ≤ q → next_prime x ≤ q := by
  rw [next_prime]
  rcases lt_or_ge x 2 with hsmall | hlarge
  · rw [if_pos hsmall]
    refine ⟨Nat.prime_two, by omega, le_rfl, fun q hq _ => ?_⟩
    have htwo := hq.two_le
    omega
  · rw [if_neg (by omega)]
    obtain ⟨p, hp, hlt, hle⟩ := Nat.exists_prime_lt_and_le_two_mul x.toNat (by omega)
    obtain ⟨hfound, hge, hleast⟩ := next_prime_loop_spec hp x.toNat x (by omega) (by omega)
    exact ⟨hfound, hge, by omega, hleast⟩

theorem int32_max_prime : Nat.Prime 2147483647 := by
  have h : (mersenne 31).Prime := lucas_lehmer_sufficiency _ (by norm_num) (by norm_num)
  exact h

/-- The largest `int` is a prime, so the search never leaves the `int`s. -/
theorem next_prime_le {x : Int} (h : x ≤ 2147483647) : next_prime x ≤ 2147483647 :=
  (next_prime_spec x).2.2.2 2147483647 int32_max_prime h

/-! ## Termination -/

/-- The trial division as the machine runs it, for at most so many turns: `none`
    when they run out, or when `i` leaves the `int`s. -/
def is_prime_turns (x : Nat) : Nat → Nat → Option Bool
  | 0, _ => none
  | turns + 1, i =>
    if i ≤ x.sqrt then
      if x % i = 0 then some false
      else if i + 2 ≤ 2147483647 then is_prime_turns x turns (i + 2)
      else none
    else some true

def is_prime_within (turns : Nat) (x : Int) : Option Bool :=
  if x < 2 then some false
  else if x = 2 then some true
  else if x.tmod 2 = 0 then some false
  else is_prime_turns x.toNat turns 3

/-- The search as the machine runs it: `none` when the turns of a loop run out,
    or when `y` leaves the `int`s. -/
def next_prime_turns (inner : Nat) : Nat → Int → Option Int
  | 0, _ => none
  | turns + 1, y => do
    if ← is_prime_within inner y then some y
    else if y + 1 ≤ 2147483647 then next_prime_turns inner turns (y + 1)
    else none

def next_prime_within (turns : Nat) (x : Int) : Option Int :=
  if x < 2 then some 2 else next_prime_turns turns turns x

/-- One turn for each divisor tried and one to leave; none of them is large. -/
private theorem is_prime_turns_eq {x : Nat} (hx : x ≤ 2147483647) (steps : Nat) : ∀ i turns : Nat,
    x.sqrt < i + 2 * steps → steps < turns → is_prime_turns x turns i = some (is_prime_loop x steps i) := by
  have hroot : x.sqrt * x.sqrt ≤ x := Nat.sqrt_le x
  have hsmall : x.sqrt ≤ 46340 := by
    by_contra hlarge
    have hle : 46341 * 46341 ≤ x.sqrt * x.sqrt := Nat.mul_le_mul (by omega) (by omega)
    omega
  induction steps with
  | zero =>
    intro i turns hend hturns
    obtain ⟨turns, rfl⟩ := Nat.exists_eq_succ_of_ne_zero (show turns ≠ 0 by omega)
    rw [is_prime_turns, if_neg (by omega), is_prime_loop]
  | succ steps ih =>
    intro i turns hend hturns
    obtain ⟨turns, rfl⟩ := Nat.exists_eq_succ_of_ne_zero (show turns ≠ 0 by omega)
    rw [is_prime_turns, is_prime_loop]
    by_cases hle : i ≤ x.sqrt
    · rw [if_pos hle, if_pos hle]
      by_cases hdvd : x % i = 0
      · rw [if_pos hdvd, if_pos hdvd]
      · rw [if_neg hdvd, if_neg hdvd, if_pos (by omega)]
        exact ih (i + 2) turns (by omega) (by omega)
    · rw [if_neg hle, if_neg hle]

theorem is_prime_within_eq {x : Int} (hx : x ≤ 2147483647) {turns : Nat} (hturns : x < turns) :
    is_prime_within turns x = some (is_prime x) := by
  unfold is_prime_within is_prime
  split
  · rfl
  split
  · rfl
  split
  · rfl
  have hsqrt : x.toNat.sqrt < x.toNat := Nat.sqrt_lt_self (by omega)
  exact is_prime_turns_eq (by omega) _ 3 turns (by omega) (by omega)

/-- The search for a prime in reach makes the turns of the model, one by one. -/
private theorem next_prime_turns_eq {p : Nat} (hp : p.Prime) (hmax : p ≤ 2147483647) {inner : Nat}
    (hinner : p < inner) (steps : Nat) : ∀ (y : Int) (turns : Nat), y ≤ p → (p : Int) ≤ y + steps →
    steps < turns → next_prime_turns inner turns y = some (next_prime_loop steps y) := by
  induction steps with
  | zero =>
    intro y turns hle hreach hturns
    obtain ⟨turns, rfl⟩ := Nat.exists_eq_succ_of_ne_zero (show turns ≠ 0 by omega)
    have heq : y = p := by omega
    subst heq
    rw [next_prime_turns, is_prime_within_eq (by omega) (by omega), (is_prime_spec p).mpr hp]
    rfl
  | succ steps ih =>
    intro y turns hle hreach hturns
    obtain ⟨turns, rfl⟩ := Nat.exists_eq_succ_of_ne_zero (show turns ≠ 0 by omega)
    rw [next_prime_turns, is_prime_within_eq (by omega) (by omega), next_prime_loop, Option.bind_eq_bind,
      Option.bind_some]
    by_cases hprime : is_prime y
    · rw [if_pos hprime, if_pos hprime]
    · have hlt : y < p := by
        rcases Int.lt_or_eq_of_le hle with hlt | rfl
        · exact hlt
        · exact absurd ((is_prime_spec p).mpr hp) hprime
      rw [if_neg hprime, if_neg hprime, if_pos (by omega)]
      exact ih (y + 1) turns (by omega) (by omega) (by omega)

/-- On every `int` the loops come to their end, no counter leaves the `int`s, and
    the answer is the least prime from `max x 2` on. -/
theorem next_prime_total {x : Int} (hhigh : x ≤ 2147483647) :
    (∃ enough, ∀ turns, enough ≤ turns → next_prime_within turns x = some (next_prime x)) ∧
      (next_prime x).toNat.Prime ∧ max x 2 ≤ next_prime x ∧ next_prime x ≤ 2147483647 ∧
      ∀ q : Nat, q.Prime → max x 2 ≤ q → next_prime x ≤ q := by
  obtain ⟨hprime, hge, htwo, hleast⟩ := next_prime_spec x
  have hle := next_prime_le hhigh
  refine ⟨⟨2147483648, fun turns hturns => ?_⟩, hprime, by omega, hle, fun q hq hmax => hleast q hq (by omega)⟩
  unfold next_prime_within
  split
  · rename_i hsmall
    rw [next_prime, if_pos hsmall]
  · rename_i hlarge
    have hcast : ((next_prime x).toNat : Int) = next_prime x := by omega
    -- Bertrand's postulate keeps the answer below twice `x`
    obtain ⟨p, hp, hlt, hdouble⟩ := Nat.exists_prime_lt_and_le_two_mul x.toNat (by omega)
    have hreach := hleast p hp (by omega)
    rw [next_prime_turns_eq hprime (by omega) (by omega) x.toNat x turns (by omega) (by omega) (by omega),
      next_prime, if_neg hlarge]

/-- From the last gap between primes that an `int` reaches. -/
theorem next_prime_total_last :
    (∃ enough, ∀ turns, enough ≤ turns → next_prime_within turns 2147483630 = some (next_prime 2147483630)) ∧
      (next_prime 2147483630).toNat.Prime ∧ max 2147483630 2 ≤ next_prime 2147483630 ∧
      next_prime 2147483630 ≤ 2147483647 ∧
      ∀ q : Nat, q.Prime → max 2147483630 2 ≤ (q : Int) → next_prime 2147483630 ≤ q :=
  next_prime_total (by decide)

end hyperkv
