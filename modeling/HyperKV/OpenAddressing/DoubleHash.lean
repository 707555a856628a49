import Mathlib.Data.Nat.ModEq
import Mathlib.Data.Set.Finite.Basic
import HyperKV.OpenAddressing.Lands

open Outcome

namespace OpenAddressing

/-- Attempt `i` of double hashing in a table of `n` slots. -/
def doubleHash (start step n i : Nat) : Nat := (start + i * step) % n

theorem doubleHash_injOn {start step n : Nat} (h : n.Coprime step) :
    Set.InjOn (doubleHash start step n) (Set.Iio n) := by
  intro i hi j hj heq
  have hmod : start + i * step ≡ start + j * step [MOD n] := heq
  have hcancel : i ≡ j [MOD n] := Nat.ModEq.cancel_right_of_coprime h hmod.add_left_cancel'
  exact hcancel.eq_of_lt_of_lt hi hj

/-- With a common divisor `d` of both, attempt `n / d` is back at the start. -/
theorem doubleHash_returns {start step n d : Nat} (hn : d ∣ n) (hstep : d ∣ step) :
    doubleHash start step n (n / d) = doubleHash start step n 0 := by
  obtain ⟨k, rfl⟩ := hstep
  have hround : n / d * (d * k) = n * k := by rw [← Nat.mul_assoc, Nat.div_mul_cancel hn]
  rw [doubleHash, doubleHash, hround, Nat.zero_mul, Nat.add_mul_mod_self_left, Nat.add_zero]

/-- Double hashing visits every slot once exactly when the step is prime to the
    number of slots. -/
theorem doubleHash_bijOn_iff (start : Nat) {step n : Nat} (hn : 0 < n) :
    Set.BijOn (doubleHash start step n) (Set.Iio n) (Set.Iio n) ↔ n.Coprime step := by
  have hmaps : Set.MapsTo (doubleHash start step n) (Set.Iio n) (Set.Iio n) := fun i _ => Nat.mod_lt _ hn
  have hfinite : (Set.Iio n).Finite := Set.finite_lt_nat n
  rw [← hfinite.injOn_iff_bijOn_of_mapsTo hmaps]
  refine ⟨fun hinj => ?_, doubleHash_injOn⟩
  by_contra hcommon
  have hpos : 0 < n.gcd step := Nat.gcd_pos_of_pos_left step hn
  have hone : 1 < n.gcd step := by
    rw [Nat.coprime_iff_gcd_eq_one] at hcommon
    omega
  have hback := hinj (show n / n.gcd step ∈ Set.Iio n from Nat.div_lt_self hn hone) (show 0 ∈ Set.Iio n from hn)
    (doubleHash_returns (Nat.gcd_dvd_left n step) (Nat.gcd_dvd_right n step))
  have hquotient := Nat.div_pos (Nat.le_of_dvd hn (Nat.gcd_dvd_left n step)) hpos
  omega

namespace Scheme

variable {K α : Type} {S : Scheme K α} {overflow : Prop} {Sized : Nat → Prop} {t : Table α}

/-- The probe path of `k` visits every one of `n` slots. -/
def Covers (S : Scheme K α) (k : K) (n : Nat) : Prop := ∀ p < n, ∃ i < n, S.path k n i = p

/-- On a path that visits every slot, an insertion loop does not pass a free
    one: it takes a slot, unless it stops at an equal item. -/
theorem Covers.findSpot [DecidableEq K] {k : K} (hcovers : S.Covers k t.size) (hS : S.Lawful overflow Sized)
    (hfree : ∃ s ∈ t.slots, s.isFree) :
    Ensures (Overflows overflow) (S.findSpot t k) (fun r =>
      (∃ p, r = some (.free p) ∧ S.TakesSlot t k p) ∨
        r = some .equal ∧ S.checks ∧ ∃ x ∈ t.items, S.key x = k) := by
  apply (findSpot_ensures hS t k).mono
  intro r hr
  cases r with
  | none =>
    obtain ⟨s, hmem, hs⟩ := hfree
    obtain ⟨p, hslot⟩ := List.mem_iff_getElem?.mp hmem
    have hp : p < t.size := (List.getElem?_eq_some_iff.mp hslot).1
    obtain ⟨i, hi, hpath⟩ := hcovers p hp
    -- the attempt that looks at the free slot would have had to see a live item
    obtain ⟨q, y, hat, _⟩ := hr i hi
    rw [slotAt_eq_some.mpr ⟨hpath, hslot⟩] at hat
    cases hat
    cases hs
  | some spot =>
    cases spot with
    | free p => exact Or.inl ⟨p, rfl, hr⟩
    | equal => exact Or.inr ⟨rfl, hr⟩

end Scheme

end OpenAddressing
