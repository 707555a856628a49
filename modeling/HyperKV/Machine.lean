import Mathlib.Data.Nat.Digits.Defs

namespace hyperkv

/-- The value a 32-bit `int` keeps of a mathematical result. -/
def int32 (x : Int) : Int := x.bmod (2 ^ 32)

theorem int32_of_bounds {x : Int} (hlow : -2147483648 ≤ x) (hhigh : x < 2147483648) : int32 x = x := by
  rw [int32, Int.bmod_def]
  split <;> omega

theorem int32_bounds (x : Int) : -2147483648 ≤ int32 x ∧ int32 x < 2147483648 := by
  rw [int32, Int.bmod_def]
  split <;> omega

theorem int32_le {x : Int} (h : 0 ≤ x) : int32 x ≤ x := by
  rw [int32, Int.bmod_def]
  split <;> omega

/-- How the results of `int` operations are taken: exactly, or as a 32-bit
    machine keeps them. -/
inductive IntArith where
  | exact
  | int32
  deriving DecidableEq, Repr

def IntArith.reduce : IntArith → Int → Int
  | .exact, x => x
  | .int32, x => hyperkv.int32 x

/-- A character of a C string: any byte but the terminating NUL. -/
abbrev CChar := { b : UInt8 // b ≠ 0 }

/-- A C string, without its terminator. -/
abbrev CStr := List CChar

namespace CChar

def ofChar? (c : Char) : Option CChar :=
  if h : c.toNat.toUInt8 ≠ 0 then some ⟨c.toNat.toUInt8, h⟩ else none

/-- The value of a `char` promoted to `int`: `char` is signed. -/
def toInt (c : CChar) : Int := if c.val < 128 then c.val.toNat else c.val.toNat - 256

/-- The promoted value converted to `unsigned long`. -/
def toULong (c : CChar) : UInt64 := c.val.toUInt64 - (if c.val < 128 then 0 else 256)

def minus : CChar := ⟨45, by decide⟩

def isdigit (c : CChar) : Bool := 48 ≤ c.val && c.val ≤ 57

end CChar

/-- The bytes up to the first NUL. -/
def c_text : List UInt8 → CStr
  | [] => []
  | b :: bytes => if h : b ≠ 0 then ⟨b, h⟩ :: c_text bytes else []

theorem length_c_text_le (bytes : List UInt8) : (c_text bytes).length ≤ bytes.length := by
  induction bytes with
  | nil => exact Nat.le_refl 0
  | cons b bytes ih =>
    unfold c_text
    split
    · exact Nat.succ_le_succ ih
    · exact Nat.zero_le _

/-- The bytes of an `int` in memory, the least significant first. -/
def int_bytes (x : Int) : List UInt8 :=
  (List.range 4).map fun i => UInt8.ofNat (x / 256 ^ i % 256).toNat

/-- The literals of the source, all of them ASCII. -/
def cstr (s : String) : CStr := s.toList.filterMap CChar.ofChar?

/-- `strlen`, converted to the `int` that every caller stores it in. -/
def strlen (s : CStr) : Int := int32 s.length

def digitChar (d : Nat) : CChar := ⟨UInt8.ofNat (48 + d % 10), by
  intro h
  have h' := congrArg UInt8.toNat h
  simp only [UInt8.toNat_ofNat'] at h'
  have : (48 + d % 10) % 2 ^ 8 = 48 + d % 10 := Nat.mod_eq_of_lt (by omega)
  rw [this] at h'
  exact absurd h' (by simp)⟩

/-- The decimal digits of a natural number, most significant first. -/
def decimalNat (n : Nat) : CStr :=
  if n = 0 then [digitChar 0] else (Nat.digits 10 n).reverse.map digitChar

/-- The text that `printf` writes for `%d`. -/
def decimal (x : Int) : CStr :=
  if x < 0 then CChar.minus :: decimalNat x.natAbs else decimalNat x.natAbs

example : decimal (-120) = cstr "-120" := by decide

end hyperkv
