import Mathlib.Data.Nat.Sqrt
import HyperKV.Types

namespace hyperkv

/-- Asking for an `int` number of bytes. A negative number is close to 2^64 as a
    `size_t`: the allocation fails and the program ends. -/
def dmalloc (size : Int) : Option Unit := if 0 ≤ size then some () else none

/-- Trial division by `i`, `i + 2`, ... up to the square root, which the source
    takes as `floor(sqrt((double)x))`. -/
def is_prime_loop (x : Nat) : Nat → Nat → Bool
  | 0, _ => true
  | steps + 1, i =>
    if i ≤ x.sqrt then
      if x % i = 0 then false else is_prime_loop x steps (i + 2)
    else true

def is_prime (x : Int) : Bool :=
  if x < 2 then false
  else if x = 2 then true
  else if x.tmod 2 = 0 then false
  else is_prime_loop x.toNat x.toNat.sqrt 3

def next_prime_loop : Nat → Int → Int
  | 0, y => y
  | steps + 1, y => if is_prime y then y else next_prime_loop steps (y + 1)

/-- The search upwards from `x`; a prime is met within `x` steps. -/
def next_prime (x : Int) : Int :=
  if x < 2 then 2 else next_prime_loop x.toNat x

/-- Both hashes run in `unsigned long` and are reduced modulo the table size. -/
def djb2_loop (hash : UInt64) (str : CStr) : UInt64 :=
  str.foldl (fun hash c => ((hash <<< 5) + hash) + c.toULong) hash

def djb2 (str : CStr) (size : Nat) : Int := (djb2_loop 5381 str).toNat % size

def sdbm_loop (hash : UInt64) (str : CStr) : UInt64 :=
  str.foldl (fun hash c => c.toULong + (hash <<< 6) + (hash <<< 16) - hash) hash

def sdbm (str : CStr) (size : Nat) : Int := (sdbm_loop 0 str).toNat % size

/-- The slot that attempt `i` of a probe looks at. -/
def hash_func (mc : Machine) (key : CStr) (size i : Nat) : Int :=
  let hash := djb2 key size
  let res := if i = 0 then hash else mc.index.reduce (hash + mc.index.reduce (i * sdbm key size))
  res.tmod size

/-- The loop of `ndigits`; a tenth of `n` is always less than `n`. -/
def ndigits_loop : Nat → Int → Int → Int
  | 0, _, res => res
  | steps + 1, n, res => if n > 0 then ndigits_loop steps (n.tdiv 10) (res + 1) else res

def ndigits (x : Int) : Int :=
  let n := if x < 0 then int32 (x * -1) else x
  ndigits_loop n.toNat n 0

/-- The characters that the digit loops of `is_number` and `strtoi` visit: up
    to `strlen`, after a leading minus sign. -/
def digits_of (str : CStr) : CStr :=
  (str.take (strlen str).toNat).drop (if str.head? = some CChar.minus then 1 else 0)

def is_number (str : CStr) : Bool := (digits_of str).all CChar.isdigit

def strtoi_loop (res : Int) (digits : CStr) : Int :=
  digits.foldl (fun res c => int32 (int32 (res * 10) + (c.toInt - 48))) res

def strtoi (str : CStr) : Int :=
  let res := strtoi_loop 0 (digits_of str)
  if str.head? = some CChar.minus then int32 (res * -1) else res

def intostr (x : Int) : CStr := decimal x

example : (strtoi (cstr "-0120"), is_number (cstr "12a")) = (-120, false) := by decide

example : hash_func machine (cstr "ab") 5 1 = 4 := by decide

end hyperkv
