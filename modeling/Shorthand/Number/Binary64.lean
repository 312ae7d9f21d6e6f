/-!
# Double-precision numbers

A double-precision number as a sign, a mantissa and a power of two, and the number nearest to a
ratio or to a decimal.  Rounding is exact: only integers are computed with.
-/

namespace Shorthand.Number

/-- A double-precision number: `mantissa * 2 ^ exponent` with a sign, an infinity, or no number. -/
inductive Binary64 where
  | finite (negative : Bool) (mantissa : Nat) (exponent : Int)
  | infinite (negative : Bool)
  | nan
  deriving DecidableEq, Repr, Inhabited

/-- The quotient rounded to the nearest integer; of two as near, the even one. -/
def roundHalfEven (num den : Nat) : Nat :=
  let quotient := num / den
  let twice := 2 * (num % den)
  if twice < den then quotient
  else if den < twice then quotient + 1
  else quotient + quotient % 2

/-- A nonnegative power of `base`; negative exponents give 1. -/
def power (base : Nat) (exponent : Int) : Nat := Nat.pow base exponent.toNat

namespace Binary64

/-- The exponent of the numbers nearest to zero. -/
def leastExponent : Int := -1074

/-- The exponent of the largest numbers. -/
def greatestExponent : Int := 971

/-- The number of values a mantissa can take. -/
def mantissaBound : Nat := power 2 53

def zero (negative : Bool) : Binary64 := .finite negative 0 leastExponent

/-- A ratio of positive numbers in units of `2 ^ exponent`, rounded. -/
def scaledRatio (num den : Nat) (exponent : Int) : Nat :=
  roundHalfEven (num * power 2 (-exponent)) (den * power 2 exponent)

/-- The exponent at which a ratio has a mantissa of full length, or the least one. -/
def exponentOfRatio (num den : Nat) : Int :=
  let guess : Int := (Nat.log2 num : Int) - Nat.log2 den - 52
  let short := num * power 2 (-guess) < power 2 52 * (den * power 2 guess)
  max leastExponent (if short then guess - 1 else guess)

/-- The number nearest to `num / den`, where `den` is not zero. -/
def ofRatio (negative : Bool) (num den : Nat) : Binary64 :=
  if num = 0 then zero negative
  else
    let exponent := exponentOfRatio num den
    let mantissa := scaledRatio num den exponent
    let (mantissa, exponent) :=
      if mantissa = mantissaBound then (mantissaBound / 2, exponent + 1) else (mantissa, exponent)
    if greatestExponent < exponent then .infinite negative
    else .finite negative mantissa exponent

/-- The number nearest to `digits * 10 ^ scale`.  Decimals far outside the range are settled by
their size alone, so that no huge power of ten is formed. -/
def ofDecimal (negative : Bool) (digits : Nat) (scale : Int) : Binary64 :=
  if digits = 0 then zero negative
  else
    let size := (Nat.toDigits 10 digits).length + scale
    if 310 < size then .infinite negative
    else if size < -330 then zero negative
    else ofRatio negative (digits * power 10 scale) (power 10 (-scale))

def ofNat (n : Nat) : Binary64 := ofRatio false n 1

/-! ### Arithmetic -/

def neg : Binary64 → Binary64
  | .finite negative mantissa exponent => .finite (!negative) mantissa exponent
  | .infinite negative => .infinite (!negative)
  | .nan => .nan

/-- A finite number in units of `2 ^ unit`, which is not above its exponent. -/
def inUnits (negative : Bool) (mantissa : Nat) (exponent unit : Int) : Int :=
  let size : Int := (mantissa * power 2 (exponent - unit) : Nat)
  if negative then -size else size

def add : Binary64 → Binary64 → Binary64
  | .finite s m e, .finite t n f =>
    let unit := min e f
    let sum := inUnits s m e unit + inUnits t n f unit
    if sum = 0 then zero (s && t)
    else ofRatio (decide (sum < 0)) (sum.natAbs * power 2 unit) (power 2 (-unit))
  | .infinite s, .infinite t => if s = t then .infinite s else .nan
  | .infinite s, .finite _ _ _ => .infinite s
  | .finite _ _ _, .infinite t => .infinite t
  | .nan, _ => .nan
  | _, .nan => .nan

def mul : Binary64 → Binary64 → Binary64
  | .finite s m e, .finite t n f => ofRatio (s != t) (m * n * power 2 (e + f)) (power 2 (-(e + f)))
  | .infinite s, .infinite t => .infinite (s != t)
  | .infinite s, .finite t n _ => if n = 0 then .nan else .infinite (s != t)
  | .finite s m _, .infinite t => if m = 0 then .nan else .infinite (s != t)
  | .nan, _ => .nan
  | _, .nan => .nan

/-! ### Parts -/

def toInt? : Binary64 → Option Int
  | .finite negative mantissa exponent =>
    let unit := power 2 (-exponent)
    if mantissa % unit = 0 then
      let size : Int := ((mantissa / unit) * power 2 exponent : Nat)
      some (if negative then -size else size)
    else none
  | _ => none

def isZero : Binary64 → Bool
  | .finite _ 0 _ => true
  | _ => false

end Binary64

end Shorthand.Number
