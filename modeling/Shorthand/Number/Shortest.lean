import Shorthand.Number.Binary64

/-!
# Shortest decimals

The text of a double-precision number: the fewest digits that read back as the number, and of
those the nearest to it.  Positional notation is used from `0.0001` up to below `10 ^ 16`.
-/

namespace Shorthand.Number

/-- The number `digits * 10 ^ scale`. -/
structure Decimal where
  digits : Nat
  scale : Int
  deriving DecidableEq, Repr

namespace Binary64

/-- The numbers that round to `mantissa * 2 ^ exponent` lie from `low` to `high`, both in quarters
of `2 ^ exponent`.  The gap below a power of two is half as wide. -/
def lowQuarters (mantissa : Nat) (exponent : Int) : Nat :=
  if mantissa = mantissaBound / 2 ∧ leastExponent < exponent then 4 * mantissa - 1
  else 4 * mantissa - 2

def highQuarters (mantissa : Nat) : Nat := 4 * mantissa + 2

/-- Quarters of `2 ^ exponent` and multiples of `10 ^ scale` in one unit of measure. -/
def quartersInUnit (exponent scale : Int) (quarters : Nat) : Nat :=
  quarters * power 2 (exponent - 2) * power 10 (-scale)

def decimalInUnit (exponent scale : Int) (digits : Nat) : Nat :=
  digits * power 10 scale * power 2 (2 - exponent)

def readsBack (mantissa : Nat) (exponent scale : Int) (digits : Nat) : Bool :=
  let low := quartersInUnit exponent scale (lowQuarters mantissa exponent)
  let high := quartersInUnit exponent scale (highQuarters mantissa)
  let point := decimalInUnit exponent scale digits
  if mantissa % 2 = 0 then low ≤ point && point ≤ high else low < point && point < high

def leadingPower (mantissa : Nat) (exponent : Int) : Int :=
  let num := mantissa * power 2 exponent
  let den := power 2 (-exponent)
  if den ≤ num then ((Nat.toDigits 10 (num / den)).length : Int) - 1
  else -((Nat.toDigits 10 ((den - 1) / num)).length : Int)

/-- A decimal of the grid `10 ^ scale` that reads back: of the two neighbours of the number the
nearer one, and of two as near the even one. -/
def onGrid? (mantissa : Nat) (exponent scale : Int) : Option Nat :=
  let value := quartersInUnit exponent scale (4 * mantissa)
  let unit := decimalInUnit exponent scale 1
  let below := value / unit
  let above := below + 1
  match readsBack mantissa exponent scale below, readsBack mantissa exponent scale above with
  | false, false => none
  | true, false => some below
  | false, true => some above
  | true, true =>
    let twice := 2 * (value % unit)
    if twice < unit then some below
    else if unit < twice then some above
    else some (below + below % 2)

/-- The first grid, from one digit to seventeen, that has a decimal which reads back. -/
def shortest (mantissa : Nat) (exponent : Int) : Decimal :=
  let lead := leadingPower mantissa exponent
  let found := (List.range 17).findSome? fun (n : Nat) =>
    (onGrid? mantissa exponent (lead - n)).map fun digits => Decimal.mk digits (lead - n)
  found.getD ⟨mantissa, exponent⟩

end Binary64

/-! ### Layout -/

def dropTrailingZeros (digits : List Char) : List Char :=
  (digits.reverse.dropWhile (· = '0')).reverse

def exponentText (exponent : Int) : List Char :=
  let digits := Nat.toDigits 10 exponent.natAbs
  (if exponent < 0 then '-' else '+') :: (List.replicate (2 - digits.length) '0' ++ digits)

/-- Digits with a decimal point after the first `point` of them; at least one digit stands on
each side. -/
def positional (digits : List Char) (point : Int) : List Char :=
  let whole := digits.take point.toNat ++ List.replicate (point.toNat - digits.length) '0'
  let rest := List.replicate (-point).toNat '0' ++ digits.drop point.toNat
  (if whole.isEmpty then ['0'] else whole) ++ '.' :: (if rest.isEmpty then ['0'] else rest)

/-- One digit, the others after a point, and the power of ten. -/
def scientific (digits : List Char) (exponent : Int) : List Char :=
  digits.take 1 ++ (if digits.length ≤ 1 then [] else '.' :: digits.drop 1) ++
    'e' :: exponentText exponent

def Decimal.text (d : Decimal) : List Char :=
  let all := Nat.toDigits 10 d.digits
  let point := (all.length : Int) + d.scale
  let digits := dropTrailingZeros all
  if -4 < point ∧ point ≤ 16 then positional digits point else scientific digits (point - 1)

def Binary64.text : Binary64 → String
  | .nan => "nan"
  | .infinite negative => if negative then "-inf" else "inf"
  | .finite negative mantissa exponent =>
    let size := if mantissa = 0 then "0.0" else .ofList (shortest mantissa exponent).text
    if negative then "-" ++ size else size

end Shorthand.Number
