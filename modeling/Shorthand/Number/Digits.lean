/-!
# Numbers from digits

The number that a row of digits spells out in some base.  The letters stand for the digits from ten
on, in either case.
-/

namespace Shorthand.Number

/-- What a hexadecimal digit is worth. -/
def digit? (c : Char) : Option Nat :=
  if '0' ≤ c && c ≤ '9' then some (c.toNat - '0'.toNat)
  else if 'a' ≤ c && c ≤ 'f' then some (c.toNat - 'a'.toNat + 10)
  else if 'A' ≤ c && c ≤ 'F' then some (c.toNat - 'A'.toNat + 10)
  else none

/-- The number that some digits spell out; another character counts as zero. -/
def ofDigits (base : Nat) (digits : List Char) : Nat :=
  digits.foldl (fun n c => n * base + (digit? c).getD 0) 0

/-- The number of decimal digits beyond which a written integer is refused. -/
def mostDigits : Nat := 4300

theorem ofDigits_concat (base : Nat) (digits : List Char) (c : Char) :
    ofDigits base (digits ++ [c]) = ofDigits base digits * base + (digit? c).getD 0 := by
  simp [ofDigits]

end Shorthand.Number
