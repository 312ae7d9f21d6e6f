/-!
# Padded integers

An integer in decimal, filled with zeros to a least width.  The sign comes before the zeros and
counts to the width.
-/

namespace Shorthand.Number

/-- Zeros in front of some digits, so that there are at least `width` of them. -/
def padZeros (width : Nat) (digits : List Char) : List Char :=
  .replicate (width - digits.length) '0' ++ digits

/-- The decimal digits of a number, with zeros in front up to `width`. -/
def paddedNat (width : Nat) (n : Nat) : List Char := padZeros width (Nat.toDigits 10 n)

def padded (width : Nat) : Int → String
  | .ofNat n => .ofList (paddedNat width n)
  | .negSucc n => .ofList ('-' :: paddedNat (width - 1) (n + 1))

end Shorthand.Number
