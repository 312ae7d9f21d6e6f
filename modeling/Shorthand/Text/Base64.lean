/-!
# Bytes as text

Bytes in base 64: four digits stand for three bytes, and signs of equality fill up the last group.
Other characters between the digits do not count.
-/

namespace Shorthand.Text.Base64

/-- What a digit is worth. -/
def digit? (c : Char) : Option Nat :=
  if 'A' ≤ c && c ≤ 'Z' then some (c.toNat - 'A'.toNat)
  else if 'a' ≤ c && c ≤ 'z' then some (c.toNat - 'a'.toNat + 26)
  else if '0' ≤ c && c ≤ '9' then some (c.toNat - '0'.toNat + 52)
  else if c = '+' then some 62
  else if c = '/' then some 63
  else none

def digitChar (n : Nat) : Char :=
  if n < 26 then .ofNat (n + 'A'.toNat)
  else if n < 52 then .ofNat (n - 26 + 'a'.toNat)
  else if n < 62 then .ofNat (n - 52 + '0'.toNat)
  else if n = 62 then '+'
  else '/'

/-! ### Reading -/

/-- The bytes behind the first `read` digits of a group, of which `carry` is left, and some signs
that fill up.  A group that is filled up ends the text. -/
def decodeAfter (read carry fill : Nat) : List Char → Option (List UInt8)
  | [] => if read = 0 then some [] else none
  | c :: rest =>
    if c = '=' then
      if read < 2 then decodeAfter read carry fill rest
      else if 4 ≤ read + fill + 1 then some []
      else decodeAfter read carry (fill + 1) rest
    else
      match digit? c, read with
      | none, _ => decodeAfter read carry fill rest
      | some n, 0 => decodeAfter 1 n 0 rest
      | some n, 1 => (decodeAfter 2 (n % 16) 0 rest).map ((carry * 4 + n / 16).toUInt8 :: ·)
      | some n, 2 => (decodeAfter 3 (n % 4) 0 rest).map ((carry * 16 + n / 4).toUInt8 :: ·)
      | some n, _ => (decodeAfter 0 0 0 rest).map ((carry * 64 + n).toUInt8 :: ·)

/-- The bytes of a text, whose last group must be complete. -/
def decode (cs : List Char) : Option (List UInt8) := decodeAfter 0 0 0 cs

/-! ### Writing -/

def encode : List UInt8 → List Char
  | a :: b :: c :: rest =>
    let n := (a.toNat * 256 + b.toNat) * 256 + c.toNat
    [digitChar (n / 262144), digitChar (n / 4096 % 64), digitChar (n / 64 % 64), digitChar (n % 64)] ++ encode rest
  | [a, b] =>
    let n := a.toNat * 256 + b.toNat
    [digitChar (n / 1024), digitChar (n / 16 % 64), digitChar (n % 16 * 4), '=']
  | [a] => [digitChar (a.toNat / 4), digitChar (a.toNat % 4 * 16), '=', '=']
  | [] => []

end Shorthand.Text.Base64
