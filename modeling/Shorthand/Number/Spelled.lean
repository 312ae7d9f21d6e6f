import Shorthand.Number.Binary64
import Shorthand.Number.Digits
import Shorthand.Text.Blank
import Shorthand.Text.Digit

/-!
# Numbers as they are spelled

The number that a text spells out: with blanks around it, with a sign, and with the digits of any
script.  Main definitions: `Number.int?` for integers in a base, and `Number.float?` for
double-precision numbers.
-/

namespace Shorthand.Number

/-! ### Around the digits -/

/-- A blank beyond ASCII counts as a space, and a digit as the digit of ASCII. -/
def plainChar (c : Char) : Char :=
  if c.toNat < 0x7F then c
  else if Text.isBlank c then ' '
  else
    match Text.digit? c with
    | some n => Nat.digitChar n
    | none => c

/-- The blanks of ASCII. -/
def isSpace (c : Char) : Bool := c = ' ' || (0x09 ≤ c.toNat && c.toNat ≤ 0x0D)

/-- A number without the blanks around it, its digits those of ASCII. -/
def bare (cs : List Char) : List Char :=
  (((cs.map plainChar).dropWhile isSpace).reverse.dropWhile isSpace).reverse

/-- Is a number negative, and what follows its sign? -/
def signed : List Char → Bool × List Char
  | '-' :: rest => (true, rest)
  | '+' :: rest => (false, rest)
  | rest => (false, rest)

def withSign (negative : Bool) (size : Nat) : Int := if negative then -(size : Int) else size

/-! ### Integers -/

/-- The letter that marks the digits of a base. -/
def baseMark? : Nat → Option Char
  | 2 => some 'b'
  | 8 => some 'o'
  | 16 => some 'x'
  | _ => none

/-- Digits without the mark of their base, which may be there or not. -/
def withoutMark (base : Nat) : List Char → List Char
  | '0' :: c :: rest => if baseMark? base = some c.toLower then rest else '0' :: c :: rest
  | cs => cs

/-- At least one digit of a base, and not too many decimal ones. -/
def whole? (base : Nat) (digits : List Char) : Option Nat :=
  if digits.isEmpty || !digits.all (fun c => (digit? c).any (· < base)) then none
  else if base = 10 && mostDigits < digits.length then none
  else some (ofDigits base digits)

/-- The integer that a text spells out in a base. -/
def int? (base : Nat) (cs : List Char) : Option Int :=
  let (negative, rest) := signed (bare cs)
  (whole? base (withoutMark base rest)).map (withSign negative)

/-! ### Numbers with a point -/

/-- The digits before and behind a point, and what follows them. -/
def pointed (cs : List Char) : List Char × List Char × List Char :=
  let (digits, rest) := cs.span Char.isDigit
  match rest with
  | '.' :: rest =>
    let (decimals, rest) := rest.span Char.isDigit
    (digits, decimals, rest)
  | rest => (digits, [], rest)

def exponent? : List Char → Option Int
  | [] => some 0
  | c :: rest =>
    let (negative, digits) := signed rest
    if c.toLower ≠ 'e' || digits.isEmpty || !digits.all Char.isDigit then none
    else some (withSign negative (ofDigits 10 digits))

def decimal? (negative : Bool) (cs : List Char) : Option Binary64 :=
  let (digits, decimals, rest) := pointed cs
  if (digits ++ decimals).isEmpty then none
  else
    (exponent? rest).map fun exponent =>
      Binary64.ofDecimal negative (ofDigits 10 (digits ++ decimals)) (exponent - decimals.length)

def infinityWords : List String := ["inf", "infinity"]

def nanWord : String := "nan"

def float? (cs : List Char) : Option Binary64 :=
  let (negative, rest) := signed (bare cs)
  let word : String := .ofList (rest.map Char.toLower)
  if infinityWords.contains word then some (.infinite negative)
  else if word = nanWord then some .nan
  else decimal? negative rest

end Shorthand.Number
