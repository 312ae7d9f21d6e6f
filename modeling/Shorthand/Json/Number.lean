import Shorthand.Number.Digits
import Shorthand.Value

/-!
# Numbers and words of JSON

A number is an integer as long as it has neither a fraction nor an exponent.
-/

namespace Shorthand.Json

open Number (Binary64 mostDigits ofDigits)

/-- Digits without a zero in front that stands for nothing. -/
def isWhole : List Char → Bool
  | [] => false
  | ['0'] => true
  | c :: _ => c ≠ '0'

/-- The digits after a point, with the rest of a number. -/
def fraction? : List Char → Option (List Char × List Char)
  | '.' :: rest =>
    let (digits, rest) := rest.span Char.isDigit
    if digits.isEmpty then none else some (digits, rest)
  | rest => some ([], rest)

def exponent? : List Char → Option Int
  | [] => some 0
  | e :: rest =>
    if e = 'e' || e = 'E' then
      let (negative, digits) := match rest with
        | '-' :: ds => (true, ds)
        | '+' :: ds => (false, ds)
        | ds => (false, ds)
      if digits.isEmpty || !digits.all Char.isDigit then none
      else
        let size : Int := ofDigits 10 digits
        some (if negative then -size else size)
    else none

def unsigned? (negative : Bool) (cs : List Char) : Option Value :=
  let (whole, rest) := cs.span Char.isDigit
  if !isWhole whole then none
  else if rest.isEmpty then
    if mostDigits < whole.length then none
    else
      let size : Int := ofDigits 10 whole
      some (.int (if negative then -size else size))
  else do
    let (digits, rest) ← fraction? rest
    let exponent ← exponent? rest
    let digits' := whole ++ digits
    pure (.float (Binary64.ofDecimal negative (ofDigits 10 digits') (exponent - digits.length)))

def number? : List Char → Option Value
  | '-' :: rest => unsigned? true rest
  | cs => unsigned? false cs

def wordValue? (w : List Char) : Option Value :=
  if w = "null".toList then some .null
  else if w = "true".toList then some (.bool true)
  else if w = "false".toList then some (.bool false)
  else if w = "NaN".toList then some (.float .nan)
  else if w = "Infinity".toList then some (.float (.infinite false))
  else if w = "-Infinity".toList then some (.float (.infinite true))
  else number? w

end Shorthand.Json
