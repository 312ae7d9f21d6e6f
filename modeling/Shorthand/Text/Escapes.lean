/-!
# Terminal escapes

The sequences of characters that set colours and move the cursor of a terminal.  Text that is
printed elsewhere does not have them.
-/

namespace Shorthand.Text

def escapeMark : Char := '\x1b'

def isEscapeDigit (c : Char) : Bool := c.isDigit || c = ';' || c = '?'

/-- The number of characters of a sequence behind its mark: a bracket, digits and a letter. -/
def escapeLength? : List Char → Option Nat
  | '[' :: rest =>
    let digits := rest.takeWhile isEscapeDigit
    match rest.drop digits.length with
    | c :: _ => if c.isAlpha then some (digits.length + 2) else none
    | [] => none
  | _ => none

/-- Text without escapes, of which the first `skip` characters belong to one. -/
def dropEscapes (skip : Nat) : List Char → List Char
  | [] => []
  | c :: rest =>
    if 0 < skip then dropEscapes (skip - 1) rest
    else if c = escapeMark then
      match escapeLength? rest with
      | some n => dropEscapes n rest
      | none => c :: dropEscapes 0 rest
    else c :: dropEscapes 0 rest

def withoutEscapes (s : String) : String := .ofList (dropEscapes 0 s.toList)

end Shorthand.Text
