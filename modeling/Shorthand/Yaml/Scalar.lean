import Shorthand.Number.Spelled
import Shorthand.Text.Base64
import Shorthand.Value
import Shorthand.Yaml.Cursor
import Shorthand.Yaml.Implicit

/-!
# Values of scalars

What a scalar of each kind stands for.  Underscores in numbers are there for the reader alone, and
a number with colons is written in base sixty.
-/

namespace Shorthand.Yaml.Scalar

open Number (Binary64)

/-- Something that exists, or no value. -/
def existing (x? : Option α) : Except NoValue α :=
  match x? with
  | some x => .ok x
  | none => .error .absent

/-- The digits and marks of a number: nothing but underscores is left out. -/
def marks (text : String) : List Char := text.toList.filter fun c => c ≠ '_'

/-! ### Integers -/

/-- A number in base sixty. -/
def ofSixtieths (parts : List Int) : Int := parts.foldl (fun n part => n * 60 + part) 0

/-- An integer behind its sign: binary, hexadecimal, octal behind a zero, in base sixty, or decimal. -/
def magnitude (cs : List Char) : Except NoValue Int :=
  match cs with
  | [] => .error .emptyNumber
  | ['0'] => .ok 0
  | '0' :: 'b' :: digits => existing (Number.int? 2 digits)
  | '0' :: 'x' :: digits => existing (Number.int? 16 digits)
  | '0' :: digits => existing (Number.int? 8 ('0' :: digits))
  | cs => do pure (ofSixtieths (← (Implicit.colonParts cs).mapM fun part => existing (Number.int? 10 part)))

def int (text : String) : Except NoValue Value := do
  let (negative, cs) := Number.signed (marks text)
  let size ← magnitude cs
  pure (.int (if negative then -size else size))

/-! ### Numbers with a point -/

/-- The sum of some digits, each in units of its power of sixty, the lowest first. -/
def sumOfSixtieths (sum : Binary64) (unit : Nat) : List Binary64 → Except NoValue Binary64
  | [] => .ok sum
  | digit :: rest =>
    match Binary64.ofNat unit with
    | .infinite _ => .error .outOfRange
    | x => sumOfSixtieths (sum.add (digit.mul x)) (unit * 60) rest

/-- A number with a point behind its sign.  The parts of a number in base sixty are rounded one by
one. -/
def float (text : String) : Except NoValue Value := do
  let cs := (marks text).map Char.toLower
  if cs.isEmpty then throw .emptyNumber
  let (negative, cs) := Number.signed cs
  let size ←
    if cs = ".inf".toList then pure (Binary64.infinite false)
    else if cs = ".nan".toList then pure Binary64.nan
    else
      match ← (Implicit.colonParts cs).mapM fun part => existing (Number.float? part) with
      | [x] => pure x
      | parts => sumOfSixtieths (.zero false) 1 parts.reverse
  pure (.float (if negative then size.neg else size))

/-! ### All kinds -/

/-- A truth value; its case does not matter. -/
def bool (text : String) : Except NoValue Value :=
  let word : String := .ofList (text.toList.map Char.toLower)
  if Implicit.trueWords.contains word then .ok (.bool true)
  else if Implicit.falseWords.contains word then .ok (.bool false)
  else .error .unknownWord

/-- A day that exists.  A line feed at its end does not count. -/
def moment (text : String) : Except NoValue Value :=
  match Implicit.moment? (Implicit.withoutLineEnd text.toList) with
  | some m => if m.isValid then .ok (.moment m) else .error .absent
  | none => .error .shapeless

/-- Bytes in base 64. -/
def bytes (text : String) : Except Refusal Value :=
  if !text.toList.all (fun c => c.toNat < 0x80) then .error .malformed
  else
    match Text.Base64.decode text.toList with
    | some bs => .ok (.bytes bs)
    | none => .error .malformed

def value (tag : Tag) (text : String) : Except Refusal Value :=
  match tag with
  | .null => .ok .null
  | .bool => (bool text).mapError .noValue
  | .int => (int text).mapError .noValue
  | .float => (float text).mapError .noValue
  | .moment => (moment text).mapError .noValue
  | .text => .ok (.string text)
  | .bytes => bytes text
  | .list | .pairs | .map | .set | .merge | .default | .other _ => .error .malformed

end Shorthand.Yaml.Scalar
