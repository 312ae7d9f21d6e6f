import Shorthand.Diagnostic
import Shorthand.Position

/-!
# Faults of a document

What can be wrong with a document, and values that are read together with the faults found on
the way.
-/

namespace Shorthand

namespace Fault

/-- A rule of the document format that is broken. -/
inductive Cause where
  | versionMissing
  | abbreviationNotText
  | treeMissing
  | groupElementsMissing
  | statementNotMap
  | statementEndless
  | unknownStatement
  | attributesNotList
  | elementsNotList
  | selfCloseNotBool
  | attributeNotMap
  | repeatNotMap
  | countNotInt
  | countNegative (count : Int)
  | valueNotInt
  | implicitNotBool
  | tokensNotList
  | tokenNotMap
  | unknownToken
  | literalMissing
  | fieldIndexNotInt
  | fieldNameNotText
  | variableMissing
  | singleNotBool
  | unknownContext
  | openMissing
  | sizeNotPositive
  | reverseNotBool
  | baseNotInt
  | parentNegative
  deriving DecidableEq, Repr

namespace Cause

def code : Cause → String
  | .versionMissing | .treeMissing | .groupElementsMissing | .literalMissing | .variableMissing
  | .openMissing => "E_REQUIRED_FIELD"
  | .unknownStatement | .unknownToken | .unknownContext => "E_INVALID_ENUM"
  | .countNegative _ => "E_INVALID_REPEAT_COUNT"
  | .abbreviationNotText | .statementNotMap | .statementEndless | .attributesNotList | .elementsNotList
  | .selfCloseNotBool | .attributeNotMap | .repeatNotMap | .countNotInt | .valueNotInt
  | .implicitNotBool | .tokensNotList | .tokenNotMap | .fieldIndexNotInt | .fieldNameNotText
  | .singleNotBool | .sizeNotPositive | .reverseNotBool | .baseNotInt | .parentNegative =>
    "E_INVALID_TYPE"

def message : Cause → String
  | .versionMissing => "schema_version is required and must be a non-empty string"
  | .abbreviationNotText => "abbreviation must be a string"
  | .treeMissing => "tree is required and must be an object"
  | .groupElementsMissing => "elements is required and must be an array"
  | .statementNotMap => "statement must be an object"
  | .statementEndless => "statement must have an end"
  | .unknownStatement => "type must be one of ['element', 'group']"
  | .attributesNotList => "attributes must be an array"
  | .elementsNotList => "elements must be an array"
  | .selfCloseNotBool => "self_close must be a boolean"
  | .attributeNotMap => "attribute must be an object"
  | .repeatNotMap => "repeat must be an object"
  | .countNotInt => "repeat.count must be an integer"
  | .countNegative count => "repeat.count must be >= 0, got " ++ toString count
  | .valueNotInt => "repeat.value must be an integer"
  | .implicitNotBool => "repeat.implicit must be a boolean"
  | .tokensNotList => "token list must be a string or an array"
  | .tokenNotMap => "token must be a string or an object"
  | .unknownToken =>
    "token type must be one of ['bracket', 'field', 'literal', 'quote', 'repeater_number', " ++
      "'repeater_placeholder', 'variable', 'whitespace']"
  | .literalMissing => "literal value is required and must be a string"
  | .fieldIndexNotInt => "field index must be an integer"
  | .fieldNameNotText => "field name must be a string"
  | .variableMissing => "variable name is required and must be a non-empty string"
  | .singleNotBool => "quote.single must be a boolean"
  | .unknownContext => "bracket context must be one of ['attribute', 'expression', 'group']"
  | .openMissing => "bracket.open is required and must be a boolean"
  | .sizeNotPositive => "repeater_number.size must be a positive integer"
  | .reverseNotBool => "repeater_number.reverse must be a boolean"
  | .baseNotInt => "repeater_number.base must be an integer"
  | .parentNegative => "repeater_number.parent must be a non-negative integer"

/-- What keeps a broken rule from being reported.  The message about a count tells the count, and statements
without end are never left behind. -/
def hindrance? : Cause → Option Hindrance
  | .countNegative count => Hindrance.ofInt? count
  | .statementEndless => some .endless
  | _ => none

end Cause

end Fault

/-- A broken rule and the position where it is broken. -/
structure Fault where
  cause : Fault.Cause
  position : Position
  deriving DecidableEq, Repr

def Fault.diagnostic (file : Option String) (f : Fault) : Diagnostic :=
  { stage := .validate
    code := f.cause.code
    message := f.cause.message
    file
    position := some f.position.text }

/-! ### Checked values -/

/-- A value, or the faults in the order in which they were found. -/
abbrev Checked (α : Type) := Except (List Fault) α

namespace Checked

def fault (cause : Fault.Cause) (p : Position) : Checked α := .error [⟨cause, p⟩]

def faults : Checked α → List Fault
  | .ok _ => []
  | .error fs => fs

/-- Two values that are checked one after the other; faults of the first do not hide those of the
second. -/
def both (a : Checked α) (b : Checked β) : Checked (α × β) :=
  match a, b with
  | .ok x, .ok y => .ok (x, y)
  | .ok _, .error fs => .error fs
  | .error fs, .ok _ => .error fs
  | .error fs, .error gs => .error (fs ++ gs)

def cons (a : Checked α) (b : Checked (List α)) : Checked (List α) :=
  (both a b).map fun (x, xs) => x :: xs

def all : List (Checked α) → Checked (List α)
  | [] => .ok []
  | a :: rest => cons a (all rest)

def items (check : Position → Value → Checked α) (p : Position) (values : List Value) :
    Checked (List α) :=
  all (values.mapIdx fun i v => check (p.item i) v)

end Checked

end Shorthand
