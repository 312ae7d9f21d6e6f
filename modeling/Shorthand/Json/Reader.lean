import Shorthand.Json.Number
import Shorthand.Json.Token

/-!
# Reading JSON

The value of a JSON text.  The lists and maps that are still open are kept on a stack; a key that
is written twice has its last value.
-/

namespace Shorthand.Json

/-- A list or a map that is not closed yet.  Items are kept last one first; a map may wait for the
value of a key. -/
inductive Frame where
  | list (items : List Value)
  | map (fields : Fields) (key : Option String)

/-- What may come next.  A list or map that has just been opened may be closed at once. -/
inductive Expected where
  | value (orClose : Bool)
  | key (orClose : Bool)
  | colon
  | separator
  | nothing
  deriving DecidableEq, Repr

/-- The open frames, innermost first, and the value once it is complete. -/
structure Parser where
  frames : List Frame := []
  expected : Expected := .value false
  result : Value := .null

namespace Parser

/-- A complete value goes into the innermost frame. -/
def deliver (p : Parser) (v : Value) : Option Parser :=
  match p.frames with
  | [] => some { frames := [], expected := .nothing, result := v }
  | .list items :: outer => some { p with frames := .list (v :: items) :: outer, expected := .separator }
  | .map fields (some key) :: outer =>
    some { p with frames := .map (Fields.put (.string key) v fields) none :: outer, expected := .separator }
  | .map _ none :: _ => none

/-- The innermost frame is closed and delivered to the one around it. -/
def close (p : Parser) (mark : Char) : Option Parser :=
  match mark, p.frames with
  | ']', .list items :: outer => deliver { p with frames := outer } (.list items.reverse)
  | '}', .map fields none :: outer => deliver { p with frames := outer } (.map fields)
  | _, _ => none

/-- What a comma separates. -/
def continue? (p : Parser) : Option Parser :=
  match p.frames with
  | .list _ :: _ => some { p with expected := .value false }
  | .map _ _ :: _ => some { p with expected := .key false }
  | [] => none

def nameEntry (p : Parser) (key : String) : Option Parser :=
  match p.frames with
  | .map fields none :: outer => some { p with frames := .map fields (some key) :: outer, expected := .colon }
  | _ => none

def openFrame (p : Parser) (mark : Char) : Option Parser :=
  if mark = '[' then some { p with frames := .list [] :: p.frames, expected := .value true }
  else if mark = '{' then some { p with frames := .map [] none :: p.frames, expected := .key true }
  else none

/-- The parser after one more unit, unless the unit cannot stand there. -/
def step (p : Parser) (t : Token) : Option Parser :=
  match p.expected, t with
  | .value _, .string s => p.deliver (.string s)
  | .value _, .word w => (wordValue? w).bind p.deliver
  | .value orClose, .mark c => if orClose && c = ']' then p.close c else p.openFrame c
  | .key _, .string s => p.nameEntry s
  | .key true, .mark '}' => p.close '}'
  | .colon, .mark ':' => some { p with expected := .value false }
  | .separator, .mark ',' => p.continue?
  | .separator, .mark c => p.close c
  | _, _ => none

end Parser

/-- Why a text is refused: it is not JSON, or a string in it would hold half a character. -/
inductive Refusal where
  | malformed
  | halfCharacter
  deriving DecidableEq, Repr

def value? (units : List Token) : Option Value := do
  let p ← units.foldlM Parser.step {}
  if p.expected = .nothing then some p.result else none

def read (s : String) : Except Refusal Value :=
  match tokens? s.toList with
  | none => .error .malformed
  | some (units, broken) =>
    match value? units with
    | none => .error .malformed
    | some v => if broken then .error .halfCharacter else .ok v

end Shorthand.Json
