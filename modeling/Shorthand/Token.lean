/-!
# Tokens

The pieces of which names and values of an abbreviation are made, and the marks that repeat a
statement.
-/

namespace Shorthand

/-- How often a statement is repeated, and which copy is being made.  An implicit repeater has no
count of its own: it makes a copy for every item of text. -/
structure Repeater where
  count : Option Int := none
  value : Int := 0
  implicit : Bool := false
  deriving DecidableEq, Repr, Inhabited

/-- What a bracket encloses. -/
inductive Bracket where
  | attributes
  | expression
  | group
  deriving DecidableEq, Repr

/-- How a copy is numbered: in `size` digits at least, from `base` up, or down to it.  `parent`
says how many repeaters further out the numbers go on from. -/
structure Numbering where
  size : Nat := 1
  reverse : Bool := false
  base : Int := 1
  parent : Nat := 0
  deriving DecidableEq, Repr

/-- A piece of a name or of a value.  A field with an index is a tab stop; one without an index
refers to a variable, as a reference does. -/
inductive Token where
  | literal (text : String)
  | field (index : Option Int) (name : String)
  | reference (name : String)
  | quote (single : Bool)
  | bracket (context : Bracket) (opening : Bool)
  | placeholder
  | number (numbering : Numbering)
  | space
  deriving DecidableEq, Repr

/-- An attribute as written. -/
structure Attribute where
  name : Option (List Token) := none
  value : Option (List Token) := none
  deriving DecidableEq, Repr

namespace Token

def isQuote : Token → Bool
  | .quote _ => true
  | _ => false

/-- Is the token a bracket, of a kind and on a side where these are asked for? -/
def isBracket (t : Token) (context : Option Bracket := none) (opening : Option Bool := none) : Bool :=
  match t with
  | .bracket c o => (context.all (· = c)) && opening.all (· = o)
  | _ => false

/-- The variable that a token refers to. -/
def referent? : Token → Option String
  | .reference name => some name
  | .field none name => if name.isEmpty then none else some name
  | _ => none

end Token

end Shorthand
