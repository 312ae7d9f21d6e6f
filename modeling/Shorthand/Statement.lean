import Shorthand.Token

/-!
# Statements

An abbreviation as a tree of statements: elements with attributes, a value and children, and
groups.  Either may be repeated.
-/

namespace Shorthand

/-- What an element says of itself, apart from its children and its repeater. -/
structure Element where
  name : Option (List Token) := none
  value : Option (List Token) := none
  attributes : Option (List Attribute) := none
  selfClosing : Bool := false
  deriving DecidableEq, Repr

/-- An element with its children, or a group. -/
inductive Statement where
  | element (head : Element) (children : List Statement) (repeater : Option Repeater)
  | group (children : List Statement) (repeater : Option Repeater)
  deriving Repr, Inhabited

/-- An abbreviation: the group of its topmost statements. -/
structure Tree where
  statements : List Statement
  repeater : Option Repeater := none
  deriving Repr

namespace Statement

def children : Statement → List Statement
  | .element _ cs _ => cs
  | .group cs _ => cs

def repeater : Statement → Option Repeater
  | .element _ _ r => r
  | .group _ r => r

def attributes : Statement → List Attribute
  | .element head _ _ => head.attributes.getD []
  | .group _ _ => []

end Statement

end Shorthand
