/-!
# Positions

A position in a document: the names and the places that lead to it from the top.
-/

namespace Shorthand

/-- One step down: into the entry under a name, or to an item of a list. -/
inductive Step where
  | field (name : String)
  | item (index : Nat)
  deriving DecidableEq, Repr

/-- The steps from the top of a document, outermost first. -/
abbrev Position := List Step

namespace Position

def field (p : Position) (name : String) : Position := p ++ [.field name]

def item (p : Position) (index : Nat) : Position := p ++ [.item index]

def stepText : Step → String
  | .field name => "." ++ name
  | .item index => "[" ++ toString index ++ "]"

/-- The text of a position, as in `tree.elements[0].name`. -/
def text : Position → String
  | [] => ""
  | .field name :: rest => name ++ .join (rest.map stepText)
  | .item index :: rest => .join ((.item index :: rest : Position).map stepText)

end Position

end Shorthand
