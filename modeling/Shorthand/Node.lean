import Shorthand.Token

/-!
# Nodes

The result of an expansion: a tree of nodes, in which every repetition is written out, and the
insertion of text into its values.
-/

namespace Shorthand

/-- A part of a value: a run of text, or a tab stop. -/
inductive Entry where
  | text (s : String)
  | field (index : Int) (name : String)
  deriving DecidableEq, Repr

/-- How the value of an attribute was written. -/
inductive ValueKind where
  | raw
  | singleQuoted
  | doubleQuoted
  | expression
  deriving DecidableEq, Repr

/-- An attribute of a node. -/
structure Node.Attribute where
  name : Option String
  value : Option (List Entry)
  boolean : Bool
  implied : Bool
  kind : ValueKind
  deriving DecidableEq, Repr

/-- A node.  A node that was repeated itself keeps the repeater of its copy. -/
structure Node where
  name : Option String := none
  value : Option (List Entry) := none
  attributes : Option (List Node.Attribute) := none
  children : List Node := []
  repeater : Option Repeater := none
  selfClosing : Bool := false
  deriving Repr, Inhabited

/-! ### Values -/

def fieldText (index : Int) (name : String) : String :=
  if name.isEmpty then "$\x7b" ++ toString index ++ "\x7d"
  else "$\x7b" ++ toString index ++ ":" ++ name ++ "\x7d"

namespace Entry

def ofRun (run : String) : List Entry := if run.isEmpty then [] else [.text run]

/-- Neighbouring texts become one run and empty runs are left out; `run` is the text so far. -/
def joinedAfter (run : String) : List Entry → List Entry
  | [] => ofRun run
  | .text s :: rest => joinedAfter (run ++ s) rest
  | .field index name :: rest => ofRun run ++ .field index name :: joinedAfter "" rest

/-- Entries with one run for all texts between two tab stops. -/
def joined (entries : List Entry) : List Entry := joinedAfter "" entries

def display : Entry → String
  | .text s => s
  | .field index name => fieldText index name

def displayAll (entries : List Entry) : String := .join (entries.map display)

/-- Text put after a value: onto its last run, or as a new one. -/
def appendText (text : String) : List Entry → List Entry
  | [] => [.text text]
  | [.text s] => [.text (s ++ text)]
  | e :: rest => e :: appendText text rest

end Entry

/-! ### Insertion -/

namespace Node

def insertText (text : String) (n : Node) : Node :=
  { n with value := some (Entry.appendText text (n.value.getD [])) }

mutual

def deepest : Node → Node
  | ⟨name, value, attributes, children, repeater, selfClosing⟩ =>
    (deepestOfLast? children).getD ⟨name, value, attributes, children, repeater, selfClosing⟩

def deepestOfLast? : List Node → Option Node
  | [] => none
  | [n] => some n.deepest
  | _ :: n :: rest => deepestOfLast? (n :: rest)

end

mutual

def insertDeepest (text : String) : Node → Node
  | ⟨name, value, attributes, children, repeater, selfClosing⟩ =>
    if children.isEmpty then insertText text ⟨name, value, attributes, children, repeater, selfClosing⟩
    else ⟨name, value, attributes, insertIntoLast text children, repeater, selfClosing⟩

/-- Text put after the value of the deepest node below the last node of a list. -/
def insertIntoLast (text : String) : List Node → List Node
  | [] => []
  | [n] => [n.insertDeepest text]
  | m :: n :: rest => m :: insertIntoLast text (n :: rest)

end

end Node

end Shorthand
