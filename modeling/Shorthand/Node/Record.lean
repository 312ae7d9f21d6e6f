import Shorthand.Node
import Shorthand.Value

/-!
# Nodes as data

The record that is written for a node.  A name, a value, a list of attributes or a repeater that
a node does not have is left out of its record.
-/

namespace Shorthand

def ValueKind.text : ValueKind → String
  | .raw => "raw"
  | .singleQuoted => "singleQuote"
  | .doubleQuoted => "doubleQuote"
  | .expression => "expression"

namespace Entry

/-- A run of text is written as it is and a tab stop as a record. -/
def toValue : Entry → Value
  | .text s => .string s
  | .field index name => .record [("field", .int index), ("name", .string name)]

def listValue (entries : List Entry) : Value := .list (entries.map toValue)

end Entry

def Repeater.toValue (r : Repeater) : Value :=
  .record
    [("count", (r.count.map Value.int).getD .null), ("value", .int r.value), ("implicit", .bool r.implicit)]

namespace Node

def Attribute.toValue (a : Attribute) : Value :=
  .record
    [("name", .ofString? a.name), ("value", (a.value.map Entry.listValue).getD .null),
     ("boolean", .bool a.boolean), ("implied", .bool a.implied), ("value_type", .string a.kind.text)]

/-- A field of a record, if there is something to write. -/
def field? (name : String) (value : Option Value) : List (String × Value) :=
  (value.map fun v => (name, v)).toList

mutual

def toValue : Node → Value
  | ⟨name, value, attributes, children, repeater, selfClosing⟩ =>
    .record
      (field? "name" (name.map .string) ++ field? "value" (value.map Entry.listValue) ++
        field? "attributes" (attributes.map fun as => .list (as.map Attribute.toValue)) ++
        field? "repeat" (repeater.map Repeater.toValue) ++
        [("self_closing", .bool selfClosing), ("children", .list (toValues children))])

def toValues : List Node → List Value
  | [] => []
  | n :: rest => n.toValue :: toValues rest

end

def forestValue (nodes : List Node) : Value := .record [("children", .list (toValues nodes))]

end Node

end Shorthand
