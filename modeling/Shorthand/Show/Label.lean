import Shorthand.Hindrance
import Shorthand.Json.Writer
import Shorthand.Node
import Shorthand.Show.Markup

/-!
# Labels

The line that is shown for a node, as markup: its name, its attributes, its value, the number of
its copy, and a slash if it closes itself.
-/

namespace Shorthand

/-- A tree of labels. -/
inductive Outline where
  | item (label : String) (children : List Outline)
  deriving Repr, Inhabited

namespace Node

def tagged (tag text : String) : String := "[" ++ tag ++ "]" ++ text ++ "[/" ++ tag ++ "]"

/-- The written form of a value as a string literal, made safe for markup. -/
def shownValue (entries : List Entry) : String :=
  Markup.escape (Json.stringText true (Entry.displayAll entries))

/-- A node without a name is a piece of text. -/
def nameLabel (n : Node) : String :=
  match n.name with
  | none => tagged "dim" "<text>"
  | some name => if name.isEmpty then tagged "dim" "<text>" else tagged "bold" (Markup.escape name)

/-- An implied attribute has its mark in front; a boolean one is shown without a value. -/
def Attribute.label (a : Attribute) : String :=
  let name := (if a.implied then "!" else "") ++ a.name.getD ""
  let shown := tagged "cyan" (Markup.escape name)
  match a.boolean, a.value with
  | false, some entries => shown ++ "=" ++ shownValue entries
  | _, _ => shown

def valueLabels (n : Node) : List String :=
  match n.value with
  | none | some [] => []
  | some entries => [shownValue entries]

def copyLabels (n : Node) : List String :=
  (n.repeater.map fun r => tagged "magenta" ("#" ++ toString r.value)).toList

def label (n : Node) : String :=
  " ".intercalate
    (n.nameLabel :: (n.attributes.getD []).map Attribute.label ++ n.valueLabels ++ n.copyLabels ++
      if n.selfClosing then ["/"] else [])

mutual

def outline : Node → Outline
  | ⟨name, value, attributes, children, repeater, selfClosing⟩ =>
    .item (label ⟨name, value, attributes, [], repeater, selfClosing⟩) (outlines children)

def outlines : List Node → List Outline
  | [] => []
  | n :: rest => n.outline :: outlines rest

end

end Node

/-! ### What cannot be shown -/

def Entry.hindrance? : Entry → Option Hindrance
  | .text _ => none
  | .field index _ => Hindrance.ofInt? index

namespace Node

/-- The entries that are written out in the label of a node, in order. -/
def shownEntries (n : Node) : List Entry :=
  ((n.attributes.getD []).flatMap fun a => if a.boolean then [] else a.value.getD []) ++ n.value.getD []

mutual

/-- What keeps the labels of a node and of the nodes below it from being made. -/
def hindrance? : Node → Option Hindrance
  | ⟨name, value, attributes, children, repeater, selfClosing⟩ =>
    ((shownEntries ⟨name, value, attributes, [], repeater, selfClosing⟩).findSome? Entry.hindrance?).or
      (hindranceAll? children)

def hindranceAll? : List Node → Option Hindrance
  | [] => none
  | n :: rest => n.hindrance?.or (hindranceAll? rest)

end

end Node

/-- The labels of an expanded abbreviation under a title. -/
def Outline.ofNodes (title : String) (nodes : List Node) : Outline :=
  .item (Markup.escape title) (Node.outlines nodes)

end Shorthand
