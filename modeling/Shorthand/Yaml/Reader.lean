import Shorthand.Text.Lines
import Shorthand.Yaml.Meaning
import Shorthand.Yaml.Node

/-!
# Reading YAML

The value of a YAML text, which holds one document at most.  A node that holds itself has no end: its
value is written out until every name has been gone through, and some levels more, and goes on from there.
-/

namespace Shorthand.Yaml

/-- What the names of a document stand for. -/
abbrev Names := List (String × Meaning)

namespace Node

mutual

def meaning (names : Names) : Node → Meaning
  | .scalar tag text => .ofScalar tag text
  | .sequence tag items => .ofSequence tag (meanings names items)
  | .mapping tag entries => .ofMapping tag (entryMeanings names entries)
  | .named name => (names.lookup name).getD .unknown

def meanings (names : Names) : List Node → List Meaning
  | [] => []
  | node :: rest => meaning names node :: meanings names rest

def entryMeanings (names : Names) : List (Node × Node) → List (Meaning × Meaning)
  | [] => []
  | (key, node) :: rest => (meaning names key, meaning names node) :: entryMeanings names rest

end

/-- What is known of a node before its parts are: a value that goes on, if it has any. -/
def outline : Node → Meaning
  | .sequence tag _ =>
    let m := Meaning.ofSequence tag []
    { m with value := m.value.map fun _ => .endless }
  | .mapping tag entries =>
    let m := Meaning.ofMapping tag []
    { m with
      pair? := if entries.length = 1 then some (.ok (.pair .endless .endless)) else none
      value := m.value.map fun _ => .endless }
  | node => node.meaning []

end Node

namespace Content

/-- What the names stand for when only the outlines of their nodes are known. -/
def outlines (c : Content) : Names := c.named.map fun (name, node) => (name, node.outline)

/-- What the names stand for, each found with those before it, and with what was known already of
itself and of those behind it. -/
def refine (c : Content) (known : Names) : Names :=
  c.named.foldl (fun names (name, node) => (name, node.meaning names) :: names) known

/-- How often a node that holds itself is written out.  Statements that lead through more names than
there are go on for ever, and the levels more are for what stands in the last of them. -/
def rounds (c : Content) : Nat := c.named.length + 6

def names (c : Content) : Names := c.rounds.repeat c.refine c.outlines

def value (c : Content) : Except Refusal Value := (c.root.meaning c.names).value.mapError (·.2)

end Content

/-- The value of a text; a text without a document is null. -/
def read (text : String) : Except Refusal Value := do
  match ← Node.ofTokens? (← tokens (Text.foldLineEnds text.toList)) with
  | none => pure .null
  | some content => content.value

end Shorthand.Yaml
