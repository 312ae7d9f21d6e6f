import Shorthand.Expansion.Render
import Shorthand.Statement

/-!
# Unrolling

The expansion of a tree: every statement becomes its copies, one after the other, and the text
goes into the copies of the first implicit repeater that holds no placeholder.
-/

namespace Shorthand

/-- The node of an element whose children are expanded.  Attributes come before the name and the
value. -/
def Element.build (src : Source) (head : Element) (children : List Node) (repeater : Option Repeater) :
    Expansion Node := do
  let attributes ← match head.attributes with
    | none => pure none
    | some as => do pure (some (← as.mapM (Attribute.render src)))
  let name ← renderSome (renderName src) head.name
  let value ← renderSome (renderValue src) head.value
  pure { name, value, attributes, children, repeater, selfClosing := head.selfClosing }

/-- One copy of a repeated statement.  Text that has found no place yet goes into the deepest node
at the end of an implicit copy. -/
def copy (src : Source) (r : Repeater) (body : Repeater → Expansion (List Node)) (i : Nat) :
    Expansion (List Node) := do
  let snapshot := { r with value := i }
  modify (.replaceTop snapshot)
  let nodes ← body snapshot
  if r.implicit && !(← get).inserted then pure (Node.insertIntoLast (src.textAt i) nodes)
  else pure nodes

/-- All copies of a repeated statement.  After an implicit one no text is placed any more. -/
def repeated (src : Source) (r : Repeater) (body : Repeater → Expansion (List Node)) :
    Expansion (List Node) := do
  let count := r.copies src
  modify (.push r)
  modify (.note (.expanding count r.implicit))
  let copies ← (List.range count.toNat).mapM (copy src r body)
  modify .pop
  if r.implicit then
    if (← get).inserted = false then modify (.note (.insertedText count))
    modify (.setInserted true)
  pure copies.flatten

mutual

def Statement.expand (src : Source) : Statement → Expansion (List Node)
  | .element head children none => do
    let nodes ← Statement.expandAll src children
    pure [← head.build src nodes none]
  | .element head children (some r) =>
    repeated src r fun snapshot => do
      let nodes ← Statement.expandAll src children
      pure [← head.build src nodes (some snapshot)]
  | .group children none => Statement.expandAll src children
  | .group children (some r) => repeated src r fun _ => Statement.expandAll src children

def Statement.expandAll (src : Source) : List Statement → Expansion (List Node)
  | [] => pure []
  | s :: rest => do
    let nodes ← s.expand src
    let others ← Statement.expandAll src rest
    pure (nodes ++ others)

end

namespace Tree

/-- The nodes of a tree and the state in which its expansion ends.  A repeater of the root does
not count. -/
def run (src : Source) (t : Tree) : List Node × State := (Statement.expandAll src t.statements).run {}

def expand (src : Source) (t : Tree) : List Node := (t.run src).1

def events (src : Source) (t : Tree) : List Event := (t.run src).2.events

end Tree

end Shorthand
