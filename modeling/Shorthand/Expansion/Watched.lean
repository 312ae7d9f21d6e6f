import Shorthand.Expansion.Unroll
import Shorthand.Hindrance

/-!
# Watched expansions

An expansion whose acts are seen before they are done: `watch` may keep a record of them, or break the
expansion off.  One that breaks off where a number cannot be written is an attempt.
-/

namespace Shorthand

/-- What an expansion is about to do: to write a token out, to make it a part of a value, or to put the text
of the copy that `snapshot` is making to a node. -/
inductive Act where
  | text (t : Token)
  | entry (t : Token)
  | insert (snapshot : Repeater)
  deriving DecidableEq, Repr

namespace Watched

section

variable {m : Type → Type} [MonadStateOf State m] {α : Type}

/-- A part of an expansion that nobody watches. -/
def step (x : Expansion α) : m α := modifyGet x.run

variable [Monad m] (watch : Act → m Unit) (src : Source)

def render (t : Token) : m String := do
  watch (.text t)
  step (t.render src)

def entry (t : Token) : m Entry := do
  watch (.entry t)
  step (t.entry src)

def renderName (tokens : List Token) : m String := do
  pure (.join (← tokens.mapM (render watch src)))

def renderValue (tokens : List Token) : m (List Entry) := do
  pure (Entry.joined (← tokens.mapM (entry watch src)))

def renderAttributeValue (name : Option String) :
    Option (List Token) → m (Option (List Entry) × ValueKind)
  | none => pure (none, .raw)
  | some tokens => do
    let parts := unwrap tokens
    step do if parts.closed = false then modify (.note (unmatched parts.kind name))
    let value ← renderValue watch src parts.inner
    pure (some value, parts.kind)

def renderAttribute (a : Attribute) : m Node.Attribute := do
  let name ← renderSome (renderName watch src) a.name
  let (value, kind) ← renderAttributeValue watch src name a.value
  pure
    { name := name.map bareName
      value
      boolean := name.any isBoolean
      implied := name.any isImplied
      kind }

def renderAttributes : Option (List Attribute) → m (Option (List Node.Attribute))
  | none => pure none
  | some as => do pure (some (← as.mapM (renderAttribute watch src)))

def build (head : Element) (children : List Node) (repeater : Option Repeater) : m Node := do
  let attributes ← renderAttributes watch src head.attributes
  let name ← renderSome (renderName watch src) head.name
  let value ← renderSome (renderValue watch src) head.value
  pure { name, value, attributes, children, repeater, selfClosing := head.selfClosing }

def copy (r : Repeater) (body : Repeater → m (List Node)) (i : Nat) : m (List Node) := do
  let snapshot := { r with value := i }
  step (modify (.replaceTop snapshot))
  let nodes ← body snapshot
  let inserted := (← step get).inserted
  if r.implicit && !inserted && !nodes.isEmpty then
    watch (.insert snapshot)
    pure (Node.insertIntoLast (src.textAt i) nodes)
  else pure nodes

def repeated (r : Repeater) (body : Repeater → m (List Node)) : m (List Node) := do
  let count := r.copies src
  step (modify (.push r))
  step (modify (.note (.expanding count r.implicit)))
  let copies ← (List.range count.toNat).mapM (copy watch src r body)
  step do
    modify .pop
    if r.implicit then
      if (← get).inserted = false then modify (.note (.insertedText count))
      modify (.setInserted true)
  pure copies.flatten

mutual

def expand : Statement → m (List Node)
  | .element head children none => do
    let nodes ← expandAll children
    pure [← build watch src head nodes none]
  | .element head children (some r) =>
    repeated watch src r fun snapshot => do
      let nodes ← expandAll children
      pure [← build watch src head nodes (some snapshot)]
  | .group children none => expandAll children
  | .group children (some r) => repeated watch src r fun _ => expandAll children

def expandAll : List Statement → m (List Node)
  | [] => pure []
  | s :: rest => do
    let nodes ← expand s
    let others ← expandAll rest
    pure (nodes ++ others)

end

end

end Watched

/-! ### What cannot be written -/

/-- The number of characters that a text may have. -/
def longestText : Nat := 0x7FFFFFFFFFFFFFFF

/-- A number is written out and then filled up to its size. -/
def Numbering.hindrance? (src : Source) (n : Numbering) (stack : List Repeater) : Option Hindrance :=
  (Hindrance.ofInt? (n.value src stack)).or (if n.size ≤ longestText then none else some .wideNumber)

/-- What keeps a token from being written out inside some repeaters. -/
def Token.hindrance? (src : Source) (stack : List Repeater) : Token → Option Hindrance
  | .field (some index) _ => Hindrance.ofInt? index
  | .number n => n.hindrance? src stack
  | _ => none

/-- A tab stop that is to be a part of a value is not written out. -/
def Act.hindrance? (src : Source) (stack : List Repeater) : Act → Option Hindrance
  | .text t => t.hindrance? src stack
  | .entry (.field (some _) _) => none
  | .entry t => t.hindrance? src stack
  | .insert _ => none

/-! ### Attempts -/

/-- An expansion that may break off. -/
abbrev Attempt := ExceptT Hindrance Expansion

/-- Breaks off before an act that cannot be done. -/
def Attempt.watch (src : Source) (act : Act) : Attempt Unit := do
  match act.hindrance? src (← get).stack with
  | none => pure ()
  | some h => throw h

/-- The nodes of a statement, or what breaks its expansion off. -/
def Statement.attempt (src : Source) (s : Statement) : Attempt (List Node) :=
  Watched.expand (Attempt.watch src) src s

def Statement.attemptAll (src : Source) (ss : List Statement) : Attempt (List Node) :=
  Watched.expandAll (Attempt.watch src) src ss

/-- The nodes of a tree, or what breaks its expansion off, and the state in which it ends. -/
def Tree.attempt (src : Source) (t : Tree) : Except Hindrance (List Node) × State :=
  (Statement.attemptAll src t.statements).run.run {}

end Shorthand
