import Shorthand.Expansion.State
import Shorthand.Node
import Shorthand.Number.Padded

/-!
# The text of tokens

What a token stands for inside the repeaters around it, and the names, values and attributes that
tokens make up.
-/

namespace Shorthand

def Bracket.text (opening : Bool) : Bracket → String
  | .attributes => if opening then "[" else "]"
  | .expression => if opening then "\x7b" else "\x7d"
  | .group => if opening then "(" else ")"

/-! ### Numbers -/

namespace Numbering

/-- The number inside some repeaters, innermost first; outside all of them it is one.  Numbers
that go on from a repeater further out skip the copies made in its earlier turns. -/
def value (src : Source) (n : Numbering) : List Repeater → Int
  | [] => 1
  | r :: outer =>
    let count := r.copies src
    let own := if n.reverse then n.base + count - r.value - 1 else n.base + r.value
    match (outer.take n.parent).getLast? with
    | none => own
    | some p => own + count * p.value

def text (src : Source) (n : Numbering) (stack : List Repeater) : String :=
  Number.padded n.size (n.value src stack)

end Numbering

/-! ### Tokens -/

/-- The value of a variable.  A name that stands for itself because nothing is known about it is
logged. -/
def Source.resolve (src : Source) (name : String) : Expansion String := do
  let value := src.valueOf name
  if value = name ∧ src.knows name = false then modify (.note (.unresolved name))
  pure value

namespace Token

/-- The text of a token.  A placeholder takes the text of the copy that the nearest implicit
repeater is making, so that no text is put anywhere else. -/
def render (src : Source) : Token → Expansion String
  | .literal text => pure text
  | .quote single => pure (if single then "'" else "\"")
  | .bracket context opening => pure (context.text opening)
  | .field (some index) name => pure (fieldText index name)
  | .field none name => if name.isEmpty then pure "" else src.resolve name
  | .reference name => src.resolve name
  | .placeholder => do
    let around := (← get).implicit?
    modify (.setInserted true)
    pure (around.elim src.wholeText fun r => src.textAt r.value)
  | .number numbering => do pure (numbering.text src (← get).stack)
  | .space => pure " "

/-- A token as a part of a value, in which a tab stop stays one. -/
def entry (src : Source) : Token → Expansion Entry
  | .field (some index) name => pure (.field index name)
  | t => do pure (.text (← t.render src))

end Token

def renderName (src : Source) (tokens : List Token) : Expansion String := do
  pure (.join (← tokens.mapM (Token.render src)))

def renderValue (src : Source) (tokens : List Token) : Expansion (List Entry) := do
  pure (Entry.joined (← tokens.mapM (Token.entry src)))

/-- A name or a value for which no tokens are given is missing. -/
def renderSome {m : Type → Type} [Monad m] {α : Type} (render : List Token → m α) :
    Option (List Token) → m (Option α)
  | none => pure none
  | some [] => pure none
  | some (t :: ts) => do pure (some (← render (t :: ts)))

/-! ### Attributes -/

/-- The tokens of a value without the delimiters around them, the kind of value they make it, and
whether both delimiters were there. -/
structure Unwrapped where
  kind : ValueKind
  inner : List Token
  closed : Bool
  deriving DecidableEq, Repr

/-- The tokens after an opening delimiter: the last one is taken off if it closes. -/
def unwrapAfter (kind : ValueKind) (closes : Token → Bool) (rest : List Token) : Unwrapped :=
  if rest.getLast?.any closes then ⟨kind, rest.dropLast, true⟩ else ⟨kind, rest, false⟩

/-- A value that starts with a quote ends with a quote of either kind; one that starts with an
expression bracket ends with the bracket that closes it. -/
def unwrap : List Token → Unwrapped
  | .quote single :: rest =>
    unwrapAfter (if single then .singleQuoted else .doubleQuoted) Token.isQuote rest
  | .bracket .expression true :: rest =>
    unwrapAfter .expression (·.isBracket (some .expression) (some false)) rest
  | tokens => ⟨.raw, tokens, true⟩

/-- The warning about a value whose second delimiter is missing. -/
def unmatched (kind : ValueKind) (name : Option String) : Event :=
  if kind = .expression then .unmatchedExpression name else .unmatchedQuote name

/-- A name with a mark in front is implied and one with a point at its end is boolean. -/
def isImplied (name : String) : Bool := name.toList.head? = some '!'

def isBoolean (name : String) : Bool := name.toList.getLast? = some '.'

def bareName (name : String) : String :=
  let cs := if isImplied name then name.toList.drop 1 else name.toList
  .ofList (if isBoolean name then cs.dropLast else cs)

def renderAttributeValue (src : Source) (name : Option String) :
    Option (List Token) → Expansion (Option (List Entry) × ValueKind)
  | none => pure (none, .raw)
  | some tokens => do
    let parts := unwrap tokens
    if parts.closed = false then modify (.note (unmatched parts.kind name))
    let value ← renderValue src parts.inner
    pure (some value, parts.kind)

/-- The attribute of a node: the name is rendered before the value. -/
def Attribute.render (src : Source) (a : Attribute) : Expansion Node.Attribute := do
  let name ← renderSome (renderName src) a.name
  let (value, kind) ← renderAttributeValue src name a.value
  pure
    { name := name.map bareName
      value
      boolean := name.any isBoolean
      implied := name.any isImplied
      kind }

end Shorthand
