import Shorthand.Yaml.Quoted

/-!
# Block scalars

Text on lines of their own, which keep their ends, or are folded into paragraphs.  The indentation
is that of the first line unless it is given.
-/

namespace Shorthand.Yaml.Block

/-- What becomes of the line ends behind the text: all are kept, one is, or none. -/
inductive Chomping where
  | keep
  | clip
  | drop
  deriving DecidableEq, Repr

/-- What the first line says. -/
structure Header where
  chomping : Chomping := .clip
  increment : Option Nat := none
  deriving DecidableEq, Repr

/-- The sign of a header. -/
def chomping? : Char → Option Chomping
  | '+' => some .keep
  | '-' => some .drop
  | _ => none

/-- The digit of a header. -/
def increment? (c : Char) : Option Nat := if c.isDigit then Number.digit? c else none

def header (c : Cursor) : Except Refusal (Header × Cursor) :=
  let parts : Header × Nat :=
    match chomping? (c.peek 0), increment? (c.peek 0) with
    | some k, _ =>
      match increment? (c.peek 1) with
      | some n => (⟨k, some n⟩, 2)
      | none => (⟨k, none⟩, 1)
    | none, some n =>
      match chomping? (c.peek 1) with
      | some k => (⟨k, some n⟩, 2)
      | none => (⟨.clip, some n⟩, 1)
    | none, none => ({}, 0)
  let c := c.skip parts.2
  if parts.1.increment = some 0 then .error .malformed
  else if c.first = ' ' || endsLine c.first then .ok (parts.1, c)
  else .error .malformed

/-- Between two lines: the end of the last one, if there was one, whether it started with a blank,
the line ends after it, last one first, and the column that has been reached. -/
structure Gap where
  lineEnd : List Char := []
  blankStart : Bool := false
  later : List Char := []
  column : Nat := 0
  deriving DecidableEq, Repr

def Gap.text (folded : Bool) (g : Gap) (c : Char) : List Char :=
  if folded && g.lineEnd = ['\n'] && !g.blankStart && !isSpaceOrTab c then
    if g.later.isEmpty then [' '] else g.later
  else g.later ++ g.lineEnd

/-- What is left of the line ends behind the text, last one first. -/
def Gap.chomped (k : Chomping) (g : Gap) : List Char :=
  match k with
  | .drop => []
  | .clip => g.lineEnd
  | .keep => g.later ++ g.lineEnd

/-- In front of the first line, in a line, or between two lines. -/
inductive Mode where
  | indentation (deepest : Nat)
  | line (blankStart : Bool)
  | gap
  deriving DecidableEq, Repr

/-- The lines of a scalar and what follows them.  `out` is the text so far, last character first;
`indent` is meant once it is known, and `least` is what it cannot be below. -/
def lines (folded : Bool) (k : Chomping) (least indent : Nat) (mode : Mode) (g : Gap) (out : List Char) :
    List Char → List Char × List Char
  | [] =>
    match mode with
    | .line _ => (out.reverse, [])
    | _ => ((g.chomped k ++ out).reverse, [])
  | c :: rest =>
    match mode with
    | .line blankStart =>
      if isBreak c then
        lines folded k least indent .gap ⟨[breakText c], blankStart, [], 0⟩ out rest
      else lines folded k least indent (.line blankStart) g (c :: out) rest
    | .indentation deepest =>
      if c = ' ' then
        lines folded k least indent (.indentation (max deepest (g.column + 1)))
          { g with column := g.column + 1 } out rest
      else if isBreak c then
        lines folded k least indent (.indentation deepest)
          { g with later := breakText c :: g.later, column := 0 } out rest
      else
        let indent := max least deepest
        if g.column = indent then
          lines folded k least indent (.line (isSpaceOrTab c)) {} (c :: g.text folded c ++ out) rest
        else ((g.chomped k ++ out).reverse, c :: rest)
    | .gap =>
      if c = ' ' && g.column < indent then
        lines folded k least indent mode { g with column := g.column + 1 } out rest
      else if isBreak c then
        lines folded k least indent mode { g with later := breakText c :: g.later, column := 0 } out rest
      else if g.column = indent then
        lines folded k least indent (.line (isSpaceOrTab c)) {} (c :: g.text folded c ++ out) rest
      else ((g.chomped k ++ out).reverse, c :: rest)

/-- The block scalar at a cursor, where `indent` is the indentation around it. -/
def scan (indent : Int) (c : Cursor) : Except Refusal (String × Cursor) := do
  let folded := c.first = '>'
  let (h, c) ← header c.next
  let start ← c.skipLine
  let least := (max 1 (indent + 1)).toNat
  let (text, rest) :=
    match h.increment with
    | none => lines folded h.chomping least least (.indentation 0) {} [] start.rest
    | some n => lines folded h.chomping least (least + n - 1) .gap {} [] start.rest
  pure (.ofList text, start.skipTo rest)

end Shorthand.Yaml.Block
