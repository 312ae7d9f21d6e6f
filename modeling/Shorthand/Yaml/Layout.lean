import Shorthand.Yaml.Block
import Shorthand.Yaml.Mark
import Shorthand.Yaml.Plain

/-!
# Layout

The tokens of a YAML text.  Indentation opens and closes the lists and maps that have no brackets,
and what stands before a colon becomes a key afterwards, as long as it is short and on one line.
-/

namespace Shorthand.Yaml

/-- A place where a key may turn out to have started: the number of tokens before it, and where it
stands.  A required one cannot be anything but a key. -/
structure KeyStart where
  token : Nat
  required : Bool
  index : Nat
  line : Nat
  column : Nat
  deriving Repr

/-- The number of characters that a key may have. -/
def longestKey : Nat := 1024

/-- A text that is read up to a cursor: its tokens, last one first, with their number; how deep in
brackets the cursor is; the indentation and those around it; whether a key may start here; and
where one may have started, for each depth. -/
structure Layout where
  cursor : Cursor
  tokens : List Token := []
  size : Nat := 0
  depth : Nat := 0
  indent : Int := -1
  outer : List Int := []
  keyAllowed : Bool := true
  starts : List (Nat × KeyStart) := []

namespace Layout

def inFlow (s : Layout) : Bool := 0 < s.depth

def add (t : Token) (s : Layout) : Layout := { s with tokens := t :: s.tokens, size := s.size + 1 }

/-- A token put in front of the last ones. -/
def insertAt (place : Nat) (t : Token) (s : Layout) : Layout :=
  { s with tokens := s.tokens.insertIdx (s.size - place) t, size := s.size + 1 }

def advance (t : Token) (c : Cursor) (s : Layout) : Layout := { s.add t with cursor := c }

/-! ### Keys -/

/-- The place at this depth where a key may have started. -/
def start? (s : Layout) : Option KeyStart := s.starts.lookup s.depth

def withoutStart (s : Layout) : Layout := { s with starts := s.starts.filter fun (d, _) => d ≠ s.depth }

/-- No key starts at the place any more; one that had to be a key is missing its colon. -/
def dropStart (s : Layout) : Except Refusal Layout :=
  match s.start? with
  | some k => if k.required then .error .malformed else .ok s.withoutStart
  | none => .ok s

def markStart (s : Layout) : Except Refusal Layout :=
  if s.keyAllowed then do
    let s ← s.dropStart
    let k : KeyStart :=
      { token := s.size
        required := !s.inFlow && s.indent = s.cursor.column
        index := s.cursor.index
        line := s.cursor.line
        column := s.cursor.column }
    pure { s with starts := (s.depth, k) :: s.starts }
  else .ok s

/-- Is the place on another line, or too far away? -/
def isStale (s : Layout) (k : KeyStart) : Bool :=
  k.line ≠ s.cursor.line || longestKey < s.cursor.index - k.index

/-- The places that are out of reach are given up. -/
def dropStale (s : Layout) : Except Refusal Layout :=
  if s.starts.any fun (_, k) => s.isStale k && k.required then .error .malformed
  else .ok { s with starts := s.starts.filter fun (_, k) => !s.isStale k }

/-! ### Indentation -/

/-- Lists and maps that are indented deeper than the column end here. -/
def closeTo (column : Int) (s : Layout) : Layout :=
  if s.inFlow then s else go s s.outer
where
  go (s : Layout) : List Int → Layout
    | [] => s
    | i :: rest =>
      if column < s.indent then go { s.add .blockEnd with indent := i, outer := rest } rest else s

def indentTo (column : Int) (s : Layout) : Layout := { s with indent := column, outer := s.indent :: s.outer }

/-- A list or map without brackets starts, if the column is deeper than the indentation. -/
def openAt (column : Nat) (t : Token) (s : Layout) : Layout :=
  if s.indent < column then (s.indentTo column).add t else s

/-! ### Tokens -/

/-- The end of all blocks, before a document or a directive. -/
def closeAll (s : Layout) : Except Refusal Layout := do
  let s ← (s.closeTo (-1)).dropStart
  pure { s with keyAllowed := false }

def directive (s : Layout) : Except Refusal Layout := do
  let s ← s.closeAll
  let (t, c) ← Mark.directive s.cursor
  pure (s.advance t c)

def documentMark (t : Token) (s : Layout) : Except Refusal Layout := do
  let s ← s.closeAll
  pure (s.advance t (s.cursor.skip 3))

def openBracket (t : Token) (s : Layout) : Except Refusal Layout := do
  let s ← s.markStart
  pure { s.advance t s.cursor.next with depth := s.depth + 1, keyAllowed := true }

def closeBracket (t : Token) (s : Layout) : Except Refusal Layout := do
  let s ← s.dropStart
  pure { s.advance t s.cursor.next with depth := s.depth - 1, keyAllowed := false }

def comma (s : Layout) : Except Refusal Layout := do
  let s ← s.dropStart
  pure { s.advance .flowEntry s.cursor.next with keyAllowed := true }

/-- An item of a list without brackets. -/
def dash (s : Layout) : Except Refusal Layout := do
  if !s.inFlow && !s.keyAllowed then throw .malformed
  let s := if s.inFlow then s else s.openAt s.cursor.column .blockSequenceStart
  let s ← s.dropStart
  pure { s.advance .blockEntry s.cursor.next with keyAllowed := true }

/-- A key that is marked as one. -/
def question (s : Layout) : Except Refusal Layout := do
  if !s.inFlow && !s.keyAllowed then throw .malformed
  let s := if s.inFlow then s else s.openAt s.cursor.column .blockMappingStart
  let s ← s.dropStart
  pure { s.advance .key s.cursor.next with keyAllowed := !s.inFlow }

/-- A value: what may have been a key is one now. -/
def colon (s : Layout) : Except Refusal Layout := do
  match s.start? with
  | some k =>
    let s := s.withoutStart.insertAt k.token .key
    let s :=
      if !s.inFlow && s.indent < k.column then
        (s.indentTo k.column).insertAt k.token .blockMappingStart
      else s
    pure { s.advance .value s.cursor.next with keyAllowed := false }
  | none =>
    if !s.inFlow && !s.keyAllowed then throw .malformed
    let s := if s.inFlow then s else s.openAt s.cursor.column .blockMappingStart
    let s ← s.dropStart
    pure { s.advance .value s.cursor.next with keyAllowed := !s.inFlow }

/-- A mark or a scalar in front of which a key may start. -/
def word (scan : Layout → Except Refusal (Token × Cursor × Bool)) (s : Layout) : Except Refusal Layout := do
  let s ← s.markStart
  let (t, c, keyAllowed) ← scan s
  pure { s.advance t c with keyAllowed }

def anchor (make : String → Token) (s : Layout) : Except Refusal Layout :=
  s.word fun s => do
    let (name, c) ← Mark.anchorName s.cursor
    pure (make name, c, false)

def tag (s : Layout) : Except Refusal Layout :=
  s.word fun s => do
    let (t, c) ← Mark.tag s.cursor
    pure (t, c, false)

def quoted (s : Layout) : Except Refusal Layout :=
  s.word fun s => do
    let (text, c) ← Quoted.scan s.cursor
    pure (.scalar text false, c, false)

/-- A plain scalar; a key may follow it if a line ended behind it. -/
def plain (s : Layout) : Except Refusal Layout :=
  s.word fun s =>
    let (text, c, ended) := Plain.scan s.inFlow (s.indent + 1) s.cursor
    pure (.scalar text true, c, ended)

def block (s : Layout) : Except Refusal Layout := do
  let s ← s.dropStart
  let (text, c) ← Block.scan s.indent s.cursor
  pure { s.advance (.scalar text false) c with keyAllowed := true }

/-! ### The text -/

/-- The number of spaces, comments and line ends in front, where a comment may be open, and whether
there is a line end among them. -/
def blanks (comment : Bool) : List Char → Nat × Bool
  | [] => (0, false)
  | c :: rest =>
    if isBreak c || comment || c = '#' || c = ' ' then
      let (count, ended) := blanks (!isBreak c && (comment || c = '#')) rest
      (count + 1, isBreak c || ended)
    else (0, false)

def skipMark (c : Cursor) : Cursor := if c.index = 0 && isByteOrderMark c.first then c.next else c

/-- Behind spaces, comments and line ends.  A key may start on a new line outside of brackets. -/
def skipBlanks (s : Layout) : Layout :=
  let c := skipMark s.cursor
  let (count, ended) := blanks false c.rest
  { s with cursor := c.skip count, keyAllowed := s.keyAllowed || (ended && !s.inFlow) }

def next (s : Layout) : Except Refusal Layout :=
  let c := s.cursor.first
  let following := s.cursor.peek 1
  let lineStart := s.cursor.column = 0
  if c = '%' && lineStart then s.directive
  else if c = '-' && lineStart && startsDocumentMark s.cursor.rest then s.documentMark .documentStart
  else if c = '.' && lineStart && startsDocumentMark s.cursor.rest then s.documentMark .documentEnd
  else if c = '[' then s.openBracket .flowSequenceStart
  else if c = '{' then s.openBracket .flowMappingStart
  else if c = ']' then s.closeBracket .flowSequenceEnd
  else if c = '}' then s.closeBracket .flowMappingEnd
  else if c = ',' then s.comma
  else if c = '-' && endsWord following then s.dash
  else if c = '?' && (s.inFlow || endsWord following) then s.question
  else if c = ':' && (s.inFlow || endsWord following) then s.colon
  else if c = '*' then s.anchor .reuse
  else if c = '&' then s.anchor .anchor
  else if c = '!' then s.tag
  else if (c = '|' || c = '>') && !s.inFlow then s.block
  else if c = '\'' || c = '"' then s.quoted
  else if Plain.starts s.inFlow c following then s.plain
  else .error .malformed

/-- In front of the next token, where the blocks that end are closed. -/
def prepare (s : Layout) : Except Refusal Layout := do
  let s ← s.skipBlanks.dropStale
  pure (s.closeTo s.cursor.column)

/-- The text with one token more, or all tokens at the end of the text. -/
def step (s : Layout) : Except Refusal (Layout ⊕ List Token) := do
  let s ← s.prepare
  if s.cursor.rest.isEmpty then
    let s ← s.closeAll
    pure (.inr s.tokens.reverse)
  else pure (.inl (← s.next))

/-- The tokens that nothing can be put in front of any more. -/
def settled (s : Layout) : List Token :=
  let places := (s.starts.filter fun (_, k) => !s.isStale k).map fun (_, k) => k.token
  s.tokens.reverse.take (places.foldl min s.size)

/-- All tokens up to the end of the text, or up to a scalar without a value.  `fuel` bounds the
number of steps. -/
def run : (fuel : Nat) → Layout → Except Refusal (List Token)
  | 0, _ => .error .malformed
  | fuel + 1, s =>
    match s.step with
    | .error (.noValue cause) => .ok (s.settled ++ [.broken cause])
    | .error .malformed => .error .malformed
    | .ok (.inr tokens) => .ok tokens
    | .ok (.inl t) => run fuel t

end Layout

/-- The tokens of a text.  Every step but the last one takes a character at least. -/
def tokens (cs : List Char) : Except Refusal (List Token) :=
  if cs.all isAllowed then Layout.run (cs.length + 1) { cursor := { rest := cs } } else .error .malformed

end Shorthand.Yaml
