/-!
# Cursors

A place in a YAML text: what is left of it, with the line and the column that have been reached.
Line ends are single characters here; the end of the text reads as a null character, which a text
cannot hold.
-/

namespace Shorthand.Yaml

/-- Why a scalar has no value of its kind: the number, the day or the character that it names does
not exist, a number has no digits at all, a word is not one for truth values, a day is not in the
form of one or has parts, a number is out of range, or a text would hold half a character. -/
inductive NoValue where
  | absent
  | emptyNumber
  | unknownWord
  | shapeless
  | parted
  | outOfRange
  | halfCharacter
  deriving DecidableEq, Repr

/-- Why a text is refused: it is not YAML, or a scalar in it has no value. -/
inductive Refusal where
  | malformed
  | noValue (cause : NoValue)
  deriving DecidableEq, Repr

/-! ### Characters -/

def endOfText : Char := '\x00'

def isAllowed (c : Char) : Bool :=
  let n := c.toNat
  n == 0x09 || n == 0x0A || n == 0x0D || (0x20 ≤ n && n ≤ 0x7E) || n == 0x85 ||
    (0xA0 ≤ n && n ≤ 0xD7FF) || (0xE000 ≤ n && n ≤ 0xFFFD) || 0x10000 ≤ n

def isByteOrderMark (c : Char) : Bool := c.toNat = 0xFEFF

/-- A line ends with a line feed, a next-line character, or a line or paragraph separator. -/
def isBreak (c : Char) : Bool := c = '\n' || c.toNat = 0x85 || c.toNat = 0x2028 || c.toNat = 0x2029

/-- The character that stands for a line end in a scalar. -/
def breakText (c : Char) : Char := if c.toNat = 0x85 then '\n' else c

def isSpaceOrTab (c : Char) : Bool := c = ' ' || c = '\t'

def endsLine (c : Char) : Bool := isBreak c || c = endOfText

def endsWord (c : Char) : Bool := isSpaceOrTab c || endsLine c

def firstOf (cs : List Char) : Char := cs.headD endOfText

/-- Does the text start with a mark between documents?  Such a mark stands at the start of a line. -/
def startsDocumentMark : List Char → Bool
  | '-' :: '-' :: '-' :: rest => endsWord (firstOf rest)
  | '.' :: '.' :: '.' :: rest => endsWord (firstOf rest)
  | _ => false

/-! ### Cursors -/

/-- A place in a text. -/
structure Cursor where
  rest : List Char
  index : Nat := 0
  line : Nat := 0
  column : Nat := 0
  deriving Repr

namespace Cursor

def peek (c : Cursor) (distance : Nat) : Char := firstOf (c.rest.drop distance)

def first (c : Cursor) : Char := firstOf c.rest

/-- One character further.  A byte order mark takes no column. -/
def next (c : Cursor) : Cursor :=
  match c.rest with
  | [] => c
  | x :: rest =>
    if isBreak x then { rest, index := c.index + 1, line := c.line + 1, column := 0 }
    else
      { rest
        index := c.index + 1
        line := c.line
        column := if isByteOrderMark x then c.column else c.column + 1 }

/-- Some characters further. -/
def skip : Nat → Cursor → Cursor
  | 0, c => c
  | n + 1, c => skip n c.next

def skipTo (c : Cursor) (rest : List Char) : Cursor := c.skip (c.rest.length - rest.length)

def skipWhile (p : Char → Bool) (c : Cursor) : Cursor := c.skip (c.rest.takeWhile p).length

def skipComment (c : Cursor) : Cursor :=
  if c.first = '#' then c.skipWhile fun x => !isBreak x else c

/-- Behind spaces and a comment, where the line must end; and behind its end. -/
def skipLine (c : Cursor) : Except Refusal Cursor :=
  let c := (c.skipWhile (· = ' ')).skipComment
  if endsLine c.first then .ok c.next else .error .malformed

end Cursor

end Shorthand.Yaml
