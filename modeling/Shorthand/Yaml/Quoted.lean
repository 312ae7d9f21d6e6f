import Shorthand.Json.Token
import Shorthand.Yaml.Cursor

/-!
# Quoted scalars

Text in single or double quotes.  A line end between two words is a space, and each empty line a
line feed; blanks around a line end do not count.  Escapes are read in double quotes only.
-/

namespace Shorthand.Yaml

/-- Line ends between two words, last one first: the first of them is left out if a backslash
stands before it. -/
structure Fold where
  first : Option Char
  later : List Char
  deriving DecidableEq, Repr

def Fold.text (f : Fold) : List Char :=
  match f.first with
  | none => f.later
  | some c => if c ≠ '\n' then f.later ++ [c] else if f.later.isEmpty then [' '] else f.later

namespace Quoted

/-- What was read last: blanks, line ends, a backslash, or the start of a code. -/
inductive Mode where
  | blanks (read : List Char)
  | folding (f : Fold)
  | escape
  | code (missing : Nat) (value : Nat)
  deriving DecidableEq, Repr

/-- The text that has not been added yet, last character first. -/
def Mode.pending : Mode → List Char
  | .blanks read => read
  | .folding f => f.text
  | _ => []

/-- What a blank adds. -/
def Mode.blank (c : Char) : Mode → Mode
  | .folding f => .folding f
  | m => .blanks (c :: m.pending)

/-- What a line end adds. -/
def Mode.lineEnd (c : Char) : Mode → Mode
  | .folding f => .folding { f with later := breakText c :: f.later }
  | _ => .folding ⟨some (breakText c), []⟩

def shortEscape? : Char → Option Char
  | '0' => some '\x00'
  | 'a' => some '\x07'
  | 'b' => some '\x08'
  | 't' => some '\t'
  | '\t' => some '\t'
  | 'n' => some '\n'
  | 'v' => some '\x0B'
  | 'f' => some '\x0C'
  | 'r' => some '\r'
  | 'e' => some '\x1B'
  | ' ' => some ' '
  | '"' => some '"'
  | '\\' => some '\\'
  | '/' => some '/'
  | 'N' => some '\x85'
  | '_' => some '\xA0'
  | 'L' => some '\u2028'
  | 'P' => some '\u2029'
  | _ => none

/-- The number of digits that the code of an escape has. -/
def codeLength? : Char → Option Nat
  | 'x' => some 2
  | 'u' => some 4
  | 'U' => some 8
  | _ => none

def escaped (c : Char) (out : List Nat) : Except Refusal (Mode × List Nat) :=
  if isBreak c then .ok (.folding ⟨none, []⟩, out)
  else
    match shortEscape? c, codeLength? c with
    | some x, _ => .ok (.blanks [], x.toNat :: out)
    | none, some n => .ok (.code n 0, out)
    | none, none => .error .malformed

def codes (cs : List Char) : List Nat := cs.map Char.toNat

/-- The size of the numbers beyond which a code is out of range. -/
def codeBound : Nat := 0x80000000

def codeDigit (missing value : Nat) (c : Char) (out : List Nat) : Except Refusal (Mode × List Nat) :=
  match Number.digit? c with
  | none => .error .malformed
  | some digit =>
    let value := value * 16 + digit
    if 1 < missing then .ok (.code (missing - 1) value, out)
    else if codeBound ≤ value then .error (.noValue .outOfRange)
    else if 0x110000 ≤ value then .error (.noValue .absent)
    else .ok (.blanks [], value :: out)

/-- The characters of some code points.  Two halves of a character do not make one here. -/
def characters (codes : List Nat) : Except Refusal (List Char) :=
  match codes.mapM Json.character? with
  | some cs => .ok cs
  | none => .error (.noValue .halfCharacter)

/-- Text in double quotes behind the opening quote, with what follows it.  `out` are the code points
so far, last one first. -/
def double (mode : Mode) (out : List Nat) : List Char → Except Refusal (List Char × List Char)
  | [] => .error .malformed
  | c :: rest =>
    match mode with
    | .escape =>
      match escaped c out with
      | .error e => .error e
      | .ok (mode, out) =>
        if isBreak c && startsDocumentMark rest then .error .malformed else double mode out rest
    | .code missing value =>
      match codeDigit missing value c out with
      | .error e => .error e
      | .ok (mode, out) => double mode out rest
    | mode =>
      if isSpaceOrTab c then double (mode.blank c) out rest
      else if isBreak c then
        if startsDocumentMark rest then .error .malformed else double (mode.lineEnd c) out rest
      else if c = '"' then (characters (codes mode.pending ++ out).reverse).map fun cs => (cs, rest)
      else if c = '\\' then double .escape (codes mode.pending ++ out) rest
      else double (.blanks []) (c.toNat :: codes mode.pending ++ out) rest

/-- Text in single quotes behind the opening quote.  A quote is written twice. -/
def single (mode : Mode) (out : List Char) : List Char → Except Refusal (List Char × List Char)
  | [] => .error .malformed
  | '\'' :: '\'' :: rest => single (.blanks []) ('\'' :: mode.pending ++ out) rest
  | '\'' :: rest => .ok ((mode.pending ++ out).reverse, rest)
  | c :: rest =>
    if isSpaceOrTab c then single (mode.blank c) out rest
    else if isBreak c then
      if startsDocumentMark rest then .error .malformed else single (mode.lineEnd c) out rest
    else single (.blanks []) (c :: mode.pending ++ out) rest

def scan (c : Cursor) : Except Refusal (String × Cursor) := do
  let start := c.next
  let (text, rest) ←
    if c.first = '"' then double (.blanks []) [] start.rest else single (.blanks []) [] start.rest
  pure (.ofList text, start.skipTo rest)

end Quoted

end Shorthand.Yaml
