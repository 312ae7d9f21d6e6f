import Shorthand.Number.Digits
import Shorthand.Value

/-!
# Lexical structure of JSON

The text of a JSON file is read by a machine that takes one character at a time.  Between strings
every run of letters, digits, signs and points is a single word.
-/

namespace Shorthand.Json

/-- A lexical unit. -/
inductive Token where
  | mark (c : Char)
  | string (s : String)
  | word (w : List Char)
  deriving DecidableEq, Repr

/-- What the machine is in the middle of.  A string is collected as code points, last one first. -/
inductive Mode where
  | between
  | word (read : List Char)
  | string (read : List Nat)
  | escape (read : List Nat)
  | codeUnit (read : List Nat) (missing : Nat) (value : Nat)
  deriving DecidableEq, Repr

/-- The machine with the units it has completed, last one first, and whether one of them is broken: a string
that holds half a character. -/
structure Lexer where
  mode : Mode := .between
  done : List Token := []
  broken : Bool := false

/-! ### Strings -/

def isHighSurrogate (n : Nat) : Bool := 0xD800 ≤ n && n < 0xDC00

def isLowSurrogate (n : Nat) : Bool := 0xDC00 ≤ n && n < 0xE000

/-- A code point as a character; half a pair is none. -/
def character? (n : Nat) : Option Char := if n.isValidChar then some (.ofNat n) else none

/-- Code points as characters, where two halves of a pair become one character. -/
def characters? : List Nat → Option (List Char)
  | [] => some []
  | [n] => do pure [← character? n]
  | m :: n :: rest =>
    if isHighSurrogate m && isLowSurrogate n then
      (characters? rest).map fun cs => .ofNat (0x10000 + (m - 0xD800) * 0x400 + (n - 0xDC00)) :: cs
    else do pure ((← character? m) :: (← characters? (n :: rest)))

def shortEscape? : Char → Option Nat
  | '"' => some 0x22
  | '\\' => some 0x5C
  | '/' => some 0x2F
  | 'b' => some 0x08
  | 'f' => some 0x0C
  | 'n' => some 0x0A
  | 'r' => some 0x0D
  | 't' => some 0x09
  | _ => none

/-! ### The machine -/

def isSpace (c : Char) : Bool := c = ' ' || c = '\t' || c = '\n' || c = '\r'

def isMark (c : Char) : Bool := ['[', ']', '{', '}', ',', ':'].contains c

def isWordChar (c : Char) : Bool := c.isAlphanum || c = '+' || c = '-' || c = '.'

namespace Lexer

def start (l : Lexer) (c : Char) : Option Lexer :=
  if isSpace c then some { l with mode := .between }
  else if isMark c then some { l with mode := .between, done := .mark c :: l.done }
  else if c = '"' then some { l with mode := .string [] }
  else if isWordChar c then some { l with mode := .word [c] }
  else none

def endString (l : Lexer) (read : List Nat) : Lexer :=
  match characters? read.reverse with
  | some cs => { l with mode := .between, done := .string (.ofList cs) :: l.done }
  | none => { mode := .between, done := .string "" :: l.done, broken := true }

/-- A character in the middle of a string.  Control characters must be escaped. -/
def inString (l : Lexer) (read : List Nat) (c : Char) : Option Lexer :=
  if c = '"' then some (l.endString read)
  else if c = '\\' then some { l with mode := .escape read }
  else if c.toNat < 0x20 then none
  else some { l with mode := .string (c.toNat :: read) }

/-- The machine after one more character, unless the character cannot stand there. -/
def step (l : Lexer) (c : Char) : Option Lexer :=
  match l.mode with
  | .between => l.start c
  | .word read =>
    if isWordChar c then some { l with mode := .word (c :: read) }
    else start { l with mode := .between, done := .word read.reverse :: l.done } c
  | .string read => l.inString read c
  | .escape read =>
    if c = 'u' then some { l with mode := .codeUnit read 3 0 }
    else (shortEscape? c).map fun n => { l with mode := .string (n :: read) }
  | .codeUnit read missing value =>
    (Number.digit? c).map fun digit =>
      let value := value * 16 + digit
      { l with mode := if missing = 0 then .string (value :: read) else .codeUnit read (missing - 1) value }

def finish (l : Lexer) : Option (List Token) :=
  match l.mode with
  | .between => some l.done.reverse
  | .word read => some (.word read.reverse :: l.done).reverse
  | _ => none

end Lexer

/-- The units of a text, and whether one of them is broken. -/
def tokens? (cs : List Char) : Option (List Token × Bool) := do
  let l ← cs.foldlM Lexer.step {}
  pure (← l.finish, l.broken)

end Shorthand.Json
