import Shorthand.Number.Digits
import Shorthand.Yaml.Cursor
import Shorthand.Yaml.Token

/-!
# Anchors, tags and directives

The marks that stand in front of a node or of a document.
-/

namespace Shorthand.Yaml.Mark

def isNameChar (c : Char) : Bool := c.isAlphanum || c = '-' || c = '_'

def isTagChar (c : Char) : Bool :=
  c.isAlphanum ||
    ['-', ';', '/', '?', ':', '@', '&', '=', '+', '$', ',', '_', '.', '!', '~', '*', '\'', '(', ')', '[', ']',
      '%'].contains c

/-- The text of some characters of a kind, of which there is at least one. -/
def word (p : Char → Bool) (c : Cursor) : Except Refusal (String × Cursor) :=
  let cs := c.rest.takeWhile p
  if cs.isEmpty then .error .malformed else .ok (.ofList cs, c.skip cs.length)

def demand (ok : Bool) (x : α) : Except Refusal α := if ok then .ok x else .error .malformed

/-! ### Escapes in tags -/

def characters (bytes : List UInt8) : Except Refusal (List Char) :=
  match String.fromUTF8? bytes.toByteArray with
  | some text => .ok text.toList
  | none => .error .malformed

/-- Text in which a percent sign with two digits stands for a byte, where `bytes` have been read. -/
def unescape (bytes : List UInt8) : List Char → Except Refusal (List Char)
  | [] => characters bytes
  | '%' :: a :: b :: rest =>
    match Number.digit? a, Number.digit? b with
    | some m, some n => unescape (bytes ++ [(m * 16 + n).toUInt8]) rest
    | _, _ => .error .malformed
  | '%' :: _ => .error .malformed
  | c :: rest => do pure ((← characters bytes) ++ c :: (← unescape [] rest))

def tagText (c : Cursor) : Except Refusal (String × Cursor) := do
  let (text, c) ← word isTagChar c
  pure (.ofList (← unescape [] text.toList), c)

/-! ### Anchors -/

def endsAnchor (c : Char) : Bool := endsWord c || ['?', ':', ',', ']', '}', '%', '@', '\x60'].contains c

/-- The name of an anchor behind the character that marks it. -/
def anchorName (c : Cursor) : Except Refusal (String × Cursor) := do
  let (name, c) ← word isNameChar c.next
  demand (endsAnchor c.first) (name, c)

/-! ### Tags -/

/-- A handle: an exclamation mark, alone or around a name. -/
def handle (c : Cursor) : Except Refusal (String × Cursor) :=
  if c.first ≠ '!' then .error .malformed
  else if c.peek 1 = ' ' then .ok ("!", c.next)
  else
    let name := c.next.rest.takeWhile isNameChar
    let c := c.next.skip name.length
    demand (c.first = '!') (.ofList ('!' :: name ++ ['!']), c.next)

/-- Does a second exclamation mark follow in the same word? -/
def hasHandle (c : Cursor) : Bool :=
  (c.next.rest.takeWhile fun x => !(x = ' ' || endsLine x)).contains '!'

def tag (c : Cursor) : Except Refusal (Token × Cursor) := do
  let (t, c) ←
    if c.peek 1 = '<' then do
      let (suffix, c) ← tagText (c.skip 2)
      demand (c.first = '>') (Token.tag none suffix, c.next)
    else if endsWord (c.peek 1) then pure (Token.tag none "!", c.next)
    else do
      let (h, c) ← if hasHandle c then handle c else pure ("!", c.next)
      let (suffix, c) ← tagText c
      pure (Token.tag (some h) suffix, c)
  demand (c.first = ' ' || endsLine c.first) (t, c)

/-! ### Directives -/

def number (c : Cursor) : Except Refusal (Nat × Cursor) := do
  let (digits, c) ← word Char.isDigit c
  pure (Number.ofDigits 10 digits.toList, c)

/-- The version of the format, of which the first number counts. -/
def version (c : Cursor) : Except Refusal (Token × Cursor) := do
  let (major, c) ← number (c.skipWhile (· = ' '))
  let c ← demand (c.first = '.') c.next
  let (_, c) ← number c
  demand (c.first = ' ' || endsLine c.first) (.version major, c)

/-- A handle and what it stands for. -/
def handleDirective (c : Cursor) : Except Refusal (Token × Cursor) := do
  let (name, c) ← handle (c.skipWhile (· = ' '))
  let c ← demand (c.first = ' ') (c.skipWhile (· = ' '))
  let (start, c) ← tagText c
  demand (c.first = ' ' || endsLine c.first) (.handle name start, c)

/-- The directive at a cursor, to the end of its line.  Unknown ones are passed over. -/
def directive (c : Cursor) : Except Refusal (Token × Cursor) := do
  let (name, c) ← word isNameChar c.next
  let c ← demand (c.first = ' ' || endsLine c.first) c
  let (t, c) ←
    if name = "YAML" then version c
    else if name = "TAG" then handleDirective c
    else pure (Token.directive, c.skipWhile fun x => !isBreak x)
  pure (t, ← c.skipLine)

end Shorthand.Yaml.Mark
