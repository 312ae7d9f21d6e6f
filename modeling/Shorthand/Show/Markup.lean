import Shorthand.Text.Blank

/-!
# Markup

Text with tags in square brackets.  A tag may have backslashes before it: an odd number of them
makes it plain text, and every two stand for one.
-/

namespace Shorthand.Markup

def startsTag (c : Char) : Bool := ('a' ≤ c && c ≤ 'z') || c = '#' || c = '/' || c = '@'

/-- What stands before the first closing bracket, if no opening bracket comes before it. -/
def upToClose? : List Char → Option (List Char)
  | [] => none
  | c :: rest =>
    if c = ']' then some []
    else if c = '[' then none
    else (upToClose? rest).map (c :: ·)

/-- What a tag holds, where its opening bracket has been read. -/
def body? : List Char → Option (List Char)
  | [] => none
  | c :: rest => if startsTag c then (upToClose? rest).map (c :: ·) else none

/-- Markup falls into plain text and tags with the backslashes before them. -/
inductive Piece where
  | plain (cs : List Char)
  | tag (slashes : Nat) (body : List Char)
  deriving DecidableEq, Repr

def slashes (n : Nat) : List Char := .replicate n '\\'

def plainPiece (text : List Char) : List Piece := if text.isEmpty then [] else [.plain text.reverse]

/-- The pieces of markup.  `text` is the plain text so far, last character first, `n` the number of
backslashes after it, and `skip` the number of characters that a tag has used up already. -/
def piecesAfter (text : List Char) (n skip : Nat) : List Char → List Piece
  | [] => plainPiece (slashes n ++ text)
  | c :: rest =>
    if 0 < skip then piecesAfter text n (skip - 1) rest
    else if c = '\\' then piecesAfter text (n + 1) 0 rest
    else if c = '[' then
      match body? rest with
      | some body => plainPiece text ++ .tag n body :: piecesAfter [] 0 (body.length + 1) rest
      | none => piecesAfter ('[' :: slashes n ++ text) 0 0 rest
    else piecesAfter (c :: slashes n ++ text) 0 0 rest

def pieces (cs : List Char) : List Piece := piecesAfter [] 0 0 cs

/-! ### Escaping -/

/-- A piece with one backslash more than twice those before a tag. -/
def Piece.escaped : Piece → List Char
  | .plain cs => cs
  | .tag n body => slashes (2 * n + 1) ++ '[' :: body ++ [']']

/-- A single backslash at the end is doubled. -/
def closeSlash (cs : List Char) : List Char :=
  match cs.reverse with
  | '\\' :: '\\' :: _ => cs
  | '\\' :: _ => cs ++ ['\\']
  | _ => cs

def escape (s : String) : String := .ofList (closeSlash ((pieces s.toList).flatMap Piece.escaped))

/-! ### Reading -/

/-- Plain text loses the backslash before each opening bracket. -/
def unslash : List Char → List Char
  | '\\' :: '[' :: rest => '[' :: unslash rest
  | c :: rest => c :: unslash rest
  | [] => []

/-- Why markup has no text: a closing tag without the tag it closes. -/
inductive Fault where
  | nothingToClose (tag : String)
  deriving DecidableEq, Repr

/-- The name of a tag: what stands before an equals sign. -/
def tagName (body : List Char) : List Char := body.takeWhile (· ≠ '=')

/-- Names are compared without blanks around them and in lower case. -/
def normalName (name : List Char) : List Char := (Text.stripList name).map Char.toLower

/-- The plain text so far, last character first, and the names of the open tags, innermost first. -/
structure Reading where
  text : List Char := []
  openTags : List (List Char) := []

/-- The innermost tag of a name is closed, or the innermost tag if no name is given. -/
def closeTag (name : List Char) (tags : List (List Char)) : Option (List (List Char)) :=
  if name.isEmpty then (if tags.isEmpty then none else some tags.tail)
  else if tags.contains (normalName name) then some (tags.erase (normalName name))
  else none

def readTag (r : Reading) (body : List Char) : Except Fault Reading :=
  match tagName body with
  | '/' :: name =>
    match closeTag (Text.stripList name) r.openTags with
    | some tags => .ok { r with openTags := tags }
    | none => .error (.nothingToClose (.ofList body))
  | name => .ok { r with openTags := normalName name :: r.openTags }

def readPiece (r : Reading) : Piece → Except Fault Reading
  | .plain cs => .ok { r with text := (unslash cs).reverse ++ r.text }
  | .tag n body =>
    let r := { r with text := slashes (n / 2) ++ r.text }
    if n % 2 = 1 then .ok { r with text := (('[' :: body) ++ [']']).reverse ++ r.text }
    else readTag r body

/-- The characters that are never shown: bell, backspace, vertical tab, form feed and return. -/
def isControl (c : Char) : Bool := [7, 8, 11, 12, 13].contains c.toNat

def read (s : String) : Except Fault (List Char) := do
  let r ← (pieces s.toList).foldlM readPiece {}
  pure (r.text.reverse.filter fun c => !isControl c)

end Shorthand.Markup
