import Shorthand.Hindrance
import Shorthand.Text.Quoted
import Shorthand.Value

/-!
# Writing JSON

Values as JSON text, indented by two places.  Strings may be kept to ASCII, and the entries of maps may be
sorted by their keys.  Sets and pairs are written as lists.  The text is written piece by piece, so that a
number that is too long leaves what comes before it.
-/

namespace Shorthand.Json

/-- How JSON is written. -/
structure Style where
  ascii : Bool := false
  sorted : Bool := false
  deriving DecidableEq, Repr

/-! ### Strings -/

def unitEscape (n : Nat) : List Char := '\\' :: 'u' :: Text.hexDigits 4 n

/-- A character that is not visible ASCII as one escape, or as two where it takes a pair of units. -/
def wideEscape (n : Nat) : List Char :=
  if n < 0x10000 then unitEscape n
  else unitEscape (0xD800 + (n - 0x10000) / 0x400) ++ unitEscape (0xDC00 + (n - 0x10000) % 0x400)

def escaped (ascii : Bool) (c : Char) : List Char :=
  if c = '"' then ['\\', '"']
  else if c = '\\' then ['\\', '\\']
  else if c = '\n' then ['\\', 'n']
  else if c = '\r' then ['\\', 'r']
  else if c = '\t' then ['\\', 't']
  else if c = '\x08' then ['\\', 'b']
  else if c = '\x0C' then ['\\', 'f']
  else if c.toNat < 0x20 then unitEscape c.toNat
  else if ascii && 0x7E < c.toNat then wideEscape c.toNat
  else [c]

def stringText (ascii : Bool) (s : String) : String :=
  .ofList ('"' :: s.toList.flatMap (escaped ascii) ++ ['"'])

/-! ### Values -/

def scalarText (ascii : Bool) : Value → String
  | .null => "null"
  | .bool b => if b then "true" else "false"
  | .int i => toString i
  | .float .nan => "NaN"
  | .float (.infinite negative) => if negative then "-Infinity" else "Infinity"
  | .float x => x.text
  | .string s => stringText ascii s
  | .moment m => stringText ascii m.text
  | .bytes bs => stringText ascii (Text.quotedBytes bs)
  | .list _ | .set _ | .pair _ _ | .endless => "[]"
  | .map _ => "\x7b\x7d"

/-! ### Pieces -/

/-- A piece of text that is written at once: an integer, or anything else. -/
inductive Piece where
  | text (s : String)
  | int (i : Int)
  deriving DecidableEq, Repr

def Piece.toText : Piece → String
  | .text s => s
  | .int i => toString i

def Piece.hindrance? : Piece → Option Hindrance
  | .text _ => none
  | .int i => Hindrance.ofInt? i

def scalarPiece (ascii : Bool) : Value → Piece
  | .int i => .int i
  | v => .text (scalarText ascii v)

/-- Entries with the pieces of their values, in the order in which they are written. -/
def arranged (style : Style) (entries : List (String × List Piece)) : List (String × List Piece) :=
  if style.sorted then entries.mergeSort fun a b => a.1 ≤ b.1 else entries

def newLine (depth : Nat) : String := .ofList ('\n' :: .replicate (2 * depth) ' ')

/-- The parts of a list or a map, each on a line of its own. -/
def enclosed (opening closing : String) (depth : Nat) (parts : List (List Piece)) : List Piece :=
  if parts.isEmpty then [.text (opening ++ closing)]
  else
    .text (opening ++ newLine (depth + 1)) ::
      [Piece.text ("," ++ newLine (depth + 1))].intercalate parts ++ [.text (newLine depth ++ closing)]

mutual

/-- A value over several lines, where `depth` lists and maps are open around it. -/
def pieces (style : Style) (depth : Nat) : Value → List Piece
  | .list items => enclosed "[" "]" depth (itemPieces style (depth + 1) items)
  | .set keys => enclosed "[" "]" depth (keys.map fun key => [scalarPiece style.ascii key.toValue])
  | .pair a b => enclosed "[" "]" depth [pieces style (depth + 1) a, pieces style (depth + 1) b]
  | .map fields =>
    enclosed "\x7b" "\x7d" depth
      ((arranged style (fieldPieces style (depth + 1) fields)).map fun (name, value) =>
        .text (stringText style.ascii name) :: .text ": " :: value)
  | v => [scalarPiece style.ascii v]

def itemPieces (style : Style) (depth : Nat) : List Value → List (List Piece)
  | [] => []
  | v :: rest => pieces style depth v :: itemPieces style depth rest

def fieldPieces (style : Style) (depth : Nat) : Fields → List (String × List Piece)
  | [] => []
  | (key, v) :: rest => (key.text, pieces style depth v) :: fieldPieces style depth rest

end

def indented (style : Style) (v : Value) : String := .join ((pieces style 0 v).map Piece.toText)

/-- What is written of a value, and what breaks the writing off, if anything does. -/
def write (v : Value) : String × Option Hindrance :=
  let all := pieces {} 0 v
  (.join ((all.takeWhile fun p => p.hindrance?.isNone).map Piece.toText), all.findSome? Piece.hindrance?)

end Shorthand.Json
