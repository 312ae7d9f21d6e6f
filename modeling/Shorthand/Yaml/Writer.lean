import Shorthand.Text.Base64
import Shorthand.Text.Quoted
import Shorthand.Yaml.Implicit
import Shorthand.Yaml.Layout

/-!
# Writing YAML

A value as a YAML text.  Lists and maps are written without brackets unless they are empty, and pairs
as lists of two.  A word that cannot be taken for anything else stands as it is.  Text over several
lines stands in single quotes, where a next-line character is read as a line feed, so that it is
folded: that is the one thing that is not read back as it was.  All other text stands in double
quotes, with an escape for every character that would not survive.
-/

namespace Shorthand.Yaml

namespace Writer

open Number (Binary64)

/-! ### Scalars -/

/-- Does a character stand for itself between double quotes? -/
def isPlainChar (c : Char) : Bool :=
  isAllowed c && !isBreak c && c ≠ '\t' && c ≠ '\r' && !isByteOrderMark c

def escaped (c : Char) : List Char :=
  if c = '"' || c = '\\' then ['\\', c]
  else if c = '\n' then ['\\', 'n']
  else if c = '\t' then ['\\', 't']
  else if isPlainChar c then [c]
  else if c.toNat < 0x100 then '\\' :: 'x' :: Text.hexDigits 2 c.toNat
  else '\\' :: 'u' :: Text.hexDigits 4 c.toNat

/-- Letters and underscores that a reader takes for text. -/
def isWord (s : String) : Bool :=
  !s.isEmpty && s.toList.all (fun c => c.isAlpha || c = '_') && Implicit.tag s = .text

/-- Text on one line. -/
def lineString (s : String) : String :=
  if isWord s then s else .ofList ('"' :: s.toList.flatMap escaped ++ ['"'])

/-- Does a character stand for itself between single quotes? -/
def isFoldedChar (c : Char) : Bool := isBreak c || (isPlainChar c && c.toNat < 0x10FFFF)

def hasLooseSpace : List Char → Bool
  | c :: d :: rest => (c = ' ' && isBreak d) || (isBreak c && d = ' ') || hasLooseSpace (d :: rest)
  | _ => false

/-- Text over several lines, all of which are read back from single quotes. -/
def isFolded (cs : List Char) : Bool :=
  cs.any isBreak && cs.all isFoldedChar && !hasLooseSpace cs

/-- The line ends and characters between single quotes, behind a line end or not.  A line feed behind
other characters is written twice, because the first of two is not read. -/
def foldedText (behindBreak : Bool) : List Char → List Char
  | [] => if behindBreak then [' ', ' '] else []
  | c :: rest =>
    if isBreak c then
      (if c = '\n' && !behindBreak then ['\n', '\n'] else [c]) ++ foldedText true rest
    else
      (if behindBreak then [' ', ' '] else []) ++ (if c = '\'' then ['\'', '\''] else [c]) ++
        foldedText false rest

def stringText (s : String) : String :=
  if isFolded s.toList then .ofList ('\'' :: foldedText false s.toList ++ ['\'']) else lineString s

/-- A number that keeps its point in front of an exponent. -/
def floatText : Binary64 → String
  | .nan => ".nan"
  | .infinite negative => if negative then "-.inf" else ".inf"
  | x =>
    let (digits, rest) := x.text.toList.span fun c => c ≠ 'e'
    if rest.isEmpty || digits.contains '.' then x.text else .ofList (digits ++ ['.', '0'] ++ rest)

def keyText : Key → String
  | .null => "null"
  | .bool b => if b then "true" else "false"
  | .int i => toString i
  | .float x => floatText x
  | .string s => lineString s
  | .moment m => m.text
  | .bytes bs => "!!binary \"" ++ .ofList (Text.Base64.encode bs) ++ "\""

/-- The text of a value that is written without lines of its own. -/
def lineText? : Value → Option String
  | .null => some (keyText .null)
  | .bool b => some (keyText (.bool b))
  | .int i => some (keyText (.int i))
  | .float x => some (keyText (.float x))
  | .string s => some (stringText s)
  | .moment m => some (keyText (.moment m))
  | .bytes bs => some (keyText (.bytes bs))
  | .set keys => some ("!!set \x7b" ++ ", ".intercalate (keys.map keyText) ++ "\x7d")
  | .list [] => some "[]"
  | .map [] => some "\x7b\x7d"
  | .list (_ :: _) => none
  | .map (_ :: _) => none
  | .pair _ _ => none
  | .endless => none

/-! ### Lines -/

def indent (lines : List String) : List String := lines.map ("  " ++ ·)

/-- Lines behind a mark of two characters. -/
def behind (mark : String) : List String → List String
  | [] => []
  | first :: rest => (mark ++ first) :: indent rest

/-- An entry of a map; a long key has to be marked as one. -/
def entryLines (key : Key) (line? : Option String) (lines : List String) : List String :=
  let text := keyText key
  if longestKey < text.length then ("? " ++ text) :: behind ": " lines
  else
    match line? with
    | some line => [text ++ ": " ++ line]
    | none => (text ++ ":") :: indent lines

mutual

def lines : Value → List String
  | .list (v :: rest) => itemLines (v :: rest)
  | .map (field :: rest) => fieldLines (field :: rest)
  | .pair a b => behind "- " (lines a) ++ behind "- " (lines b)
  | v => [(lineText? v).getD ""]

def itemLines : List Value → List String
  | [] => []
  | v :: rest => behind "- " (lines v) ++ itemLines rest

def fieldLines : Fields → List String
  | [] => []
  | (key, v) :: rest => entryLines key (lineText? v) (lines v) ++ fieldLines rest

end

end Writer

def text (v : Value) : String := .join ((Writer.lines v).map (· ++ "\n"))

/-- What is written of a value, and what breaks the writing off.  All numbers are looked at before anything
is written. -/
def write (v : Value) : String × Option Hindrance :=
  if v.isWritable then (text v, none) else ("", some .longNumber)

end Shorthand.Yaml
