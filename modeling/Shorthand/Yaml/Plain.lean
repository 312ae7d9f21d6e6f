import Shorthand.Yaml.Quoted

/-!
# Plain scalars

Text without quotes.  It ends before a comment, before a colon that marks a value, and where a
line is indented too little; inside brackets also at a bracket, a comma or a question mark.
-/

namespace Shorthand.Yaml.Plain

/-- The characters that structure a list or map in brackets. -/
def isBracket (c : Char) : Bool := [',', '[', ']', '{', '}'].contains c

def starts (flow : Bool) (c following : Char) : Bool :=
  !(endsWord c || ['-', '?', ':', ',', '[', ']', '{', '}', '#', '&', '*', '!', '|', '>', '\'', '"',
      '%', '@', '\x60'].contains c) ||
    (!endsWord following && (c = '-' || (!flow && (c = '?' || c = ':'))))

def ends (flow : Bool) (c following : Char) : Bool :=
  c = '\t' || (c = ':' && (endsWord following || (flow && isBracket following))) ||
    (flow && (c = '?' || isBracket c))

/-- What was read last: spaces, or line ends and the spaces after them. -/
inductive Mode where
  | blanks (read : List Char)
  | folding (f : Fold) (column : Nat)
  deriving DecidableEq, Repr

def Mode.pending : Mode → List Char
  | .blanks read => read
  | .folding f _ => f.text

def Mode.space : Mode → Mode
  | .blanks read => .blanks (' ' :: read)
  | .folding f column => .folding f (column + 1)

def Mode.lineEnd (c : Char) : Mode → Mode
  | .blanks _ => .folding ⟨some (breakText c), []⟩ 0
  | .folding f _ => .folding { f with later := breakText c :: f.later } 0

def Mode.isFolding : Mode → Bool
  | .blanks _ => false
  | .folding _ _ => true

/-- Does the scalar end before a character that follows spaces or line ends? -/
def Mode.stops (flow : Bool) (indent : Int) (c : Char) : Mode → Bool
  | .blanks read => !read.isEmpty && c = '#'
  | .folding _ column => c = '#' || (!flow && column < indent)

/-- The text of a scalar, what follows it, and whether a line ended on the way there.  `out` is the
text so far, last character first. -/
def scanAfter (flow : Bool) (indent : Int) (mode : Mode) (out : List Char) :
    List Char → List Char × List Char × Bool
  | [] => (out.reverse, [], mode.isFolding)
  | c :: rest =>
    if c = ' ' then scanAfter flow indent mode.space out rest
    else if isBreak c then
      if startsDocumentMark rest then (out.reverse, rest, true)
      else scanAfter flow indent (mode.lineEnd c) out rest
    else if mode.stops flow indent c || ends flow c (firstOf rest) then
      (out.reverse, c :: rest, mode.isFolding)
    else scanAfter flow indent (.blanks []) (c :: mode.pending ++ out) rest

def scan (flow : Bool) (indent : Int) (c : Cursor) : String × Cursor × Bool :=
  let (text, rest, ended) := scanAfter flow indent (.blanks []) [] c.rest
  (.ofList text, c.skipTo rest, ended)

end Shorthand.Yaml.Plain
