import Shorthand.Show.Label
import Shorthand.Text.Width

/-!
# Drawings

An outline drawn with guide lines, the markup of its labels read away.  A label may run over
several lines, and its tabs are filled up with spaces.
-/

namespace Shorthand

namespace Drawing

/-- The columns between two tab stops. -/
def tabWidth : Nat := 8

/-- A line with its tabs filled up, where `part` is what has been read since the last tab stop, last
character first, and `column` is that tab stop.  A tab is one space at least, which is measured
together with the text in front of it. -/
def fillTabs (column : Nat) (part : List Char) : List Char → List Char
  | [] => part.reverse
  | c :: rest =>
    if c = '\t' then
      let part := part.reverse ++ [' ']
      let column := column + Text.width part
      let fill := (tabWidth - column % tabWidth) % tabWidth
      part ++ List.replicate fill ' ' ++ fillTabs (column + fill) [] rest
    else fillTabs column (c :: part) rest

/-- The lines of a text, of which there is at least one. -/
def splitLines (cs : List Char) : List (List Char) :=
  cs.foldr
    (fun c lines =>
      match lines with
      | [] => [[c]]
      | line :: rest => if c = '\n' then [] :: line :: rest else (c :: line) :: rest)
    [[]]

def labelLines (label : String) : Except Markup.Fault (List String) := do
  let cs ← Markup.read label
  pure ((splitLines cs).map fun line => .ofList (fillTabs 0 [] line))

/-- Lines with one guide before the first and another before the others. -/
def guided (before first later : String) : List String → List String
  | [] => []
  | line :: rest => (before ++ first ++ line) :: rest.map fun l => before ++ later ++ l

mutual

/-- The lines of an outline: `before` are the guides of the outlines around it, `first` and `later`
its own. -/
def draw (before first later : String) : Outline → Except Markup.Fault (List String)
  | .item label children => do
    let lines ← labelLines label
    let below ← drawAll (before ++ later) children
    pure (guided before first later lines ++ below)

/-- The lines of some outlines side by side, of which the last one has a guide of its own. -/
def drawAll (before : String) : List Outline → Except Markup.Fault (List String)
  | [] => pure []
  | o :: rest => do
    let lines ←
      if rest.isEmpty then draw before "└── " "    " o else draw before "├── " "│   " o
    let others ← drawAll before rest
    pure (lines ++ others)

end

end Drawing

def Outline.draw (o : Outline) : Except Markup.Fault (List String) := Drawing.draw "" "" "" o

end Shorthand
