/-!
# Lines of text

Two ways in which text read from a file is cut: all line ends become one line feed when the
file is read, and a list of items takes one item a line.
-/

namespace Shorthand.Text

/-- A carriage return, alone or before a line feed, becomes a line feed. -/
def foldLineEnds : List Char → List Char
  | [] => []
  | '\r' :: '\n' :: rest => '\n' :: foldLineEnds rest
  | '\r' :: rest => '\n' :: foldLineEnds rest
  | c :: rest => c :: foldLineEnds rest

/-- Every character after which a line ends. -/
def endsLine (c : Char) : Bool :=
  let n := c.toNat
  (0x0A ≤ n && n ≤ 0x0D) || (0x1C ≤ n && n ≤ 0x1E) || n == 0x85 || n == 0x2028 || n == 0x2029

/-- The lines of a text, where `line` is what stands before it on its first line, last character
first.  No empty line follows the last line end. -/
def linesAfter (line : List Char) : List Char → List String
  | [] => if line.isEmpty then [] else [.ofList line.reverse]
  | '\r' :: '\n' :: rest => .ofList line.reverse :: linesAfter [] rest
  | c :: rest =>
    if endsLine c then .ofList line.reverse :: linesAfter [] rest else linesAfter (c :: line) rest

def lines (s : String) : List String := linesAfter [] s.toList

end Shorthand.Text
