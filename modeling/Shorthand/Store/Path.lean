/-!
# Paths

The names of files.  A path is kept without the parts of its text that lead nowhere: empty ones and
single dots.  A double dot stays, since it depends on the folders that there are.
-/

namespace Shorthand

/-- A path: the slashes it starts with, and the names behind them.  A path without slashes at its
start leads from the working folder. -/
structure Path where
  root : String := ""
  names : List String := []
  deriving DecidableEq, Repr

namespace Path

/-- The parts of a text between slashes. -/
def splitSlashes (cs : List Char) : List (List Char) :=
  cs.foldr
    (fun c parts =>
      match parts with
      | [] => [[c]]
      | part :: rest => if c = '/' then [] :: part :: rest else (c :: part) :: rest)
    [[]]

/-- Two slashes at the start are kept as they are, and any other number is one. -/
def rootOf : List Char → String
  | '/' :: '/' :: '/' :: _ => "/"
  | '/' :: '/' :: _ => "//"
  | '/' :: _ => "/"
  | _ => ""

def leads (part : String) : Bool := !(part.isEmpty || part == ".")

def ofText (s : String) : Path :=
  { root := rootOf s.toList, names := ((splitSlashes s.toList).map String.ofList).filter leads }

/-- The path as text; a dot stands for the working folder. -/
def text (p : Path) : String :=
  if p.root.isEmpty && p.names.isEmpty then "." else p.root ++ "/".intercalate p.names

def name (p : Path) : String := p.names.getLastD ""

def parent (p : Path) : Path := { p with names := p.names.dropLast }

def isWorkingFolder (p : Path) : Bool := p.root.isEmpty && p.names.isEmpty

/-- What stands behind the last dot of a name, with the dot.  A dot with which the name starts or
ends does not count. -/
def suffixOf (name : List Char) : List Char :=
  let behind := (name.reverse.takeWhile fun c => c ≠ '.').reverse
  let before := name.length - behind.length
  if before < 2 || behind.isEmpty then [] else '.' :: behind

def suffix (p : Path) : String := .ofList ((suffixOf p.name.toList).map Char.toLower)

end Path

end Shorthand
