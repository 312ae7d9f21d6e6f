import Shorthand.Position
import Shorthand.Statement

/-!
# The walk over a tree

Every statement below the root with its position, each before its children, and the counts
taken on the way.
-/

namespace Shorthand

mutual

/-- A statement at a position and the statements below it. -/
def Statement.walk (p : Position) : Statement → List (Position × Statement)
  | .element head cs r => (p, .element head cs r) :: Statement.walkAll (p.field "elements") 0 cs
  | .group cs r => (p, .group cs r) :: Statement.walkAll (p.field "elements") 0 cs

/-- The statements of a list at a position, counted from `i`, and those below them. -/
def Statement.walkAll (p : Position) (i : Nat) : List Statement → List (Position × Statement)
  | [] => []
  | s :: rest => s.walk (p.item i) ++ Statement.walkAll p (i + 1) rest

end

namespace Tree

def root : Position := [.field "tree"]

def walk (t : Tree) : List (Position × Statement) :=
  Statement.walkAll (root.field "elements") 0 t.statements

/-- The counts of a tree. -/
structure Stats where
  elements : Nat := 0
  groups : Nat := 0
  attributes : Nat := 0
  explicitRepeats : Nat := 0
  implicitRepeats : Nat := 0
  deriving DecidableEq, Repr

def Stats.count (stats : Stats) (s : Statement) : Stats :=
  let stats := match s with
    | .element _ _ _ =>
      { stats with elements := stats.elements + 1, attributes := stats.attributes + s.attributes.length }
    | .group _ _ => { stats with groups := stats.groups + 1 }
  match s.repeater with
  | none => stats
  | some r =>
    if r.implicit then { stats with implicitRepeats := stats.implicitRepeats + 1 }
    else { stats with explicitRepeats := stats.explicitRepeats + 1 }

def stats (t : Tree) : Stats := (t.walk.map (·.2)).foldl Stats.count {}

def summary (t : Tree) : String :=
  let s := t.stats
  s!"OK: {s.elements} elements, {s.groups} groups, {s.attributes} attributes\n" ++
    s!"Repeats: explicit={s.explicitRepeats}, implicit={s.implicitRepeats}"

end Tree

end Shorthand
