import Shorthand.Expansion.Source
import Shorthand.Log
import Shorthand.Text.Quoted

/-!
# The state of an expansion

An expansion keeps the repeaters it is inside of, remembers whether the text has found its place,
and logs what it does.
-/

namespace Shorthand

/-- Something worth a line in the log. -/
inductive Event where
  | expanding (copies : Int) (implicit : Bool)
  | insertedText (copies : Int)
  | unmatchedQuote (owner : Option String)
  | unmatchedExpression (owner : Option String)
  | unresolved (name : String)
  deriving DecidableEq, Repr

def Event.line : Event → LogLine
  | .expanding copies implicit =>
    ⟨.debug, s!"expanding repeater count={copies} implicit=" ++ (if implicit then "True" else "False")⟩
  | .insertedText copies => ⟨.debug, s!"inserted implicit repeater text into {copies} copies"⟩
  | .unmatchedQuote name => ⟨.warning, s!"attribute {Text.quotedOrNone name}: unmatched quote in value"⟩
  | .unmatchedExpression name =>
    ⟨.warning, s!"attribute {Text.quotedOrNone name}: unmatched expression bracket in value"⟩
  | .unresolved name => ⟨.debug, s!"unresolved variable {Text.quoted name} rendered as its name"⟩

/-- The repeaters around the statement at hand, innermost first; whether text was placed; and the
log, newest event first. -/
structure State where
  stack : List Repeater := []
  inserted : Bool := false
  log : List Event := []
  deriving DecidableEq, Repr

/-- A computation that expands something. -/
abbrev Expansion := StateM State

namespace State

def events (s : State) : List Event := s.log.reverse

def implicit? (s : State) : Option Repeater := s.stack.find? (·.implicit)

def note (e : Event) (s : State) : State := { s with log := e :: s.log }

def push (r : Repeater) (s : State) : State := { s with stack := r :: s.stack }

/-- The innermost repeater is replaced, if there is one. -/
def replaceTop (r : Repeater) (s : State) : State :=
  match s.stack with
  | [] => s
  | _ :: outer => { s with stack := r :: outer }

/-- The innermost repeater is taken away, if there is one. -/
def pop (s : State) : State := { s with stack := s.stack.tail }

def setInserted (inserted : Bool) (s : State) : State := { s with inserted }

end State

end Shorthand
