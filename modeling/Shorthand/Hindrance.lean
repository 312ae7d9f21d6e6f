import Shorthand.Number.Binary64
import Shorthand.Number.Digits

/-!
# Hindrances

What makes a command break off though nothing is wrong with what it is about: an integer or a text that is
too long to be written, half a character, and data that goes on without end.
-/

namespace Shorthand

/-- An integer that has too many digits, a number that is to fill more characters than a text can have, a
character that has no encoding because one half of it is missing, or a list or a map that holds itself. -/
inductive Hindrance where
  | longNumber
  | wideNumber
  | halfCharacter
  | endless
  deriving DecidableEq, Repr

/-- May an integer be written out?  It has no more digits than one that is read. -/
def isWritable (i : Int) : Bool := i.natAbs < Number.power 10 Number.mostDigits

def Hindrance.ofInt? (i : Int) : Option Hindrance := if isWritable i then none else some .longNumber

theorem Hindrance.ofInt?_eq_some {i : Int} {h : Hindrance} :
    ofInt? i = some h ↔ h = .longNumber ∧ isWritable i = false := by
  unfold ofInt?
  cases isWritable i with
  | true => simp
  | false => simp [eq_comm]

theorem Hindrance.ofInt?_eq_none {i : Int} : ofInt? i = none ↔ isWritable i = true := by
  unfold ofInt?
  cases isWritable i <;> simp

end Shorthand
