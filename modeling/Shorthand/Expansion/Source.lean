import Shorthand.Token

/-!
# Sources of an expansion

What an abbreviation is expanded with: the text for its implicit repeaters and placeholders, and
the variables that its references name.
-/

namespace Shorthand

/-- The text: none, one piece, or a list of items, some of which may be missing. -/
inductive TextSource where
  | absent
  | whole (s : String)
  | items (xs : List (Option String))
  deriving DecidableEq, Repr

/-- Text and variables. -/
structure Source where
  text : TextSource := .absent
  vars : Option (List (String × Option String)) := none
  deriving DecidableEq, Repr

namespace Source

def items? (src : Source) : Option (List (Option String)) :=
  match src.text with
  | .items xs => some xs
  | _ => none

/-- The text as a whole: items stand on lines of their own. -/
def wholeText (src : Source) : String :=
  match src.text with
  | .absent => ""
  | .whole s => s
  | .items xs => "\n".intercalate (xs.map (·.getD ""))

/-- The text of one copy: its item where text is a list, and otherwise all of it. -/
def textAt (src : Source) (position : Int) : String :=
  match src.text with
  | .items xs => if position < 0 then "" else (xs[position.toNat]?.getD none).getD ""
  | _ => src.wholeText

/-- Is there a variable of this name, with or without a value? -/
def knows (src : Source) (name : String) : Bool :=
  (src.vars.getD []).any fun (n, _) => n == name

/-- The value of a variable; one without a value stands for its name. -/
def valueOf (src : Source) (name : String) : String :=
  (((src.vars.getD []).lookup name).getD none).getD name

end Source

/-- How many copies a repeater makes.  An implicit one makes a copy for every item of text; else
no count and a count of zero mean one copy. -/
def Repeater.copies (src : Source) (r : Repeater) : Int :=
  match r.implicit, src.items? with
  | true, some xs => xs.length
  | _, _ => if r.count.getD 0 = 0 then 1 else r.count.getD 0

end Shorthand
