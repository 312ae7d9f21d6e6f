import Shorthand.Expansion.Source
import Shorthand.Text.Blank
import Shorthand.Value

/-!
# Settings

The text and the variables for an expansion, as they are given by a settings file or on the command
line.  What is given later counts before what was given earlier, and there are variables that exist
without being given.
-/

namespace Shorthand

/-- Names with their values, each name once. -/
abbrev Variables := List (String × String)

namespace Variables

/-- A variable is set: one that exists keeps its place. -/
def put (name value : String) : Variables → Variables
  | [] => [(name, value)]
  | (n, v) :: rest => if n = name then (name, value) :: rest else (n, v) :: put name value rest

/-- Variables with others set on top of them, one after the other. -/
def override (base others : Variables) : Variables :=
  others.foldl (fun vars (name, value) => put name value vars) base

def builtIn : Variables :=
  [("lang", "en"), ("locale", "en-US"), ("charset", "UTF-8"), ("indentation", "\t"), ("newline", "\n")]

/-! ### Small lemmas -/

theorem lookup_put (name value : String) (vars : Variables) (n : String) :
    (put name value vars).lookup n = if n = name then some value else vars.lookup n := by
  induction vars with
  | nil =>
    by_cases h : n = name
    · simp [put, h]
    · simp [put, List.lookup_cons, beq_eq_false_iff_ne.2 h, h]
  | cons entry rest ih =>
    obtain ⟨m, v⟩ := entry
    by_cases hm : m = name
    · subst hm
      by_cases h : n = m
      · simp [put, h]
      · simp [put, List.lookup_cons, beq_eq_false_iff_ne.2 h, h]
    · by_cases h : n = m
      · subst h
        simp [put, hm]
      · simp [put, List.lookup_cons, hm, beq_eq_false_iff_ne.2 h, ih]

end Variables

/-- What an expansion is to use. -/
structure Settings where
  text : TextSource := .absent
  vars : Variables := []
  deriving DecidableEq, Repr

namespace Settings

/-- Why settings are not valid. -/
inductive Fault where
  | malformed (message : String)
  | notMap
  | unknownKeys (names : List String)
  | textNotText
  | variablesNotMap
  | nameBlank
  | valueNotText (name : String)
  | notAssignment (item : String)
  deriving DecidableEq, Repr

def Fault.message : Fault → String
  | .malformed message => "config file is not valid YAML: " ++ message
  | .notMap => "config file must be a mapping with optional 'text' and 'variables'"
  | .unknownKeys names => "unknown config keys: " ++ ", ".intercalate names
  | .textNotText => "'text' must be a string or a list of strings"
  | .variablesNotMap => "'variables' must be a mapping of name -> string"
  | .nameBlank => "variable names must be non-empty strings"
  | .valueNotText name => "variable '" ++ name ++ "' must be a string"
  | .notAssignment item => "variable must be given as name=value, got: " ++ item

/-! ### Assignments -/

/-- The name and the value of an assignment, which stand on the two sides of its first equals sign.
The name is not blank. -/
def assignment (item : String) : Except Fault (String × String) :=
  let (name, rest) := item.toList.span fun c => c ≠ '='
  match rest with
  | '=' :: value =>
    if name.all Text.isBlank then .error (.notAssignment item)
    else .ok (.ofList (Text.stripList name), .ofList value)
  | _ => .error (.notAssignment item)

/-- The variables of some assignments, of which the last one of a name counts. -/
def assignments (items : List String) : Except Fault Variables :=
  items.foldlM (fun vars item => (assignment item).map fun (name, value) => vars.put name value) []

/-! ### Precedence -/

/-- Settings with text and variables given on top of them, on the ground of what exists anyway. -/
def withGiven (base : Settings) (text : TextSource) (vars : Variables) : Settings :=
  { text := if text = .absent then base.text else text
    vars := (Variables.builtIn.override base.vars).override vars }

def source (s : Settings) : Source :=
  { text := s.text, vars := some (s.vars.map fun (name, value) => (name, some value)) }

end Settings

end Shorthand
