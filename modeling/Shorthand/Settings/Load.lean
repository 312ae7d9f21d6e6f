import Shorthand.Document.Load
import Shorthand.Settings

/-!
# Loading settings

Settings are loaded from a YAML file, which may give a text or a list of texts, and a map of
variables.  Main definitions: `Settings.ofValue` for what a file holds, and `Settings.load` for a
file in a store.
-/

namespace Shorthand

namespace Settings

/-- Why settings cannot be loaded: the file cannot be read, a scalar in it has no value, a number in
it is too long to be written, or the settings are not valid. -/
inductive LoadFault where
  | unreadable (fault : Store.Fault)
  | noValue (cause : Yaml.NoValue)
  | longNumber
  | invalid (fault : Fault)
  deriving DecidableEq, Repr

/-! ### What a file holds -/

def names : List String := ["text", "variables"]

def texts? : List Value → Option (List String)
  | [] => some []
  | .string s :: rest => (texts? rest).map (s :: ·)
  | _ :: _ => none

def textOf : Value → Except Fault TextSource
  | .null => .ok .absent
  | .string s => .ok (.whole s)
  | .list items =>
    match texts? items with
    | some xs => .ok (.items (xs.map some))
    | none => .error .textNotText
  | _ => .error .textNotText

/-- The text of the value of a variable, which may be a number. -/
def variableText (name : String) : Value → Except LoadFault String
  | .string s => .ok s
  | .int i => if isWritable i then .ok (toString i) else .error .longNumber
  | .float x => .ok x.text
  | _ => .error (.invalid (.valueNotText name))

def variableName : Key → Except Fault String
  | .string name => if Text.isBlankText name then .error .nameBlank else .ok name
  | _ => .error .nameBlank

/-- The variables of a map, with others set before them. -/
def variablesOf (vars : Variables) : Fields → Except LoadFault Variables
  | [] => .ok vars
  | (key, v) :: rest => do
    let name ← (variableName key).mapError .invalid
    let text ← variableText name v
    variablesOf (vars.put (Text.strip name) text) rest

/-- The settings that a value spells out.  A value for the variables that is blank stands for none. -/
def ofValue : Value → Except LoadFault Settings
  | .null => .ok {}
  | .map fields =>
    match Document.unknownKeys? names fields with
    | none => .error .longNumber
    | some [] => do
      let text ← (textOf (Fields.get fields "text")).mapError .invalid
      match Fields.get fields "variables" with
      | .map vars => pure { text, vars := ← variablesOf [] vars }
      | v => if v.isBlank then pure { text } else throw (.invalid .variablesNotMap)
    | some unknown => .error (.invalid (.unknownKeys unknown))
  | _ => .error (.invalid .notMap)

/-! ### Files -/

variable [Library]

def loadFile (store : Store) (file : String) : Except LoadFault Settings :=
  match store.readText (.ofText file) with
  | .error fault => .error (.unreadable fault)
  | .ok text =>
    match Library.read .yaml text with
    | .error .malformed => .error (.invalid (.malformed Format.Fault.malformed.message))
    | .error (.noValue cause) => .error (.noValue cause)
    | .ok v => ofValue v

/-- The settings in force: what is given counts first, then what the file says, if there is one. -/
def load (store : Store) (file : Option String) (text : TextSource) (vars : Variables) :
    Except LoadFault Settings := do
  let base ←
    match file with
    | none | some "" => pure {}
    | some name => loadFile store name
  pure (base.withGiven text vars)

end Settings

end Shorthand
