import Shorthand.Json.Reader
import Shorthand.Json.Writer
import Shorthand.Store
import Shorthand.Yaml.Reader
import Shorthand.Yaml.Writer

/-!
# Formats of data files

Data is read and written as JSON or as YAML.  The suffix of its name says which of them a file holds.  What
reads and writes them is a parameter of everything that works with files.
-/

namespace Shorthand

/-- How the text of a file is read and written. -/
inductive Format where
  | json
  | yaml
  deriving DecidableEq, Repr

/-- Why text has no value: it breaks the rules of its format, or a scalar in it has no value. -/
inductive Format.Fault where
  | malformed
  | noValue (cause : Yaml.NoValue)
  deriving DecidableEq, Repr

namespace Format

def ofSuffix? (suffix : String) : Option Format :=
  [(".json", json), (".yaml", yaml), (".yml", yaml)].lookup suffix

def Fault.message : Fault → String
  | .malformed => "the text does not follow the rules of its format"
  | .noValue .absent => "the text names a number, a day or a character that does not exist"
  | .noValue .emptyNumber => "the text holds a number without digits"
  | .noValue .unknownWord => "the text holds an unknown word for a truth value"
  | .noValue .shapeless => "the text holds a day that does not have the form of one"
  | .noValue .parted => "the text holds a day that has parts"
  | .noValue .outOfRange => "the text holds a number that is out of range"
  | .noValue .halfCharacter => "the text holds half a character"

def read (format : Format) (text : String) : Except Fault Value :=
  match format with
  | .json =>
    match Json.read text with
    | .ok v => .ok v
    | .error .malformed => .error .malformed
    | .error .halfCharacter => .error (.noValue .halfCharacter)
  | .yaml =>
    match Yaml.read text with
    | .ok v => .ok v
    | .error .malformed => .error .malformed
    | .error (.noValue cause) => .error (.noValue cause)

/-- What is written of a value in a format, and what breaks the writing off, if anything does. -/
def write (format : Format) (v : Value) : String × Option Hindrance :=
  match format with
  | .json => Json.write v
  | .yaml => Yaml.write v

end Format

/-- What reads and writes the formats.  Writing may break off; what has been written by then is written. -/
class Library where
  read (format : Format) (text : String) : Except Format.Fault Value
  write (format : Format) (v : Value) : String × Option Hindrance

instance : Library := ⟨Format.read, Format.write⟩

end Shorthand
