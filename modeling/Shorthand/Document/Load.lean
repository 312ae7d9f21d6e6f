import Shorthand.Document
import Shorthand.Document.Format
import Shorthand.Log

/-!
# Loading documents

A document is loaded from a file.  What keeps it from being loaded is reported; keys that a
document does not have are passed over with a warning.  Main definitions: `Document.ofValue` for
what a file holds, and `Document.load` for a file in a store.
-/

namespace Shorthand

namespace Document

/-- Why a document cannot be loaded. -/
inductive LoadFault where
  | notFound
  | unsupportedFormat
  | unreadable (fault : Store.Fault)
  | unparsable (format : Format) (fault : Format.Fault)
  | empty
  | notMap
  | unsupportedVersion (version : String)
  deriving DecidableEq, Repr

def LoadFault.code : LoadFault → String
  | .notFound => "E_FILE_NOT_FOUND"
  | .unsupportedFormat => "E_UNSUPPORTED_FORMAT"
  | .unreadable _ => "E_FILE_READ"
  | .unparsable .json _ => "E_JSON_PARSE"
  | .unparsable .yaml _ => "E_YAML_PARSE"
  | .empty => "E_EMPTY_DOCUMENT"
  | .notMap => "E_INVALID_TOP_LEVEL"
  | .unsupportedVersion _ => "E_UNSUPPORTED_SCHEMA"

def unreadableMessage : Store.Fault → String
  | .notFound => "the file does not exist"
  | .notFolder => "a part of the path is not a folder"
  | .isFolder => "the path names a folder"
  | .alreadyExists => "the file exists already"
  | .nullCharacter => "the path holds a null character"
  | .nameTooLong => "a name in the path is too long"
  | .notText => "the file is not text in UTF-8"

def LoadFault.message : LoadFault → String
  | .notFound => "file does not exist"
  | .unsupportedFormat => "supported formats are .json, .yaml, .yml"
  | .unreadable fault => unreadableMessage fault
  | .unparsable _ fault => fault.message
  | .empty => "document is empty"
  | .notMap => "top-level document must be a mapping/object"
  | .unsupportedVersion version => "schema_version " ++ version ++ " is not supported (expected 0.x)"

def LoadFault.position : LoadFault → Option String
  | .unsupportedVersion _ => some "schema_version"
  | _ => none

def LoadFault.diagnostic (file : String) (fault : LoadFault) : Diagnostic :=
  { stage := .load, code := fault.code, message := fault.message, file := some file, position := fault.position }

/-- Why there is no document: a fault that is reported, or a failure that nothing is reported about.
That is a path that cannot be followed, a scalar without a value, or a number too long to be
written. -/
inductive LoadFailure where
  | reported (fault : LoadFault)
  | unreachable (fault : Store.Fault)
  | noValue (cause : Yaml.NoValue)
  | longNumber
  deriving DecidableEq, Repr

/-- A scalar without a value is reported if it names what does not exist; nothing is reported about
the others. -/
def LoadFailure.ofFormat (format : Format) (fault : Format.Fault) : LoadFailure :=
  match fault with
  | .malformed | .noValue .absent => .reported (.unparsable format fault)
  | .noValue cause => .noValue cause

/-! ### What a file holds -/

def names : List String := ["schema_version", "abbreviation", "tree"]

/-- The texts of the keys that are not known, in order; there are none if one of them cannot be
written. -/
def unknownKeys? (known : List String) (fields : Fields) : Option (List String) :=
  let unknown := (fields.map (·.1)).filter fun key => !known.any fun name => key == .string name
  if unknown.all Key.isWritable then some (unknown.map Key.text).mergeSort else none

def keyWarnings (file : String) (unknown : List String) : List LogLine :=
  if unknown.isEmpty then []
  else
    [{ level := .warning
       message := file ++ ": ignoring unknown top-level keys: " ++ ", ".intercalate unknown }]

def majorVersion (version : String) : String :=
  .ofList ((Text.strip version).toList.takeWhile fun c => c ≠ '.')

/-- The only version so far. -/
def supportedMajor : String := "0"

/-- Is the version one of those to come?  A missing version is left to validation. -/
def unsupportedVersion? : Value → Option String
  | .string s => if !Text.isBlankText s && majorVersion s ≠ supportedMajor then some s else none
  | _ => none

/-- The elements of a tree may be given without the map around them. -/
def wrapTree : Value → Value
  | .list elements => .record [("elements", .list elements)]
  | tree => tree

def ofMap (file : String) (fields : Fields) : Except LoadFault Document :=
  let d := ofFields fields (some file)
  match unsupportedVersion? d.version with
  | some version => .error (.unsupportedVersion version)
  | none => .ok { d with tree := wrapTree d.tree }

/-- The document that is loaded, or why there is none, and what is logged about it. -/
structure Loading where
  result : Except LoadFailure Document
  log : List LogLine := []

def ofValue (file : String) : Value → Loading
  | .null => { result := .error (.reported .empty) }
  | .map fields =>
    match unknownKeys? names fields with
    | some unknown => { result := (ofMap file fields).mapError .reported, log := keyWarnings file unknown }
    | none => { result := .error .longNumber }
  | _ => { result := .error (.reported .notMap) }

/-! ### Files -/

variable [Library]

def readValue (store : Store) (path : Path) : Except LoadFailure Value :=
  match store.find path, Format.ofSuffix? path.suffix with
  | .error .nameTooLong, _ => .error (.unreachable .nameTooLong)
  | .error _, _ => .error (.reported .notFound)
  | .ok _, none => .error (.reported .unsupportedFormat)
  | .ok _, some format =>
    match store.readText path with
    | .error fault => .error (.reported (.unreadable fault))
    | .ok text => (Library.read format text).mapError (.ofFormat format)

def loadFrom (store : Store) (path : Path) : Loading :=
  match readValue store path with
  | .error fault => { result := .error fault }
  | .ok v => ofValue path.text v

def load (store : Store) (file : String) : Loading := loadFrom store (.ofText file)

end Document

end Shorthand
