import Shorthand.Value

/-!
# Diagnostics

What is reported about a document or a setting: what is wrong, and where.  Reports are given in
the order of file, position and code, and otherwise as they were found.
-/

namespace Shorthand

/-- The activity that found something wrong. -/
inductive Stage where
  | load
  | validate
  | lint
  | config
  deriving DecidableEq, Repr

def Stage.text : Stage → String
  | .load => "load"
  | .validate => "validate"
  | .lint => "lint"
  | .config => "config"

/-- A report. -/
structure Diagnostic where
  stage : Stage
  code : String
  message : String
  file : Option String
  position : Option String
  deriving DecidableEq, Repr

namespace Diagnostic

/-- Where the fault is: the file and the position, as far as they are known. -/
def location (d : Diagnostic) : String :=
  let parts := ([d.file, d.position].filterMap id).filter fun part => !part.isEmpty
  if parts.isEmpty then "<tree>" else ":".intercalate parts

def text (d : Diagnostic) : String := d.location ++ ": " ++ d.code ++ ": " ++ d.message

def sortKey (d : Diagnostic) : String × String × String :=
  (d.file.getD "", d.position.getD "", d.code)

/-- The order of sort keys: the file counts first, then the position, then the code. -/
def compareKeys (a b : String × String × String) : Ordering :=
  (compare a.1 b.1).then ((compare a.2.1 b.2.1).then (compare a.2.2 b.2.2))

def precedes (a b : Diagnostic) : Bool := (compareKeys a.sortKey b.sortKey).isLE

/-- Reports in order; equal ones keep theirs. -/
def sort (ds : List Diagnostic) : List Diagnostic := ds.mergeSort precedes

def record (d : Diagnostic) : Value :=
  .record
    [("code", .string d.code), ("message", .string d.message), ("file", .ofString? d.file),
     ("path", .ofString? d.position), ("severity", .string "error"), ("source", .string d.stage.text)]

end Diagnostic

end Shorthand
