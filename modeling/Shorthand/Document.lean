import Shorthand.Document.Decode
import Shorthand.Statement.Walk

/-!
# Documents

A document holds an abbreviation with the version of its format.  It is checked as a whole: all
its faults are reported, in order.
-/

namespace Shorthand

/-- The parts of a document, and the file it is from. -/
structure Document where
  version : Value := .null
  tree : Value := .null
  abbreviation : Option Value := none
  file : Option String := none
  deriving Repr

namespace Document

def ofFields (fields : Fields) (file : Option String) : Document :=
  { version := fields.get "schema_version"
    tree := fields.get "tree"
    abbreviation := fields.get? "abbreviation"
    file }

def checkVersion (d : Document) : Checked Unit :=
  match d.version with
  | .string s => if Text.isBlankText s then .fault .versionMissing [.field "schema_version"] else .ok ()
  | _ => .fault .versionMissing [.field "schema_version"]

def checkAbbreviation (d : Document) : Checked (Option String) :=
  match d.abbreviation.getD .null with
  | .null => .ok none
  | .string s => .ok (some s)
  | _ => .fault .abbreviationNotText [.field "abbreviation"]

def checkTree (d : Document) : Checked Tree :=
  match d.tree with
  | .map fields => Decode.tree Tree.root fields
  | .endless => .fault .statementEndless Tree.root
  | _ => .fault .treeMissing Tree.root

/-- The tree of a document and the abbreviation it gives, or all its faults. -/
def checked (d : Document) : Checked (Tree × Option String) :=
  (d.checkVersion.both (d.checkAbbreviation.both d.checkTree)).map fun (_, abbreviation, tree) =>
    (tree, abbreviation)

/-- Why a document has no tree: it has faults, or what hinders the check. -/
inductive Rejection where
  | faulty (reports : List Diagnostic)
  | hindered (cause : Hindrance)
  deriving DecidableEq, Repr

/-- What some faults of a document come to.  The first one that cannot be reported ends the check, and if
there is none then all are reported in order. -/
def Rejection.ofFaults (file : Option String) (faults : List Fault) : Rejection :=
  match faults.findSome? (·.cause.hindrance?) with
  | some cause => .hindered cause
  | none => .faulty (Diagnostic.sort (faults.map (Fault.diagnostic file)))

def validate (d : Document) : Except Rejection Tree :=
  match d.checked with
  | .ok (tree, _) => .ok tree
  | .error faults => .error (.ofFaults d.file faults)

end Document

end Shorthand
