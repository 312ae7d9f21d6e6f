import Shorthand.Command.Given
import Shorthand.Expansion.Watched
import Shorthand.Json.Writer
import Shorthand.Lint
import Shorthand.Node.Record
import Shorthand.Show.Drawing
import Shorthand.Yaml.Writer

/-!
# Running commands

The outcome of every command on a store.  A format that does not exist is reported before anything
is read; then the document is loaded and checked.  Main definition: `Command.run`.
-/

namespace Shorthand

namespace Run

variable [Library]

/-! ### Formats -/

def unknownFormat (code format : String) (formats : List String) : Diagnostic :=
  { stage := .config
    code
    message := "unknown format: " ++ format ++ " (choose one of: " ++ ", ".intercalate formats ++ ")"
    file := none
    position := some "format" }

/-- How a check of a document tells what it has found. -/
inductive ReportStyle where
  | text
  | json
  deriving DecidableEq, Repr

/-- A command that tells what it has found in a style goes on, or ends here. -/
def withStyle (store : Store) (code format : String) (next : ReportStyle → Outcome) : Outcome :=
  if format = "text" then next .text
  else if format = "json" then next .json
  else .refused store 2 [unknownFormat code format ["text", "json"]]

/-! ### Documents -/

/-- A command goes on with the document in a file, or ends with `failed`. -/
def withDocument (store : Store) (file : String) (failed : Diagnostic → Outcome) (next : Document → Outcome) :
    Outcome :=
  let loading := Document.load store file
  let o :=
    match loading.result with
    | .ok d => next d
    | .error (.reported fault) => failed (fault.diagnostic (Path.ofText file).text)
    | .error (.unreachable fault) => .crashed store (.store fault)
    | .error (.noValue cause) => .crashed store (.noValue cause)
    | .error .longNumber => .crashed store (.hindered .longNumber)
  o.after loading.log

/-- A command goes on with the tree of the document in a file, or reports the faults. -/
def withTree (store : Store) (file : String) (next : Document → Tree → Outcome) : Outcome :=
  withDocument store file (fun report => .refused store 1 [report]) fun d =>
    match d.validate with
    | .ok tree => next d tree
    | .error (.faulty reports) => .refused store 2 reports
    | .error (.hindered cause) => .crashed store (.hindered cause)

/-! ### Checks -/

/-- What a check prints in JSON: the reports, and what else the command has to say. -/
def jsonReport (command : String) (reports : List Diagnostic) (more : List (String × Value)) : String :=
  Json.indented ⟨true, true⟩
    (.record
      ([("tool", .string "abbr"), ("command", .string command), ("ok", .bool reports.isEmpty),
        ("error_count", .int reports.length), ("errors", .list (reports.map Diagnostic.record))] ++ more))

def found (store : Store) (style : ReportStyle) (command : String) (code : Nat) (reports : List Diagnostic)
    (more : List (String × Value)) : Outcome :=
  match style with
  | .text => .refused store code reports
  | .json => .ended store code [jsonReport command reports more]

def statsValue (s : Tree.Stats) : Value :=
  .record
    [("element_count", .int s.elements), ("group_count", .int s.groups),
     ("attribute_count", .int s.attributes), ("explicit_repeats", .int s.explicitRepeats),
     ("implicit_repeats", .int s.implicitRepeats)]

/-- A check of a document: is it valid, and what is in it? -/
def validate (store : Store) (file format : String) : Outcome :=
  withStyle store "E_VALIDATE_UNKNOWN_FORMAT" format fun style =>
    let found := found store style "validate"
    withDocument store file (fun report => found 1 [report] [("summary", .null)]) fun d =>
      match d.validate, style with
      | .error (.faulty reports), _ => found 2 reports [("summary", .null)]
      | .error (.hindered cause), _ => .crashed store (.hindered cause)
      | .ok tree, .text => .done store [Text.withoutEscapes tree.summary]
      | .ok tree, .json => .done store [jsonReport "validate" [] [("summary", statsValue tree.stats)]]

/-- The reports about a document with the variables that are known: faults, or doubts if there are
no faults. -/
def lintReports (d : Document) (known : List String) : Except Hindrance (List Diagnostic) :=
  match d.validate with
  | .error (.faulty reports) => .ok reports
  | .error (.hindered cause) => .error cause
  | .ok tree => .ok (tree.lint d.file (some known))

def lint (store : Store) (file format : String) (settings : Option String) : Outcome :=
  withStyle store "E_LINT_UNKNOWN_FORMAT" format fun style =>
    let found := found store style "lint"
    withDocument store file (fun report => found 1 [report] []) fun d =>
      Outcome.withSettings store d.file { settings } fun s =>
        match lintReports d (s.vars.map (·.1)), style with
        | .error cause, _ => .crashed store (.hindered cause)
        | .ok [], .text => .done store ["OK: lint passed"]
        | .ok [], .json => .done store [jsonReport "lint" [] []]
        | .ok reports, _ => found 2 reports []

/-! ### Expansions -/

/-- A command goes on with the nodes of an expansion, or breaks off with it, behind what it has logged. -/
def expanded (store : Store) (q : Except Hindrance (List Node) × State) (next : List Node → Outcome) : Outcome :=
  let o :=
    match q.1 with
    | .ok nodes => next nodes
    | .error cause => .crashed store (.hindered cause)
  o.after (q.2.events.map Event.line)

/-- A command goes on with the nodes of the document in a file. -/
def withNodes (store : Store) (file : String) (g : Given) (next : Document → List Node → Outcome) : Outcome :=
  withTree store file fun d tree =>
    Outcome.withSettings store d.file g fun s => expanded store (tree.attempt s.source) (next d)

def formats : List (String × Format) := [("yaml", .yaml), ("json", .json)]

/-- What is written of nodes, and what breaks the writing off.  JSON gets an end of its last line. -/
def written (format : Format) (nodes : List Node) : String × Option Hindrance :=
  match format, Library.write format (Node.forestValue nodes) with
  | .json, (text, none) => (text ++ "\n", none)
  | _, w => w

/-- Text is written to a file, in folders that are made if need be.  If the writing breaks off, the file holds
what has been written by then. -/
def save (store : Store) (out : String) (written : String × Option Hindrance) (line : String) : Outcome :=
  let path := Path.ofText out
  match if path.parent.isWorkingFolder then (store, .ok ()) else store.makeFolders path.parent with
  | (store, .error fault) => .crashed store (.store fault)
  | (store, .ok ()) =>
    match store.write path written.1, written.2 with
    | .error fault, _ => .crashed store (.store fault)
    | .ok store, none => .done store [Text.withoutEscapes line]
    | .ok store, some cause => .crashed store (.hindered cause)

def saveNodes (store : Store) (out : String) (format : Format) (nodes : List Node) : Outcome :=
  save store out (written format nodes) ("OK: wrote " ++ toString nodes.length ++ " top-level nodes to " ++ out)

def convert (store : Store) (file out format : String) (g : Given) : Outcome :=
  match formats.lookup format with
  | some format => withNodes store file g fun _ nodes => saveNodes store out format nodes
  | none => .refused store 2 [unknownFormat "E_CONVERT_UNKNOWN_FORMAT" format (formats.map (·.1))]

/-- The title of a drawing: the abbreviation that the document gives, or else the name of its file. -/
def title (file : String) (d : Document) : String :=
  match d.abbreviation with
  | some (.string s) => if s.isEmpty then (Path.ofText file).name else s
  | _ => (Path.ofText file).name

def draw (store : Store) (file : String) (g : Given) : Outcome :=
  withNodes store file g fun d nodes =>
    match Node.hindranceAll? nodes, (Outline.ofNodes (title file d) nodes).draw with
    | some cause, _ => .crashed store (.hindered cause)
    | none, .ok lines => .done store lines
    | none, .error fault => .crashed store (.markup fault)

/-! ### Variables -/

/-- The variables with their values, in the order of their names. -/
def listVariables (store : Store) (settings : Option String) : Outcome :=
  Outcome.withSettings store none { settings } fun s =>
    .done store
      ("Variables:" ::
        (s.vars.mergeSort fun a b => a.1 ≤ b.1).map fun (name, value) =>
          Text.withoutEscapes ("- " ++ name ++ ": " ++ Json.stringText true value))

end Run

def Command.run [Library] (store : Store) : Command → Outcome
  | .validate file format => Run.validate store file format
  | .lint file format settings => Run.lint store file format settings
  | .convert file out format g => Run.convert store file out format g
  | .draw file g => Run.draw store file g
  | .listVariables settings => Run.listVariables store settings

end Shorthand
