import Shorthand.Command
import Shorthand.Command.Outcome
import Shorthand.Settings.Load

/-!
# Given settings

The settings that the options of a command and the files they name make up.  A file of text holds
one item a line, and its items come behind those given one by one.
-/

namespace Shorthand

namespace Given

/-- Why the settings cannot be made up: a report with an exit code, or a failure without report. -/
inductive Fault where
  | refused (code : Nat) (report : Diagnostic)
  | crashed (cause : Crash)
  deriving DecidableEq, Repr

def report (file : Option String) (code message position : String) : Diagnostic :=
  { stage := .config, code, message, file, position := some position }

def text (store : Store) (g : Given) : Except Store.Fault TextSource :=
  match g.textFile with
  | none | some "" => .ok (if g.texts.isEmpty then .absent else .items (g.texts.map some))
  | some name => do
    let lines := Text.lines (← store.readText (.ofText name))
    pure (.items ((g.texts ++ lines).map some))

def textFault (file : Option String) (name : String) : Store.Fault → Fault
  | .notFound => .refused 1 (report file "E_TEXT_FILE_NOT_FOUND" ("text file not found: " ++ name) "text_file")
  | fault => .crashed (.store fault)

def invalid (file : Option String) (fault : Settings.Fault) : Fault :=
  .refused 2 (report file "E_CONFIG_INVALID" fault.message "config")

def settingsFault (file : Option String) (name : String) : Settings.LoadFault → Fault
  | .unreadable .notFound =>
    .refused 1 (report file "E_CONFIG_FILE_NOT_FOUND" ("config file not found: " ++ name) "config")
  | .unreadable fault => .crashed (.store fault)
  | .noValue cause => .crashed (.noValue cause)
  | .longNumber => .crashed (.hindered .longNumber)
  | .invalid fault => invalid file fault

variable [Library]

/-- The settings in force.  A fault is reported with the file of the document, if there is one. -/
def load (store : Store) (file : Option String) (g : Given) : Except Fault Settings := do
  let text ← (g.text store).mapError (textFault file (g.textFile.getD ""))
  let vars ← (Settings.assignments g.assignments).mapError (invalid file)
  (Settings.load store g.settings text vars).mapError (settingsFault file (g.settings.getD ""))

end Given

/-- A command that needs settings goes on with them, or ends here. -/
def Outcome.withSettings [Library] (store : Store) (file : Option String) (g : Given) (next : Settings → Outcome) : Outcome :=
  match g.load store file with
  | .ok settings => next settings
  | .error (.refused code report) => .refused store code [report]
  | .error (.crashed cause) => .crashed store cause

end Shorthand
