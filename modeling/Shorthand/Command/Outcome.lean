import Shorthand.Diagnostic
import Shorthand.Hindrance
import Shorthand.Log
import Shorthand.Show.Markup
import Shorthand.Store
import Shorthand.Text.Escapes
import Shorthand.Yaml.Cursor

/-!
# Outcomes

What a command leaves behind: the lines that it prints, what it logs and reports, how it ends, and
the files.
-/

namespace Shorthand

/-- A failure that a command has no report for. -/
inductive Crash where
  | store (fault : Store.Fault)
  | noValue (cause : Yaml.NoValue)
  | hindered (cause : Hindrance)
  | markup (fault : Markup.Fault)
  deriving DecidableEq, Repr

/-- What goes to the error output. -/
inductive Notice where
  | logged (line : LogLine)
  | reported (report : Diagnostic)
  deriving DecidableEq, Repr

/-- The line of a notice.  A log line is shown with its level if all of them are wanted; else
only warnings are shown. -/
def Notice.line? (verbose : Bool) : Notice → Option String
  | .reported report => some (Text.withoutEscapes report.text)
  | .logged line =>
    if verbose then some line.text
    else if line.level = .warning then some line.message
    else none

/-- How a command ends. -/
inductive Ending where
  | exit (code : Nat)
  | crash (cause : Crash)
  deriving DecidableEq, Repr

/-- What is left behind. -/
structure Outcome where
  ending : Ending := .exit 0
  output : List String := []
  notices : List Notice := []
  store : Store

namespace Outcome

/-- A command that ends with an exit code after it has printed some lines. -/
def ended (store : Store) (code : Nat) (lines : List String) : Outcome :=
  { ending := .exit code, output := lines, store }

def done (store : Store) (lines : List String) : Outcome := ended store 0 lines

def refused (store : Store) (code : Nat) (reports : List Diagnostic) : Outcome :=
  { ending := .exit code, notices := (Diagnostic.sort reports).map .reported, store }

def crashed (store : Store) (cause : Crash) : Outcome := { ending := .crash cause, store }

def after (log : List LogLine) (o : Outcome) : Outcome := { o with notices := log.map .logged ++ o.notices }

def code (o : Outcome) : Nat :=
  match o.ending with
  | .exit code => code
  | .crash _ => 1

def ofLines (lines : List String) : String := .join (lines.map (· ++ "\n"))

def outputText (o : Outcome) : String := ofLines o.output

def noticeText (verbose : Bool) (o : Outcome) : String := ofLines (o.notices.filterMap (Notice.line? verbose))

/-! ### Small lemmas -/

@[simp] theorem after_nil (o : Outcome) : o.after [] = o := by simp [after]

@[simp] theorem ending_after (log : List LogLine) (o : Outcome) : (o.after log).ending = o.ending := rfl

@[simp] theorem store_after (log : List LogLine) (o : Outcome) : (o.after log).store = o.store := rfl

end Outcome

end Shorthand
