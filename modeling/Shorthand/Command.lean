/-!
# Commands

What the tool can be asked to do, and how the words of a command line ask for it.  Options may stand
before, between and behind the other words; one that is given twice counts as it was given last,
unless it can be given many times.
-/

namespace Shorthand

/-- Where the text and the variables of an expansion are taken from. -/
structure Given where
  texts : List String := []
  textFile : Option String := none
  assignments : List String := []
  settings : Option String := none
  deriving DecidableEq, Repr

/-- A command with the names of the files and of the format that it is about. -/
inductive Command where
  | validate (file format : String)
  | lint (file format : String) (settings : Option String)
  | convert (file out format : String) (given : Given)
  | draw (file : String) (given : Given)
  | listVariables (settings : Option String)
  deriving DecidableEq, Repr

/-- A command, and whether everything that happens on the way is to be logged. -/
structure Invocation where
  verbose : Bool
  command : Command
  deriving DecidableEq, Repr

namespace Command

/-- Words that ask for no command: the user wants to know how to ask, or does not know. -/
inductive Misuse where
  | helpWanted
  | unknown
  deriving DecidableEq, Repr

/-! ### Options -/

/-- The words of a command line behind the name of the command: options with their values, in the
order in which they were given, and other words. -/
structure Words where
  options : List (String × String) := []
  plain : List String := []
  help : Bool := false
  deriving DecidableEq, Repr

def isOption (word : String) : Bool :=
  match word.toList with
  | '-' :: _ :: _ => true
  | _ => false

/-- An option and the value that is attached to it with an equals sign. -/
def splitOption (word : String) : String × Option String :=
  let (name, rest) := word.toList.span fun c => c ≠ '='
  match rest with
  | '=' :: value => (.ofList name, some (.ofList value))
  | _ => (.ofList name, none)

def Words.addOption (name value : String) (w : Words) : Words :=
  { w with options := (name, value) :: w.options }

def Words.addPlain (word : String) (w : Words) : Words := { w with plain := word :: w.plain }

/-- The options of a command among some words.  The value of an option is the next word, whatever it
looks like; behind a double dash there are no options any more. -/
def words (known : List String) : List String → Except Misuse Words
  | [] => .ok {}
  | word :: rest =>
    if word = "--" then .ok { plain := rest }
    else if isOption word then
      match splitOption word, rest with
      | ("--help", none), rest => (words known rest).map fun w => { w with help := true }
      | (name, some value), rest | (name, none), value :: rest =>
        if known.contains name then (words known rest).map (Words.addOption name value)
        else .error .unknown
      | (_, none), [] => .error .unknown
    else (words known rest).map (Words.addPlain word)

namespace Words

def last? (w : Words) (name : String) : Option String := w.options.reverse.lookup name

def all (w : Words) (name : String) : List String := (w.options.filter fun (n, _) => n == name).map (·.2)

def given (w : Words) : Given :=
  { texts := w.all "--text"
    textFile := w.last? "--text-file"
    assignments := w.all "--var"
    settings := w.last? "--config" }

end Words

def givenOptions : List String := ["--text", "--text-file", "--var", "--config"]

/-! ### Command lines -/

def ofWords (name : String) (arguments : List String) : Except Misuse Command := do
  let known ←
    match name with
    | "validate" => pure ["--format"]
    | "lint" => pure ["--format", "--config"]
    | "convert" => pure ("--out" :: "--format" :: givenOptions)
    | "show" => pure givenOptions
    | "variables" => pure ["--config"]
    | _ => throw .unknown
  let w ← words known arguments
  if w.help then throw .helpWanted
  match name, w.plain, w.last? "--out" with
  | "validate", [file], _ => pure (.validate file ((w.last? "--format").getD "text"))
  | "lint", [file], _ => pure (.lint file ((w.last? "--format").getD "text") (w.last? "--config"))
  | "convert", [file], some out => pure (.convert file out ((w.last? "--format").getD "yaml") w.given)
  | "show", [file], _ => pure (.draw file w.given)
  | "variables", [], _ => pure (.listVariables (w.last? "--config"))
  | _, _, _ => throw .unknown

/-- The names of the files that a command reads or writes. -/
def fileNames : Command → List String
  | .validate file _ => [file]
  | .lint file _ settings => file :: settings.toList
  | .convert file out _ g => file :: out :: g.textFile.toList ++ g.settings.toList
  | .draw file g => file :: g.textFile.toList ++ g.settings.toList
  | .listVariables settings => settings.toList

def usage : String :=
  "usage: abbr [-v] validate FILE [--format text|json]\n" ++
  "       abbr [-v] lint FILE [--format text|json] [--config FILE]\n" ++
  "       abbr [-v] convert FILE --out FILE [--format yaml|json] [GIVEN ...]\n" ++
  "       abbr [-v] show FILE [GIVEN ...]\n" ++
  "       abbr [-v] variables [--config FILE]\n" ++
  "given: --text TEXT | --text-file FILE | --var NAME=VALUE | --config FILE\n"

end Command

namespace Invocation

/-- One letter options in one word, of which there is only the one that asks for a log. -/
def isVerbose (word : String) : Bool :=
  word = "--verbose" ||
    match word.toList with
    | '-' :: c :: rest => (c :: rest).all (· = 'v')
    | _ => false

/-- The command that some words ask for, behind options that concern all commands. -/
def ofWords (verbose help : Bool) : List String → Except Command.Misuse Invocation
  | [] => .error (if help then .helpWanted else .unknown)
  | word :: rest =>
    if word = "--help" then ofWords verbose true rest
    else if isVerbose word then ofWords true help rest
    else if word = "--" then named verbose help rest
    else if Command.isOption word then .error .unknown
    else named verbose help (word :: rest)
where
  /-- The name of a command and its words. -/
  named (verbose help : Bool) : List String → Except Command.Misuse Invocation
    | [] => .error (if help then .helpWanted else .unknown)
    | name :: arguments =>
      if help then .error .helpWanted
      else (Command.ofWords name arguments).map fun command => { verbose, command }

/-- The command that a command line asks for. -/
def ofCommandLine (arguments : List String) : Except Command.Misuse Invocation :=
  ofWords false false arguments

end Invocation

end Shorthand
