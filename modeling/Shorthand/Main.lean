import Shorthand.Command.Run

/-!
# The command line

Reads the files that the words of the command line name, runs the command on them, and writes what
it leaves behind.
-/

namespace Shorthand.CommandLine

def locationText (location : List String) : String := "/" ++ "/".intercalate location

def itemAt? (location : List String) : IO (Option Item) := do
  try
    let place ← IO.FS.realPath (locationText location)
    if ← place.isDir then return some .folder
    return some (.file (← IO.FS.readBinFile place))
  catch _ => return none

def locationsOf (home : List String) (p : Path) : List (List String) :=
  let start := if p.root.isEmpty then home else []
  let step := fun (location, visited) name =>
    let next := if name = ".." then List.dropLast location else location ++ [name]
    (next, next :: visited)
  (p.names.foldl step (start, [start])).2

/-- The store of what is on disk on the way to some files. -/
def snapshot (files : List String) : IO Store := do
  let current := Path.ofText (toString (← IO.currentDir))
  let home := current.names
  let mut store := Store.atHome home
  for file in files do
    for location in locationsOf home (.ofText file) do
      if (store.item? location).isNone then
        if let some item ← itemAt? location then
          store := store.put location item
  return store

/-- Writes an item to disk, unless it is there already. -/
def save (before : Store) (location : List String) (item : Item) : IO Unit := do
  match item, before.item? location with
  | .folder, some .folder => return
  | .folder, _ => IO.FS.createDirAll (locationText location)
  | .file bytes, some (.file old) =>
    if bytes.toList ≠ old.toList then IO.FS.writeBinFile (locationText location) bytes
  | .file bytes, _ => IO.FS.writeBinFile (locationText location) bytes

def crashMessage : Crash → String
  | .store fault => Document.unreadableMessage fault
  | .noValue cause => (Format.Fault.noValue cause).message
  | .hindered .longNumber => "a number is too long to be written"
  | .hindered .wideNumber => "a number is to fill more characters than a text can have"
  | .hindered .halfCharacter => "a text holds half a character"
  | .hindered .endless => "a list or a map holds itself"
  | .markup (.nothingToClose tag) => "nothing to close for the tag " ++ tag

def run (invocation : Invocation) : IO UInt32 := do
  let before ← snapshot invocation.command.fileNames
  let o := invocation.command.run before
  for (location, item) in o.store.items.reverse do
    save before location item
  IO.eprint (o.noticeText invocation.verbose)
  IO.print o.outputText
  if let .crash cause := o.ending then
    IO.eprintln ("abbr: " ++ crashMessage cause)
  return o.code.toUInt32

end Shorthand.CommandLine

def main (arguments : List String) : IO UInt32 := do
  match Shorthand.Invocation.ofCommandLine arguments with
  | .ok invocation => Shorthand.CommandLine.run invocation
  | .error .helpWanted =>
    IO.print Shorthand.Command.usage
    return 0
  | .error .unknown =>
    IO.eprint Shorthand.Command.usage
    return 2
