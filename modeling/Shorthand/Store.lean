import Shorthand.Store.Path
import Shorthand.Text.Lines

/-!
# Stores

The files and folders that a command reads and writes.  Every one of them has a location, which is
the list of the names from the root down to it.
-/

namespace Shorthand

/-- What there is at a location. -/
inductive Item where
  | file (bytes : ByteArray)
  | folder

/-- The items of all locations that have one, and the location of the working folder. -/
structure Store where
  home : List String := []
  items : List (List String × Item) := [([], .folder)]

namespace Store

/-- Why a path cannot be used. -/
inductive Fault where
  | nullCharacter
  | nameTooLong
  | notFound
  | notFolder
  | isFolder
  | alreadyExists
  | notText
  deriving DecidableEq, Repr

/-! ### Locations -/

def item? (s : Store) (location : List String) : Option Item := s.items.lookup location

/-- The number of bytes that a name may have. -/
def longestName : Nat := 255

/-- The number of bytes that a path may have. -/
def longestPath : Nat := 4095

/-- The location reached by some names from a location on.  Each name but the last leads through a
folder that exists. -/
def follow (s : Store) (location : List String) : List String → Except Fault (List String)
  | [] => .ok location
  | name :: rest =>
    match s.item? location with
    | some .folder =>
      if longestName < name.utf8ByteSize then .error .nameTooLong
      else s.follow (if name = ".." then location.dropLast else location ++ [name]) rest
    | some (.file _) => .error .notFolder
    | none => .error .notFound

/-- The location that a path leads to, where there need not be an item. -/
def locate (s : Store) (p : Path) : Except Fault (List String) :=
  if p.names.any fun name => name.toList.contains '\x00' then .error .nullCharacter
  else if longestPath < p.text.utf8ByteSize then .error .nameTooLong
  else s.follow (if p.root.isEmpty then s.home else []) p.names

def put (s : Store) (location : List String) (item : Item) : Store :=
  { s with items := (location, item) :: s.items.filter fun (l, _) => l ≠ location }

/-! ### Reading -/

def find (s : Store) (p : Path) : Except Fault Item := do
  match s.item? (← s.locate p) with
  | some item => pure item
  | none => throw .notFound

def isFolder (s : Store) (p : Path) : Bool :=
  match s.find p with
  | .ok .folder => true
  | _ => false

def readBytes (s : Store) (p : Path) : Except Fault ByteArray := do
  match ← s.find p with
  | .file bytes => pure bytes
  | .folder => throw .isFolder

/-- The text of a file, each of its line ends as a line feed. -/
def readText (s : Store) (p : Path) : Except Fault String := do
  match String.fromUTF8? (← s.readBytes p) with
  | some text => pure (.ofList (Text.foldLineEnds text.toList))
  | none => throw .notText

/-! ### Writing -/

/-- A file with the text is put at a path, in a folder that exists. -/
def write (s : Store) (p : Path) (text : String) : Except Fault Store := do
  let location ← s.locate p
  match s.item? location with
  | some .folder => throw .isFolder
  | _ => pure (s.put location (.file text.toUTF8))

def makeFolder (s : Store) (p : Path) : Except Fault Store := do
  let location ← s.locate p
  match s.item? location with
  | some _ => throw .alreadyExists
  | none => pure (s.put location .folder)

/-- A new folder at the end of a path whose last name comes first, together with the folders that
the path leads through.  A folder that exists is left as it is.  What has been made before a fault
stays. -/
def makeFoldersAlong (s : Store) (root : String) : List String → Store × Except Fault Unit
  | [] => (s, .ok ())
  | name :: above =>
    let path : Path := ⟨root, (name :: above).reverse⟩
    match s.makeFolder path with
    | .ok s => (s, .ok ())
    | .error .notFound =>
      match s.makeFoldersAlong root above with
      | (s, .error e) => (s, .error e)
      | (s, .ok ()) => finish s path (s.makeFolder path)
    | .error e => finish s path (.error e)
where
  finish (s : Store) (path : Path) : Except Fault Store → Store × Except Fault Unit
    | .ok s => (s, .ok ())
    | .error e => (s, if s.isFolder path then .ok () else .error e)

/-- The folder of a path and all folders on the way to it. -/
def makeFolders (s : Store) (p : Path) : Store × Except Fault Unit := s.makeFoldersAlong p.root p.names.reverse

/-- The folders from the root down to a location, which becomes the working folder. -/
def atHome (location : List String) : Store :=
  { home := location
    items := (List.range (location.length + 1)).map fun n => (location.take n, .folder) }

/-! ### Small lemmas -/

@[simp] theorem home_put (s : Store) (location : List String) (item : Item) :
    (s.put location item).home = s.home := rfl

end Store

end Shorthand
