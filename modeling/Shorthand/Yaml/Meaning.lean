import Shorthand.Yaml.Built
import Shorthand.Yaml.Scalar

/-!
# Meanings of nodes

What a node means, made up from the meanings of its parts.  A key that is written twice has its last
value.  Entries that a map takes over from others stand before its own.
-/

namespace Shorthand.Yaml

/-- What a node means where it stands: as a text, as an entry in a list of pairs, as a map, as
something that entries are taken from, and as a value. -/
structure Meaning where
  tag : Tag
  text? : Option String := none
  pair? : Option (Built Value) := none
  map? : Option (Built Fields) := none
  source? : Option (Built Fields) := none
  value : Built Value

namespace Meaning

/-- Does the key of an entry ask for the entries of other maps? -/
def isMerge (key : Meaning) : Bool := key.tag = .merge

/-- A key is no list or map; an equals sign alone is text here. -/
def toKey (m : Meaning) : Built Key :=
  if m.tag.isCollection then .malformed
  else if m.tag = .default then
    match m.text? with
    | some text => .ok (.string text)
    | none => .malformed
  else do
    match (← m.value).toKey? with
    | some key => pure key
    | none => .malformed

/-! ### Entries -/

/-- The entries that a map has of its own. -/
def own : List (Meaning × Meaning) → Built Fields
  | [] => .ok []
  | (key, m) :: rest => if key.isMerge then own rest else (key.toKey.both m.value).cons (own rest)

/-- The entries that a map takes over, if there are maps to take them from. -/
def taken? : List (Meaning × Meaning) → Option (Built Fields)
  | [] => some (.ok [])
  | (key, m) :: rest =>
    if key.isMerge then do pure (Built.append (← m.source?) (← taken? rest)) else taken? rest

/-- All entries of a map, those that it takes over first. -/
def fields? (entries : List (Meaning × Meaning)) : Option (Built Fields) :=
  (taken? entries).map fun fields => fields.append (own entries)

/-- The entries of all maps of a list, of which the first one counts most. -/
def allFields? : List Meaning → Option (Built Fields)
  | [] => some (.ok [])
  | m :: rest => do pure (Built.append (← allFields? rest) (← m.map?))

/-- The only entry of a map as a pair. -/
def onlyPair? : List (Meaning × Meaning) → Option (Built Value)
  | [(key, m)] => some ((key.value.both m.value).map fun (a, b) => .pair a b)
  | _ => none

/-- The text behind the first equals sign of a map. -/
def defaultText? (entries : List (Meaning × Meaning)) : Option String :=
  (entries.find? fun (key, _) => key.tag = .default).bind fun (_, m) => m.text?

/-! ### Values -/

/-- The value of a node that has no parts for its kind. -/
def textValue (tag : Tag) (text? : Option String) : Built Value :=
  if tag.isCollection then Built.inside .malformed
  else
    match text? with
    | some text => .ofExcept (Scalar.value tag text)
    | none => .malformed

def listValue (items : List Meaning) : Built Value :=
  (Built.all (items.map value)).inside.map .list

/-- The value of a list of pairs, each of which is a map with one entry. -/
def pairsValue (items : List Meaning) : Built Value :=
  (Built.all (items.map fun m => m.pair?.getD .malformed)).inside.map .list

def ofFields (fields : Fields) : Value := .map (Fields.ofEntries fields)

def ofKeys (fields : Fields) : Value := .set ((Fields.ofEntries fields).map (·.1))

/-! ### Nodes -/

def ofScalar (tag : Tag) (text : String) : Meaning :=
  { tag, text? := some text, value := textValue tag (some text) }

def ofSequence (tag : Tag) (items : List Meaning) : Meaning :=
  { tag
    source? := allFields? items
    value :=
      if tag = .list then listValue items
      else if tag = .pairs then pairsValue items
      else textValue tag none }

def ofMapping (tag : Tag) (entries : List (Meaning × Meaning)) : Meaning :=
  let fields? := fields? entries
  let text? := defaultText? entries
  { tag
    text?
    pair? := onlyPair? entries
    map? := fields?
    source? := fields?
    value :=
      if tag = .map then (fields?.getD .malformed).inside.map ofFields
      else if tag = .set then (fields?.getD .malformed).inside.map ofKeys
      else if tag = .moment && text?.isSome then .error (0, .noValue .parted)
      else textValue tag text? }

def unknown : Meaning := { tag := .other "", value := .malformed }

end Meaning

end Shorthand.Yaml
