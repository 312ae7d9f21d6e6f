import Shorthand.Yaml.Cursor

/-!
# Tokens of YAML

The units of a YAML text once its indentation has been made explicit.
-/

namespace Shorthand.Yaml

/-- A unit of a text.  A tag may have a handle, which stands for the start of its name.  `broken` is
the last unit of a text that cannot be read any further. -/
inductive Token where
  | version (major : Nat)
  | handle (name : String) (start : String)
  | directive
  | documentStart
  | documentEnd
  | blockSequenceStart
  | blockMappingStart
  | blockEnd
  | flowSequenceStart
  | flowSequenceEnd
  | flowMappingStart
  | flowMappingEnd
  | blockEntry
  | flowEntry
  | key
  | value
  | reuse (anchor : String)
  | anchor (name : String)
  | tag (handle : Option String) (suffix : String)
  | scalar (text : String) (plain : Bool)
  | broken (cause : NoValue)
  deriving DecidableEq, Repr

end Shorthand.Yaml
