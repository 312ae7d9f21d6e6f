import Shorthand.Hindrance
import Shorthand.Moment
import Shorthand.Number.Shortest
import Shorthand.Text.Quoted

/-!
# Data values

What a JSON or YAML file holds.  The keys of a map are scalars of any kind, each of them once, in
the order in which they were first written.
-/

namespace Shorthand

open Number (Binary64)

/-- A key of a map. -/
inductive Key where
  | null
  | bool (b : Bool)
  | int (i : Int)
  | float (x : Binary64)
  | string (s : String)
  | moment (m : Moment)
  | bytes (bs : List UInt8)
  deriving DecidableEq, Repr

/-- A data value.  A set has the keys of a map without their values, and a pair is an entry that stands
in a list.  A list or a map that holds itself has no end: it is written out deep enough to tell what stands
in each place of a statement, and is `endless` where it goes on. -/
inductive Value where
  | null
  | bool (b : Bool)
  | int (i : Int)
  | float (x : Binary64)
  | string (s : String)
  | moment (m : Moment)
  | bytes (bs : List UInt8)
  | list (items : List Value)
  | map (fields : List (Key × Value))
  | set (keys : List Key)
  | pair (first second : Value)
  | endless
  deriving Repr, Inhabited

/-- The entries of a map. -/
abbrev Fields := List (Key × Value)

/-! ### Keys -/

/-- The integer that a key is equal to: a truth value counts as 0 or 1. -/
def Key.toInt? : Key → Option Int
  | .bool b => some (if b then 1 else 0)
  | .int i => some i
  | .float x => x.toInt?
  | _ => none

/-- Do two keys name the same entry?  Numbers do when they are equal, whatever their kind. -/
def Key.same (a b : Key) : Bool :=
  match a.toInt?, b.toInt? with
  | some m, some n => m == n
  | none, none => a == b && a != .float .nan
  | _, _ => false

def Key.text : Key → String
  | .null => "None"
  | .bool b => if b then "True" else "False"
  | .int i => toString i
  | .float x => x.text
  | .string s => s
  | .moment m => m.text
  | .bytes bs => Text.quotedBytes bs

def Key.isWritable : Key → Bool
  | .int i => Shorthand.isWritable i
  | _ => true

mutual

def Value.isWritable : Value → Bool
  | .int i => Shorthand.isWritable i
  | .list items => Value.areWritable items
  | .map fields => Value.fieldsAreWritable fields
  | .set keys => keys.all Key.isWritable
  | .pair a b => a.isWritable && b.isWritable
  | _ => true

def Value.areWritable : List Value → Bool
  | [] => true
  | v :: rest => v.isWritable && Value.areWritable rest

def Value.fieldsAreWritable : Fields → Bool
  | [] => true
  | (key, v) :: rest => key.isWritable && v.isWritable && Value.fieldsAreWritable rest

end

def Value.toKey? : Value → Option Key
  | .null => some .null
  | .bool b => some (.bool b)
  | .int i => some (.int i)
  | .float x => some (.float x)
  | .string s => some (.string s)
  | .moment m => some (.moment m)
  | .bytes bs => some (.bytes bs)
  | .list _ => none
  | .map _ => none
  | .set _ => none
  | .pair _ _ => none
  | .endless => none

/-! ### Fields -/

namespace Fields

/-- An entry is set: a key that is there keeps its place. -/
def put (key : Key) (value : Value) : Fields → Fields
  | [] => [(key, value)]
  | (k, v) :: rest => if k.same key then (k, value) :: rest else (k, v) :: put key value rest

def ofEntries (entries : Fields) : Fields :=
  entries.foldl (fun fields (key, value) => put key value fields) []

def get? (fields : Fields) (name : String) : Option Value := fields.lookup (.string name)

/-- The entry under a name; one that is not there counts as null. -/
def get (fields : Fields) (name : String) : Value := (get? fields name).getD .null

end Fields

def Key.toValue : Key → Value
  | .null => .null
  | .bool b => .bool b
  | .int i => .int i
  | .float x => .float x
  | .string s => .string s
  | .moment m => .moment m
  | .bytes bs => .bytes bs

def Value.record (fields : List (String × Value)) : Value :=
  .map (fields.map fun (name, value) => (.string name, value))

def Value.ofString? : Option String → Value
  | none => .null
  | some s => .string s

def Value.strings (xs : List String) : Value := .list (xs.map .string)

/-- Is there anything in the value?  Null, false, zero, and whatever is empty are blank. -/
def Value.isBlank : Value → Bool
  | .null => true
  | .bool b => !b
  | .int i => i == 0
  | .float x => x.isZero
  | .string s => s.isEmpty
  | .moment _ => false
  | .bytes bs => bs.isEmpty
  | .list items => items.isEmpty
  | .map fields => fields.isEmpty
  | .set keys => keys.isEmpty
  | .pair _ _ => false
  | .endless => false

/-! ### Small lemmas -/

theorem Fields.get_of_get?_none {fields : Fields} {name : String} (h : fields.get? name = none) :
    fields.get name = .null := by simp [Fields.get, h]

theorem Fields.get_of_get?_some {fields : Fields} {name : String} {v : Value}
    (h : fields.get? name = some v) : fields.get name = v := by simp [Fields.get, h]

end Shorthand
