import Shorthand.Document.Fault
import Shorthand.Statement
import Shorthand.Text.Blank

/-!
# Reading trees from data

Tokens, repeaters, attributes and statements as the records that spell them out.  A field that is
null counts as missing, except where a default stands for it: there null is a fault.
-/

namespace Shorthand

namespace Decode

/-! ### Scalars -/

def intField (fields : Fields) (name : String) (default : Int) : Option Int :=
  match fields.get? name with
  | none => some default
  | some (.int i) => some i
  | some _ => none

def boolField (fields : Fields) (name : String) : Option Bool :=
  match fields.get? name with
  | none => some false
  | some (.bool b) => some b
  | some _ => none

/-- The value of a field that was read, or a fault at the field. -/
def demand (a : Option α) (cause : Fault.Cause) (p : Position) : Checked α :=
  match a with
  | some x => .ok x
  | none => .fault cause p

/-! ### Tokens -/

def literal (p : Position) (fields : Fields) : Checked Token :=
  match fields.get "value" with
  | .string s => .ok (.literal s)
  | _ => .fault .literalMissing (p.field "value")

def fieldIndex (fields : Fields) : Option (Option Int) :=
  match fields.get "index" with
  | .null => some none
  | .int i => some (some i)
  | _ => none

def fieldName (fields : Fields) : Option String :=
  match fields.get? "name" with
  | none => some ""
  | some (.string s) => some s
  | some _ => none

def field (p : Position) (fields : Fields) : Checked Token := do
  let index ← demand (fieldIndex fields) .fieldIndexNotInt (p.field "index")
  let name ← demand (fieldName fields) .fieldNameNotText (p.field "name")
  pure (.field index name)

def reference (p : Position) (fields : Fields) : Checked Token :=
  match fields.get "name" with
  | .string s => if Text.isBlankText s then .fault .variableMissing (p.field "name") else .ok (.reference s)
  | _ => .fault .variableMissing (p.field "name")

def quote (p : Position) (fields : Fields) : Checked Token := do
  let single ← demand (boolField fields "single") .singleNotBool (p.field "single")
  pure (.quote single)

/-- What a bracket encloses, by the name it has in a document. -/
def context? : Value → Option Bracket
  | .string "attribute" => some .attributes
  | .string "expression" => some .expression
  | .string "group" => some .group
  | _ => none

def opening? : Value → Option Bool
  | .bool b => some b
  | _ => none

def bracket (p : Position) (fields : Fields) : Checked Token := do
  let context ← demand (context? (fields.get "context")) .unknownContext (p.field "context")
  let opening ← demand (opening? (fields.get "open")) .openMissing (p.field "open")
  pure (.bracket context opening)

/-- An integer that is at least `least`. -/
def natField (fields : Fields) (name : String) (default least : Nat) : Option Nat :=
  (intField fields name default).bind fun i => if (least : Int) ≤ i then some i.toNat else none

def number (p : Position) (fields : Fields) : Checked Token := do
  let size ← demand (natField fields "size" 1 1) .sizeNotPositive (p.field "size")
  let reverse ← demand (boolField fields "reverse") .reverseNotBool (p.field "reverse")
  let base ← demand (intField fields "base" 1) .baseNotInt (p.field "base")
  let parent ← demand (natField fields "parent" 0 0) .parentNegative (p.field "parent")
  pure (.number { size, reverse, base, parent })

def tokenOfFields (p : Position) (fields : Fields) : Checked Token :=
  match fields.get "type" with
  | .string "literal" => literal p fields
  | .string "field" => field p fields
  | .string "variable" => reference p fields
  | .string "quote" => quote p fields
  | .string "bracket" => bracket p fields
  | .string "repeater_number" => number p fields
  | .string "repeater_placeholder" => .ok .placeholder
  | .string "whitespace" => .ok .space
  | _ => .fault .unknownToken (p.field "type")

def token (p : Position) : Value → Checked Token
  | .string s => .ok (.literal s)
  | .map fields => tokenOfFields p fields
  | _ => .fault .tokenNotMap p

/-- A list of tokens, which may be missing; text is a single literal. -/
def tokens (p : Position) : Value → Checked (Option (List Token))
  | .null => .ok none
  | .string s => .ok (some [.literal s])
  | .list items => (Checked.items token p items).map some
  | _ => .fault .tokensNotList p

/-! ### Repeaters -/

def count (p : Position) (fields : Fields) : Checked (Option Int) :=
  match fields.get "count" with
  | .null => .ok none
  | .int i => if i < 0 then .fault (.countNegative i) (p.field "count") else .ok (some i)
  | _ => .fault .countNotInt (p.field "count")

/-- A repeater, which may be missing.  Only its first fault is found. -/
def repeater (p : Position) : Value → Checked (Option Repeater)
  | .null => .ok none
  | .map fields => do
    let count ← count p fields
    let value ← demand (intField fields "value" 0) .valueNotInt (p.field "value")
    let implicit ← demand (boolField fields "implicit") .implicitNotBool (p.field "implicit")
    pure (some { count, value, implicit })
  | _ => .fault .repeatNotMap p

/-! ### Attributes -/

def attributeOfFields (p : Position) (fields : Fields) : Checked Attribute :=
  ((tokens (p.field "name") (fields.get "name")).both (tokens (p.field "value") (fields.get "value"))).map
    fun (name, value) => { name, value }

def attributeRecord (p : Position) : Value → Checked Attribute
  | .map fields => attributeOfFields p fields
  | _ => .fault .attributeNotMap p

def attributeList (p : Position) : Value → Checked (Option (List Attribute))
  | .null => .ok none
  | .list items => (Checked.items attributeRecord p items).map some
  | _ => .fault .attributesNotList p

/-! ### Statements -/

/-- The kind of a statement: an element unless it says otherwise. -/
inductive Kind where
  | element
  | group
  deriving DecidableEq, Repr

def kind? (fields : Fields) : Option Kind :=
  match fields.get? "type" with
  | none => some .element
  | some (.string "element") => some .element
  | some (.string "group") => some .group
  | some _ => none

/-- What stands in the place of a list: nothing, something else, a list, or one without end. -/
inductive ListField (α : Type) where
  | missing
  | other
  | list (a : α)
  | endless

def elementChildren (p : Position) : ListField (Checked (List Statement)) → Checked (List Statement)
  | .missing => .ok []
  | .other => .fault .elementsNotList p
  | .list children => children
  | .endless => .fault .statementEndless p

def elementOf (p : Position) (fields : Fields) (children : Checked (List Statement)) :
    Checked Statement :=
  let name := tokens (p.field "name") (fields.get "name")
  let value := tokens (p.field "value") (fields.get "value")
  let attributes := attributeList (p.field "attributes") (fields.get "attributes")
  let selfClosing := demand (boolField fields "self_close") .selfCloseNotBool (p.field "self_close")
  let repeater := repeater (p.field "repeat") (fields.get "repeat")
  (name.both (value.both (attributes.both (children.both (selfClosing.both repeater))))).map
    fun (name, value, attributes, children, selfClosing, repeater) =>
      .element { name, value, attributes, selfClosing } children repeater

/-- The parts of a group.  One without a list of elements is not looked into any further. -/
def groupOf (p : Position) (fields : Fields) :
    ListField (Checked (List Statement)) → Checked (List Statement × Option Repeater)
  | .list children =>
    ((repeater (p.field "repeat") (fields.get "repeat")).both children).map fun (r, cs) => (cs, r)
  | .endless => .fault .statementEndless (p.field "elements")
  | _ => .fault .groupElementsMissing (p.field "elements")

mutual

def statement (p : Position) : Value → Checked Statement
  | .map fields =>
    let children := childrenField (p.field "elements") fields
    match kind? fields with
    | none => .fault .unknownStatement (p.field "type")
    | some .element => elementOf p fields (elementChildren (p.field "elements") children)
    | some .group => (groupOf p fields children).map fun (cs, r) => .group cs r
  | .endless => .fault .statementEndless p
  | _ => .fault .statementNotMap p

def childrenField (p : Position) : Fields → ListField (Checked (List Statement))
  | [] => .missing
  | (key, value) :: rest => if key = .string "elements" then children p value else childrenField p rest

def children (p : Position) : Value → ListField (Checked (List Statement))
  | .null => .missing
  | .list items => .list (statements p 0 items)
  | .endless => .endless
  | _ => .other

/-- The statements of a list at a position, counted from `i`. -/
def statements (p : Position) (i : Nat) : List Value → Checked (List Statement)
  | [] => .ok []
  | v :: rest => Checked.cons (statement (p.item i) v) (statements p (i + 1) rest)

end

def tree (p : Position) (fields : Fields) : Checked Tree :=
  (groupOf p fields (childrenField (p.field "elements") fields)).map fun (cs, r) =>
    { statements := cs, repeater := r }

end Decode

end Shorthand
