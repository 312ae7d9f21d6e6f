import Shorthand.Proofs.Node.Formed

/-!
# Expansions are fixed points

A node can be written down again as an element: texts become literals, tab stops stay what they are,
the marks of an attribute return to its name and the delimiters to its value.  An expansion that is
written down so and expanded once more comes out as it went in.

* `Entry.tokens`, `Node.Attribute.written`, `Node.written`: values, attributes and nodes written down;
* `Node.plain`: a node without the repeaters of its copies;
* `Node.nodesIn_written`, `Node.eventsIn_written`: what is written down expands to itself, and nothing
  is logged;
* `Tree.expand_written`: hence an expansion is a fixed point.
-/

namespace Shorthand

/-! ### What is written down -/

def Entry.token : Entry → Token
  | .text s => .literal s
  | .field index name => .field (some index) name

/-- The tokens of a value.  An empty value needs one, for a value without tokens is missing. -/
def Entry.tokens : List Entry → List Token
  | [] => [.literal ""]
  | e :: es => (e :: es).map Entry.token

def ValueKind.delimit (tokens : List Token) : ValueKind → List Token
  | .raw => tokens
  | .singleQuoted => .quote true :: (tokens ++ [.quote true])
  | .doubleQuoted => .quote false :: (tokens ++ [.quote false])
  | .expression => .bracket .expression true :: (tokens ++ [.bracket .expression false])

def Node.Attribute.written (a : Node.Attribute) : Shorthand.Attribute :=
  { name := a.name.map fun name => [.literal (marked a.implied a.boolean name)]
    value := a.value.map fun es => a.kind.delimit (Entry.tokens es) }

mutual

def Node.written : Node → Statement
  | ⟨name, value, attributes, children, _, selfClosing⟩ =>
    .element
      { name := name.map fun n => [.literal n]
        value := value.map Entry.tokens
        attributes := attributes.map (·.map Node.Attribute.written)
        selfClosing }
      (Node.writtenAll children) none

def Node.writtenAll : List Node → List Statement
  | [] => []
  | n :: rest => n.written :: Node.writtenAll rest

end

mutual

def Node.plain : Node → Node
  | ⟨name, value, attributes, children, _, selfClosing⟩ =>
    ⟨name, value, attributes, Node.plainAll children, none, selfClosing⟩

def Node.plainAll : List Node → List Node
  | [] => []
  | n :: rest => n.plain :: Node.plainAll rest

end

mutual

/-- Is a text in the value of a node or of a node below it empty?  Only text that is put behind a value
can leave one there. -/
def Node.holdsEmptyText : Node → Bool
  | ⟨_, value, _, children, _, _⟩ =>
    (value.getD []).contains (.text "") || Node.holdsEmptyTextAll children

def Node.holdsEmptyTextAll : List Node → Bool
  | [] => false
  | n :: rest => n.holdsEmptyText || Node.holdsEmptyTextAll rest

end

section Source

variable (src : Source) (env : List Repeater)

/-! ### Values -/

namespace Entry

@[simp] theorem entryIn_token (e : Entry) : e.token.entryIn src env = e := by cases e <;> rfl

@[simp] theorem events_token (e : Entry) : e.token.events src = [] := by cases e <;> rfl

theorem tokens_ne_nil (es : List Entry) : tokens es ≠ [] := by cases es <;> exact List.cons_ne_nil _ _

/-- A value that is joined already is the value of its tokens. -/
theorem valueIn_tokens {es : List Entry} (h : Alternating es) (hne : .text "" ∉ es) :
    valueIn src env (tokens es) = es := by
  cases es with
  | nil => rfl
  | cons e es =>
    have hmap : ((e :: es).map token).map (Token.entryIn src env) = e :: es := by
      rw [List.map_map]
      exact (List.map_congr_left fun x _ => entryIn_token src env x).trans (List.map_id _)
    rw [tokens, valueIn, hmap]
    exact joined_of_alternating h hne

theorem eventsOf_tokens (es : List Entry) : eventsOf src (some (tokens es)) = [] := by
  cases es with
  | nil => rfl
  | cons e es =>
    refine List.flatMap_eq_nil_iff.mpr fun t ht => ?_
    obtain ⟨x, -, rfl⟩ := List.mem_map.mp ht
    exact events_token src x

end Entry

theorem someIn_of_ne_nil {α : Type} (text : List Token → α) {ts : List Token} (h : ts ≠ []) :
    someIn text (some ts) = some (text ts) := by
  cases ts with
  | nil => exact absurd rfl h
  | cons t ts => rfl

theorem someIn_literal (name : Option String) :
    someIn (nameIn src env) (name.map fun n => [.literal n]) = name := by
  cases name with
  | none => rfl
  | some n =>
    refine congrArg some ?_
    simp [nameIn, Token.textIn, String.join]

theorem eventsOf_literal (name : Option String) :
    eventsOf src (name.map fun n => [.literal n]) = [] := by cases name <;> rfl

/-! ### Attributes -/

theorem unwrapAfter_append (kind : ValueKind) {closes : Token → Bool} (ts : List Token) {t : Token}
    (h : closes t = true) : unwrapAfter kind closes (ts ++ [t]) = ⟨kind, ts, true⟩ := by
  unfold unwrapAfter
  rw [List.getLast?_concat, List.dropLast_concat]
  exact if_pos h

/-- **Delimiters that are put around a value** are taken off it again, whatever the value holds. -/
theorem unwrap_delimit (kind : ValueKind) (es : List Entry) :
    unwrap (kind.delimit (Entry.tokens es)) = ⟨kind, Entry.tokens es, true⟩ := by
  cases kind with
  | raw =>
    -- literals and tab stops are no delimiters
    cases es with
    | nil => rfl
    | cons e es => cases e <;> rfl
  | singleQuoted => exact unwrapAfter_append _ _ rfl
  | doubleQuoted => exact unwrapAfter_append _ _ rfl
  | expression => exact unwrapAfter_append _ _ rfl

namespace Node.Attribute

variable {a : Node.Attribute} (h : a.Formed)
include h

/-- The name of an attribute with its marks is the name as written. -/
theorem Formed.someIn_name :
    ∃ written : Option String, someIn (nameIn src env) a.written.name = written ∧
      a.name = written.map bareName ∧ a.implied = written.any isImplied ∧
      a.boolean = written.any isBoolean := by
  obtain ⟨written, hn, hi, hb⟩ := h.name
  refine ⟨written, ?_, hn, hi, hb⟩
  have hw : a.name.map (marked a.implied a.boolean) = written := by
    rw [hn, hi, hb]
    cases written with
    | none => rfl
    | some w => exact congrArg some (marked_bareName w)
  have hmap : a.written.name = (a.name.map (marked a.implied a.boolean)).map fun n => [.literal n] := by
    rw [Option.map_map]
    rfl
  rw [hmap, someIn_literal, hw]

/-- **An attribute that is written down** is rendered to itself. -/
theorem Formed.nodeIn_written : a.written.nodeIn src env = a := by
  obtain ⟨w, hw, hn, hi, hb⟩ := h.someIn_name src env
  have hvalue : (a.written.value.map fun ts => valueIn src env (unwrap ts).inner) = a.value := by
    cases hv : a.value with
    | none => rw [written, hv]; rfl
    | some es =>
      obtain ⟨ha, hne⟩ := h.value es hv
      rw [written, hv, Option.map_some, Option.map_some, unwrap_delimit, Entry.valueIn_tokens src env ha hne]
  have hkind : ((a.written.value.map fun ts => (unwrap ts).kind).getD .raw) = a.kind := by
    cases hv : a.value with
    | none => rw [written, hv]; exact (h.kind hv).symm
    | some es => rw [written, hv, Option.map_some, Option.map_some, unwrap_delimit]; rfl
  unfold Attribute.nodeIn
  rw [hw, hvalue, hkind]
  dsimp only
  rw [← hn, ← hi, ← hb]

omit h in
theorem eventsIn_written (a : Node.Attribute) : a.written.eventsIn src env = [] := by
  have hname : eventsOf src a.written.name = [] := by
    cases hn : a.name <;> rw [written, hn] <;> rfl
  unfold Attribute.eventsIn
  rw [hname, List.nil_append]
  cases hv : a.value with
  | none => rw [written, hv]; rfl
  | some es =>
    have hd (name : Option String) : Attribute.delimiterEvents name (a.kind.delimit (Entry.tokens es)) = [] := by
      rw [Attribute.delimiterEvents, unwrap_delimit]
      exact if_neg Bool.noConfusion
    rw [written, hv, Option.map_some]
    dsimp only
    rw [hd, unwrap_delimit, Entry.eventsOf_tokens]
    rfl

end Node.Attribute

/-! ### Nodes -/

namespace Node

mutual

/-- **A node that is written down** expands to itself, without the repeaters. -/
theorem nodesIn_written (waiting : Bool) : ∀ n : Node, n.Formed → n.holdsEmptyText = false →
    n.written.nodesIn src env waiting = [n.plain]
  | ⟨name, value, attributes, children, repeater, selfClosing⟩, hf, he => by
    obtain ⟨hv, has, hc⟩ := hf
    rw [holdsEmptyText, Bool.or_eq_false_iff] at he
    have hvalue : someIn (valueIn src env) (value.map Entry.tokens) = value := by
      cases value with
      | none => rfl
      | some es =>
        have hne : Entry.text "" ∉ es := by simpa using he.1
        rw [Option.map_some, someIn_of_ne_nil _ (Entry.tokens_ne_nil es),
          Entry.valueIn_tokens src env (hv es rfl) hne]
    have hattributes :
        (attributes.map (·.map Attribute.written)).map (·.map (Shorthand.Attribute.nodeIn src env)) = attributes := by
      cases attributes with
      | none => rfl
      | some as =>
        rw [Option.map_some, Option.map_some, List.map_map]
        refine congrArg some ((List.map_congr_left fun a ha => ?_).trans (List.map_id _))
        exact (has as rfl a ha).nodeIn_written src env
    rw [written, Statement.nodesIn, Element.nodeIn, plain, someIn_literal, hvalue, hattributes,
      nodesInAll_writtenAll waiting children hc he.2]

theorem nodesInAll_writtenAll (waiting : Bool) : ∀ ns : List Node, FormedAll ns →
    holdsEmptyTextAll ns = false → Statement.nodesInAll src env waiting (writtenAll ns) = plainAll ns
  | [], _, _ => rfl
  | n :: rest, hf, he => by
    rw [holdsEmptyTextAll, Bool.or_eq_false_iff] at he
    rw [writtenAll, Statement.nodesInAll, plainAll, nodesIn_written waiting n hf.1 he.1,
      nodesInAll_writtenAll _ rest hf.2 he.2]
    rfl

end

mutual

theorem eventsIn_written (waiting : Bool) : ∀ n : Node, n.written.eventsIn src env waiting = []
  | ⟨name, value, attributes, children, repeater, selfClosing⟩ => by
    have hvalue : eventsOf src (value.map Entry.tokens) = [] := by
      cases value with
      | none => rfl
      | some es => exact Entry.eventsOf_tokens src es
    have hattributes :
        ((attributes.map (·.map Attribute.written)).getD []).flatMap (Shorthand.Attribute.eventsIn src env) = [] := by
      cases attributes with
      | none => rfl
      | some as =>
        refine List.flatMap_eq_nil_iff.mpr fun w hw => ?_
        obtain ⟨a, -, rfl⟩ := List.mem_map.mp hw
        exact a.eventsIn_written src env
    rw [written, Statement.eventsIn, eventsInAll_writtenAll waiting children, Element.eventsIn, hattributes,
      eventsOf_literal, hvalue]
    rfl

theorem eventsInAll_writtenAll (waiting : Bool) : ∀ ns : List Node,
    Statement.eventsInAll src env waiting (writtenAll ns) = []
  | [] => rfl
  | n :: rest => by
    rw [writtenAll, Statement.eventsInAll, eventsIn_written waiting n, eventsInAll_writtenAll _ rest]
    rfl

end

end Node

end Source

/-! ### Trees -/

/-- **An expansion is a fixed point.**  If no text in a value of an expansion is empty, then the
expansion, written down as elements that are not repeated, expands to itself, whatever the text and the
variables are now; only the repeaters of the copies are gone.  Nothing is logged on the way, and so
there is no warning. -/
theorem Tree.expand_written (t : Tree) (src : Source) (h : Node.holdsEmptyTextAll (t.expand src) = false)
    (src' : Source) :
    let again : Tree := { statements := Node.writtenAll (t.expand src) }
    again.expand src' = Node.plainAll (t.expand src) ∧ again.events src' = [] := by
  intro again
  have hexpand : t.expand src = Statement.nodesInAll src [] true t.statements := by
    rw [Tree.expand, Tree.run, Statement.expandAll_run]
    rfl
  have hformed : Node.FormedAll (t.expand src) := by
    rw [hexpand]
    exact Statement.formed_nodesInAll src t.statements [] true
  constructor
  · rw [Tree.expand, Tree.run, Statement.expandAll_run]
    exact Node.nodesInAll_writtenAll src' [] _ _ hformed h
  · rw [Tree.events, Tree.run, Statement.expandAll_run]
    dsimp only
    rw [Node.eventsInAll_writtenAll]
    rfl

/-- Two copies of an item with a quoted attribute that is implied, a text that begins with a quote, and
a tab stop: written down and expanded with another text, they are the same, but for the repeaters. -/
theorem Tree.expand_written_items :
    let src : Source := { text := .items [some "'a", some "b."] }
    let quoted : Shorthand.Attribute :=
      { name := some [.literal "!x"], value := some [.quote true, .literal "v", .placeholder, .quote false] }
    let t : Tree :=
      { statements := [.element
          { name := some [.literal "li"], value := some [.field (some 1) ""], attributes := some [quoted] }
          [] (some { implicit := true })] }
    let again : Tree := { statements := Node.writtenAll (t.expand src) }
    let item (v : String) : Node :=
      { name := some "li", value := some [.field 1 ""],
        attributes := some [⟨some "x", some [.text v], false, true, .singleQuoted⟩] }
    Node.holdsEmptyTextAll (t.expand src) = false ∧
      again.expand { text := .whole "c" } = [item "v'a", item "vb."] ∧
      again.events { text := .whole "c" } = [] := by
  intro src quoted t again item
  have h : Node.holdsEmptyTextAll (t.expand src) = false := rfl
  obtain ⟨hnodes, hevents⟩ := Tree.expand_written t src h { text := .whole "c" }
  exact ⟨h, hnodes.trans rfl, hevents⟩

end Shorthand
