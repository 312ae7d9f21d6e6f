import Shorthand.Document
import Shorthand.Proofs.Document.Checked
import Shorthand.Proofs.Expansion.Balance

/-!
# The grammar of documents

What a document is, told of the data alone, and what is known of the tree that is read from one.

* `Grammar.IsToken`, `Grammar.IsRepeat`, `Grammar.IsStatement`, `Grammar.IsDocument`: the grammar;
* `Tree.Legal`: what can be said of all trees of documents;
* `Decode.statement_meets`: a statement is read just if the grammar accepts it, and is legal then;
* `Document.wellFormed_of_validate`: a document that has a tree is well formed, and the tree is legal.
-/

namespace Shorthand

/-! ### Grammar -/

namespace Grammar

/-- What the record of a token holds, by the name of its type. -/
def TokenRecord (fields : Fields) : String → Prop
  | "literal" => (fields.get "value").IsText
  | "field" => fields.Nullable "index" Value.IsInt ∧ fields.Optional "name" Value.IsText
  | "variable" => (fields.get "name").IsWritten
  | "quote" => fields.Optional "single" Value.IsBool
  | "bracket" =>
    (fields.get "context" = .string "attribute" ∨ fields.get "context" = .string "expression" ∨
      fields.get "context" = .string "group") ∧ (fields.get "open").IsBool
  | "repeater_number" =>
    fields.Optional "size" (Value.IsIntFrom 1) ∧ fields.Optional "reverse" Value.IsBool ∧
      fields.Optional "base" Value.IsInt ∧ fields.Optional "parent" (Value.IsIntFrom 0)
  | "repeater_placeholder" => True
  | "whitespace" => True
  | _ => False

/-- A token: text, or a record. -/
inductive IsToken : Value → Prop
  | text (s : String) : IsToken (.string s)
  | record {fields : Fields} {type : String} (named : fields.get "type" = .string type)
    (holds : TokenRecord fields type) : IsToken (.map fields)

/-- The tokens of a name or of a value, which may be missing. -/
inductive IsTokens : Value → Prop
  | missing : IsTokens .null
  | text (s : String) : IsTokens (.string s)
  | list {items : List Value} (h : ∀ v ∈ items, IsToken v) : IsTokens (.list items)

/-- A repeater, which may be missing. -/
inductive IsRepeat : Value → Prop
  | missing : IsRepeat .null
  | record {fields : Fields} (count : fields.Nullable "count" (Value.IsIntFrom 0))
    (value : fields.Optional "value" Value.IsInt) (implicit : fields.Optional "implicit" Value.IsBool) :
    IsRepeat (.map fields)

inductive IsAttribute : Value → Prop
  | record {fields : Fields} (name : IsTokens (fields.get "name")) (value : IsTokens (fields.get "value")) :
    IsAttribute (.map fields)

/-- The attributes of an element, which may be missing. -/
inductive IsAttributes : Value → Prop
  | missing : IsAttributes .null
  | list {items : List Value} (h : ∀ v ∈ items, IsAttribute v) : IsAttributes (.list items)

def IsElementType (fields : Fields) : Prop :=
  fields.get? "type" = none ∨ fields.get? "type" = some (.string "element")

/-- A statement: an element, whose children may be missing, or a group, whose children may not. -/
inductive IsStatement : Value → Prop
  | element {fields : Fields} {items : List Value} (type : IsElementType fields)
    (name : IsTokens (fields.get "name")) (value : IsTokens (fields.get "value"))
    (attributes : IsAttributes (fields.get "attributes"))
    (elements : fields.get "elements" = .list items ∨ fields.get "elements" = .null ∧ items = [])
    (children : ∀ v ∈ items, IsStatement v)
    (selfClosing : fields.Optional "self_close" Value.IsBool)
    (repeater : IsRepeat (fields.get "repeat")) : IsStatement (.map fields)
  | group {fields : Fields} {items : List Value} (type : fields.get? "type" = some (.string "group"))
    (elements : fields.get "elements" = .list items) (children : ∀ v ∈ items, IsStatement v)
    (repeater : IsRepeat (fields.get "repeat")) : IsStatement (.map fields)

/-- What a group holds, whatever its type says. -/
structure IsGroup (fields : Fields) : Prop where
  repeater : IsRepeat (fields.get "repeat")
  children : ∃ items, fields.get "elements" = .list items ∧ ∀ v ∈ items, IsStatement v

/-- A document. -/
structure IsDocument (fields : Fields) : Prop where
  version : (fields.get "schema_version").IsWritten
  abbreviation : fields.Nullable "abbreviation" Value.IsText
  tree : ∃ group, fields.get "tree" = .map group ∧ IsGroup group

end Grammar

open Grammar Checked

/-! ### Legal trees -/

/-- A reference has a name, and a number at least one character.  How far out it goes on from is a
natural number already. -/
def Token.Legal : Token → Prop
  | .reference name => ∃ c ∈ name.toList, Text.isBlank c = false
  | .number n => 1 ≤ n.size
  | _ => True

def LegalTokens (tokens : Option (List Token)) : Prop := ∀ ts ∈ tokens, ∀ t ∈ ts, t.Legal

structure Attribute.Legal (a : Attribute) : Prop where
  name : LegalTokens a.name
  value : LegalTokens a.value

structure Element.Legal (head : Element) : Prop where
  name : LegalTokens head.name
  value : LegalTokens head.value
  attributes : ∀ as ∈ head.attributes, ∀ a ∈ as, a.Legal

mutual

/-- All that is written in a statement is legal: its tokens, and the counts of its repeaters. -/
def Statement.Legal : Statement → Prop
  | .element head cs r => head.Legal ∧ Statement.LegalAll cs ∧ ∀ x ∈ r, x.Counted
  | .group cs r => Statement.LegalAll cs ∧ ∀ x ∈ r, x.Counted

def Statement.LegalAll : List Statement → Prop
  | [] => True
  | s :: rest => s.Legal ∧ Statement.LegalAll rest

end

structure Tree.Legal (t : Tree) : Prop where
  statements : Statement.LegalAll t.statements
  repeater : ∀ x ∈ t.repeater, x.Counted

instance : DecidablePred Token.Legal
  | .reference name => decidable_of_iff (Text.isBlankText name = false) Text.isBlankText_eq_false
  | .number n => inferInstanceAs (Decidable (1 ≤ n.size))
  | .literal _ | .field _ _ | .quote _ | .bracket _ _ | .placeholder | .space => isTrue trivial

instance (tokens : Option (List Token)) : Decidable (LegalTokens tokens) :=
  inferInstanceAs (Decidable (∀ ts ∈ tokens, ∀ t ∈ ts, t.Legal))

instance : DecidablePred Attribute.Legal := fun a =>
  decidable_of_iff (LegalTokens a.name ∧ LegalTokens a.value)
    ⟨fun h => ⟨h.1, h.2⟩, fun h => ⟨h.name, h.value⟩⟩

instance : DecidablePred Element.Legal := fun head =>
  decidable_of_iff
    (LegalTokens head.name ∧ LegalTokens head.value ∧ ∀ as ∈ head.attributes, ∀ a ∈ as, a.Legal)
    ⟨fun h => ⟨h.1, h.2.1, h.2.2⟩, fun h => ⟨h.name, h.value, h.attributes⟩⟩

mutual

def Statement.decidableLegal : ∀ s : Statement, Decidable s.Legal
  | .element head cs r =>
    have := Statement.decidableLegalAll cs
    inferInstanceAs (Decidable (head.Legal ∧ Statement.LegalAll cs ∧ ∀ x ∈ r, x.Counted))
  | .group cs r =>
    have := Statement.decidableLegalAll cs
    inferInstanceAs (Decidable (Statement.LegalAll cs ∧ ∀ x ∈ r, x.Counted))

def Statement.decidableLegalAll : ∀ ss : List Statement, Decidable (Statement.LegalAll ss)
  | [] => isTrue trivial
  | s :: rest =>
    have := s.decidableLegal
    have := Statement.decidableLegalAll rest
    inferInstanceAs (Decidable (s.Legal ∧ Statement.LegalAll rest))

end

instance : DecidablePred Tree.Legal := fun t =>
  have := Statement.decidableLegalAll t.statements
  decidable_of_iff (Statement.LegalAll t.statements ∧ ∀ x ∈ t.repeater, x.Counted)
    ⟨fun h => ⟨h.1, h.2⟩, fun h => ⟨h.statements, h.repeater⟩⟩

mutual

theorem Statement.counted_of_legal : ∀ s : Statement, s.Legal → s.Counted
  | .element _ cs _, h => ⟨h.2.2, countedAll_of_legalAll cs h.2.1⟩
  | .group cs _, h => ⟨h.2, countedAll_of_legalAll cs h.1⟩

theorem Statement.countedAll_of_legalAll : ∀ ss : List Statement, Statement.LegalAll ss →
    Statement.CountedAll ss
  | [], _ => trivial
  | s :: rest, h => ⟨counted_of_legal s h.1, countedAll_of_legalAll rest h.2⟩

end

def Tree.Counted (t : Tree) : Prop := Statement.CountedAll t.statements

/-! ### Tokens and repeaters -/

namespace Decode

theorem literal_meets (p : Position) (fields : Fields) :
    (literal p fields).Meets (fields.get "value").IsText Token.Legal := by
  unfold literal
  split
  · next s h => exact ⟨⟨s, h⟩, trivial⟩
  · next h => exact .fault fun ⟨s, hs⟩ => h s hs

theorem field_meets (p : Position) (fields : Fields) :
    (field p fields).Meets (fields.Nullable "index" Value.IsInt ∧ fields.Optional "name" Value.IsText)
      Token.Legal := by
  unfold field
  refine .bind (.demand isSome_fieldIndex) fun index _ => ?_
  refine .bind_pure (.demand isSome_fieldName) fun name _ => ?_
  trivial

theorem reference_meets (p : Position) (fields : Fields) :
    (reference p fields).Meets (fields.get "name").IsWritten Token.Legal := by
  unfold reference
  generalize fields.get "name" = v
  split
  · next s =>
    rw [Value.isWritten_string]
    split
    · next hb => exact .fault ((Bool.not_eq_false _).mpr hb)
    · next hb =>
      have hw : Text.isBlankText s = false := Bool.eq_false_iff.mpr hb
      exact ⟨hw, Text.isBlankText_eq_false.mp hw⟩
  · next h => exact .fault fun ⟨s, hs, _⟩ => h s hs

theorem quote_meets (p : Position) (fields : Fields) :
    (quote p fields).Meets (fields.Optional "single" Value.IsBool) Token.Legal := by
  unfold quote
  exact .bind_pure (.demand isSome_boolField) fun _ _ => trivial

theorem bracket_meets (p : Position) (fields : Fields) :
    (bracket p fields).Meets
      ((fields.get "context" = .string "attribute" ∨ fields.get "context" = .string "expression" ∨
        fields.get "context" = .string "group") ∧ (fields.get "open").IsBool) Token.Legal := by
  unfold bracket
  refine .bind (.demand isSome_context?) fun context _ => ?_
  refine .bind_pure (.demand isSome_opening?) fun opening _ => ?_
  trivial

theorem number_meets (p : Position) (fields : Fields) :
    (number p fields).Meets
      (fields.Optional "size" (Value.IsIntFrom 1) ∧ fields.Optional "reverse" Value.IsBool ∧
        fields.Optional "base" Value.IsInt ∧ fields.Optional "parent" (Value.IsIntFrom 0)) Token.Legal := by
  unfold number
  refine .bind (.demand (isSome_natField (Nat.le_refl 1))) fun size hs => ?_
  refine .bind (.demand isSome_boolField) fun reverse _ => ?_
  refine .bind (.demand isSome_intField) fun base _ => ?_
  refine .bind_pure (.demand (isSome_natField (Nat.le_refl 0))) fun parent _ => ?_
  exact le_of_natField hs

theorem tokenOfFields_meets (p : Position) (fields : Fields) :
    (tokenOfFields p fields).Meets (IsToken (.map fields)) Token.Legal := by
  have record : ∀ {type}, fields.get "type" = .string type →
      (TokenRecord fields type ↔ IsToken (.map fields)) := by
    refine fun hn => ⟨.record hn, fun h => ?_⟩
    cases h with
    | record named holds =>
      rw [hn] at named
      cases named
      exact holds
  unfold tokenOfFields
  split
  · next h => exact (literal_meets p fields).congr (record h) fun _ => id
  · next h => exact (field_meets p fields).congr (record h) fun _ => id
  · next h => exact (reference_meets p fields).congr (record h) fun _ => id
  · next h => exact (quote_meets p fields).congr (record h) fun _ => id
  · next h => exact (bracket_meets p fields).congr (record h) fun _ => id
  · next h => exact (number_meets p fields).congr (record h) fun _ => id
  · next h => exact ⟨(record h).mp trivial, trivial⟩
  · next h => exact ⟨(record h).mp trivial, trivial⟩
  · refine .fault fun h => ?_
    cases h with
    | record named holds =>
      unfold TokenRecord at holds
      split at holds <;> simp_all

theorem token_meets (p : Position) (v : Value) : (token p v).Meets (IsToken v) Token.Legal := by
  unfold token
  split
  · exact ⟨.text _, trivial⟩
  · exact tokenOfFields_meets p _
  · refine .fault fun h => ?_
    cases h <;> simp_all

theorem tokens_meets (p : Position) (v : Value) : (tokens p v).Meets (IsTokens v) LegalTokens := by
  unfold tokens
  split
  · exact ⟨.missing, nofun⟩
  · next s =>
    refine ⟨.text s, fun ts hts t ht => ?_⟩
    cases hts
    rw [List.mem_singleton.mp ht]
    trivial
  · next items =>
    have hi := Meets.items (fun q v => token_meets q v) p items
    refine (hi.map (S := LegalTokens) fun ts hts us hus => ?_).congr ⟨.list, fun h => ?_⟩ fun _ => id
    · cases hus
      exact hts
    · cases h
      assumption
  · refine .fault fun h => ?_
    cases h <;> simp_all

theorem count_meets (p : Position) (fields : Fields) :
    (count p fields).Meets (fields.Nullable "count" (Value.IsIntFrom 0)) fun c => 0 ≤ c.getD 0 := by
  unfold count Fields.Nullable
  generalize fields.get "count" = v
  split
  · exact ⟨.inl rfl, Int.le_refl 0⟩
  · next i =>
    split
    · next hi =>
      refine .fault fun h => ?_
      obtain h | ⟨j, hj, hl⟩ := h
      · cases h
      · cases hj
        omega
    · next hi =>
      have hl : 0 ≤ i := Int.not_lt.mp hi
      exact ⟨.inr ⟨i, rfl, hl⟩, hl⟩
  · refine .fault fun h => ?_
    obtain h | ⟨j, hj, -⟩ := h <;> simp_all

theorem repeater_meets (p : Position) (v : Value) :
    (repeater p v).Meets (IsRepeat v) fun r => ∀ x ∈ r, x.Counted := by
  unfold repeater
  split
  · exact ⟨.missing, nofun⟩
  · next fields =>
    have record : IsRepeat (.map fields) ↔ Fields.Nullable fields "count" (Value.IsIntFrom 0) ∧
        Fields.Optional fields "value" Value.IsInt ∧ Fields.Optional fields "implicit" Value.IsBool := by
      constructor
      · intro h
        cases h with
        | record count value implicit => exact ⟨count, value, implicit⟩
      · rintro ⟨count, value, implicit⟩
        exact .record count value implicit
    rw [record]
    refine .bind (count_meets p fields) fun count hc => ?_
    refine .bind (.demand isSome_intField) fun value _ => ?_
    refine .bind_pure (.demand isSome_boolField) fun implicit _ => ?_
    intro x hx
    cases hx
    exact hc
  · refine .fault fun h => ?_
    cases h <;> simp_all

/-! ### Attributes -/

theorem attributeRecord_meets (p : Position) (v : Value) :
    (attributeRecord p v).Meets (IsAttribute v) Attribute.Legal := by
  unfold attributeRecord
  split
  · next fields =>
    unfold attributeOfFields
    refine (Meets.map ((tokens_meets _ _).both (tokens_meets _ _)) fun x h => Attribute.Legal.mk h.1 h.2).congr
      ⟨fun h => .record h.1 h.2, fun h => ?_⟩ fun _ => id
    cases h with
    | record name value => exact ⟨name, value⟩
  · refine .fault fun h => ?_
    cases h
    simp_all

theorem attributeList_meets (p : Position) (v : Value) :
    (attributeList p v).Meets (IsAttributes v) fun as => ∀ xs ∈ as, ∀ a ∈ xs, a.Legal := by
  unfold attributeList
  split
  · exact ⟨.missing, nofun⟩
  · next items =>
    have hi := Meets.items (fun q v => attributeRecord_meets q v) p items
    refine (hi.map fun as has xs hxs => ?_).congr ⟨.list, fun h => ?_⟩ fun _ => id
    · cases hxs
      exact has
    · cases h
      assumption
  · refine .fault fun h => ?_
    cases h <;> simp_all

/-! ### Statements -/

/-- What is found in the place of a list of statements is what stands there. -/
def ListField.Meets (c : ListField (Checked (List Statement))) (v : Value) : Prop :=
  match c with
  | .missing => v = .null
  | .other => v ≠ .null ∧ ∀ items, v ≠ .list items
  | .list children =>
    ∃ items, v = .list items ∧ children.Meets (∀ x ∈ items, IsStatement x) Statement.LegalAll
  | .endless => v = .endless

theorem kind?_eq (fields : Fields) :
    (kind? fields = some .element ↔ IsElementType fields) ∧
      (kind? fields = some .group ↔ fields.get? "type" = some (.string "group")) := by
  unfold kind? IsElementType
  split <;> simp_all

/-- What an element makes of its children: none if they are missing. -/
theorem elementChildren_meets (p : Position) {fields : Fields}
    {c : ListField (Checked (List Statement))} (h : c.Meets (fields.get "elements")) :
    (elementChildren p c).Meets
      (∃ items, (fields.get "elements" = .list items ∨ fields.get "elements" = .null ∧ items = []) ∧
        ∀ x ∈ items, IsStatement x) Statement.LegalAll := by
  cases c with
  | missing => exact ⟨⟨[], .inr ⟨h, rfl⟩, nofun⟩, trivial⟩
  | other =>
    refine .fault ?_
    rintro ⟨items, hl | ⟨hn, -⟩, -⟩
    · exact h.2 items hl
    · exact h.1 hn
  | list children =>
    obtain ⟨items, hi, hc⟩ := h
    refine Checked.Meets.congr hc ⟨fun hs => ⟨items, .inl hi, hs⟩, ?_⟩ fun _ => id
    rintro ⟨items', hl | ⟨hn, -⟩, hs⟩
    · rw [hi] at hl
      cases hl
      exact hs
    · rw [hi] at hn
      cases hn
  | endless =>
    refine .fault ?_
    rintro ⟨items, hl | ⟨hn, -⟩, -⟩
    · rw [h] at hl
      cases hl
    · rw [h] at hn
      cases hn

theorem elementOf_meets (p : Position) {fields : Fields} {children : Checked (List Statement)}
    (type : IsElementType fields)
    (hc : children.Meets
      (∃ items, (fields.get "elements" = .list items ∨ fields.get "elements" = .null ∧ items = []) ∧
        ∀ x ∈ items, IsStatement x) Statement.LegalAll) :
    (elementOf p fields children).Meets (IsStatement (.map fields)) Statement.Legal := by
  unfold elementOf
  have self : (demand (boolField fields "self_close") .selfCloseNotBool (p.field "self_close")).Meets
      (fields.Optional "self_close" Value.IsBool) _ := .demand isSome_boolField
  have parts := (tokens_meets (p.field "name") (fields.get "name")).both
    ((tokens_meets (p.field "value") (fields.get "value")).both
      ((attributeList_meets (p.field "attributes") (fields.get "attributes")).both
        (hc.both (self.both (repeater_meets (p.field "repeat") (fields.get "repeat"))))))
  refine (parts.map fun x h => ?_).congr ⟨?_, fun h => ?_⟩ fun _ => id
  · obtain ⟨name, value, attributes, children, selfClosing, repeater⟩ := x
    obtain ⟨hn, hv, ha, hcs, -, hr⟩ := h
    exact ⟨⟨hn, hv, ha⟩, hcs, hr⟩
  · rintro ⟨hn, hv, ha, ⟨items, he, hs⟩, hself, hr⟩
    exact .element type hn hv ha he hs hself hr
  · cases h with
    | element _ hn hv ha he hs hself hr => exact ⟨hn, hv, ha, ⟨_, he, hs⟩, hself, hr⟩
    | group group _ _ _ =>
      obtain h | h := type <;> simp [h] at group

theorem groupOf_meets (p : Position) {fields : Fields} {c : ListField (Checked (List Statement))}
    (h : c.Meets (fields.get "elements")) :
    (groupOf p fields c).Meets (IsGroup fields) fun x =>
      Statement.LegalAll x.1 ∧ ∀ r ∈ x.2, r.Counted := by
  cases c with
  | missing =>
    refine .fault fun hg => ?_
    obtain ⟨items, hl, -⟩ := hg.children
    rw [h] at hl
    cases hl
  | other =>
    refine .fault fun hg => ?_
    obtain ⟨items, hl, -⟩ := hg.children
    exact h.2 items hl
  | endless =>
    refine .fault fun hg => ?_
    obtain ⟨items, hl, -⟩ := hg.children
    rw [h] at hl
    cases hl
  | list children =>
    obtain ⟨items, hi, hc⟩ := h
    have parts := (repeater_meets (p.field "repeat") (fields.get "repeat")).both hc
    refine (parts.map fun x h => ⟨h.2, h.1⟩).congr ⟨fun hg => ⟨hg.1, items, hi, hg.2⟩, fun hg => ?_⟩ fun _ => id
    obtain ⟨items', hl, hs⟩ := hg.children
    rw [hi] at hl
    cases hl
    exact ⟨hg.repeater, hs⟩

mutual

/-- **A statement is read** just if the grammar accepts it, and is legal then. -/
theorem statement_meets : ∀ (v : Value) (p : Position),
    (statement p v).Meets (IsStatement v) Statement.Legal
  | .map fields, p => by
    have hc := childrenField_meets fields (p.field "elements")
    obtain ⟨element, group⟩ := kind?_eq fields
    rw [statement]
    dsimp only
    split
    · next hk =>
      refine .fault fun h => ?_
      cases h with
      | element type => rw [element.mpr type] at hk; cases hk
      | group type => rw [group.mpr type] at hk; cases hk
    · next hk => exact elementOf_meets p (element.mp hk) (elementChildren_meets _ hc)
    · next hk =>
      refine ((groupOf_meets p hc).map fun x h => h).congr ⟨fun h => ?_, fun h => ?_⟩ fun _ => id
      · obtain ⟨items, he, hs⟩ := h.children
        exact .group (group.mp hk) he hs h.repeater
      · cases h with
        | element type => rw [element.mpr type] at hk; cases hk
        | group _ he hs hr => exact ⟨hr, _, he, hs⟩
  | .null, p | .bool _, p | .int _, p | .float _, p | .string _, p | .moment _, p | .bytes _, p
  | .list _, p | .set _, p | .pair _ _, p | .endless, p => by
    exact .fault nofun

/-- The children of a statement are what stands in their field. -/
theorem childrenField_meets : ∀ (fields : Fields) (p : Position),
    (childrenField p fields).Meets (fields.get "elements")
  | [], _ => rfl
  | (key, value) :: rest, p => by
    rw [childrenField, Fields.get_cons]
    split
    · exact children_meets value p
    · exact childrenField_meets rest p

theorem children_meets : ∀ (v : Value) (p : Position), (children p v).Meets v
  | .null, _ => rfl
  | .list items, p => ⟨items, rfl, statements_meets items p 0⟩
  | .endless, _ => rfl
  | .bool _, _ | .int _, _ | .float _, _ | .string _, _ | .moment _, _ | .bytes _, _ | .map _, _
  | .set _, _ | .pair _ _, _ => ⟨nofun, nofun⟩

theorem statements_meets : ∀ (vs : List Value) (p : Position) (i : Nat),
    (statements p i vs).Meets (∀ v ∈ vs, IsStatement v) Statement.LegalAll
  | [], _, _ => ⟨nofun, trivial⟩
  | v :: rest, p, i => by
    rw [statements]
    exact ((statement_meets v _).cons (statements_meets rest p (i + 1)) fun s ss hs hss => ⟨hs, hss⟩).congr
      List.forall_mem_cons.symm fun _ => id

end

theorem tree_meets (p : Position) (fields : Fields) :
    (tree p fields).Meets (IsGroup fields) Tree.Legal := by
  unfold tree
  have hc := childrenField_meets fields (p.field "elements")
  exact (groupOf_meets p hc).map fun x h => ⟨h.1, h.2⟩

end Decode

/-! ### Documents -/

namespace Document

/-- What a document is, told of its parts. -/
structure WellFormed (d : Document) : Prop where
  version : d.version.IsWritten
  abbreviation : d.abbreviation.getD .null = .null ∨ (d.abbreviation.getD .null).IsText
  tree : ∃ group, d.tree = .map group ∧ IsGroup group

theorem wellFormed_ofFields (fields : Fields) (file : Option String) :
    (ofFields fields file).WellFormed ↔ IsDocument fields :=
  ⟨fun h => ⟨h.version, h.abbreviation, h.tree⟩, fun h => ⟨h.version, h.abbreviation, h.tree⟩⟩

variable (d : Document)

theorem checkVersion_meets : d.checkVersion.Meets d.version.IsWritten fun _ => True := by
  unfold checkVersion
  generalize d.version = v
  split
  · next s =>
    rw [Value.isWritten_string]
    split
    · next hb => exact .fault ((Bool.not_eq_false _).mpr hb)
    · next hb => exact ⟨Bool.eq_false_iff.mpr hb, trivial⟩
  · next h => exact .fault fun ⟨s, hs, _⟩ => h s hs

theorem checkAbbreviation_meets :
    d.checkAbbreviation.Meets
      (d.abbreviation.getD .null = .null ∨ (d.abbreviation.getD .null).IsText) fun _ => True := by
  unfold checkAbbreviation
  generalize d.abbreviation.getD .null = v
  split
  · exact ⟨.inl rfl, trivial⟩
  · next s => exact ⟨.inr ⟨s, rfl⟩, trivial⟩
  · next hn hs => exact .fault fun h => h.elim hn fun ⟨s, h⟩ => hs s h

theorem checkTree_meets :
    d.checkTree.Meets (∃ group, d.tree = .map group ∧ IsGroup group) Tree.Legal := by
  unfold checkTree
  split
  · next group hg =>
    refine (Decode.tree_meets Tree.root group).congr ⟨fun h => ⟨group, hg, h⟩, ?_⟩ fun _ => id
    rintro ⟨group', hg', h⟩
    rw [hg] at hg'
    cases hg'
    exact h
  · next he =>
    refine .fault fun h => ?_
    obtain ⟨group, hg, -⟩ := h
    rw [he] at hg
    cases hg
  · next hn _ =>
    refine .fault fun h => ?_
    obtain ⟨group, hg, -⟩ := h
    exact hn group hg

theorem checked_meets : d.checked.Meets d.WellFormed fun x => x.1.Legal := by
  unfold checked
  have parts := d.checkVersion_meets.both (d.checkAbbreviation_meets.both d.checkTree_meets)
  refine (parts.map fun x h => ?_).congr ⟨fun h => ⟨h.1, h.2.1, h.2.2⟩, fun h => ?_⟩ fun _ => id
  · exact h.2.2
  · exact ⟨h.version, h.abbreviation, h.tree⟩

theorem Rejection.ofFaults_eq_faulty {file : Option String} {faults : List Fault}
    (h : ∀ f ∈ faults, f.cause.hindrance? = none) :
    ofFaults file faults = .faulty (Diagnostic.sort (faults.map (Fault.diagnostic file))) := by
  rw [ofFaults, List.findSome?_eq_none_iff.mpr h]

/-- The check breaks off at a fault that cannot be reported. -/
theorem Rejection.exists_of_ofFaults_eq_hindered {file : Option String} {faults : List Fault} {cause : Hindrance}
    (h : ofFaults file faults = .hindered cause) : ∃ f ∈ faults, f.cause.hindrance? = some cause := by
  unfold ofFaults at h
  split at h
  · next other ho =>
    cases h
    exact List.exists_of_findSome?_eq_some ho
  · cases h

theorem validate_eq_ok {t : Tree} :
    d.validate = .ok t ↔ ∃ abbreviation, d.checked = .ok (t, abbreviation) := by
  unfold validate
  cases d.checked with
  | ok x => simp [Prod.ext_iff]
  | error faults => simp

theorem validate_eq_error {rejection : Rejection} :
    d.validate = .error rejection ↔ ∃ faults, d.checked = .error faults ∧ .ofFaults d.file faults = rejection := by
  unfold validate
  cases d.checked with
  | ok x => simp
  | error faults => simp

/-- A document that has a tree is well formed, and the tree is legal. -/
theorem wellFormed_of_validate {d : Document} {t : Tree} (h : d.validate = .ok t) : d.WellFormed ∧ t.Legal := by
  obtain ⟨abbreviation, hc⟩ := d.validate_eq_ok.mp h
  have hm := d.checked_meets
  rw [hc] at hm
  exact hm

theorem not_wellFormed_of_validate {d : Document} {rejection : Rejection} (h : d.validate = .error rejection) :
    ¬ d.WellFormed := by
  obtain ⟨faults, hc, -⟩ := d.validate_eq_error.mp h
  have hm := d.checked_meets
  rw [hc] at hm
  exact hm.1

theorem counted_of_validate {d : Document} {t : Tree} (h : d.validate = .ok t) : t.Counted :=
  Statement.countedAll_of_legalAll t.statements (wellFormed_of_validate h).2.statements

instance (fields : Fields) : Decidable (IsDocument fields) :=
  match (ofFields fields none).checked, (ofFields fields none).checked_meets with
  | .ok _, h => isTrue ((wellFormed_ofFields fields none).mp h.1)
  | .error _, h => isFalse fun hd => h.1 ((wellFormed_ofFields fields none).mpr hd)

/-- A truth value is no count. -/
example :
    let document : Value → Fields := fun count =>
      [(.string "schema_version", .string "0.1"),
        (.string "tree", .record [("elements", .list [.record [("repeat", .record [("count", count)])]])])]
    IsDocument (document (.int 0)) ∧ ¬ IsDocument (document (.bool false)) := by
  decide

end Document

end Shorthand
