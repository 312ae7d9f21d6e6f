import Shorthand.Proofs.Document.Grammar

/-!
# Trees spelled out as documents

A tree is spelled out field by field, and reading what is spelled out gives the tree again.

* `Token.spelled`, `Attribute.spelled`, `Statement.spelled`, `Tree.spelled`: what stands for a tree;
* `Decode.token_spelled`, `Decode.statement_spelled`: what is spelled out is read as what it stands for;
* `Document.validate_spelled_iff`: the trees of documents are the legal ones, and nothing of them is lost
  when they are spelled out.
-/

namespace Shorthand

/-! ### Spelling -/

/-- What stands for a thing that may be missing: null where it is. -/
def Value.nullOr {α : Type} (spelled : α → Value) : Option α → Value
  | none => .null
  | some x => spelled x

def Bracket.spelled : Bracket → Value
  | .attributes => .string "attribute"
  | .expression => .string "expression"
  | .group => .string "group"

def Token.spelled : Token → Value
  | .literal text => .record [("type", .string "literal"), ("value", .string text)]
  | .field index name =>
    .record [("type", .string "field"), ("index", .nullOr .int index), ("name", .string name)]
  | .reference name => .record [("type", .string "variable"), ("name", .string name)]
  | .quote single => .record [("type", .string "quote"), ("single", .bool single)]
  | .bracket context opening =>
    .record [("type", .string "bracket"), ("context", context.spelled), ("open", .bool opening)]
  | .placeholder => .record [("type", .string "repeater_placeholder")]
  | .number n =>
    .record
      [("type", .string "repeater_number"), ("size", .int n.size), ("reverse", .bool n.reverse),
        ("base", .int n.base), ("parent", .int n.parent)]
  | .space => .record [("type", .string "whitespace")]

def spelledTokens (tokens : Option (List Token)) : Value :=
  .nullOr (fun ts => .list (ts.map Token.spelled)) tokens

def Repeater.spelled (r : Repeater) : Value :=
  .record [("count", .nullOr .int r.count), ("value", .int r.value), ("implicit", .bool r.implicit)]

def Attribute.spelled (a : Attribute) : Value :=
  .record [("name", spelledTokens a.name), ("value", spelledTokens a.value)]

def spelledAttributes (attributes : Option (List Attribute)) : Value :=
  .nullOr (fun as => .list (as.map Attribute.spelled)) attributes

mutual

def Statement.spelled : Statement → Value
  | .element head cs r =>
    .record
      [("type", .string "element"), ("name", spelledTokens head.name), ("value", spelledTokens head.value),
        ("attributes", spelledAttributes head.attributes), ("elements", .list (Statement.spelledAll cs)),
        ("self_close", .bool head.selfClosing), ("repeat", .nullOr Repeater.spelled r)]
  | .group cs r =>
    .record
      [("type", .string "group"), ("elements", .list (Statement.spelledAll cs)),
        ("repeat", .nullOr Repeater.spelled r)]

def Statement.spelledAll : List Statement → List Value
  | [] => []
  | s :: rest => s.spelled :: Statement.spelledAll rest

end

def Tree.groupFields (t : Tree) : Fields :=
  [(.string "elements", .list (Statement.spelledAll t.statements)),
    (.string "repeat", .nullOr Repeater.spelled t.repeater)]

/-- The document that spells a tree out, with a version and perhaps an abbreviation. -/
def Tree.spelled (t : Tree) (version : String) (abbreviation : Option String) : Fields :=
  [(.string "schema_version", .string version), (.string "abbreviation", .ofString? abbreviation),
    (.string "tree", .map t.groupFields)]

/-! ### Reading -/

theorem Checked.items_spelled {α : Type} {check : Position → Value → Checked α} {spelled : α → Value}
    {xs : List α} (h : ∀ q, ∀ x ∈ xs, check q (spelled x) = .ok x) (p : Position) :
    Checked.items check p (xs.map spelled) = .ok xs := by
  have hf : ∀ f : Nat → Value → Checked α, (∀ i, ∀ x ∈ xs, f i (spelled x) = .ok x) →
      Checked.all ((xs.map spelled).mapIdx f) = .ok xs := by
    intro f hf
    induction xs generalizing f with
    | nil => rfl
    | cons x xs ih =>
      have hx := hf 0 x List.mem_cons_self
      have hxs := ih (fun q y hy => h q y (List.mem_cons_of_mem x hy)) (fun i => f (i + 1))
        fun i y hy => hf (i + 1) y (List.mem_cons_of_mem x hy)
      rw [List.map_cons, List.mapIdx_cons, Checked.all, hx, hxs]
      rfl
  exact hf _ fun i => h (p.item i)

namespace Decode

theorem token_spelled {t : Token} (h : t.Legal) (p : Position) : token p t.spelled = .ok t := by
  cases t with
  | reference name =>
    have hb : Text.isBlankText name = false := Text.isBlankText_eq_false.mpr h
    have hr : token p (Token.reference name).spelled =
        if Text.isBlankText name then .fault .variableMissing (p.field "name") else .ok (.reference name) := rfl
    rw [hr, hb]
    rfl
  | field index name => cases index <;> rfl
  | bracket context opening => cases context <;> rfl
  | number n =>
    have hs : (1 : Int) ≤ n.size := Int.ofNat_le.mpr h
    have hp : (0 : Int) ≤ n.parent := Int.natCast_nonneg n.parent
    have hn : token p (Token.number n).spelled = (do
        let size ← demand (if (1 : Int) ≤ n.size then some (n.size : Int).toNat else none)
          .sizeNotPositive (p.field "size")
        let parent ← demand (if (0 : Int) ≤ n.parent then some (n.parent : Int).toNat else none)
          .parentNegative (p.field "parent")
        pure (.number { n with size, parent })) := rfl
    rw [hn, if_pos hs, if_pos hp]
    rfl
  | literal | quote | placeholder | space => rfl

theorem tokens_spelled {tokens : Option (List Token)} (h : LegalTokens tokens) (p : Position) :
    Decode.tokens p (spelledTokens tokens) = .ok tokens := by
  cases tokens with
  | none => rfl
  | some ts =>
    have hi : Checked.items token p (ts.map Token.spelled) = .ok ts :=
      Checked.items_spelled (fun q t ht => token_spelled (h ts rfl t ht) q) p
    exact congrArg (Except.map some) hi

theorem repeater_spelled {r : Option Repeater} (h : ∀ x ∈ r, x.Counted) (p : Position) :
    repeater p (.nullOr Repeater.spelled r) = .ok r := by
  match r with
  | none | some ⟨none, value, implicit⟩ => rfl
  | some ⟨some count, value, implicit⟩ =>
    have hc : ¬ count < 0 := Int.not_lt.mpr (h _ rfl)
    have hr : repeater p (.nullOr Repeater.spelled (some ⟨some count, value, implicit⟩)) =
        (if count < 0 then Checked.fault (.countNegative count) (p.field "count") else .ok (some count)) >>=
          fun count => pure (some ⟨count, value, implicit⟩) := rfl
    rw [hr, if_neg hc]
    rfl

theorem attributeRecord_spelled {a : Attribute} (h : a.Legal) (p : Position) :
    attributeRecord p a.spelled = .ok a := by
  have ha : attributeRecord p a.spelled =
      ((Decode.tokens (p.field "name") (spelledTokens a.name)).both
        (Decode.tokens (p.field "value") (spelledTokens a.value))).map
          fun x => { name := x.1, value := x.2 } := rfl
  rw [ha, tokens_spelled h.name, tokens_spelled h.value]
  rfl

theorem attributeList_spelled {attributes : Option (List Attribute)}
    (h : ∀ as ∈ attributes, ∀ a ∈ as, a.Legal) (p : Position) :
    attributeList p (spelledAttributes attributes) = .ok attributes := by
  cases attributes with
  | none => rfl
  | some as =>
    have hi : Checked.items attributeRecord p (as.map Attribute.spelled) = .ok as :=
      Checked.items_spelled (fun q a ha => attributeRecord_spelled (h as rfl a ha) q) p
    exact congrArg (Except.map some) hi

mutual

/-- **What is spelled out is read again** as the statement for which it stands. -/
theorem statement_spelled : ∀ (s : Statement), s.Legal → ∀ p : Position, statement p s.spelled = .ok s
  | .element head cs r, h, p => by
    obtain ⟨hh, hcs, hr⟩ := h
    have hs : statement p (Statement.element head cs r).spelled =
        ((Decode.tokens (p.field "name") (spelledTokens head.name)).both
          ((Decode.tokens (p.field "value") (spelledTokens head.value)).both
            ((attributeList (p.field "attributes") (spelledAttributes head.attributes)).both
              ((statements (p.field "elements") 0 (Statement.spelledAll cs)).both
                ((Checked.both (.ok head.selfClosing)
                  (repeater (p.field "repeat") (.nullOr Repeater.spelled r)))))))).map
            fun (name, value, attributes, children, selfClosing, repeater) =>
              .element { name, value, attributes, selfClosing } children repeater := rfl
    rw [hs, tokens_spelled hh.name, tokens_spelled hh.value, attributeList_spelled hh.attributes,
      statements_spelled cs hcs, repeater_spelled hr]
    rfl
  | .group cs r, h, p => by
    obtain ⟨hcs, hr⟩ := h
    have hs : statement p (Statement.group cs r).spelled =
        (((repeater (p.field "repeat") (.nullOr Repeater.spelled r)).both
          (statements (p.field "elements") 0 (Statement.spelledAll cs))).map
            fun (r, cs) => (cs, r)).map fun (cs, r) => .group cs r := rfl
    rw [hs, repeater_spelled hr, statements_spelled cs hcs]
    rfl

theorem statements_spelled : ∀ (ss : List Statement), Statement.LegalAll ss →
    ∀ (p : Position) (i : Nat), statements p i (Statement.spelledAll ss) = .ok ss
  | [], _, _, _ => rfl
  | s :: rest, h, p, i => by
    rw [Statement.spelledAll, statements, statement_spelled s h.1, statements_spelled rest h.2]
    rfl

end

theorem tree_spelled {t : Tree} (h : t.Legal) (p : Position) :
    tree p t.groupFields = .ok t := by
  have ht : tree p t.groupFields =
      (((repeater (p.field "repeat") (.nullOr Repeater.spelled t.repeater)).both
        (statements (p.field "elements") 0 (Statement.spelledAll t.statements))).map
          fun (r, cs) => (cs, r)).map fun (cs, r) => { statements := cs, repeater := r } := rfl
  rw [ht, repeater_spelled h.repeater, statements_spelled _ h.statements]
  rfl

end Decode

namespace Document

/-- A legal tree is the tree of the document that spells it out, with any version and abbreviation. -/
theorem validate_spelled {t : Tree} (h : t.Legal) {version : String}
    (hv : ∃ c ∈ version.toList, Text.isBlank c = false) (abbreviation file : Option String) :
    (ofFields (t.spelled version abbreviation) file).validate = .ok t := by
  let d := ofFields (t.spelled version abbreviation) file
  have hversion : d.checkVersion = .ok () := by
    have hd : d.checkVersion =
        if Text.isBlankText version then .fault .versionMissing [.field "schema_version"] else .ok () := rfl
    rw [hd, Text.isBlankText_eq_false.mpr hv]
    rfl
  have habbreviation : d.checkAbbreviation = .ok abbreviation := by cases abbreviation <;> rfl
  have htree : d.checkTree = .ok t := Decode.tree_spelled h Tree.root
  have hchecked : d.checked = .ok (t, abbreviation) := by
    unfold checked
    rw [hversion, habbreviation, htree]
    rfl
  show d.validate = .ok t
  unfold validate
  rw [hchecked]

/-- **The trees of documents** are the legal ones.  All that documents have are legal, and a legal tree
is the tree of the document that spells it out field by field.  So nothing of the tree of a document is
lost: if it is spelled out, that document has the same tree again. -/
theorem validate_spelled_iff (t : Tree) :
    ((∃ fields file, (ofFields fields file).validate = .ok t) ↔ t.Legal) ∧
      ∀ version : String, (∃ c ∈ version.toList, Text.isBlank c = false) →
        ∀ abbreviation file,
          (t.Legal → (ofFields (t.spelled version abbreviation) file).validate = .ok t) ∧
          ∀ d : Document, d.validate = .ok t →
            (ofFields (t.spelled version abbreviation) file).validate = .ok t := by
  refine ⟨⟨?_, fun h => ?_⟩, fun version hv abbreviation file => ⟨fun h => ?_, fun d hd => ?_⟩⟩
  · rintro ⟨fields, file, hd⟩
    exact (wellFormed_of_validate hd).2
  · have hv : ∃ c ∈ "0".toList, Text.isBlank c = false := ⟨'0', by decide, by decide⟩
    exact ⟨t.spelled "0" none, none, validate_spelled h hv none none⟩
  · exact validate_spelled h hv abbreviation file
  · exact validate_spelled (wellFormed_of_validate hd).2 hv abbreviation file

/-- A repeated group of an element that has an empty list of attributes and no name, and a tree that no
document has, because a reference in it has a blank name. -/
theorem validate_spelled_iff_group :
    let head : Element := { attributes := some [], value := some [.field none "", .number { size := 2 }] }
    let t : Tree := { statements := [.group [.element head [] (some { count := some 0 })] (some {})] }
    let blank : Tree := { statements := [.element { name := some [.reference " "] } [] none] }
    (∃ c ∈ "0.1".toList, Text.isBlank c = false) ∧ t.Legal ∧
      (ofFields (t.spelled "0.1" (some "(>*0)*")) none).validate = .ok t ∧
      ¬ ∃ fields file, (ofFields fields file).validate = .ok blank := by
  intro head t blank
  have hv : ∃ c ∈ "0.1".toList, Text.isBlank c = false := ⟨'0', by decide, by decide⟩
  have legal : t.Legal := by decide
  have illegal : ¬ blank.Legal := by decide
  refine ⟨hv, legal, ?_, fun h => ?_⟩
  · exact ((validate_spelled_iff t).2 "0.1" hv _ _).1 legal
  · exact illegal ((validate_spelled_iff blank).1.mp h)

end Document

end Shorthand
