import Shorthand.Proofs.Diagnostic.Order
import Shorthand.Proofs.Document.Counts
import Shorthand.Proofs.Lint.Findings

/-!
# Positions from a document to its reports

The positions that lint reports are those of the document: what they lead to is what a rule finds fault
with.  And the counts of a tree are counts of what stands in the document.

* `Lint.Rule.PlaceIn`, `Lint.Rule.Blames`: where a rule finds fault with a statement, and with what;
* `Lint.blames_of_mem_findings`: that is what stands at the position of a finding;
* `Document.positions_of_validate`: positions from a document to its reports.
-/

namespace Shorthand

namespace Lint

/-! ### What rules find fault with -/

/-- The position, in a list of tokens, of a token of the statement at `p`. -/
def IsTokenIn (p q : Position) : Prop :=
  ∃ list : Position, (∃ i, q = list.item i) ∧
    (list = p.field "name" ∨ list = p.field "value" ∨
      ∃ i, list = (attributeAt p i).field "name" ∨ list = (attributeAt p i).field "value")

/-- Where a rule finds fault with the statement at `p`: at the count of its repeat, at the value of an
attribute, at a token, or at its repeat. -/
def Rule.PlaceIn (p q : Position) : Rule → Prop
  | .emptyRepeat => q = (p.field "repeat").field "count"
  | .unmatchedQuote => ∃ i, q = (attributeAt p i).field "value"
  | .unmatchedExpression => ∃ i, q = (attributeAt p i).field "value"
  | .unknownVariable _ => IsTokenIn p q
  | .laterImplicit _ => q = p.field "repeat"

/-- What a rule finds fault with: a count of zero, tokens that are not closed, a token that refers to a
variable that is not known, or an implicit repeat that is not the first one. -/
def Rule.Blames (known : Option (List String)) (t : Tree) (v : Value) : Rule → Prop
  | .emptyRepeat => v = .int 0
  | .unmatchedQuote => ∃ q ts, Decode.tokens q v = .ok (some ts) ∧ lacksQuote ts = true
  | .unmatchedExpression => ∃ q ts, Decode.tokens q v = .ok (some ts) ∧ lacksBracket ts = true
  | .unknownVariable name =>
    (∃ q token, Decode.token q v = .ok token ∧ token.referent? = some name) ∧
      ∃ names, known = some names ∧ name ∉ names
  | .laterImplicit first =>
    (∃ q r, Decode.repeater q v = .ok (some r) ∧ r.implicit = true) ∧
      ∃ s, (first, s) ∈ t.walk ∧ isImplicit s = true

section Findings

variable {document : Value} {known : Option (List String)} {t : Tree} {p q : Position} {record : Fields}
  {s : Statement} {f : Finding}

theorem at?_repeat (hp : document.at? p = some (.map record)) (hs : Decode.Reads p record s) {r : Repeater}
    (hr : s.repeater = some r) : ∃ fields : Fields, document.at? (p.field "repeat") = some (.map fields) ∧
      Decode.repeater (p.field "repeat") (.map fields) = .ok (some r) := by
  have hread := hs.repeater
  rw [hr] at hread
  obtain ⟨fields, hm, -, -⟩ := Decode.repeater_eq_ok hread
  rw [hm] at hread
  exact ⟨fields, (Value.at?_field hp _).trans (Fields.get?_of_get hm (by simp)), hread⟩

theorem blames_repeatFindings (hp : document.at? p = some (.map record)) (hs : Decode.Reads p record s)
    (hf : f ∈ repeatFindings p s) :
    f.rule.PlaceIn p f.position ∧ ∃ v, document.at? f.position = some v ∧ f.rule.Blames known t v := by
  unfold repeatFindings at hf
  split at hf
  · next r hr =>
    split at hf
    · next hzero =>
      have hcount : r.count = some 0 := by simpa using (Bool.and_eq_true_iff.mp hzero).2
      cases List.mem_singleton.mp hf
      obtain ⟨fields, hm, hread⟩ := at?_repeat hp hs hr
      obtain ⟨_, he, hc, -⟩ := Decode.repeater_eq_ok hread
      cases he
      rw [hcount] at hc
      exact ⟨rfl, .int 0, (Value.at?_field hm _).trans (Decode.count_eq_ok hc), rfl⟩
    · cases hf
  · cases hf

/-- An attribute of a statement stands in its record, and is read from a record of its own. -/
theorem at?_attribute (hp : document.at? p = some (.map record)) (hs : Decode.Reads p record s) {i : Nat}
    {a : Attribute} (ha : s.attributes[i]? = some a) :
    ∃ fields : Fields, document.at? (attributeAt p i) = some (.map fields) ∧
      Decode.tokens ((attributeAt p i).field "name") (fields.get "name") = .ok a.name ∧
      Decode.tokens ((attributeAt p i).field "value") (fields.get "value") = .ok a.value := by
  cases s with
  | group cs r => cases ha
  | element head cs r =>
    obtain ⟨-, -, -, hread⟩ := hs.head
    cases has : head.attributes with
    | none => simp [Statement.attributes, has] at ha
    | some as =>
      rw [Statement.attributes, has] at ha
      rw [has] at hread
      obtain ⟨items, hl, hi⟩ := Decode.attributeList_eq_ok hread
      obtain ⟨v, hv, hread⟩ := (Checked.items_eq_ok hi).2 i a ha
      obtain ⟨fields, rfl, hn, hval⟩ := Decode.attributeRecord_eq_ok hread
      have hlist : document.at? (p.field "attributes") = some (.list items) :=
        (Value.at?_field hp _).trans (Fields.get?_of_get hl (by simp))
      exact ⟨fields, (Value.at?_item hlist i).trans hv, hn, hval⟩

/-- Tokens that are read, and not missing, are those of a value that is there. -/
theorem get?_of_tokens {fields : Fields} {name : String} {ts : List Token}
    (h : Decode.tokens q (fields.get name) = .ok (some ts)) : fields.get? name = some (fields.get name) := by
  refine Fields.get?_of_get rfl fun hn => ?_
  rw [hn] at h
  cases h

theorem blames_delimiterFindings (hp : document.at? p = some (.map record)) (hs : Decode.Reads p record s)
    (hf : f ∈ delimiterFindings p s) :
    f.rule.PlaceIn p f.position ∧ ∃ v, document.at? f.position = some v ∧ f.rule.Blames known t v := by
  obtain ⟨i, hi, hf⟩ := mem_delimiterFindings.mp hf
  obtain ⟨fields, hm, -, hread⟩ := at?_attribute hp hs (List.getElem?_eq_getElem hi)
  dsimp only [valueFindings] at hf
  cases hv : s.attributes[i].value with
  | none =>
    rw [hv] at hf
    cases hf
  | some ts =>
    rw [hv] at hf hread
    have hat : document.at? ((attributeAt p i).field "value") = some (fields.get "value") :=
      (Value.at?_field hm _).trans (get?_of_tokens hread)
    split at hf
    · next hq =>
      cases List.mem_singleton.mp hf
      exact ⟨⟨i, rfl⟩, _, hat, _, ts, hread, hq⟩
    · split at hf
      · next hb =>
        cases List.mem_singleton.mp hf
        exact ⟨⟨i, rfl⟩, _, hat, _, ts, hread, hb⟩
      · cases hf

/-- A token that refers to a variable is one of a list, for text is a literal. -/
theorem at?_reference {fields : Fields} {name field : String} (hp : document.at? p = some (.map fields))
    {tokens : Option (List Token)} (hread : Decode.tokens (p.field field) (fields.get field) = .ok tokens)
    (h : (q, name) ∈ references (p.field field) tokens) :
    (∃ i, q = (p.field field).item i) ∧ ∃ v, document.at? q = some v ∧
      ∃ r token, Decode.token r v = .ok token ∧ token.referent? = some name := by
  obtain ⟨x, hx, he⟩ := List.mem_filterMap.mp h
  obtain ⟨i, hi, hm⟩ := List.mem_mapIdx.mp hx
  rw [← hm] at he
  obtain ⟨n, hn, hqn⟩ := Option.map_eq_some_iff.mp he
  cases hqn
  cases tokens with
  | none => cases hi
  | some ts =>
    rcases Decode.tokens_eq_ok hread with ⟨text, -, rfl⟩ | ⟨items, hl, hitems⟩
    · obtain rfl : i = 0 := Nat.lt_one_iff.mp hi
      cases hn
    · obtain ⟨v, hv, ht⟩ := (Checked.items_eq_ok hitems).2 i _ (List.getElem?_eq_getElem hi)
      have hlist : document.at? (p.field field) = some (.list items) :=
        (Value.at?_field hp _).trans (Fields.get?_of_get hl (by simp))
      exact ⟨⟨i, rfl⟩, v, (Value.at?_item hlist i).trans hv, _, _, ht, hn⟩

theorem at?_statementReference (hp : document.at? p = some (.map record)) (hs : Decode.Reads p record s)
    {name : String} (h : (q, name) ∈ statementReferences p s) :
    IsTokenIn p q ∧ ∃ v, document.at? q = some v ∧
      ∃ r token, Decode.token r v = .ok token ∧ token.referent? = some name := by
  cases s with
  | group cs r => cases h
  | element head cs r =>
    obtain ⟨-, hn, hv, -⟩ := hs.head
    unfold statementReferences at h
    rw [List.mem_append, List.mem_append] at h
    rcases h with (h | h) | h
    · obtain ⟨hi, hat⟩ := at?_reference hp hn h
      exact ⟨⟨_, hi, .inl rfl⟩, hat⟩
    · obtain ⟨hi, hat⟩ := at?_reference hp hv h
      exact ⟨⟨_, hi, .inr (.inl rfl)⟩, hat⟩
    · obtain ⟨refs, hrefs, h⟩ := List.mem_flatten.mp h
      obtain ⟨i, hi, rfl⟩ := List.mem_mapIdx.mp hrefs
      obtain ⟨fields, hm, hn, hv⟩ := at?_attribute hp hs (List.getElem?_eq_getElem hi)
      rcases List.mem_append.mp h with h | h
      · obtain ⟨hj, hat⟩ := at?_reference hm hn h
        exact ⟨⟨_, hj, .inr (.inr ⟨i, .inl rfl⟩)⟩, hat⟩
      · obtain ⟨hj, hat⟩ := at?_reference hm hv h
        exact ⟨⟨_, hj, .inr (.inr ⟨i, .inr rfl⟩)⟩, hat⟩

theorem blames_statementFindings (hp : document.at? p = some (.map record)) (hs : Decode.Reads p record s)
    (hf : f ∈ statementFindings known p s) :
    f.rule.PlaceIn p f.position ∧ ∃ v, document.at? f.position = some v ∧ f.rule.Blames known t v := by
  unfold statementFindings at hf
  rw [List.mem_append, List.mem_append] at hf
  rcases hf with (hf | hf) | hf
  · exact blames_repeatFindings hp hs hf
  · exact blames_delimiterFindings hp hs hf
  · cases known with
    | none => cases hf
    | some names =>
      obtain ⟨⟨q, name⟩, hq, rfl⟩ := List.mem_map.mp hf
      obtain ⟨hq, hunknown⟩ := List.mem_filter.mp hq
      obtain ⟨hin, v, hv, href⟩ := at?_statementReference hp hs hq
      exact ⟨hin, v, hv, href, names, rfl, by simpa using hunknown⟩

theorem blames_implicitFindings (hf : f ∈ implicitFindings t.walk) :
    ∃ p s, (p, s) ∈ t.walk ∧ ∃ first, f = ⟨.laterImplicit first, p.field "repeat"⟩ ∧ isImplicit s = true ∧
      ∃ s', (first, s') ∈ t.walk ∧ isImplicit s' = true := by
  unfold implicitFindings at hf
  split at hf
  · cases hf
  · next first later hsplit =>
    have hmem (p : Position) (h : p ∈ first :: later) : ∃ s, (p, s) ∈ t.walk ∧ isImplicit s = true := by
      rw [← hsplit] at h
      obtain ⟨⟨p, s⟩, hx, rfl⟩ := List.mem_map.mp h
      exact ⟨s, List.mem_filter.mp hx⟩
    obtain ⟨p, hp, rfl⟩ := List.mem_map.mp hf
    obtain ⟨s, hs, hi⟩ := hmem p (List.mem_cons_of_mem _ hp)
    exact ⟨p, s, hs, first, rfl, hi, hmem first List.mem_cons_self⟩

/-- **What a finding is about** stands at its position, if every statement of the tree is read from the
record that stands where the walk meets it. -/
theorem blames_of_mem_findings
    (hread : ∀ p s, (p, s) ∈ t.walk → ∃ record, document.at? p = some (.map record) ∧ Decode.Reads p record s)
    (hf : f ∈ findings known t) :
    ∃ p s, (p, s) ∈ t.walk ∧ f.rule.PlaceIn p f.position ∧
      ∃ v, document.at? f.position = some v ∧ f.rule.Blames known t v := by
  rcases List.mem_append.mp hf with hf | hf
  · obtain ⟨⟨p, s⟩, hx, hf⟩ := List.mem_flatMap.mp hf
    obtain ⟨record, hp, hs⟩ := hread p s hx
    exact ⟨p, s, hx, blames_statementFindings hp hs hf⟩
  · obtain ⟨p, s, hx, first, rfl, hi, hfirst⟩ := blames_implicitFindings hf
    obtain ⟨record, hp, hs⟩ := hread p s hx
    obtain ⟨r, hr, hi⟩ := (Option.any_eq_true _ _).mp hi
    obtain ⟨fields, hm, hrep⟩ := at?_repeat hp hs hr
    exact ⟨p, s, hx, rfl, .map fields, hm, ⟨_, r, hrep, hi⟩, hfirst⟩

end Findings

/-- The positions at which rules find fault have plain names. -/
theorem Rule.plain_of_placeIn {p q : Position} (hp : p.Plain) {rule : Rule} (h : rule.PlaceIn p q) : q.Plain := by
  have hattribute (i : Nat) : (attributeAt p i).Plain := (hp.field (by decide)).item i
  cases rule with
  | emptyRepeat =>
    cases h
    exact (hp.field (by decide)).field (by decide)
  | unmatchedQuote | unmatchedExpression =>
    obtain ⟨i, rfl⟩ := h
    exact (hattribute i).field (by decide)
  | laterImplicit first =>
    cases h
    exact hp.field (by decide)
  | unknownVariable name =>
    obtain ⟨list, ⟨i, rfl⟩, hl⟩ := h
    refine Position.Plain.item ?_ i
    rcases hl with rfl | rfl | ⟨j, rfl | rfl⟩
    · exact hp.field (by decide)
    · exact hp.field (by decide)
    · exact (hattribute j).field (by decide)
    · exact (hattribute j).field (by decide)

end Lint

namespace Document

/-- **Positions survive from a document to its reports.**  Let a document have a tree.

The walk over the tree meets every statement below the root once, where its places lead, in the order of
the document, and no two statements have positions that are written alike.  The text of each of these
positions leads, in the data of the document, to the record from which just this statement is read.

Whatever lint reports stands in the document: the text of its position leads to the count, the value of
an attribute, the token or the repeat of a statement with which the rule finds fault.

And the counts are those of the data: of the statements that stand at places below the root, each of
which the walk meets, of the attributes of elements, and of the repeats that are not null. -/
theorem positions_of_validate (fields : Fields) (file : Option String) (t : Tree)
    (h : (ofFields fields file).validate = .ok t) :
    let document := Value.map fields
    ((∀ p s, (p, s) ∈ t.walk ↔ ∃ is, p = Tree.root.through is ∧ t.statement? is = some s) ∧
      (t.walk.map (·.1)).Pairwise Position.Before ∧ (t.walk.map (·.1.text)).Nodup) ∧
    (∀ p s, (p, s) ∈ t.walk → ∃ record : Fields,
      document.at? (Position.ofText p.text) = some (.map record) ∧ Decode.statement p (.map record) = .ok s) ∧
    (∀ file known, ∀ d ∈ t.lint file known, ∃ f : Lint.Finding, d = f.diagnostic file ∧
      ∃ p s, (p, s) ∈ t.walk ∧ f.rule.PlaceIn p f.position ∧ ∃ text ∈ d.position,
        ∃ v, document.at? (Position.ofText text) = some v ∧ f.rule.Blames known t v) ∧
    fields.belowRoot.map (·.1) = t.walk.map (·.1) ∧
    (∀ p v, (p, v) ∈ fields.belowRoot ↔
      ∃ is, is ≠ [] ∧ p = Tree.root.through is ∧ document.at? p = some v) ∧
    t.stats.elements = fields.belowRoot.countP (·.2.isElementRecord) ∧
    t.stats.groups = fields.belowRoot.countP (·.2.isGroupRecord) ∧
    t.stats.attributes = (fields.belowRoot.map (·.2.declaredAttributes.length)).sum ∧
    t.stats.explicitRepeats + t.stats.implicitRepeats = fields.belowRoot.countP (·.2.hasRepeat) ∧
    t.stats.implicitRepeats = fields.belowRoot.countP (·.2.hasImplicitRepeat) := by
  intro document
  obtain ⟨root, -, -, hwalk⟩ := root_of_validate h
  have hreads : ∀ p s, (p, s) ∈ t.walk → ∃ record, document.at? p = some (.map record) ∧
      Decode.Reads p record s := by
    intro p s hps
    obtain ⟨record, hat, hs⟩ := read_of_mem_walk h hps
    obtain ⟨_, hm, hr⟩ := Decode.statement_eq_ok hs
    cases hm
    exact ⟨record, hat, hr⟩
  refine ⟨⟨fun p s => Tree.mem_walk_iff, t.pairwise_walk, t.nodup_walk_text⟩, ?_, ?_, ?_,
    fun p v => mem_belowRoot_iff h, stats_eq_of_forall₂ hwalk⟩
  · intro p s hps
    rw [Position.ofText_text (Tree.plain_of_mem_walk hps)]
    exact read_of_mem_walk h hps
  · intro file known d hd
    obtain ⟨f, hf, rfl⟩ := List.mem_map.mp (Diagnostic.mem_sort.mp hd)
    obtain ⟨p, s, hps, hplace, v, hv, hblames⟩ := Lint.blames_of_mem_findings hreads hf
    refine ⟨f, rfl, p, s, hps, hplace, f.position.text, rfl, v, ?_, hblames⟩
    rw [Position.ofText_text (Lint.Rule.plain_of_placeIn (Tree.plain_of_mem_walk hps) hplace)]
    exact hv
  · exact (map_eq_of_forall₂ hwalk fun x y hxy => hxy.1).symm

/-- A list that holds a group which is repeated zero times: the walk meets the group, lint reports its
count, and each is found in the document under its text. -/
theorem positions_of_validate_group :
    let group : Value := .record
      [("type", .string "group"), ("elements", .list []), ("repeat", .record [("count", .int 0)])]
    let ul : Value := .record
      [("name", .string "ul"), ("attributes", .list [.record [("name", .string "id")]]),
        ("elements", .list [group])]
    let fields : Fields :=
      [(.string "schema_version", .string "0.1"), (.string "tree", .record [("elements", .list [ul])])]
    let empty : Statement := .group [] (some { count := some 0 })
    let head : Element :=
      { name := some [.literal "ul"], attributes := some [{ name := some [.literal "id"] }] }
    let t : Tree := { statements := [.element head [empty] none] }
    (ofFields fields none).validate = .ok t ∧
      (∃ record : Fields, (Value.map fields).at? (Position.ofText "tree.elements[0].elements[0]") =
        some (.map record) ∧ (Value.map record).isGroupRecord = true) ∧
      (∀ d ∈ t.lint none none, ∃ text ∈ d.position, ∃ v,
        (Value.map fields).at? (Position.ofText text) = some v) ∧
      t.stats.groups = 1 ∧ t.stats.attributes = 1 ∧ t.stats.explicitRepeats + t.stats.implicitRepeats = 1 := by
  intro group ul fields empty head t
  have hv : (ofFields fields none).validate = .ok t := rfl
  obtain ⟨⟨hwalk, -, -⟩, hread, hlint, -, -, -, hgroups, hattributes, hrepeats, -⟩ :=
    positions_of_validate fields none t hv
  refine ⟨hv, ?_, ?_, hgroups.trans rfl, hattributes.trans rfl, hrepeats.trans rfl⟩
  · have hmet : (Tree.root.through [0, 0], empty) ∈ t.walk := (hwalk _ _).mpr ⟨[0, 0], rfl, rfl⟩
    obtain ⟨record, hat, hs⟩ := hread _ _ hmet
    obtain ⟨_, hm, hr⟩ := Decode.statement_eq_ok hs
    cases hm
    exact ⟨record, hat, hr.isGroupRecord_eq⟩
  · intro d hd
    obtain ⟨f, -, p, s, -, -, text, htext, v, hat, -⟩ := hlint none none d hd
    exact ⟨text, htext, v, hat⟩

end Document

end Shorthand
