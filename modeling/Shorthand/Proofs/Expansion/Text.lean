import Shorthand.Proofs.Expansion.Run

/-!
# Text as a function of the repeaters around

What tokens, values, attributes and elements stand for, as functions of the source and of the
repeaters around alone, and the runs that give it.

* `Token.textIn`, `valueIn`, `Attribute.nodeIn`, `Element.nodeIn`: the results;
* `Token.events`, `Attribute.eventsIn`, `Element.eventsIn`: what is logged on the way;
* `Element.build_run`: building the node of an element gives these, keeps the repeaters, and lays
  hold of the text just if a placeholder stands somewhere in the element.
-/

namespace Shorthand

open Expansion State

/-! ### Tokens -/

/-- What is logged about a variable: that nothing is known about it. -/
def Source.unknown (src : Source) (name : String) : List Event :=
  if src.valueOf name = name ∧ src.knows name = false then [.unresolved name] else []

theorem Source.resolve_run (src : Source) (name : String) (σ : State) :
    (src.resolve name).run σ = (src.valueOf name, σ.after false (src.unknown name)) := by
  unfold resolve unknown
  by_cases h : src.valueOf name = name ∧ src.knows name = false
  · rw [if_pos h, if_pos h, run_bind, run_modify, run_pure, note_eq_after]
  · rw [if_neg h, if_neg h, run_pure, after_none]

namespace Token

/-- The text of a token inside some repeaters, innermost first. -/
def textIn (src : Source) (env : List Repeater) : Token → String
  | .literal text => text
  | .quote single => if single then "'" else "\""
  | .bracket context opening => context.text opening
  | .field (some index) name => fieldText index name
  | .field none name => if name.isEmpty then "" else src.valueOf name
  | .reference name => src.valueOf name
  | .placeholder => (env.find? (·.implicit)).elim src.wholeText fun r => src.textAt r.value
  | .number numbering => numbering.text src env
  | .space => " "

/-- The entry of a value that a token makes: a tab stop, or its text. -/
def entryIn (src : Source) (env : List Repeater) : Token → Entry
  | .field (some index) name => .field index name
  | t => .text (t.textIn src env)

def events (src : Source) : Token → List Event
  | .field none name => if name.isEmpty then [] else src.unknown name
  | .reference name => src.unknown name
  | _ => []

def isPlaceholder : Token → Bool
  | .placeholder => true
  | _ => false

theorem render_run (src : Source) (t : Token) (σ : State) :
    (t.render src).run σ = (t.textIn src σ.stack, σ.after t.isPlaceholder (t.events src)) := by
  cases t with
  | field index name =>
    cases index with
    | none =>
      by_cases h : name.isEmpty
      · simp only [render, textIn, events, isPlaceholder, h, if_true, run_pure, after_none]
      · simp only [render, textIn, events, isPlaceholder]
        rw [if_neg h, if_neg h, if_neg h, src.resolve_run]
    | some index => simp only [render, textIn, events, isPlaceholder, run_pure, after_none]
  | reference name => exact src.resolve_run name σ
  | placeholder =>
    unfold render
    rw [run_bind, run_get, run_bind, run_modify, run_pure, setInserted_eq_after]
    rfl
  | number numbering =>
    unfold render
    rw [run_bind, run_get, run_pure]
    simp only [textIn, events, isPlaceholder, after_none]
  | literal | quote | bracket | space =>
    simp only [render, textIn, events, isPlaceholder, run_pure, after_none]

theorem entry_run (src : Source) (t : Token) (σ : State) :
    (t.entry src).run σ = (t.entryIn src σ.stack, σ.after t.isPlaceholder (t.events src)) := by
  unfold entry
  split
  · exact congrArg (Prod.mk _) (after_none σ).symm
  · next h =>
    rw [run_bind, render_run, run_pure, entryIn]
    exact h

end Token

def holdsPlaceholder (tokens : Option (List Token)) : Bool := (tokens.getD []).any Token.isPlaceholder

def eventsOf (src : Source) (tokens : Option (List Token)) : List Event :=
  (tokens.getD []).flatMap (Token.events src)

def nameIn (src : Source) (env : List Repeater) (tokens : List Token) : String :=
  .join (tokens.map (Token.textIn src env))

def valueIn (src : Source) (env : List Repeater) (tokens : List Token) : List Entry :=
  Entry.joined (tokens.map (Token.entryIn src env))

def someIn {α : Type} (text : List Token → α) : Option (List Token) → Option α
  | none => none
  | some [] => none
  | some (t :: ts) => some (text (t :: ts))

theorem renderName_run (src : Source) (ts : List Token) (σ : State) :
    (renderName src ts).run σ =
      (nameIn src σ.stack ts, σ.after (holdsPlaceholder (some ts)) (eventsOf src (some ts))) := by
  unfold renderName
  rw [run_bind, run_mapM (Token.textIn src) _ (fun _ => Token.events src) (Token.render_run src), run_pure]
  rfl

theorem renderValue_run (src : Source) (ts : List Token) (σ : State) :
    (renderValue src ts).run σ =
      (valueIn src σ.stack ts, σ.after (holdsPlaceholder (some ts)) (eventsOf src (some ts))) := by
  unfold renderValue
  rw [run_bind, run_mapM (Token.entryIn src) _ (fun _ => Token.events src) (Token.entry_run src), run_pure]
  rfl

theorem renderSome_run {α : Type} {src : Source} {render : List Token → Expansion α}
    {text : List Repeater → List Token → α}
    (step : ∀ ts σ, (render ts).run σ =
      (text σ.stack ts, σ.after (holdsPlaceholder (some ts)) (eventsOf src (some ts))))
    (tokens : Option (List Token)) (σ : State) :
    (renderSome render tokens).run σ =
      (someIn (text σ.stack) tokens, σ.after (holdsPlaceholder tokens) (eventsOf src tokens)) := by
  match tokens with
  | none => exact congrArg (Prod.mk none) (after_none σ).symm
  | some [] => exact congrArg (Prod.mk none) (after_none σ).symm
  | some (t :: ts) =>
    unfold renderSome
    rw [run_bind, step, run_pure]
    rfl

/-! ### Attributes -/

/-- Is the token one that may stand at the end of a value to delimit it? -/
def Token.isDelimiter : Token → Bool
  | .quote _ => true
  | .bracket _ _ => true
  | _ => false

theorem Token.isDelimiter_of_isQuote : ∀ t : Token, t.isQuote → t.isDelimiter
  | .quote _, _ => rfl

theorem Token.isDelimiter_of_isBracket {context : Option Bracket} {opening : Option Bool} :
    ∀ t : Token, t.isBracket context opening → t.isDelimiter
  | .bracket _ _, _ => rfl

theorem unwrapAfter_eq_append (kind : ValueKind) {closes : Token → Bool}
    (hc : ∀ t, closes t → t.isDelimiter) (ts : List Token) :
    ∃ back, ts = (unwrapAfter kind closes ts).inner ++ back ∧ ∀ t ∈ back, t.isDelimiter := by
  unfold unwrapAfter
  split
  · next h =>
    obtain ⟨t, ht, hclose⟩ := (Option.any_eq_true _ _).mp h
    obtain ⟨inner, rfl⟩ := List.getLast?_eq_some_iff.mp ht
    refine ⟨[t], by rw [List.dropLast_concat], fun x hx => ?_⟩
    rw [List.mem_singleton.mp hx]
    exact hc t hclose
  · exact ⟨[], (List.append_nil ts).symm, nofun⟩

theorem unwrap_eq_append (ts : List Token) :
    ∃ front back, ts = front ++ (unwrap ts).inner ++ back ∧ ∀ t ∈ front ++ back, t.isDelimiter := by
  unfold unwrap
  split
  · next single rest =>
    obtain ⟨back, hb, hd⟩ := unwrapAfter_eq_append (if single then .singleQuoted else .doubleQuoted)
      Token.isDelimiter_of_isQuote rest
    exact ⟨[.quote single], back, congrArg _ hb, by simpa [Token.isDelimiter] using hd⟩
  · next rest =>
    obtain ⟨back, hb, hd⟩ := unwrapAfter_eq_append .expression
      (@Token.isDelimiter_of_isBracket (some .expression) (some false)) rest
    exact ⟨[.bracket .expression true], back, congrArg _ hb, by simpa [Token.isDelimiter] using hd⟩
  · exact ⟨[], [], by simp, nofun⟩

theorem unwrap_any_isPlaceholder (ts : List Token) :
    (unwrap ts).inner.any Token.isPlaceholder = ts.any Token.isPlaceholder := by
  obtain ⟨front, back, h, hd⟩ := unwrap_eq_append ts
  have hn : ∀ ds : List Token, (∀ t ∈ ds, t.isDelimiter) → ds.any Token.isPlaceholder = false := by
    intro ds hds
    refine List.any_eq_false.mpr fun t ht hp => ?_
    have hdt := hds t ht
    cases t <;> simp [Token.isDelimiter, Token.isPlaceholder] at hdt hp
  have hf := hn front fun t ht => hd t (List.mem_append_left _ ht)
  have hb := hn back fun t ht => hd t (List.mem_append_right _ ht)
  calc (unwrap ts).inner.any Token.isPlaceholder
      = (front ++ (unwrap ts).inner ++ back).any Token.isPlaceholder := by
        rw [List.any_append, List.any_append, hf, hb, Bool.false_or, Bool.or_false]
    _ = ts.any Token.isPlaceholder := by rw [← h]

namespace Attribute

def nodeIn (src : Source) (env : List Repeater) (a : Attribute) : Node.Attribute :=
  let name := someIn (nameIn src env) a.name
  { name := name.map bareName
    value := a.value.map fun ts => valueIn src env (unwrap ts).inner
    boolean := name.any isBoolean
    implied := name.any isImplied
    kind := (a.value.map fun ts => (unwrap ts).kind).getD .raw }

def delimiterEvents (name : Option String) (ts : List Token) : List Event :=
  if (unwrap ts).closed = false then [unmatched (unwrap ts).kind name] else []

def eventsIn (src : Source) (env : List Repeater) (a : Attribute) : List Event :=
  eventsOf src a.name ++
    match a.value with
    | none => []
    | some ts =>
      delimiterEvents (someIn (nameIn src env) a.name) ts ++ eventsOf src (some (unwrap ts).inner)

def holdsPlaceholder (a : Attribute) : Bool :=
  Shorthand.holdsPlaceholder a.name || Shorthand.holdsPlaceholder a.value

end Attribute

theorem renderAttributeValue_run (src : Source) (name : Option String) (value : Option (List Token))
    (σ : State) :
    (renderAttributeValue src name value).run σ =
      ((value.map fun ts => valueIn src σ.stack (unwrap ts).inner,
          (value.map fun ts => (unwrap ts).kind).getD .raw),
        σ.after (holdsPlaceholder value) (match value with
          | none => []
          | some ts => Attribute.delimiterEvents name ts ++ eventsOf src (some (unwrap ts).inner))) := by
  cases value with
  | none => exact congrArg (Prod.mk _) (after_none σ).symm
  | some ts =>
    have hp : holdsPlaceholder (some (unwrap ts).inner) = holdsPlaceholder (some ts) :=
      unwrap_any_isPlaceholder ts
    unfold renderAttributeValue Attribute.delimiterEvents
    by_cases h : (unwrap ts).closed = false
    · simp only [h, if_true]
      rw [run_bind, run_modify, run_bind, renderValue_run, run_pure, hp, note_eq_after, after_after]
      rfl
    · simp only [if_neg h]
      rw [run_bind, renderValue_run, run_pure, hp]
      rfl

theorem Attribute.render_run (src : Source) (a : Attribute) (σ : State) :
    (a.render src).run σ = (a.nodeIn src σ.stack, σ.after a.holdsPlaceholder (a.eventsIn src σ.stack)) := by
  unfold render
  rw [run_bind, renderSome_run (renderName_run src), run_bind, renderAttributeValue_run, run_pure]
  rw [after_after]
  rfl

/-! ### Elements -/

namespace Element

def nodeIn (src : Source) (env : List Repeater) (head : Element) (children : List Node)
    (repeater : Option Repeater) : Node :=
  { name := someIn (nameIn src env) head.name
    value := someIn (valueIn src env) head.value
    attributes := head.attributes.map (·.map (Attribute.nodeIn src env))
    children
    repeater
    selfClosing := head.selfClosing }

/-- What is logged when the node of an element is built. -/
def eventsIn (src : Source) (env : List Repeater) (head : Element) : List Event :=
  (head.attributes.getD []).flatMap (Attribute.eventsIn src env) ++ eventsOf src head.name ++
    eventsOf src head.value

/-- Does a placeholder stand in an attribute, in the name or in the value? -/
def holdsPlaceholder (head : Element) : Bool :=
  (head.attributes.getD []).any Attribute.holdsPlaceholder || Shorthand.holdsPlaceholder head.name ||
    Shorthand.holdsPlaceholder head.value

theorem build_run (src : Source) (head : Element) (children : List Node) (repeater : Option Repeater)
    (σ : State) :
    (head.build src children repeater).run σ =
      (head.nodeIn src σ.stack children repeater,
        σ.after head.holdsPlaceholder (head.eventsIn src σ.stack)) := by
  unfold build nodeIn eventsIn holdsPlaceholder
  cases head.attributes with
  | none =>
    rw [run_bind, run_pure, run_bind, renderSome_run (renderName_run src), run_bind,
      renderSome_run (renderValue_run src), run_pure, after_after]
    rfl
  | some as =>
    rw [run_bind, run_bind, run_mapM (Attribute.nodeIn src) _ _ (Attribute.render_run src), run_pure,
      run_bind, renderSome_run (renderName_run src), run_bind, renderSome_run (renderValue_run src),
      run_pure, after_after, after_after]
    rfl

end Element

end Shorthand
