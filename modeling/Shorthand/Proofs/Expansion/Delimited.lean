import Shorthand.Proofs.Expansion.Displayed
import Shorthand.Proofs.Lint.Delimiters

/-!
# Attributes keep what they are written with

An attribute is rendered without the marks of its name and without the delimiters of its value.  Nothing
else is lost: the marks that it keeps as flags give back the name, and the kind of its value together with
the delimiter at the end gives back the value.

* `Delimited`: how the tokens of a value fall into delimiters and what stands between them;
* `unwrap_delimited`: these are the delimiters that are taken off;
* `Attribute.render_kept`: what an attribute is written with, told by what it is rendered to.
-/

namespace Shorthand

open Expansion State

/-! ### Marks -/

theorem isImplied_iff (name : String) : isImplied name = true ↔ ∃ rest, name = "!" ++ rest := by
  unfold isImplied
  rw [decide_eq_true_iff, List.head?_eq_some_iff]
  constructor
  · rintro ⟨cs, hcs⟩
    refine ⟨.ofList cs, String.toList_inj.mp ?_⟩
    rw [hcs, String.toList_append, String.toList_ofList, String.toList_ofList]
    rfl
  · rintro ⟨rest, rfl⟩
    exact ⟨rest.toList, String.toList_append⟩

theorem isBoolean_iff (name : String) : isBoolean name = true ↔ ∃ rest, name = rest ++ "." := by
  unfold isBoolean
  rw [decide_eq_true_iff, List.getLast?_eq_some_iff]
  constructor
  · rintro ⟨cs, hcs⟩
    refine ⟨.ofList cs, String.toList_inj.mp ?_⟩
    rw [hcs, String.toList_append, String.toList_ofList]
    rfl
  · rintro ⟨rest, rfl⟩
    exact ⟨rest.toList, String.toList_append⟩

theorem someIn_eq {α : Type} (text : List Token → α) (tokens : Option (List Token)) :
    someIn text tokens = if tokens.getD [] = [] then none else some (text (tokens.getD [])) := by
  match tokens with
  | none => rfl
  | some [] => rfl
  | some (t :: ts) => rfl

section Name

variable (src : Source) (env : List Repeater) (a : Attribute)

theorem Attribute.name_nodeIn :
    (a.nodeIn src env).name =
        (if a.name.getD [] = [] then none else some (bareName (nameIn src env (a.name.getD [])))) ∧
      (a.nodeIn src env).implied = isImplied (nameIn src env (a.name.getD [])) ∧
      (a.nodeIn src env).boolean = isBoolean (nameIn src env (a.name.getD [])) := by
  unfold nodeIn
  dsimp only
  rw [someIn_eq]
  by_cases h : a.name.getD [] = []
  · rw [if_pos h, if_pos h, h]
    exact ⟨rfl, rfl, rfl⟩
  · rw [if_neg h, if_neg h]
    exact ⟨rfl, rfl, rfl⟩

/-- The name as written, from the name and the flags of the attribute. -/
theorem Attribute.marked_nodeIn :
    nameIn src env (a.name.getD []) =
      marked (a.nodeIn src env).implied (a.nodeIn src env).boolean ((a.nodeIn src env).name.getD "") := by
  obtain ⟨hname, himplied, hboolean⟩ := a.name_nodeIn src env
  have hbare : (a.nodeIn src env).name.getD "" = bareName (nameIn src env (a.name.getD [])) := by
    rw [hname]
    by_cases h : a.name.getD [] = []
    · rw [if_pos h, h]
      rfl
    · rw [if_neg h]
      rfl
  rw [himplied, hboolean, hbare, marked_bareName]

end Name

/-! ### Delimiters -/

namespace ValueKind

/-- The kind of value that tokens make: the first one tells it. -/
def ofTokens : List Token → ValueKind
  | .quote true :: _ => .singleQuoted
  | .quote false :: _ => .doubleQuoted
  | .bracket .expression true :: _ => .expression
  | _ => .raw

/-- The delimiter in front of a value of a kind. -/
def opening : ValueKind → List Token
  | .raw => []
  | .singleQuoted => [.quote true]
  | .doubleQuoted => [.quote false]
  | .expression => [.bracket .expression true]

/-- The text of that delimiter. -/
def opener : ValueKind → String
  | .raw => ""
  | .singleQuoted => "'"
  | .doubleQuoted => "\""
  | .expression => "\x7b"

/-- Is the token a delimiter behind a value of a kind?  Behind a quoted value stands a quote of either
kind. -/
def closes : ValueKind → Token → Bool
  | .raw, _ => false
  | .singleQuoted, t => t.isQuote
  | .doubleQuoted, t => t.isQuote
  | .expression, t => t.isBracket (some .expression) (some false)

end ValueKind

/-- The text of a delimiter that may stand behind a value. -/
def Token.closer : Token → String
  | .quote true => "'"
  | .quote false => "\""
  | .bracket .expression false => "\x7d"
  | _ => ""

/-- The tokens `ts` of a value of a kind are `inner` behind the delimiter of that kind, and before the
delimiter `last`, if there is one. -/
structure Delimited (kind : ValueKind) (inner : List Token) (last : Option Token) (ts : List Token) : Prop where
  kind_eq : kind = .ofTokens ts
  tokens_eq : ts = kind.opening ++ inner ++ last.toList
  closes : ∀ t ∈ last, kind.closes t = true
  unclosed : last = none → inner.getLast?.any kind.closes = false

/-- Behind the opening delimiter, the last token is taken off if it closes the value. -/
theorem unwrapAfter_spec (kind : ValueKind) (closes : Token → Bool) (rest : List Token) :
    ∃ last : Option Token, rest = (unwrapAfter kind closes rest).inner ++ last.toList ∧
      (∀ t ∈ last, closes t = true) ∧
      (last = none → (unwrapAfter kind closes rest).inner.getLast?.any closes = false) ∧
      ((unwrapAfter kind closes rest).closed = false ↔ last = none) := by
  unfold unwrapAfter
  by_cases h : rest.getLast?.any closes = true
  · rw [if_pos h]
    obtain ⟨t, ht, hc⟩ := (Option.any_eq_true _ _).mp h
    obtain ⟨inner, rfl⟩ := List.getLast?_eq_some_iff.mp ht
    refine ⟨some t, ?_, ?_, nofun, ?_⟩
    · rw [List.dropLast_concat]
      rfl
    · rintro _ ⟨⟩
      exact hc
    · simp
  · rw [if_neg h]
    refine ⟨none, (List.append_nil rest).symm, nofun, fun _ => ?_, ?_⟩
    · simpa using h
    · simp

theorem delimited_unwrapAfter {kind : ValueKind} {t : Token} (hopen : kind.opening = [t]) {rest : List Token}
    (hkind : kind = .ofTokens (t :: rest)) :
    let u := unwrapAfter kind kind.closes rest
    ∃ last, Delimited u.kind u.inner last (t :: rest) ∧ (u.closed = false ↔ u.kind ≠ .raw ∧ last = none) := by
  intro u
  obtain ⟨last, htokens, hcloses, hunclosed, hclosed⟩ := unwrapAfter_spec kind kind.closes rest
  have hk : u.kind = kind := (closed_unwrapAfter kind kind.closes rest).2
  have hraw : kind ≠ .raw := by
    rintro rfl
    cases hopen
  rw [hk]
  refine ⟨last, ⟨hkind, ?_, hcloses, hunclosed⟩, ?_⟩
  · rw [hopen, List.append_assoc, ← htokens]
    rfl
  · rw [and_iff_right hraw]
    exact hclosed

theorem delimited_raw {ts : List Token} (hu : unwrap ts = ⟨.raw, ts, true⟩)
    (hkind : .raw = ValueKind.ofTokens ts) :
    ∃ last, Delimited (unwrap ts).kind (unwrap ts).inner last ts ∧
      ((unwrap ts).closed = false ↔ (unwrap ts).kind ≠ .raw ∧ last = none) := by
  rw [hu]
  refine ⟨none, ⟨hkind, ?_, nofun, fun _ => ?_⟩, by simp⟩
  · exact (List.append_nil ts).symm
  · cases ts.getLast? <;> rfl

/-- **What is taken off a value are its delimiters.**  The one at the end is missing just if the value
counts as not closed. -/
theorem unwrap_delimited (ts : List Token) :
    ∃ last, Delimited (unwrap ts).kind (unwrap ts).inner last ts ∧
      ((unwrap ts).closed = false ↔ (unwrap ts).kind ≠ .raw ∧ last = none) := by
  match ts with
  | .quote true :: rest => exact @delimited_unwrapAfter .singleQuoted (.quote true) rfl rest rfl
  | .quote false :: rest => exact @delimited_unwrapAfter .doubleQuoted (.quote false) rfl rest rfl
  | .bracket .expression true :: rest =>
    exact @delimited_unwrapAfter .expression (.bracket .expression true) rfl rest rfl
  | [] => exact delimited_raw rfl rfl
  | .bracket .expression false :: rest | .bracket .attributes _ :: rest | .bracket .group _ :: rest
  | .literal _ :: rest | .field _ _ :: rest | .reference _ :: rest | .placeholder :: rest
  | .number _ :: rest | .space :: rest => exact delimited_raw rfl rfl

section Value

variable (src : Source) (env : List Repeater)

theorem nameIn_append (xs ys : List Token) : nameIn src env (xs ++ ys) = nameIn src env xs ++ nameIn src env ys := by
  unfold nameIn
  rw [List.map_append, String.join_append]

theorem nameIn_singleton (t : Token) : nameIn src env [t] = t.textIn src env := by
  unfold nameIn
  rw [List.map_singleton, String.join_cons]
  exact String.append_empty

theorem nameIn_opening (kind : ValueKind) : nameIn src env kind.opening = kind.opener := by
  cases kind with
  | raw => rfl
  | singleQuoted | doubleQuoted | expression => exact nameIn_singleton src env _

theorem textIn_of_closes {kind : ValueKind} {t : Token} (h : kind.closes t = true) :
    t.textIn src env = t.closer := by
  have hd : t.isQuote = true ∨ t.isBracket (some .expression) (some false) = true := by
    cases kind with
    | raw => cases h
    | singleQuoted | doubleQuoted => exact .inl h
    | expression => exact .inr h
  match t with
  | .quote true | .quote false => rfl
  | .bracket .expression false => rfl
  | .bracket .expression true | .bracket .attributes _ | .bracket .group _ => simp [Token.isQuote, Token.isBracket] at hd
  | .literal _ | .field _ _ | .reference _ | .placeholder | .number _ | .space =>
    simp [Token.isQuote, Token.isBracket] at hd

/-- **The text of a value** is what stands between its delimiters, with these around it. -/
theorem Delimited.nameIn_eq {kind : ValueKind} {inner ts : List Token} {last : Option Token}
    (h : Delimited kind inner last ts) :
    nameIn src env ts =
      kind.opener ++ Entry.displayAll (valueIn src env inner) ++ last.elim "" Token.closer := by
  have hlast : nameIn src env last.toList = last.elim "" Token.closer := by
    cases last with
    | none => rfl
    | some t =>
      rw [Option.toList_some, nameIn_singleton, textIn_of_closes src env (h.closes t rfl)]
      rfl
  rw [h.tokens_eq, nameIn_append, nameIn_append, nameIn_opening, displayAll_valueIn, hlast]

end Value

/-! ### Attributes -/

theorem State.events_after (σ : State) (marks : Bool) (es : List Event) :
    (σ.after marks es).events = σ.events ++ es := by
  unfold events after
  rw [List.reverse_append, List.reverse_reverse]

theorem Attribute.nodeIn_of_value (src : Source) {a : Attribute} {ts : List Token} (h : a.value = some ts)
    (env : List Repeater) :
    (a.nodeIn src env).kind = (unwrap ts).kind ∧
      (a.nodeIn src env).value = some (valueIn src env (unwrap ts).inner) := by
  unfold nodeIn
  rw [h]
  exact ⟨rfl, rfl⟩

theorem Attribute.nodeIn_of_no_value (src : Source) {a : Attribute} (h : a.value = none) (env : List Repeater) :
    (a.nodeIn src env).kind = .raw ∧ (a.nodeIn src env).value = none := by
  unfold nodeIn
  rw [h]
  exact ⟨rfl, rfl⟩

/-- There is a warning just if the delimiter at the end is missing. -/
theorem Attribute.filter_delimiterEvents {ts : List Token} {last : Option Token}
    (h : (unwrap ts).closed = false ↔ (unwrap ts).kind ≠ .raw ∧ last = none) (name : Option String) :
    (delimiterEvents name ts).filter Event.isWarning =
      if (unwrap ts).kind ≠ .raw ∧ last = none then [unmatched (unwrap ts).kind name] else [] := by
  unfold delimiterEvents
  by_cases hc : (unwrap ts).closed = false
  · rw [if_pos hc, if_pos (h.mp hc)]
    unfold unmatched
    split <;> rfl
  · rw [if_neg hc, if_neg fun hn => hc (h.mpr hn)]
    rfl

/-- **Nothing of an attribute is lost.**  Let an attribute be rendered from some state, and let its name
be rendered from that state as well.  The text of the name is the name of the attribute with an
exclamation mark in front if it is implied, and a point behind if it is boolean; it is implied just if
the text starts with that mark, and boolean just if it ends with that point; and the attribute has no
name just if no tokens are given for one.

The text of the value, rendered after the name, is the written form of the value of the attribute with
the delimiter of its kind in front, and behind it the delimiter at the end, if there is one.  The first
token tells the kind, and the last one is taken off just if it is a delimiter that closes a value of that
kind: then there is no warning, and otherwise there is one, unless the value is raw and so has no
delimiters.  What is rendered to the value of the attribute are the tokens in between, all of them. -/
theorem Attribute.render_kept (src : Source) (a : Attribute) (σ : State) :
    let named := (renderName src (a.name.getD [])).run σ
    let made := (a.render src).run σ
    (named.1 = (if made.1.implied then "!" else "") ++ made.1.name.getD "" ++
        (if made.1.boolean then "." else "") ∧
      (made.1.implied = true ↔ ∃ rest, named.1 = "!" ++ rest) ∧
      (made.1.boolean = true ↔ ∃ rest, named.1 = rest ++ ".") ∧
      (made.1.name = none ↔ a.name.getD [] = [])) ∧
    ∃ logged, made.2.events = named.2.events ++ logged ∧
      match a.value with
      | none => made.1.value = none ∧ made.1.kind = .raw ∧ logged = []
      | some ts => ∃ inner last es, Delimited made.1.kind inner last ts ∧
        made.1.value = some es ∧ es = ((renderValue src inner).run named.2).1 ∧
        ((renderName src ts).run named.2).1 =
          made.1.kind.opener ++ Entry.displayAll es ++ last.elim "" Token.closer ∧
        logged.filter Event.isWarning =
          if made.1.kind ≠ .raw ∧ last = none then
            [unmatched made.1.kind (if a.name.getD [] = [] then none else some named.1)]
          else [] := by
  intro named made
  have hnamed : named = (nameIn src σ.stack (a.name.getD []),
      σ.after (Shorthand.holdsPlaceholder (some (a.name.getD []))) (eventsOf src a.name)) :=
    renderName_run src (a.name.getD []) σ
  have hmade : made = (a.nodeIn src σ.stack, σ.after a.holdsPlaceholder (a.eventsIn src σ.stack)) :=
    a.render_run src σ
  obtain ⟨hname, himplied, hboolean⟩ := a.name_nodeIn src σ.stack
  rw [hnamed, hmade]
  dsimp only
  refine ⟨⟨a.marked_nodeIn src σ.stack, ?_, ?_, ?_⟩, ?_⟩
  · rw [himplied, isImplied_iff]
  · rw [hboolean, isBoolean_iff]
  · rw [hname]
    by_cases h : a.name.getD [] = []
    · simp [h]
    · simp [h]
  rw [State.events_after, State.events_after]
  cases hv : a.value with
  | none =>
    obtain ⟨hkind, hvalue⟩ := Attribute.nodeIn_of_no_value src hv σ.stack
    refine ⟨[], ?_, hvalue, hkind, rfl⟩
    unfold Attribute.eventsIn
    rw [hv]
    simp
  | some ts =>
    obtain ⟨hkind, hvalue⟩ := Attribute.nodeIn_of_value src hv σ.stack
    obtain ⟨last, hd, hclosed⟩ := unwrap_delimited ts
    let logged := Attribute.delimiterEvents (someIn (nameIn src σ.stack) a.name) ts ++
      eventsOf src (some (unwrap ts).inner)
    refine ⟨logged, ?_, (unwrap ts).inner, last, valueIn src σ.stack (unwrap ts).inner, ?_, hvalue, ?_, ?_, ?_⟩
    · unfold Attribute.eventsIn
      rw [hv, List.append_assoc]
    · rw [hkind]
      exact hd
    · rw [renderValue_run]
      rfl
    · rw [renderName_run, hkind]
      exact hd.nameIn_eq src σ.stack
    -- the warning names the attribute as it is written, with its marks
    · have hfull : someIn (nameIn src σ.stack) a.name =
          if a.name.getD [] = [] then none else some (nameIn src σ.stack (a.name.getD [])) :=
        someIn_eq _ a.name
      have hinner : (eventsOf src (some (unwrap ts).inner)).filter Event.isWarning = [] :=
        filter_warnings_eventsOf src _
      rw [List.filter_append, hinner, List.append_nil, Attribute.filter_delimiterEvents hclosed, hkind, hfull]

/-- A name that is all marks, and a value between quotes of two kinds that starts with a quote itself. -/
example :
    let a : Attribute :=
      { name := some [.literal "!."], value := some [.quote true, .quote false, .literal "x", .quote false] }
    ((a.render {}).run {}).1 =
      { name := some "", value := some [.text "\"x"], boolean := true, implied := true, kind := .singleQuoted } := by
  decide

end Shorthand
