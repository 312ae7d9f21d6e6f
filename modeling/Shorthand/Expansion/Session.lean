import Shorthand.Expansion.Watched

/-!
# Sessions

An expansion that is driven step by step: each step asks one thing of the state that the steps
before it left.
-/

namespace Shorthand

namespace Session

/-- What a step asks for.  A place for a token may be empty. -/
inductive Request where
  | render (token : Option Token)
  | name (tokens : List Token)
  | value (tokens : List Token)
  | text (position : Option Int)
  | textItems
  | valueOf (name : String)
  | copies (r : Repeater)
  | push (r : Repeater)
  | replaceTop (r : Repeater)
  | pop
  | setInserted (inserted : Bool)
  | expand (s : Statement)

/-- What a step gives back. -/
inductive Answer where
  | done
  | text (s : String)
  | entries (es : List Entry)
  | items (xs : Option (List (Option String)))
  | count (n : Int)
  | repeater (r : Repeater)
  | nodes (ns : List Node)

/-- Why a step cannot be taken, or was not taken to its end. -/
inductive Refusal where
  | noToken
  | noRepeater
  | hindered (h : Hindrance)
  deriving DecidableEq, Repr

/-- What is said of a token that is not there; of the rest nothing is. -/
def Refusal.message? : Refusal → Option String
  | .noToken => some "unsupported token: None"
  | .noRepeater | .hindered _ => none

def answer (f : α → Answer) (x : Attempt α) (state : State) : Except Refusal Answer × State :=
  match x.run.run state with
  | (.ok a, state) => (.ok (f a), state)
  | (.error h, state) => (.error (.hindered h), state)

/-- The state after a step, with the answer.  A step that is refused at once changes nothing; one that breaks
off leaves the state as it is then. -/
def step (src : Source) (state : State) : Request → Except Refusal Answer × State
  | .render none => (.error .noToken, state)
  | .render (some t) => answer .text (Watched.render (Attempt.watch src) src t) state
  | .name ts => answer .text (Watched.renderName (Attempt.watch src) src ts) state
  | .value ts => answer .entries (Watched.renderValue (Attempt.watch src) src ts) state
  | .text none => (.ok (.text src.wholeText), state)
  | .text (some i) => (.ok (.text (src.textAt i)), state)
  | .textItems => (.ok (.items src.items?), state)
  | .valueOf name => (.ok (.text (src.valueOf name)), state)
  | .copies r => (.ok (.count (r.copies src)), state)
  | .push r => (.ok .done, state.push r)
  | .replaceTop r =>
    if state.stack.isEmpty then (.error .noRepeater, state) else (.ok .done, state.replaceTop r)
  | .pop =>
    match state.stack with
    | [] => (.error .noRepeater, state)
    | r :: _ => (.ok (.repeater r), state.pop)
  | .setInserted inserted => (.ok .done, state.setInserted inserted)
  | .expand s => answer .nodes (s.attempt src) state

end Session

end Shorthand
