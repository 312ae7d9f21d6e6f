import Shorthand.Proofs.Expansion.Text

/-!
# Expansion as a function of the repeaters around and of the text's fate

The nodes and the log of a statement, as functions of the source, of the repeaters around and of
whether the text still waits for its place.  The state is gone: what one statement leaves to the next
is the fate of the text alone, and `Statement.reachesText` tells it without a run.

* `Statement.nodesIn`, `Statement.eventsIn`: nodes and log;
* `Statement.expand_run`: every expansion, from every state, gives these and restores the repeaters.
-/

namespace Shorthand

open Expansion State Repeater

/-! ### Repeated statements -/

namespace Repeater

def turns (src : Source) (r : Repeater) : Nat := (r.copies src).toNat

/-- Does a repeated statement lay hold of the text, if its body does when `marks` says so?  An
implicit repeater always does, even if it makes no copy. -/
def reaches (src : Source) (r : Repeater) (marks : Bool) : Bool :=
  decide (0 < r.turns src) && marks || r.implicit

def nodesIn (src : Source) (r : Repeater) (marks waiting : Bool) (nodes : Nat → Bool → List Node) :
    List Node :=
  (List.range (r.turns src)).flatMap fun i =>
    r.filled src (waiting && !marks) i (nodes i (waitsAfter waiting marks i))

def eventsIn (src : Source) (r : Repeater) (marks waiting : Bool) (events : Nat → Bool → List Event) :
    List Event :=
  .expanding (r.copies src) r.implicit ::
    (((List.range (r.turns src)).flatMap fun i => events i (waitsAfter waiting marks i)) ++
      if r.implicit && waitsAfter waiting marks (r.turns src) then [.insertedText (r.copies src)] else [])

end Repeater

theorem closed_after (r : Repeater) (count : Int) (σ : State) (marks : Bool) (n : Nat) (es : List Event) :
    closed r count (σ.after (decide (0 < n) && marks) es) =
      σ.after (decide (0 < n) && marks || r.implicit)
        (es ++ if r.implicit && waitsAfter (!σ.inserted) marks n then [.insertedText count] else []) := by
  unfold closed
  cases hr : r.implicit with
  | false => simp
  | true =>
    have hw := not_inserted_after σ marks n es
    rw [setInserted_eq_after]
    cases hi : (σ.after (decide (0 < n) && marks) es).inserted <;> rw [hi] at hw
    · simp [← hw, note_eq_after]
    · simp [← hw]

theorem repeated_run_of_step (src : Source) (r : Repeater) {body : Repeater → Expansion (List Node)}
    (value : Nat → List Repeater → Bool → List Node) (marks : Bool)
    (events : Nat → List Repeater → Bool → List Event)
    (step : ∀ i σ, (body (r.turn i)).run σ =
      (value i σ.stack (!σ.inserted), σ.after marks (events i σ.stack (!σ.inserted)))) (σ : State) :
    (repeated src r body).run σ =
      (r.nodesIn src marks (!σ.inserted) fun i w => value i (r.turn i :: σ.stack) w,
        σ.after (r.reaches src marks)
          (r.eventsIn src marks (!σ.inserted) fun i w => events i (r.turn i :: σ.stack) w)) := by
  rw [repeated_run, note_eq_after, push_after, run_mapM_copy src r body step]
  dsimp only
  rw [pop_push, closed_after, after_after]
  simp only [after_stack, after_inserted, Bool.or_false, Bool.false_or]
  rfl

/-! ### Statements -/

mutual

/-- Does the expansion of a statement lay hold of the text? -/
def Statement.reachesText (src : Source) : Statement → Bool
  | .element head cs none => Statement.reachesTextAll src cs || head.holdsPlaceholder
  | .element head cs (some r) => r.reaches src (Statement.reachesTextAll src cs || head.holdsPlaceholder)
  | .group cs none => Statement.reachesTextAll src cs
  | .group cs (some r) => r.reaches src (Statement.reachesTextAll src cs)

/-- Does the expansion of one of some statements lay hold of the text? -/
def Statement.reachesTextAll (src : Source) : List Statement → Bool
  | [] => false
  | s :: rest => s.reachesText src || Statement.reachesTextAll src rest

end

mutual

/-- The nodes of a statement inside the repeaters `env`, where `waiting` says whether the text still
waits for its place. -/
def Statement.nodesIn (src : Source) (env : List Repeater) (waiting : Bool) : Statement → List Node
  | .element head cs none => [head.nodeIn src env (Statement.nodesInAll src env waiting cs) none]
  | .element head cs (some r) =>
    r.nodesIn src (Statement.reachesTextAll src cs || head.holdsPlaceholder) waiting fun i w =>
      [head.nodeIn src (r.turn i :: env) (Statement.nodesInAll src (r.turn i :: env) w cs) (some (r.turn i))]
  | .group cs none => Statement.nodesInAll src env waiting cs
  | .group cs (some r) =>
    r.nodesIn src (Statement.reachesTextAll src cs) waiting fun i w =>
      Statement.nodesInAll src (r.turn i :: env) w cs

/-- The nodes of some statements, in order: a statement finds the text as those before it left it. -/
def Statement.nodesInAll (src : Source) (env : List Repeater) (waiting : Bool) :
    List Statement → List Node
  | [] => []
  | s :: rest =>
    s.nodesIn src env waiting ++ Statement.nodesInAll src env (waiting && !s.reachesText src) rest

end

mutual

def Statement.eventsIn (src : Source) (env : List Repeater) (waiting : Bool) : Statement → List Event
  | .element head cs none => Statement.eventsInAll src env waiting cs ++ head.eventsIn src env
  | .element head cs (some r) =>
    r.eventsIn src (Statement.reachesTextAll src cs || head.holdsPlaceholder) waiting fun i w =>
      Statement.eventsInAll src (r.turn i :: env) w cs ++ head.eventsIn src (r.turn i :: env)
  | .group cs none => Statement.eventsInAll src env waiting cs
  | .group cs (some r) =>
    r.eventsIn src (Statement.reachesTextAll src cs) waiting fun i w =>
      Statement.eventsInAll src (r.turn i :: env) w cs

def Statement.eventsInAll (src : Source) (env : List Repeater) (waiting : Bool) :
    List Statement → List Event
  | [] => []
  | s :: rest =>
    s.eventsIn src env waiting ++ Statement.eventsInAll src env (waiting && !s.reachesText src) rest

end

/-! ### The run of a statement -/

/-- The node of an element after the nodes of its children. -/
theorem run_element {src : Source} {head : Element} {cs : List Statement}
    (step : ∀ σ, (Statement.expandAll src cs).run σ =
      (Statement.nodesInAll src σ.stack (!σ.inserted) cs,
        σ.after (Statement.reachesTextAll src cs) (Statement.eventsInAll src σ.stack (!σ.inserted) cs)))
    (repeater : Option Repeater) (σ : State) :
    (do let nodes ← Statement.expandAll src cs
        pure [← head.build src nodes repeater] : Expansion (List Node)).run σ =
      ([head.nodeIn src σ.stack (Statement.nodesInAll src σ.stack (!σ.inserted) cs) repeater],
        σ.after (Statement.reachesTextAll src cs || head.holdsPlaceholder)
          (Statement.eventsInAll src σ.stack (!σ.inserted) cs ++ head.eventsIn src σ.stack)) := by
  rw [run_bind, step, run_bind, head.build_run, run_pure, after_after, after_stack]

mutual

/-- **The run of a statement.**  The repeaters end as they began, the text is laid hold of just if
`Statement.reachesText` says so, and nodes and log are those of the repeaters around. -/
theorem Statement.expand_run (src : Source) : ∀ (s : Statement) (σ : State),
    (s.expand src).run σ =
      (s.nodesIn src σ.stack (!σ.inserted),
        σ.after (s.reachesText src) (s.eventsIn src σ.stack (!σ.inserted)))
  | .element head cs none, σ => by
    unfold Statement.expand Statement.nodesIn Statement.reachesText Statement.eventsIn
    exact run_element (Statement.expandAll_run src cs) none σ
  | .element head cs (some r), σ => by
    unfold Statement.expand Statement.nodesIn Statement.reachesText Statement.eventsIn
    exact repeated_run_of_step src r
      (fun i env w => [head.nodeIn src env (Statement.nodesInAll src env w cs) (some (r.turn i))])
      (Statement.reachesTextAll src cs || head.holdsPlaceholder)
      (fun _ env w => Statement.eventsInAll src env w cs ++ head.eventsIn src env)
      (fun i => run_element (Statement.expandAll_run src cs) (some (r.turn i))) σ
  | .group cs none, σ => by
    unfold Statement.expand Statement.nodesIn Statement.reachesText Statement.eventsIn
    exact Statement.expandAll_run src cs σ
  | .group cs (some r), σ => by
    unfold Statement.expand Statement.nodesIn Statement.reachesText Statement.eventsIn
    exact repeated_run_of_step src r (fun _ env w => Statement.nodesInAll src env w cs)
      (Statement.reachesTextAll src cs) (fun _ env w => Statement.eventsInAll src env w cs)
      (fun _ => Statement.expandAll_run src cs) σ

theorem Statement.expandAll_run (src : Source) : ∀ (ss : List Statement) (σ : State),
    (Statement.expandAll src ss).run σ =
      (Statement.nodesInAll src σ.stack (!σ.inserted) ss,
        σ.after (Statement.reachesTextAll src ss) (Statement.eventsInAll src σ.stack (!σ.inserted) ss))
  | [], σ => congrArg (Prod.mk []) (after_none σ).symm
  | s :: rest, σ => by
    unfold Statement.expandAll Statement.nodesInAll Statement.reachesTextAll Statement.eventsInAll
    rw [run_bind, Statement.expand_run src s, run_bind, Statement.expandAll_run src rest, run_pure,
      after_after, after_stack, after_inserted, Bool.not_or]

end

end Shorthand
