import Shorthand.Expansion.Unroll

/-!
# Runs of an expansion

The state in which a run ends, and the run of a loop copy by copy.

* `State.after σ marks events`: the state `σ` after a run that logged `events`; `marks` says
  whether the run laid hold of the text.  The repeaters around are those of `σ`.
* `run_mapM_copy`: a loop that overwrites the innermost repeater makes its copies under the
  repeaters that were around when it began, and leaves them as they were.
* `repeated_run`: what a repeated statement does around that loop.
-/

namespace Shorthand

/-! ### Steps -/

namespace Expansion

variable {α β : Type}

theorem run_pure (a : α) (σ : State) : (pure a : Expansion α).run σ = (a, σ) := rfl

theorem run_bind (m : Expansion α) (f : α → Expansion β) (σ : State) :
    (m >>= f).run σ = (f (m.run σ).1).run (m.run σ).2 := rfl

theorem run_modify (f : State → State) (σ : State) :
    (modify f : Expansion Unit).run σ = ((), f σ) := rfl

theorem run_get (σ : State) : (get : Expansion State).run σ = (σ, σ) := rfl

theorem run_ite (c : Prop) [Decidable c] (m n : Expansion α) (σ : State) :
    (if c then m else n).run σ = if c then m.run σ else n.run σ := by
  split <;> rfl

end Expansion

/-! ### The state after a run -/

namespace State

/-- The state after a run that logged `events`, and that laid hold of the text if `marks` says so. -/
def after (σ : State) (marks : Bool) (events : List Event) : State :=
  { σ with inserted := σ.inserted || marks, log := events.reverse ++ σ.log }

section After

variable (σ : State) (r : Repeater) (b c : Bool) (es fs : List Event)

@[simp] theorem after_stack : (σ.after b es).stack = σ.stack := rfl

@[simp] theorem after_inserted : (σ.after b es).inserted = (σ.inserted || b) := rfl

@[simp] theorem after_none : σ.after false [] = σ := by simp [after]

@[simp] theorem after_after : (σ.after b es).after c fs = σ.after (b || c) (es ++ fs) := by
  simp [after, Bool.or_assoc]

@[simp] theorem push_stack : (σ.push r).stack = r :: σ.stack := rfl

@[simp] theorem push_inserted : (σ.push r).inserted = σ.inserted := rfl

theorem push_after : (σ.push r).after b es = (σ.after b es).push r := rfl

theorem replaceTop_push (top : Repeater) : (σ.push top).replaceTop r = σ.push r := rfl

@[simp] theorem replaceTop_inserted : (σ.replaceTop r).inserted = σ.inserted := by
  unfold replaceTop
  split <;> rfl

theorem pop_push : (σ.push r).pop = σ := rfl

theorem note_eq_after (e : Event) : σ.note e = σ.after false [e] := by simp [note, after]

theorem setInserted_eq_after : σ.setInserted true = σ.after true [] := by simp [setInserted, after]

end After

end State

open Expansion State Repeater

/-- A list of steps, each of which gives a value and logs events that depend on the repeaters around
alone. -/
theorem run_mapM {ι α : Type} {f : ι → Expansion α} (value : List Repeater → ι → α) (marks : ι → Bool)
    (events : List Repeater → ι → List Event)
    (step : ∀ x σ, (f x).run σ = (value σ.stack x, σ.after (marks x) (events σ.stack x)))
    (xs : List ι) (σ : State) :
    (xs.mapM f).run σ =
      (xs.map (value σ.stack), σ.after (xs.any marks) (xs.flatMap (events σ.stack))) := by
  induction xs generalizing σ with
  | nil => rw [List.mapM_nil, run_pure]; simp
  | cons x xs ih =>
    rw [List.mapM_cons, run_bind, step, run_bind, ih, run_pure]
    simp

/-! ### Loops -/

namespace Repeater

/-- The repeater of the copy `i`. -/
def turn (r : Repeater) (i : Nat) : Repeater := { r with value := i }

/-- The repeater on top after `n` copies: the one that was put there, or that of the last copy. -/
def topAfter (r : Repeater) : Nat → Repeater
  | 0 => r
  | n + 1 => r.turn n

/-- Does the text still wait for its place after `n` copies, if it does before them and the body lays
hold of it when `marks` says so? -/
def waitsAfter (waiting marks : Bool) (n : Nat) : Bool := waiting && !(decide (0 < n) && marks)

/-- The nodes of the copy `i`, into which the text goes if it waits for its place. -/
def filled (src : Source) (r : Repeater) (waiting : Bool) (i : Nat) (nodes : List Node) : List Node :=
  if r.implicit && waiting then Node.insertIntoLast (src.textAt i) nodes else nodes

theorem not_inserted_after (σ : State) (marks : Bool) (n : Nat) (es : List Event) :
    (!(σ.after (decide (0 < n) && marks) es).inserted) = waitsAfter (!σ.inserted) marks n := by
  simp [waitsAfter]

end Repeater

section Loop

variable (src : Source) (r : Repeater) (body : Repeater → Expansion (List Node))

theorem copy_run (i : Nat) (σ : State) :
    (copy src r body i).run σ =
      let q := (body (r.turn i)).run (σ.replaceTop (r.turn i))
      (r.filled src (!q.2.inserted) i q.1, q.2) := by
  unfold copy Repeater.filled
  rw [run_bind, run_bind, run_bind, run_get, run_ite]
  split
  · next h => exact Prod.ext (if_pos h).symm rfl
  · next h => exact Prod.ext (if_neg h).symm rfl

/-- **The loop of a repeater.**  Let the copy `i` of the body give `value i` of the repeaters around
and of whether the text still waits for its place, and let `marks` say whether it lays hold of the
text.  Then every copy is made with its own repeater on top of the repeaters that were around when the
loop began, and these are still there when it ends. -/
theorem run_mapM_copy {value : Nat → List Repeater → Bool → List Node} {marks : Bool}
    {events : Nat → List Repeater → Bool → List Event}
    (step : ∀ i σ, (body (r.turn i)).run σ =
      (value i σ.stack (!σ.inserted), σ.after marks (events i σ.stack (!σ.inserted))))
    (n : Nat) (σ : State) :
    ((List.range n).mapM (copy src r body)).run (σ.push r) =
      ((List.range n).map fun i => r.filled src (!σ.inserted && !marks) i
          (value i (r.turn i :: σ.stack) (waitsAfter (!σ.inserted) marks i)),
        (σ.after (decide (0 < n) && marks) ((List.range n).flatMap fun i =>
          events i (r.turn i :: σ.stack) (waitsAfter (!σ.inserted) marks i))).push (r.topAfter n)) := by
  induction n with
  | zero => rw [List.range_zero, List.mapM_nil, run_pure]; simp [topAfter]
  | succ n ih =>
    rw [List.range_succ, List.mapM_append, run_bind, ih, run_bind, List.mapM_cons, List.mapM_nil,
      run_bind, copy_run, replaceTop_push, run_bind, run_pure, run_pure, run_pure]
    generalize he : (List.range n).flatMap _ = es
    -- the copy `n` finds the text as the copies before it have left it
    have hw := not_inserted_after σ marks n es
    have hm : (decide (0 < n) && marks || marks) = marks := by cases marks <;> simp
    simp only [step, push_stack, push_inserted, push_after, after_stack, hw, after_after, hm]
    rw [List.map_append, List.flatMap_append, he]
    simp [topAfter]

/-- What a repeated statement does when its loop has ended. -/
def closed (count : Int) (σ : State) : State :=
  if r.implicit then
    (if σ.inserted = false then σ.note (.insertedText count) else σ).setInserted true
  else σ

theorem repeated_run (σ : State) :
    (repeated src r body).run σ =
      let q := ((List.range (r.copies src).toNat).mapM (copy src r body)).run
        ((σ.push r).note (.expanding (r.copies src) r.implicit))
      (q.1.flatten, closed r (r.copies src) q.2.pop) := by
  unfold repeated
  rw [run_bind, run_modify, run_bind, run_modify, run_bind]
  generalize StateT.run (List.mapM (copy src r body) _) _ = q
  obtain ⟨copies, stack, inserted, log⟩ := q
  cases hr : r.implicit <;> cases inserted <;> simp only [closed, hr] <;> rfl

end Loop

end Shorthand
