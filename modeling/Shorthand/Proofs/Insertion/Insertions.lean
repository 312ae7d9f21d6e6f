import Shorthand.Proofs.Insertion.Address
import Shorthand.Proofs.Insertion.FirstMark

/-!
# The texts that an expansion inserts

The texts that are put to nodes in the course of an expansion, in the order in which they are put there.
Whatever the repeaters of a tree say, its expansion is what it unrolls to without any text, followed by
these.

* `Statement.insertions`: the texts that the copies of a statement and of those inside of it get;
* `Statement.nodesIn_eq_applyAll`: an expansion is an unrolling followed by its insertions;
* `Tree.received`: the texts that the node at an address gets while a tree is expanded.
-/

namespace Shorthand

open Repeater Placement

/-! ### Insertions -/

/-- The text for the copy `i` of a repeater: a copy of `width` nodes gets it at its end, if the repeater is
implicit, the text waits, and there is a node. -/
def Repeater.ownInsertion (src : Source) (r : Repeater) (waiting : Bool) (width i : Nat) : List Placement :=
  if (r.implicit && waiting) && decide (0 < width) then [{ place := width - 1, text := src.textAt i }] else []

/-- The texts for the copies of a repeated statement, in each of which `inner` are put first. -/
def Repeater.insertions (src : Source) (r : Repeater) (marks waiting : Bool) (width : Nat)
    (inner : Bool → List Placement) : List Placement :=
  (List.range (r.turns src)).flatMap fun i =>
    (inner (waitsAfter waiting marks i) ++ r.ownInsertion src (waiting && !marks) width i).map
      (behind (i * width))

mutual

/-- The texts that are inserted while a statement is expanded, where `waiting` says whether the text still
waits for its place. -/
def Statement.insertions (src : Source) (waiting : Bool) : Statement → List Placement
  | .element _ cs none => (Statement.insertionsAll src waiting cs).map inside
  | .element head cs (some r) =>
    r.insertions src (Statement.reachesTextAll src cs || head.holdsPlaceholder) waiting 1 fun w =>
      (Statement.insertionsAll src w cs).map inside
  | .group cs none => Statement.insertionsAll src waiting cs
  | .group cs (some r) =>
    r.insertions src (Statement.reachesTextAll src cs) waiting (Statement.widthAll src cs) fun w =>
      Statement.insertionsAll src w cs

/-- The texts that are inserted while some statements are expanded. -/
def Statement.insertionsAll (src : Source) (waiting : Bool) : List Statement → List Placement
  | [] => []
  | s :: rest =>
    s.insertions src waiting ++
      (Statement.insertionsAll src (waiting && !s.reachesText src) rest).map (behind (s.width src))

end

/-! ### Places -/

namespace Repeater

variable {src : Source} {r : Repeater} {marks waiting : Bool} {width : Nat} {inner : Bool → List Placement}

theorem place_lt_of_mem_copy (h : ∀ w, ∀ x ∈ inner w, x.place < width) (i : Nat) :
    ∀ x ∈ inner (waitsAfter waiting marks i) ++ r.ownInsertion src (waiting && !marks) width i,
      x.place < width := by
  intro x hx
  obtain hx | hx := List.mem_append.mp hx
  · exact h _ x hx
  · unfold ownInsertion at hx
    split at hx
    · next hc =>
      have hpos : 0 < width := of_decide_eq_true (Bool.and_eq_true_iff.mp hc).2
      rw [List.mem_singleton.mp hx]
      dsimp only
      omega
    · cases hx

theorem place_lt_of_mem_insertions (h : ∀ w, ∀ x ∈ inner w, x.place < width) :
    ∀ x ∈ r.insertions src marks waiting width inner, x.place < r.turns src * width :=
  place_lt_of_mem_copies (place_lt_of_mem_copy h) _

end Repeater

mutual

theorem Statement.insertion_lt_width {src : Source} : ∀ (s : Statement) {waiting : Bool},
    ∀ x ∈ s.insertions src waiting, x.place < s.width src
  | .element _ cs none, waiting, x, hx => by
    rw [insertions] at hx
    rw [width]
    exact place_lt_of_mem_inside x hx
  | .element _ cs (some r), waiting, x, hx => by
    rw [insertions] at hx
    rw [width, ← Nat.mul_one (r.turns src)]
    exact place_lt_of_mem_insertions (fun w => place_lt_of_mem_inside) x hx
  | .group cs none, waiting, x, hx => by
    rw [insertions] at hx
    rw [width]
    exact insertion_lt_widthAll cs x hx
  | .group cs (some r), waiting, x, hx => by
    rw [insertions] at hx
    rw [width]
    exact place_lt_of_mem_insertions (fun w => insertion_lt_widthAll cs) x hx

theorem Statement.insertion_lt_widthAll {src : Source} : ∀ (ss : List Statement) {waiting : Bool},
    ∀ x ∈ Statement.insertionsAll src waiting ss, x.place < Statement.widthAll src ss
  | [], _, _, hx => by cases hx
  | s :: rest, waiting, x, hx => by
    rw [insertionsAll, List.mem_append] at hx
    rw [widthAll]
    obtain hx | hx := hx
    · have h := insertion_lt_width s x hx
      omega
    · exact place_lt_of_mem_behind (fun y hy => insertion_lt_widthAll rest y hy) (s.width src) x hx

end

/-! ### Expansion and unrolling -/

theorem Repeater.filled_eq_applyAll (src : Source) (r : Repeater) (waiting : Bool) (i : Nat) (ns : List Node) :
    r.filled src waiting i ns = applyAll (r.ownInsertion src waiting ns.length i) ns := by
  unfold filled ownInsertion
  by_cases h : (r.implicit && waiting) = true
  · rw [if_pos h, h, Bool.true_and, insertIntoLast_eq_apply]
    cases ns with
    | nil => rfl
    | cons n ns => rfl
  · rw [if_neg h, Bool.eq_false_iff.mpr h]
    rfl

/-- A repeated statement: `nodes i w` are the nodes of the copy `i`, if `w` says whether the text waits. -/
theorem Repeater.nodesIn_eq_applyAll (src : Source) (r : Repeater) (marks waiting : Bool) {width : Nat}
    {inner : Bool → List Placement} (nodes : Nat → Bool → List Node)
    (hl : ∀ i, (nodes i false).length = width) (hp : ∀ w, ∀ x ∈ inner w, x.place < width)
    (step : ∀ i w, nodes i w = applyAll (inner w) (nodes i false)) :
    r.nodesIn src marks waiting nodes =
      applyAll (r.insertions src marks waiting width inner)
        ((List.range (r.turns src)).flatMap (nodes · false)) := by
  unfold insertions
  rw [applyAll_flatMap hl (place_lt_of_mem_copy hp)]
  unfold nodesIn
  refine List.flatMap_congr fun i _ => ?_
  have hlength : (nodes i (waitsAfter waiting marks i)).length = width := by
    rw [step, length_applyAll, hl]
  rw [filled_eq_applyAll, hlength, applyAll_append, ← step]

mutual

/-- **An expansion is an unrolling followed by its insertions.** -/
theorem Statement.nodesIn_eq_applyAll (src : Source) : ∀ (s : Statement) (env : List Repeater)
    (waiting : Bool), s.nodesIn src env waiting = applyAll (s.insertions src waiting) (s.unroll src env)
  | .element head cs none, env, waiting => by
    rw [nodesIn, insertions, unroll, applyAll_inside, nodesInAll_eq_applyAll src cs]
    rfl
  | .element head cs (some r), env, waiting => by
    rw [nodesIn, insertions, unroll, List.map_eq_flatMap]
    simp only [← nodesInAll_false src cs]
    refine r.nodesIn_eq_applyAll src _ waiting
      (fun i w =>
        [head.nodeIn src (r.turn i :: env) (Statement.nodesInAll src (r.turn i :: env) w cs) (some (r.turn i))])
      (fun i => rfl) (fun w => place_lt_of_mem_inside) fun i w => ?_
    rw [applyAll_inside, nodesInAll_eq_applyAll src cs, ← nodesInAll_false src cs]
    rfl
  | .group cs none, env, waiting => by
    rw [nodesIn, insertions, unroll, nodesInAll_eq_applyAll src cs]
  | .group cs (some r), env, waiting => by
    rw [nodesIn, insertions, unroll]
    simp only [← nodesInAll_false src cs]
    refine r.nodesIn_eq_applyAll src _ waiting (fun i w => Statement.nodesInAll src (r.turn i :: env) w cs)
      (fun i => ?_) (fun w => insertion_lt_widthAll cs) fun i w => ?_
    · rw [nodesInAll_false, length_unrollAll]
    · rw [nodesInAll_eq_applyAll src cs, ← nodesInAll_false src cs]

theorem Statement.nodesInAll_eq_applyAll (src : Source) : ∀ (ss : List Statement) (env : List Repeater)
    (waiting : Bool), Statement.nodesInAll src env waiting ss =
      applyAll (Statement.insertionsAll src waiting ss) (Statement.unrollAll src env ss)
  | [], _, _ => by rw [nodesInAll, unrollAll, applyAll_no_nodes]
  | s :: rest, env, waiting => by
    have hleft : applyAll (s.insertions src waiting) (s.unroll src env ++ Statement.unrollAll src env rest) =
        s.nodesIn src env waiting ++ Statement.unrollAll src env rest := by
      rw [applyAll_append_left (fun x hx => ?_), ← nodesIn_eq_applyAll src s]
      rw [length_unroll]
      exact insertion_lt_width s x hx
    have hlength : (s.nodesIn src env waiting).length = s.width src := by
      rw [nodesIn_eq_applyAll src s, length_applyAll, length_unroll]
    rw [nodesInAll, insertionsAll, unrollAll, applyAll_append, hleft, ← hlength, applyAll_behind,
      nodesInAll_eq_applyAll src rest]

end

/-- Whether or not the text waits, as many nodes are made. -/
theorem Statement.length_nodesInAll (src : Source) (ss : List Statement) (env : List Repeater)
    (waiting : Bool) : (Statement.nodesInAll src env waiting ss).length = Statement.widthAll src ss := by
  rw [nodesInAll_eq_applyAll, length_applyAll, length_unrollAll]

/-! ### Trees -/

namespace Tree

/-- The texts that are inserted while a tree is expanded, in order. -/
def insertions (src : Source) (t : Tree) : List Placement := Statement.insertionsAll src true t.statements

/-- The texts that the node at an address gets while a tree is expanded, in order. -/
def received (src : Source) (t : Tree) (place : Nat) (way : List Nat) : List String :=
  receivedAt place way (t.insertions src) (Statement.unrollAll src [] t.statements)

theorem expand_eq_insertions (src : Source) (t : Tree) :
    t.expand src = applyAll (t.insertions src) (Statement.unrollAll src [] t.statements) := by
  rw [expand, run, Statement.expandAll_run]
  exact Statement.nodesInAll_eq_applyAll src t.statements [] true

/-- **The nodes of an expansion** are those of the unrolled tree, with the texts that they get. -/
theorem own_at?_expand (src : Source) (t : Tree) (place : Nat) (way : List Nat) :
    (Node.at? (t.expand src) place way).map Node.own =
      (Node.at? (Statement.unrollAll src [] t.statements) place way).map fun m =>
        Node.own { m with value := grownValue m.value (t.received src place way) } := by
  rw [expand_eq_insertions]
  exact own_at?_applyAll _ _ place way

end Tree

end Shorthand
