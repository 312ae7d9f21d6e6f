import Shorthand.Node
import Mathlib.Data.List.Basic

/-!
# Places for text

Text that is put to nodes after they are made: the node is found by its place among them and by the
way from there over children.

* `Placement.apply`, `applyAll`: the text is put there;
* `applyAll_append_left`, `applyAll_behind`: of two lists of nodes, one is left alone;
* `applyAll_inside`: what is put below a node is put to its children;
* `applyAll_flatMap`: texts for some copies are put to each copy by itself;
* `applyAll_copies`: text for the last node of each of some copies.
-/

namespace Shorthand

/-- Text put to the deepest node at the end of the node to which a way over children leads. -/
def Node.insertUnder (text : String) : List Nat → Node → Node
  | [], n => n.insertDeepest text
  | k :: way, n => { n with children := n.children.modify k (Node.insertUnder text way) }

/-- Text for a node: the place of a node in a list, and the way from there over children. -/
structure Placement where
  place : Nat
  way : List Nat := []
  text : String
  deriving DecidableEq, Repr

namespace Placement

/-- The text is put to its node.  Where there is no such node, nothing happens. -/
def apply (x : Placement) (ns : List Node) : List Node :=
  ns.modify x.place (Node.insertUnder x.text x.way)

/-- All texts are put to their nodes, one after the other. -/
def applyAll (xs : List Placement) (ns : List Node) : List Node := xs.foldl (fun ns x => x.apply ns) ns

/-- The same node, behind `w` others. -/
def behind (w : Nat) (x : Placement) : Placement := { x with place := w + x.place }

/-- The same node, among the children of the one node of a list. -/
def inside (x : Placement) : Placement := { x with place := 0, way := x.place :: x.way }

/-! ### One list behind another -/

variable (xs : List Placement)

@[simp] theorem applyAll_no_nodes : applyAll xs [] = [] := by
  induction xs with
  | nil => rfl
  | cons x xs ih => rw [applyAll, List.foldl_cons, apply, List.modify_nil]; exact ih

@[simp] theorem length_applyAll (ns : List Node) : (applyAll xs ns).length = ns.length := by
  induction xs generalizing ns with
  | nil => rfl
  | cons x xs ih => rw [applyAll, List.foldl_cons]; exact (ih _).trans (List.length_modify _ _ _)

theorem applyAll_append (ys : List Placement) (ns : List Node) :
    applyAll (xs ++ ys) ns = applyAll ys (applyAll xs ns) := List.foldl_append

theorem modify_append_left {α : Type} (f : α → α) {as : List α} {k : Nat} (h : k < as.length)
    (bs : List α) : (as ++ bs).modify k f = as.modify k f ++ bs := by
  induction as generalizing k with
  | nil => cases h
  | cons a as ih =>
    cases k with
    | zero => rfl
    | succ k =>
      rw [List.cons_append, List.modify_succ_cons, List.modify_succ_cons, List.cons_append,
        ih (Nat.lt_of_succ_lt_succ h)]

theorem modify_append_right {α : Type} (f : α → α) (as bs : List α) (k : Nat) :
    (as ++ bs).modify (as.length + k) f = as ++ bs.modify k f := by
  induction as with
  | nil => rw [List.nil_append, List.length_nil, Nat.zero_add, List.nil_append]
  | cons a as ih =>
    rw [List.cons_append, List.length_cons, Nat.add_right_comm, List.modify_succ_cons, ih,
      List.cons_append]

theorem applyAll_append_left {xs : List Placement} {ns : List Node} (h : ∀ x ∈ xs, x.place < ns.length)
    (ms : List Node) : applyAll xs (ns ++ ms) = applyAll xs ns ++ ms := by
  induction xs generalizing ns with
  | nil => rfl
  | cons x xs ih =>
    have hx : x.apply (ns ++ ms) = x.apply ns ++ ms := modify_append_left _ (h x List.mem_cons_self) ms
    have hl : (x.apply ns).length = ns.length := List.length_modify _ _ _
    have ht : ∀ y ∈ xs, y.place < (x.apply ns).length := fun y hy => by
      rw [hl]
      exact h y (List.mem_cons_of_mem x hy)
    calc applyAll (x :: xs) (ns ++ ms) = applyAll xs (x.apply ns ++ ms) := by rw [← hx]; rfl
      _ = applyAll (x :: xs) ns ++ ms := ih ht

theorem applyAll_behind (ns ms : List Node) :
    applyAll (xs.map (behind ns.length)) (ns ++ ms) = ns ++ applyAll xs ms := by
  induction xs generalizing ms with
  | nil => rfl
  | cons x xs ih =>
    have hx : (x.behind ns.length).apply (ns ++ ms) = ns ++ x.apply ms := modify_append_right _ ns ms _
    calc applyAll ((x :: xs).map (behind ns.length)) (ns ++ ms)
        = applyAll (xs.map (behind ns.length)) (ns ++ x.apply ms) := by rw [← hx]; rfl
      _ = ns ++ applyAll (x :: xs) ms := ih _

theorem applyAll_inside (n : Node) :
    applyAll (xs.map inside) [n] = [{ n with children := applyAll xs n.children }] := by
  induction xs generalizing n with
  | nil => cases n; rfl
  | cons x xs ih => exact ih { n with children := x.apply n.children }

theorem place_lt_of_mem_inside {xs : List Placement} : ∀ x ∈ xs.map inside, x.place < 1 := by
  intro x hx
  obtain ⟨y, -, rfl⟩ := List.mem_map.mp hx
  exact Nat.one_pos

/-! ### Copies -/

theorem place_lt_of_mem_behind {xs : List Placement} {w : Nat} (h : ∀ x ∈ xs, x.place < w) (v : Nat) :
    ∀ x ∈ xs.map (behind v), x.place < v + w := by
  intro x hx
  obtain ⟨y, hy, rfl⟩ := List.mem_map.mp hx
  have hlt := h y hy
  dsimp only [behind]
  omega

/-- The texts for some copies that have `w` nodes each, where the copy `i` has a list `xs i` of its own. -/
theorem place_lt_of_mem_copies {xs : Nat → List Placement} {w : Nat}
    (h : ∀ i, ∀ x ∈ xs i, x.place < w) (n : Nat) :
    ∀ x ∈ (List.range n).flatMap fun i => (xs i).map (behind (i * w)), x.place < n * w := by
  intro x hx
  obtain ⟨i, hi, hx⟩ := List.mem_flatMap.mp hx
  have hlt := place_lt_of_mem_behind (h i) (i * w) x hx
  have hle : (i + 1) * w ≤ n * w := Nat.mul_le_mul_right w (List.mem_range.mp hi)
  rw [Nat.succ_mul] at hle
  omega

theorem length_copies {nodes : Nat → List Node} {w : Nat} (h : ∀ i, (nodes i).length = w) (n : Nat) :
    ((List.range n).flatMap nodes).length = n * w := by
  induction n with
  | zero => simp
  | succ n ih => rw [List.range_succ, List.flatMap_append, List.length_append, ih]; simp [h, Nat.succ_mul]

theorem applyAll_flatMap {xs : Nat → List Placement} {nodes : Nat → List Node} {w : Nat}
    (hw : ∀ i, (nodes i).length = w) (h : ∀ i, ∀ x ∈ xs i, x.place < w) (n : Nat) :
    applyAll ((List.range n).flatMap fun i => (xs i).map (behind (i * w))) ((List.range n).flatMap nodes) =
      (List.range n).flatMap fun i => applyAll (xs i) (nodes i) := by
  induction n with
  | zero => rfl
  | succ n ih =>
    let before := (List.range n).flatMap fun i => (xs i).map (behind (i * w))
    have hlength : (applyAll before ((List.range n).flatMap nodes)).length = n * w := by
      rw [length_applyAll, length_copies hw]
    have hleft : applyAll before ((List.range n).flatMap nodes ++ nodes n) =
        applyAll before ((List.range n).flatMap nodes) ++ nodes n := by
      refine applyAll_append_left (fun x hx => ?_) (nodes n)
      rw [length_copies hw]
      exact place_lt_of_mem_copies h n x hx
    rw [List.range_succ, List.flatMap_append, List.flatMap_append, List.flatMap_append, List.flatMap_singleton,
      List.flatMap_singleton, List.flatMap_singleton, applyAll_append]
    calc applyAll ((xs n).map (behind (n * w))) (applyAll before ((List.range n).flatMap nodes ++ nodes n))
        = applyAll ((xs n).map (behind (n * w))) (applyAll before ((List.range n).flatMap nodes) ++ nodes n) := by
          rw [hleft]
      _ = applyAll before ((List.range n).flatMap nodes) ++ applyAll (xs n) (nodes n) := by
          rw [← hlength]
          exact applyAll_behind (xs n) _ (nodes n)
      _ = ((List.range n).flatMap fun i => applyAll (xs i) (nodes i)) ++ applyAll (xs n) (nodes n) := by
          rw [ih]

/-- Text for the last node is put to the deepest node below it. -/
theorem insertIntoLast_eq_apply (text : String) (ns : List Node) :
    Node.insertIntoLast text ns = ({ place := ns.length - 1, text } : Placement).apply ns := by
  induction ns with
  | nil => rfl
  | cons n ns ih =>
    cases ns with
    | nil => rfl
    | cons m ns => rw [Node.insertIntoLast, ih]; rfl

/-- The texts of `n` copies that have `w` nodes each: every one is for the last node of its copy.
Copies without nodes get none. -/
def forCopies (text : Nat → String) (n w : Nat) : List Placement :=
  if w = 0 then [] else (List.range n).map fun i => { place := i * w + (w - 1), text := text i }

theorem forCopies_ne_nil {text : Nat → String} {n w : Nat} :
    forCopies text n w ≠ [] ↔ w ≠ 0 ∧ n ≠ 0 := by
  unfold forCopies
  split <;> simp_all

theorem forCopies_eq_flatMap (text : Nat → String) (n : Nat) {w : Nat} (hw : w ≠ 0) :
    forCopies text n w =
      (List.range n).flatMap fun i => [{ place := w - 1, text := text i }].map (behind (i * w)) := by
  unfold forCopies
  rw [if_neg hw, List.map_eq_flatMap]
  rfl

theorem place_lt_of_mem_forCopies {text : Nat → String} {n w : Nat} {x : Placement}
    (h : x ∈ forCopies text n w) : x.place < n * w := by
  by_cases hw : w = 0
  · rw [forCopies, if_pos hw] at h
    cases h
  · rw [forCopies_eq_flatMap text n hw] at h
    refine place_lt_of_mem_copies (fun i y hy => ?_) n x h
    rw [List.mem_singleton.mp hy]
    exact Nat.sub_one_lt hw

theorem applyAll_copies (text : Nat → String) {nodes : Nat → List Node} {w : Nat}
    (h : ∀ i, (nodes i).length = w) (n : Nat) :
    applyAll (forCopies text n w) ((List.range n).flatMap nodes) =
      (List.range n).flatMap fun i => Node.insertIntoLast (text i) (nodes i) := by
  by_cases hw : w = 0
  · have he (i : Nat) : nodes i = [] := List.length_eq_zero_iff.mp ((h i).trans hw)
    rw [List.flatMap_eq_nil_iff.mpr fun i _ => he i, applyAll_no_nodes]
    exact (List.flatMap_eq_nil_iff.mpr fun i _ => by rw [he i]; rfl).symm
  · have hlast (i : Nat) : ∀ x ∈ [({ place := w - 1, text := text i } : Placement)], x.place < w := fun x hx => by
      rw [List.mem_singleton.mp hx]
      exact Nat.sub_one_lt hw
    rw [forCopies_eq_flatMap text n hw, applyAll_flatMap h hlast]
    refine List.flatMap_congr fun i _ => ?_
    rw [insertIntoLast_eq_apply, h]
    rfl

end Placement

end Shorthand
