import Shorthand.Proofs.Expansion.Threaded

/-!
# Expansion without a state

Once the text has found its place, an expansion is a function of the repeaters around: these are an
environment that every copy extends by its own repeater.

* `Statement.unroll src env`: the nodes of a statement in the environment `env`;
* `nodesIn_false`: what is left of `Statement.nodesIn` when no text waits;
* `Element.assemble`: the parts of an element expanded in any order;
* `expand_run_of_inserted`: the expansion is the unrolling, and the order of the parts is free.
-/

namespace Shorthand

open Expansion State Repeater

mutual

/-- The nodes of a statement in an environment of repeaters, innermost first.  A repeated statement
is its body, once for every copy, with the repeater of the copy in front of the environment; only an
element that is repeated itself keeps that repeater. -/
def Statement.unroll (src : Source) (env : List Repeater) : Statement → List Node
  | .element head cs none => [head.nodeIn src env (Statement.unrollAll src env cs) none]
  | .element head cs (some r) =>
    (List.range (r.turns src)).map fun i =>
      head.nodeIn src (r.turn i :: env) (Statement.unrollAll src (r.turn i :: env) cs) (some (r.turn i))
  | .group cs none => Statement.unrollAll src env cs
  | .group cs (some r) =>
    (List.range (r.turns src)).flatMap fun i => Statement.unrollAll src (r.turn i :: env) cs

def Statement.unrollAll (src : Source) (env : List Repeater) : List Statement → List Node
  | [] => []
  | s :: rest => s.unroll src env ++ Statement.unrollAll src env rest

end

theorem Repeater.nodesIn_false (src : Source) (r : Repeater) (marks : Bool)
    (nodes : Nat → Bool → List Node) :
    r.nodesIn src marks false nodes = (List.range (r.turns src)).flatMap (nodes · false) := by
  simp [nodesIn, filled, waitsAfter]

mutual

theorem Statement.nodesIn_false (src : Source) : ∀ (s : Statement) (env : List Repeater),
    s.nodesIn src env false = s.unroll src env
  | .element head cs none, env => by
    rw [nodesIn, unroll, nodesInAll_false src cs]
  | .element head cs (some r), env => by
    rw [nodesIn, unroll, Repeater.nodesIn_false]
    simp only [nodesInAll_false src cs, List.map_eq_flatMap]
  | .group cs none, env => by
    rw [nodesIn, unroll, nodesInAll_false src cs]
  | .group cs (some r), env => by
    rw [nodesIn, unroll, Repeater.nodesIn_false]
    simp only [nodesInAll_false src cs]

theorem Statement.nodesInAll_false (src : Source) : ∀ (ss : List Statement) (env : List Repeater),
    Statement.nodesInAll src env false ss = Statement.unrollAll src env ss
  | [], _ => rfl
  | s :: rest, env => by
    rw [nodesInAll, unrollAll, nodesIn_false src s, Bool.false_and, nodesInAll_false src rest]

end

/-! ### The order of the parts -/

/-- The parts of an element that are expanded one by one. -/
inductive Element.Part where
  | children
  | attributes
  | name
  | value
  deriving DecidableEq, Repr

namespace Element

variable (src : Source) (head : Element) (cs : List Statement)

/-- Expands a part of an element and puts it into a node. -/
def fill (n : Node) : Part → Expansion Node
  | .children => do pure { n with children := ← Statement.expandAll src cs }
  | .attributes => do
    let attributes ← match head.attributes with
      | none => pure none
      | some as => do pure (some (← as.mapM (Attribute.render src)))
    pure { n with attributes }
  | .name => do pure { n with name := ← renderSome (renderName src) head.name }
  | .value => do pure { n with value := ← renderSome (renderValue src) head.value }

/-- The node of an element, whose parts are expanded in the given order. -/
def assemble (repeater : Option Repeater) (order : List Part) : Expansion Node :=
  order.foldlM (head.fill src cs) { repeater, selfClosing := head.selfClosing }

/-- A node with a part of an element inside some repeaters. -/
def withPart (env : List Repeater) (n : Node) : Part → Node
  | .children => { n with children := Statement.unrollAll src env cs }
  | .attributes => { n with attributes := head.attributes.map (·.map (Attribute.nodeIn src env)) }
  | .name => { n with name := someIn (nameIn src env) head.name }
  | .value => { n with value := someIn (valueIn src env) head.value }

/-- Expanding a part gives what stands in the environment, and leaves things so for the next part. -/
theorem fill_run (n : Node) (p : Part) (σ : State) (h : σ.inserted = true) :
    ((head.fill src cs n p).run σ).1 = head.withPart src cs σ.stack n p ∧
      ((head.fill src cs n p).run σ).2.stack = σ.stack ∧
      ((head.fill src cs n p).run σ).2.inserted = true := by
  cases p with
  | children =>
    rw [fill, run_bind, Statement.expandAll_run, run_pure, h, Bool.not_true, Statement.nodesInAll_false]
    exact ⟨rfl, rfl, by simp [h]⟩
  | attributes =>
    unfold fill withPart
    cases head.attributes with
    | none => exact ⟨rfl, rfl, h⟩
    | some as =>
      rw [run_bind, run_bind, run_mapM (Attribute.nodeIn src) _ _ (Attribute.render_run src), run_pure,
        run_pure]
      exact ⟨rfl, rfl, by simp [h]⟩
  | name =>
    rw [fill, run_bind, renderSome_run (renderName_run src), run_pure]
    exact ⟨rfl, rfl, by simp [h]⟩
  | value =>
    rw [fill, run_bind, renderSome_run (renderValue_run src), run_pure]
    exact ⟨rfl, rfl, by simp [h]⟩

theorem foldlM_fill_run (order : List Part) (n : Node) (σ : State) (h : σ.inserted = true) :
    ((order.foldlM (head.fill src cs) n).run σ).1 = order.foldl (head.withPart src cs σ.stack) n := by
  induction order generalizing n σ with
  | nil => rfl
  | cons p order ih =>
    obtain ⟨hn, hs, hi⟩ := head.fill_run src cs n p σ h
    rw [List.foldlM_cons, run_bind, ih _ _ hi, hn, hs, List.foldl_cons]

/-- Every part that is expanded at all is there in the end, whatever the order. -/
theorem foldl_withPart (env : List Repeater) (order : List Part) (n : Node) :
    order.foldl (head.withPart src cs env) n =
      { n with
        name := if .name ∈ order then someIn (nameIn src env) head.name else n.name
        value := if .value ∈ order then someIn (valueIn src env) head.value else n.value
        attributes :=
          if .attributes ∈ order then head.attributes.map (·.map (Attribute.nodeIn src env))
          else n.attributes
        children := if .children ∈ order then Statement.unrollAll src env cs else n.children } := by
  induction order generalizing n with
  | nil => cases n; simp
  | cons p order ih =>
    rw [List.foldl_cons, ih]
    cases p <;> simp [withPart]

theorem assemble_run (repeater : Option Repeater) {order : List Part} (all : ∀ p, p ∈ order)
    (σ : State) (h : σ.inserted = true) :
    ((head.assemble src cs repeater order).run σ).1 =
      head.nodeIn src σ.stack (Statement.unrollAll src σ.stack cs) repeater := by
  rw [assemble, head.foldlM_fill_run src cs order _ σ h, foldl_withPart]
  simp only [all, if_true]
  rfl

/-- The order in which an expansion goes through the parts of an element. -/
theorem expand_eq_assemble :
    (Statement.element head cs none).expand src =
      (do pure [← head.assemble src cs none [.children, .attributes, .name, .value]]) := by
  funext σ
  unfold Statement.expand build
  cases ha : head.attributes <;> simp only [assemble, List.foldlM, fill, ha] <;> rfl

end Element

/-! ### The expansion -/

/-- **Expansion is unrolling once the text has found its place.**  From every state in which it has,
every statement expands to its unrolling in the environment of the repeaters around, and nothing but
the log changes.  The parts of an element may be expanded in any order: its node is the same as in the
order in which the expansion goes through them. -/
theorem expand_run_of_inserted (src : Source) (σ : State) (h : σ.inserted = true) :
    (∀ s : Statement, (s.expand src).run σ =
      (s.unroll src σ.stack, { σ with log := (s.eventsIn src σ.stack false).reverse ++ σ.log })) ∧
    (∀ (head : Element) (cs : List Statement) (repeater : Option Repeater) (order : List Element.Part),
      (∀ p, p ∈ order) →
      ((head.assemble src cs repeater order).run σ).1 =
        head.nodeIn src σ.stack (Statement.unrollAll src σ.stack cs) repeater) ∧
    ∀ (head : Element) (cs : List Statement), (Statement.element head cs none).expand src =
      (do pure [← head.assemble src cs none [.children, .attributes, .name, .value]]) := by
  refine ⟨fun s => ?_, fun head cs repeater order all => head.assemble_run src cs repeater all σ h,
    fun head cs => head.expand_eq_assemble src cs⟩
  rw [s.expand_run, h, Bool.not_true, s.nodesIn_false]
  simp [after, h]

/-- A list of two items inside the third copy of something: the number reads the repeater of the
group, and the placeholder the item of the copy, also if the value is expanded before the name. -/
theorem expand_run_of_inserted_items :
    let src : Source := { text := .items [some "a", some "b"] }
    let σ : State := { stack := [{ count := some 3, value := 2 }], inserted := true }
    let head : Element := { name := some [.literal "li", .number {}], value := some [.placeholder] }
    σ.inserted = true ∧ (∀ p, p ∈ [Element.Part.value, .name, .children, .attributes]) ∧
      (((Statement.group [.element head [] none] (some { implicit := true })).expand src).run σ).1 =
        [{ name := some "li1", value := some [.text "a"] },
          { name := some "li2", value := some [.text "b"] }] ∧
      ((head.assemble src [] none [.value, .name, .children, .attributes]).run σ).1 =
        { name := some "li3", value := some [.text "a\nb"] } := by
  intro src σ head
  have all : ∀ p, p ∈ [Element.Part.value, .name, .children, .attributes] := by rintro (_ | _) <;> decide
  obtain ⟨unrolled, free, -⟩ := expand_run_of_inserted src σ rfl
  refine ⟨rfl, all, ?_, ?_⟩
  · rw [unrolled]
    rfl
  · rw [free head [] none _ all]
    rfl

end Shorthand
