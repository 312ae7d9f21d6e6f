import Mathlib.Data.List.Forall2
import Shorthand.Proofs.Expansion.Builds

/-!
# The nodes of an expansion are its builds

The nodes of an expansion, each behind its children, are those of the elements that are built, in the
order in which they are built.

* `Node.postorder`: a node behind all nodes below it;
* `Build.Shown`: a node shows a build: it has the names, the attributes and the value that the element
  has inside the repeaters around, and text may have been put after the value;
* `Tree.forall₂_builds`: the nodes of a tree show its builds, one after the other.
-/

namespace Shorthand

/-! ### Nodes -/

mutual

/-- The nodes below a node and the node itself, each behind its children. -/
def Node.postorder : Node → List Node
  | ⟨name, value, attributes, children, repeater, selfClosing⟩ =>
    Node.postorderAll children ++ [⟨name, value, attributes, children, repeater, selfClosing⟩]

def Node.postorderAll : List Node → List Node
  | [] => []
  | n :: rest => n.postorder ++ Node.postorderAll rest

end

namespace Node

theorem postorder_eq (n : Node) : n.postorder = postorderAll n.children ++ [n] := by
  cases n
  rw [postorder]

theorem postorderAll_singleton (n : Node) : postorderAll [n] = postorderAll n.children ++ [n] := by
  rw [postorderAll, postorderAll, List.append_nil, postorder_eq]

theorem postorderAll_append (ms ns : List Node) :
    postorderAll (ms ++ ns) = postorderAll ms ++ postorderAll ns := by
  induction ms with
  | nil => rw [postorderAll]; rfl
  | cons m ms ih => rw [List.cons_append, postorderAll, postorderAll, ih, List.append_assoc]

theorem postorderAll_flatMap {α : Type} (xs : List α) (f : α → List Node) :
    postorderAll (xs.flatMap f) = xs.flatMap fun x => postorderAll (f x) := by
  induction xs with
  | nil => rw [List.flatMap_nil, postorderAll]; rfl
  | cons x xs ih => rw [List.flatMap_cons, List.flatMap_cons, postorderAll_append, ih]

end Node

/-! ### What a node shows -/

/-- A value after which some texts have been put. -/
def grownValue (value : Option (List Entry)) (texts : List String) : Option (List Entry) :=
  texts.foldl (fun value text => some (Entry.appendText text (value.getD []))) value

/-- A node shows a build: the element has this name, these attributes and this value inside the repeaters
around, apart from the text that was put after the value. -/
structure Build.Shown (src : Source) (b : Build) (n : Node) : Prop where
  name_eq : n.name = someIn (nameIn src b.env) b.head.name
  attributes_eq : n.attributes = b.head.attributes.map (·.map (Attribute.nodeIn src b.env))
  value_eq : ∃ texts, n.value = grownValue (someIn (valueIn src b.env) b.head.value) texts
  selfClosing_eq : n.selfClosing = b.head.selfClosing

section Shown

variable {src : Source}

theorem Build.shown_nodeIn (p : Position) (head : Element) (env : List Repeater) (children : List Node)
    (repeater : Option Repeater) : Build.Shown src ⟨p, head, env⟩ (head.nodeIn src env children repeater) :=
  ⟨rfl, rfl, ⟨[], rfl⟩, rfl⟩

/-- A node shows what it showed when it gets text, and when its children do. -/
theorem Build.Shown.insertText {b : Build} {n : Node} (h : b.Shown src n) (text : String) :
    b.Shown src (n.insertText text) := by
  obtain ⟨texts, hv⟩ := h.value_eq
  refine ⟨h.name_eq, h.attributes_eq, ⟨texts ++ [text], ?_⟩, h.selfClosing_eq⟩
  rw [grownValue, List.foldl_append]
  unfold Node.insertText
  rw [hv]
  rfl

theorem Build.Shown.withChildren {b : Build} {n : Node} (h : b.Shown src n) (children : List Node) :
    b.Shown src { n with children } :=
  ⟨h.name_eq, h.attributes_eq, h.value_eq, h.selfClosing_eq⟩

theorem exists_of_forall₂_append {α β : Type} {R : α → β → Prop} {as : List α} {xs ys : List β}
    (h : List.Forall₂ R as (xs ++ ys)) :
    ∃ bs cs, as = bs ++ cs ∧ List.Forall₂ R bs xs ∧ List.Forall₂ R cs ys :=
  ⟨_, _, (List.take_append_drop xs.length as).symm, List.forall₂_take_append as xs ys h,
    List.forall₂_drop_append as xs ys h⟩

mutual

/-- Text that is put to the deepest node changes nothing of what the nodes show. -/
theorem Node.shown_insertDeepest (text : String) : ∀ (n : Node) {bs : List Build},
    List.Forall₂ (Build.Shown src) bs n.postorder →
    List.Forall₂ (Build.Shown src) bs (n.insertDeepest text).postorder
  | ⟨name, value, attributes, children, repeater, selfClosing⟩, bs, h => by
    rw [postorder_eq] at h
    obtain ⟨bs, cs, rfl, hchildren, hself⟩ := exists_of_forall₂_append h
    obtain ⟨b, hb, rfl⟩ : ∃ b, b.Shown src ⟨name, value, attributes, children, repeater, selfClosing⟩ ∧
        cs = [b] := by
      cases hself with
      | cons hb hn => cases hn; exact ⟨_, hb, rfl⟩
    rw [insertDeepest]
    split
    · rw [postorder_eq]
      exact List.rel_append hchildren (.cons (hb.insertText text) .nil)
    · rw [postorder_eq]
      exact List.rel_append (shown_insertIntoLast text children hchildren)
        (.cons (hb.withChildren _) .nil)

theorem Node.shown_insertIntoLast (text : String) : ∀ (ns : List Node) {bs : List Build},
    List.Forall₂ (Build.Shown src) bs (Node.postorderAll ns) →
    List.Forall₂ (Build.Shown src) bs (Node.postorderAll (Node.insertIntoLast text ns))
  | [], _, h => h
  | [n], bs, h => by
    rw [postorderAll, postorderAll, List.append_nil] at h
    rw [insertIntoLast, postorderAll, postorderAll, List.append_nil]
    exact shown_insertDeepest text n h
  | m :: n :: rest, bs, h => by
    rw [postorderAll] at h
    obtain ⟨bs, cs, rfl, hm, hrest⟩ := exists_of_forall₂_append h
    rw [insertIntoLast, postorderAll]
    exact List.rel_append hm (shown_insertIntoLast text (n :: rest) hrest)

end

/-! ### Statements -/

/-- The copies of a statement show its builds if the nodes of each copy do. -/
theorem Repeater.shown_nodesIn (r : Repeater) (marks waiting : Bool) (env : List Repeater)
    {builds : List Repeater → List Build} {nodes : Nat → Bool → List Node}
    (h : ∀ i w, List.Forall₂ (Build.Shown src) (builds (r.turn i :: env)) (Node.postorderAll (nodes i w))) :
    List.Forall₂ (Build.Shown src) ((environments src env (some r)).flatMap builds)
      (Node.postorderAll (r.nodesIn src marks waiting nodes)) := by
  rw [environments, nodesIn, Node.postorderAll_flatMap, List.flatMap_map]
  have hr : List.Forall₂ (· = ·) (List.range (r.turns src)) (List.range (r.turns src)) :=
    List.forall₂_same.mpr fun _ _ => rfl
  refine List.rel_flatMap hr ?_
  rintro i _ rfl
  unfold filled
  split
  · exact Node.shown_insertIntoLast _ _ (h i _)
  · exact h i _

/-- The node of an element shows its build, behind the nodes of its children. -/
theorem Element.shown_nodeIn {bs : List Build} {children : List Node} (p : Position) (head : Element)
    (env : List Repeater) (repeater : Option Repeater)
    (h : List.Forall₂ (Build.Shown src) bs (Node.postorderAll children)) :
    List.Forall₂ (Build.Shown src) (bs ++ [⟨p, head, env⟩])
      (Node.postorderAll [head.nodeIn src env children repeater]) := by
  rw [Node.postorderAll_singleton]
  exact List.rel_append h (.cons (Build.shown_nodeIn p head env children repeater) .nil)

mutual

theorem Statement.forall₂_builds : ∀ (s : Statement) (p : Position) (env : List Repeater) (waiting : Bool),
    List.Forall₂ (Build.Shown src) (s.builds src p env) (Node.postorderAll (s.nodesIn src env waiting))
  | .element head cs none, p, env, waiting => by
    rw [builds, nodesIn, Repeater.environments, List.flatMap_singleton]
    exact head.shown_nodeIn p env none (forall₂_buildsAll cs _ 0 env waiting)
  | .element head cs (some r), p, env, waiting => by
    rw [builds, nodesIn]
    exact r.shown_nodesIn _ waiting env fun i w =>
      head.shown_nodeIn p _ (some (r.turn i)) (forall₂_buildsAll cs _ 0 _ w)
  | .group cs none, p, env, waiting => by
    rw [builds, nodesIn, Repeater.environments, List.flatMap_singleton]
    exact forall₂_buildsAll cs _ 0 env waiting
  | .group cs (some r), p, env, waiting => by
    rw [builds, nodesIn]
    exact r.shown_nodesIn _ waiting env fun i w => forall₂_buildsAll cs _ 0 _ w

theorem Statement.forall₂_buildsAll : ∀ (ss : List Statement) (p : Position) (k : Nat)
    (env : List Repeater) (waiting : Bool),
    List.Forall₂ (Build.Shown src) (Statement.buildsAll src p k env ss)
      (Node.postorderAll (Statement.nodesInAll src env waiting ss))
  | [], _, _, _, _ => by rw [buildsAll, nodesInAll, Node.postorderAll]; exact .nil
  | s :: rest, p, k, env, waiting => by
    rw [buildsAll, nodesInAll, Node.postorderAll_append]
    exact List.rel_append (forall₂_builds s _ env waiting) (forall₂_buildsAll rest p (k + 1) env _)

end

/-- **The nodes of an expansion show the builds**, one after the other, each behind its children. -/
theorem Tree.forall₂_builds (src : Source) (t : Tree) :
    List.Forall₂ (Build.Shown src) (t.builds src) (Node.postorderAll (t.expand src)) := by
  unfold expand run
  rw [Statement.expandAll_run]
  exact Statement.forall₂_buildsAll t.statements _ 0 [] true

end Shown

end Shorthand
