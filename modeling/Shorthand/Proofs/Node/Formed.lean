import Mathlib.Data.List.Chain
import Shorthand.Proofs.Expansion.Threaded

/-!
# Nodes as an expansion makes them

What every node of an expansion has in common, whatever tokens it is made from.  Joining leaves no two
texts of a value side by side, and putting text behind a value keeps it so; the marks of an attribute
are those of the name it was written with.

* `Entry.Alternating`: no two texts side by side;
* `Entry.joined_of_alternating`: such a value is left alone by joining, if no text of it is empty;
* `marked_bareName`: a name and its marks give back the name as written;
* `Node.Formed`: what holds of every node, and `Statement.formed_nodesIn`: that it does.
-/

namespace Shorthand

/-! ### Values -/

namespace Entry

def isText : Entry → Bool
  | .text _ => true
  | .field _ _ => false

/-- Of two neighbours, one is a tab stop. -/
def Alternating (es : List Entry) : Prop := es.IsChain fun a b => a.isText = false ∨ b.isText = false

theorem alternating_ofRun (run : String) : Alternating (ofRun run) := by
  unfold ofRun
  split
  · exact List.isChain_nil
  · exact List.isChain_singleton _

theorem Alternating.field_cons {es : List Entry} (h : Alternating es) (index : Int) (name : String) :
    Alternating (.field index name :: es) :=
  List.isChain_cons.mpr ⟨fun _ _ => .inl rfl, h⟩

theorem Alternating.tail {e : Entry} {es : List Entry} (h : Alternating (e :: es)) : Alternating es :=
  (List.isChain_cons.mp h).2

theorem Alternating.not_text_text {s s' : String} {es : List Entry} :
    ¬ Alternating (.text s :: .text s' :: es) := by
  intro h
  rcases (List.isChain_cons_cons.mp h).1 with h | h
  · cases h
  · cases h

theorem alternating_joinedAfter (run : String) (es : List Entry) : Alternating (joinedAfter run es) := by
  induction es generalizing run with
  | nil => exact alternating_ofRun run
  | cons e es ih =>
    cases e with
    | text s => exact ih (run ++ s)
    | field index name =>
      have hfield : Alternating (.field index name :: joinedAfter "" es) := (ih "").field_cons index name
      rw [joinedAfter, ofRun]
      split
      · exact hfield
      · exact List.isChain_cons.mpr ⟨by rintro _ ⟨⟩; exact .inr rfl, hfield⟩

theorem alternating_joined (es : List Entry) : Alternating (joined es) := alternating_joinedAfter "" es

theorem empty_not_mem_ofRun (run : String) : .text "" ∉ ofRun run := by
  unfold ofRun
  split
  · exact List.not_mem_nil
  · next h =>
    intro hm
    cases List.mem_singleton.mp hm
    exact h rfl

theorem empty_not_mem_joinedAfter (run : String) (es : List Entry) : .text "" ∉ joinedAfter run es := by
  induction es generalizing run with
  | nil => exact empty_not_mem_ofRun run
  | cons e es ih =>
    cases e with
    | text s => exact ih (run ++ s)
    | field index name =>
      rw [joinedAfter, List.mem_append, List.mem_cons]
      rintro (h | h | h)
      · exact empty_not_mem_ofRun run h
      · cases h
      · exact ih "" h

theorem empty_not_mem_joined (es : List Entry) : .text "" ∉ joined es := empty_not_mem_joinedAfter "" es

theorem ofRun_of_ne {s : String} (h : Entry.text s ≠ .text "") : ofRun s = [.text s] := by
  rw [ofRun, if_neg]
  intro hs
  exact h (congrArg Entry.text (String.isEmpty_iff.mp hs))

/-- **Joining a joined value** changes nothing. -/
theorem joined_of_alternating {es : List Entry} (h : Alternating es) (hne : .text "" ∉ es) :
    joined es = es := by
  unfold joined
  induction es with
  | nil => rfl
  | cons e es ih =>
    have ih := ih h.tail fun hm => hne (List.mem_cons_of_mem _ hm)
    cases e with
    | field index name => rw [joinedAfter, ih]; rfl
    | text s =>
      have hs : ofRun s = [.text s] := ofRun_of_ne fun heq => hne (heq ▸ List.mem_cons_self)
      rw [joinedAfter, String.empty_append]
      -- the run ends here, for what comes next can only be a tab stop
      cases es with
      | nil => exact hs
      | cons e' es =>
        cases e' with
        | text s' => exact absurd h Alternating.not_text_text
        | field index name =>
          rw [joinedAfter, hs]
          exact congrArg (Entry.text s :: ·) ih

/-- Text put behind a value leaves the kind of its first entry. -/
theorem isText_head_appendText (text : String) (e : Entry) (es : List Entry) :
    ∃ e' es', appendText text (e :: es) = e' :: es' ∧ e'.isText = e.isText := by
  unfold appendText
  split
  · next h => cases h
  · next s h =>
    cases h
    exact ⟨_, _, rfl, rfl⟩
  · next h =>
    cases h
    exact ⟨_, _, rfl, rfl⟩

/-- Text put behind a value goes onto its last text, if it ends in one. -/
theorem Alternating.appendText {es : List Entry} (h : Alternating es) (text : String) :
    Alternating (appendText text es) := by
  induction es with
  | nil => exact List.isChain_singleton _
  | cons e es ih =>
    cases es with
    | nil =>
      cases e with
      | text s => exact List.isChain_singleton _
      | field index name => exact (ih h.tail).field_cons index name
    | cons e' es =>
      obtain ⟨hee, hes⟩ := List.isChain_cons_cons.mp h
      obtain ⟨e₁, es₁, heq, hk⟩ := isText_head_appendText text e' es
      have hrest : Alternating (e₁ :: es₁) := heq ▸ ih hes
      have hcons : Entry.appendText text (e :: e' :: es) = e :: e₁ :: es₁ := by
        rw [← heq]
        cases e <;> rfl
      rw [hcons]
      exact List.isChain_cons_cons.mpr ⟨by rw [hk]; exact hee, hrest⟩

end Entry

/-! ### Names of attributes -/

/-- A name with its marks. -/
def marked (implied boolean : Bool) (name : String) : String :=
  (if implied then "!" else "") ++ name ++ if boolean then "." else ""

theorem isImplied_append (name : String) :
    (if isImplied name then "!" else "").toList ++
      (if isImplied name then name.toList.drop 1 else name.toList) = name.toList := by
  by_cases h : isImplied name
  · obtain ⟨cs, hcs⟩ := List.head?_eq_some_iff.mp (of_decide_eq_true h)
    rw [if_pos h, if_pos h, hcs]
    rfl
  · rw [if_neg h, if_neg h]
    rfl

/-- The point at the end of a name is still there when the mark in front is taken off: no character is
both. -/
theorem isBoolean_getLast? {name : String} (h : isBoolean name) :
    (if isImplied name then name.toList.drop 1 else name.toList).getLast? = some '.' := by
  have hlast : name.toList.getLast? = some '.' := of_decide_eq_true h
  by_cases hi : isImplied name
  · obtain ⟨cs, hcs⟩ := List.head?_eq_some_iff.mp (of_decide_eq_true hi)
    rw [if_pos hi]
    rw [hcs] at hlast ⊢
    cases cs with
    | nil => cases hlast
    | cons c cs => exact hlast
  · rw [if_neg hi]
    exact hlast

/-- **The marks of a name** that are taken off it give it back. -/
theorem marked_bareName (name : String) : marked (isImplied name) (isBoolean name) (bareName name) = name := by
  have hfront := isImplied_append name
  have hbare : (if isImplied name then name.toList.drop 1 else name.toList) =
      (bareName name).toList ++ (if isBoolean name then "." else "").toList := by
    unfold bareName
    rw [String.toList_ofList]
    by_cases hb : isBoolean name
    · obtain ⟨cs, hcs⟩ := List.getLast?_eq_some_iff.mp (isBoolean_getLast? hb)
      simp only [hb, if_true, hcs, List.dropLast_concat]
      rfl
    · simp only [hb, if_false, Bool.false_eq_true]
      exact (List.append_nil _).symm
  refine String.toList_inj.mp ?_
  rw [marked, String.toList_append, String.toList_append, List.append_assoc, ← hbare, hfront]

/-! ### Nodes -/

/-- An attribute has the marks of a name as written, texts and tab stops in turn, and delimiters only
around a value. -/
structure Node.Attribute.Formed (a : Node.Attribute) : Prop where
  name : ∃ written : Option String, a.name = written.map bareName ∧
    a.implied = written.any isImplied ∧ a.boolean = written.any isBoolean
  value : ∀ es ∈ a.value, Entry.Alternating es ∧ .text "" ∉ es
  kind : a.value = none → a.kind = .raw

theorem Attribute.formed_nodeIn (src : Source) (env : List Repeater) (a : Shorthand.Attribute) :
    (a.nodeIn src env).Formed where
  name := ⟨someIn (nameIn src env) a.name, rfl, rfl, rfl⟩
  value := by
    intro es hes
    obtain ⟨ts, -, rfl⟩ := Option.map_eq_some_iff.mp hes
    exact ⟨Entry.alternating_joined _, Entry.empty_not_mem_joined _⟩
  kind := by
    intro h
    have hv : a.value = none := Option.map_eq_none_iff.mp h
    rw [Attribute.nodeIn, hv]
    rfl

mutual

/-- In the values of a node, of its attributes and of the nodes below it, no two texts stand side by
side, and its attributes are formed. -/
def Node.Formed : Node → Prop
  | ⟨_, value, attributes, children, _, _⟩ =>
    (∀ es ∈ value, Entry.Alternating es) ∧ (∀ as ∈ attributes, ∀ a ∈ as, a.Formed) ∧ Node.FormedAll children

def Node.FormedAll : List Node → Prop
  | [] => True
  | n :: rest => n.Formed ∧ Node.FormedAll rest

end

namespace Node

theorem formedAll_append {ns ms : List Node} (hn : FormedAll ns) (hm : FormedAll ms) :
    FormedAll (ns ++ ms) := by
  induction ns with
  | nil => exact hm
  | cons n ns ih => exact ⟨hn.1, ih hn.2⟩

theorem formedAll_flatMap {α : Type} {f : α → List Node} (h : ∀ x, FormedAll (f x)) (xs : List α) :
    FormedAll (xs.flatMap f) := by
  induction xs with
  | nil => exact trivial
  | cons x xs ih =>
    rw [List.flatMap_cons]
    exact formedAll_append (h x) ih

theorem Formed.insertText (text : String) : ∀ {n : Node}, n.Formed → (n.insertText text).Formed
  | ⟨name, value, attributes, children, repeater, selfClosing⟩, h => by
    refine ⟨?_, h.2⟩
    rintro _ ⟨⟩
    refine Entry.Alternating.appendText ?_ text
    cases value with
    | none => exact List.isChain_nil
    | some es => exact h.1 es rfl

mutual

theorem Formed.insertDeepest (text : String) : ∀ {n : Node}, n.Formed → (n.insertDeepest text).Formed
  | ⟨name, value, attributes, children, repeater, selfClosing⟩, h => by
    unfold Node.insertDeepest
    split
    · exact Formed.insertText text h
    · exact ⟨h.1, h.2.1, formedAll_insertIntoLast text h.2.2⟩

theorem formedAll_insertIntoLast (text : String) : ∀ {ns : List Node}, FormedAll ns →
    FormedAll (insertIntoLast text ns)
  | [], h => h
  | [_], h => ⟨h.1.insertDeepest text, trivial⟩
  | _ :: n :: rest, h => ⟨h.1, @formedAll_insertIntoLast text (n :: rest) h.2⟩

end

end Node

/-! ### Expansions -/

theorem Element.formed_nodeIn (src : Source) (env : List Repeater) (head : Element) {children : List Node}
    (hc : Node.FormedAll children) (repeater : Option Repeater) :
    (head.nodeIn src env children repeater).Formed := by
  refine ⟨?_, ?_, hc⟩
  · intro es hes
    cases hv : head.value with
    | none => rw [hv] at hes; cases hes
    | some ts =>
      cases ts with
      | nil => rw [hv] at hes; cases hes
      | cons t ts =>
        rw [hv] at hes
        cases hes
        exact Entry.alternating_joined _
  · intro as has a ha
    obtain ⟨written, -, rfl⟩ := Option.map_eq_some_iff.mp has
    obtain ⟨w, -, rfl⟩ := List.mem_map.mp ha
    exact Attribute.formed_nodeIn src env w

theorem Repeater.formed_nodesIn (src : Source) (r : Repeater) (marks waiting : Bool)
    {nodes : Nat → Bool → List Node} (h : ∀ i w, Node.FormedAll (nodes i w)) :
    Node.FormedAll (r.nodesIn src marks waiting nodes) := by
  refine Node.formedAll_flatMap (fun i => ?_) _
  unfold filled
  split
  · exact Node.formedAll_insertIntoLast _ (h i _)
  · exact h i _

mutual

/-- **Every node of an expansion is formed.** -/
theorem Statement.formed_nodesIn (src : Source) : ∀ (s : Statement) (env : List Repeater)
    (waiting : Bool), Node.FormedAll (s.nodesIn src env waiting)
  | .element head cs none, env, waiting => by
    rw [nodesIn]
    exact ⟨head.formed_nodeIn src env (formed_nodesInAll src cs env waiting) none, trivial⟩
  | .element head cs (some r), env, waiting => by
    rw [nodesIn]
    refine r.formed_nodesIn src _ waiting fun i w => ?_
    exact ⟨head.formed_nodeIn src _ (formed_nodesInAll src cs _ w) _, trivial⟩
  | .group cs none, env, waiting => by
    rw [nodesIn]
    exact formed_nodesInAll src cs env waiting
  | .group cs (some r), env, waiting => by
    rw [nodesIn]
    exact r.formed_nodesIn src _ waiting fun i w => formed_nodesInAll src cs _ w

theorem Statement.formed_nodesInAll (src : Source) : ∀ (ss : List Statement) (env : List Repeater)
    (waiting : Bool), Node.FormedAll (Statement.nodesInAll src env waiting ss)
  | [], _, _ => trivial
  | s :: rest, env, waiting => by
    rw [nodesInAll]
    exact Node.formedAll_append (formed_nodesIn src s env waiting) (formed_nodesInAll src rest env _)

end

end Shorthand
