import Shorthand.Proofs.Expansion.Delimited
import Shorthand.Proofs.Insertion.Deepest
import Shorthand.Proofs.Insertion.Moments

/-!
# Values in normal form

In the values of an expansion texts and tab stops stand in turn, and no text is empty, but for one that is
put to the end of the value of a node.

* `Entry.Settled`: what holds of a value behind which some texts have been put;
* `Node.Joined`: what holds of the nodes of an unrolled tree, which get no text;
* `Tree.values_of_expand`: the values of the nodes of an expansion, and of their attributes.
-/

namespace Shorthand

/-! ### Values -/

namespace Entry

/-- A value behind which `texts` have been put: texts and tab stops stand in turn, and if there is an empty
text, then it is the last entry, and an empty text has been put there. -/
def Settled (texts : List String) (es : List Entry) : Prop :=
  Alternating es ∧ (.text "" ∈ es → "" ∈ texts ∧ ∃ front, es = front ++ [.text ""] ∧ .text "" ∉ front)

theorem settled_of_not_mem {es : List Entry} (h : Alternating es) (hne : .text "" ∉ es) (texts : List String) :
    Settled texts es := ⟨h, fun hm => absurd hm hne⟩

/-- Before its last entry, a settled value has no empty text. -/
theorem Settled.not_mem_front {texts : List String} {front : List Entry} {e : Entry}
    (h : Settled texts (front ++ [e])) : .text "" ∉ front := by
  intro hm
  obtain ⟨-, front', heq, hne⟩ := h.2 (List.mem_append_left _ hm)
  have hfront : front = front' := List.append_inj_left' heq rfl
  rw [hfront] at hm
  exact hne hm

/-- **One text more.**  It goes onto the last text, or comes to stand behind a tab stop. -/
theorem Settled.appendText {texts : List String} {es : List Entry} (h : Settled texts es) (text : String) :
    Settled (texts ++ [text]) (appendText text es) := by
  refine ⟨h.1.appendText text, fun hm => ?_⟩
  have hlast (front : List Entry) (hfront : .text "" ∉ front) (s : String) (hs : s = "" → text = "")
      (hm : .text "" ∈ front ++ [.text s]) :
      "" ∈ texts ++ [text] ∧ ∃ front', front ++ [.text s] = front' ++ [.text ""] ∧ .text "" ∉ front' := by
    obtain hm | hm := List.mem_append.mp hm
    · exact absurd hm hfront
    · cases List.mem_singleton.mp hm
      have ht : text = "" := hs rfl
      exact ⟨List.mem_append_right _ (List.mem_singleton.mpr ht.symm), front, rfl, hfront⟩
  obtain rfl | ⟨front, e, rfl⟩ := es.eq_nil_or_concat'
  · exact hlast [] List.not_mem_nil text id hm
  · have hfront : .text "" ∉ front := h.not_mem_front
    rw [appendText_concat] at hm ⊢
    cases e with
    | text s =>
      refine hlast front hfront (s ++ text) (fun hs => ?_) hm
      exact (String.append_eq_empty_iff.mp hs).2
    | field index name =>
      have hstop : .text "" ∉ front ++ [.field index name] := by
        intro hm
        obtain hm | hm := List.mem_append.mp hm
        · exact hfront hm
        · cases List.mem_singleton.mp hm
      have heq : front ++ Entry.appendText text [.field index name] =
          (front ++ [.field index name]) ++ [.text text] := by
        rw [List.append_assoc]
        rfl
      rw [heq] at hm ⊢
      exact hlast _ hstop text id hm

end Entry

/-- Texts that are put behind a value, one after the other. -/
theorem settled_grownValue {value : Option (List Entry)} {before : List String}
    (h : ∀ es ∈ value, Entry.Settled before es) (texts : List String) :
    ∀ es ∈ grownValue value texts, Entry.Settled (before ++ texts) es := by
  induction texts generalizing value before with
  | nil =>
    rw [List.append_nil]
    exact h
  | cons text texts ih =>
    have hvalue : Entry.Settled before (value.getD []) := by
      cases value with
      | none => exact Entry.settled_of_not_mem List.isChain_nil List.not_mem_nil before
      | some es => exact h es rfl
    have hgrown := @ih (some (Entry.appendText text (value.getD []))) (before ++ [text]) (by
      rintro es ⟨⟩
      exact hvalue.appendText text)
    rw [List.append_assoc] at hgrown
    exact hgrown

theorem tabStops_grownValue (value : Option (List Entry)) (texts : List String) :
    Entry.tabStops ((grownValue value texts).getD []) = Entry.tabStops (value.getD []) := by
  induction texts generalizing value with
  | nil => rfl
  | cons text texts ih => exact (ih _).trans (Entry.tabStops_appendText text _)

/-! ### Unrolled nodes -/

def Node.Joined (n : Node) : Prop := ∀ es ∈ n.value, Entry.Alternating es ∧ .text "" ∉ es

section Unrolled

variable {src : Source} {env : List Repeater}

theorem Element.joined_nodeIn (head : Element) (children : List Node) (repeater : Option Repeater) :
    (head.nodeIn src env children repeater).Joined := by
  intro es hes
  have hvalue : (head.nodeIn src env children repeater).value =
      if head.value.getD [] = [] then none else some (valueIn src env (head.value.getD [])) :=
    someIn_eq _ head.value
  rw [hvalue] at hes
  split at hes
  · cases hes
  · cases hes
    exact ⟨Entry.alternating_joined _, Entry.empty_not_mem_joined _⟩

theorem Element.joined_postorder (head : Element) {children : List Node}
    (h : ∀ n ∈ Node.postorderAll children, n.Joined) (repeater : Option Repeater) :
    ∀ n ∈ Node.postorderAll [head.nodeIn src env children repeater], n.Joined := by
  intro n hn
  rw [Node.postorderAll_singleton] at hn
  obtain hn | hn := List.mem_append.mp hn
  · exact h n hn
  · rw [List.mem_singleton.mp hn]
    exact head.joined_nodeIn children repeater

theorem Node.joined_flatMap {ι : Type} {xs : List ι} {f : ι → List Node}
    (h : ∀ i, ∀ n ∈ Node.postorderAll (f i), n.Joined) : ∀ n ∈ Node.postorderAll (xs.flatMap f), n.Joined := by
  intro n hn
  rw [postorderAll_flatMap] at hn
  obtain ⟨i, -, hn⟩ := List.mem_flatMap.mp hn
  exact h i n hn

mutual

theorem Statement.joined_unroll : ∀ (s : Statement) (env : List Repeater),
    ∀ n ∈ Node.postorderAll (s.unroll src env), n.Joined
  | .element head cs none, env => by
    rw [unroll]
    exact head.joined_postorder (joined_unrollAll cs env) none
  | .element head cs (some r), env => by
    rw [unroll, List.map_eq_flatMap]
    exact Node.joined_flatMap fun i => head.joined_postorder (joined_unrollAll cs _) _
  | .group cs none, env => by
    rw [unroll]
    exact joined_unrollAll cs env
  | .group cs (some r), env => by
    rw [unroll]
    exact Node.joined_flatMap fun i => joined_unrollAll cs _

theorem Statement.joined_unrollAll : ∀ (ss : List Statement) (env : List Repeater),
    ∀ n ∈ Node.postorderAll (Statement.unrollAll src env ss), n.Joined
  | [], _ => by
    rw [unrollAll]
    exact nofun
  | s :: rest, env => by
    intro n hn
    rw [unrollAll, Node.postorderAll_append] at hn
    obtain hn | hn := List.mem_append.mp hn
    · exact joined_unroll s env n hn
    · exact joined_unrollAll rest env n hn

end

end Unrolled

/-! ### Tab stops -/

theorem Token.tabStop?_of_isDelimiter {t : Token} (h : t.isDelimiter = true) : t.tabStop? = none := by
  cases t with
  | quote | bracket => rfl
  | literal | field | reference | placeholder | number | space => cases h

theorem filterMap_tabStop?_unwrap (ts : List Token) :
    (unwrap ts).inner.filterMap Token.tabStop? = ts.filterMap Token.tabStop? := by
  obtain ⟨front, back, hts, hd⟩ := unwrap_eq_append ts
  have hnone : ∀ ds : List Token, (∀ t ∈ ds, t.isDelimiter) → ds.filterMap Token.tabStop? = [] := by
    intro ds hds
    exact List.filterMap_eq_nil_iff.mpr fun t ht => Token.tabStop?_of_isDelimiter (hds t ht)
  have hfront := hnone front fun t ht => hd t (List.mem_append_left _ ht)
  have hback := hnone back fun t ht => hd t (List.mem_append_right _ ht)
  calc (unwrap ts).inner.filterMap Token.tabStop?
      = (front ++ (unwrap ts).inner ++ back).filterMap Token.tabStop? := by
        rw [List.filterMap_append, List.filterMap_append, hfront, hback, List.nil_append, List.append_nil]
    _ = ts.filterMap Token.tabStop? := by rw [← hts]

def tabStopsOf (tokens : Option (List Token)) : List Entry := (tokens.getD []).filterMap Token.tabStop?

section TabStops

variable (src : Source) (env : List Repeater)

theorem Attribute.tabStops_nodeIn (a : Attribute) :
    Entry.tabStops ((a.nodeIn src env).value.getD []) = tabStopsOf a.value := by
  unfold nodeIn tabStopsOf
  cases a.value with
  | none => rfl
  | some ts => exact (tabStops_valueIn src env _).trans (filterMap_tabStop?_unwrap ts)

/-- A node shows the tab stops of the element that is built. -/
theorem Build.Shown.tabStops_value {b : Build} {n : Node} (h : b.Shown src n) :
    Entry.tabStops (n.value.getD []) = tabStopsOf b.head.value := by
  obtain ⟨texts, hv⟩ := h.value_eq
  rw [hv, tabStops_grownValue, someIn_eq]
  unfold tabStopsOf
  split
  · next hnil =>
    rw [hnil]
    rfl
  · exact tabStops_valueIn src b.env _

theorem Build.Shown.tabStops_attributes {b : Build} {n : Node} (h : b.Shown src n) :
    (n.attributes.getD []).map (fun a => Entry.tabStops (a.value.getD [])) =
      (b.head.attributes.getD []).map fun a => tabStopsOf a.value := by
  rw [h.attributes_eq]
  cases b.head.attributes with
  | none => rfl
  | some as =>
    rw [Option.map_some, Option.getD_some, Option.getD_some, List.map_map]
    exact List.map_congr_left fun a _ => a.tabStops_nodeIn src b.env

end TabStops

/-! ### Expansions -/

theorem Placement.exists_mem_of_mem_receivedAt {place : Nat} {way : List Nat} {text : String} :
    ∀ {xs : List Placement} {ns : List Node}, text ∈ receivedAt place way xs ns → ∃ x ∈ xs, x.text = text
  | [], _, h => by cases h
  | x :: xs, ns, h => by
    rw [receivedAt] at h
    obtain h | h := List.mem_append.mp h
    · split at h
      · exact ⟨x, List.mem_cons_self, (List.mem_singleton.mp h).symm⟩
      · cases h
    · obtain ⟨y, hy, ht⟩ := exists_mem_of_mem_receivedAt h
      exact ⟨y, List.mem_cons_of_mem x hy, ht⟩

/-- **Values are in normal form.**  In the value of a node of an expansion no two texts stand side by side,
and if there is an empty text, then it is the last entry, and the only empty one, and the node is one that
got an empty text.  In the values of its attributes no two texts stand side by side either, and none is
empty.  The tab stops of both are those of an element of the tree, in order, each with its index.  And
what a node gets is the text of a copy to which the expansion puts text at some moment of its run. -/
theorem Tree.values_of_expand {src : Source} {t : Tree} {place : Nat} {way : List Nat} {n : Node}
    (h : Node.at? (t.expand src) place way = some n) :
    (∀ es ∈ n.value, Entry.Alternating es ∧
      (.text "" ∈ es →
        "" ∈ t.received src place way ∧ ∃ front, es = front ++ [.text ""] ∧ .text "" ∉ front)) ∧
    (∀ a ∈ n.attributes.getD [], ∀ es ∈ a.value, Entry.Alternating es ∧ .text "" ∉ es) ∧
    (∃ p head cs r, (p, .element head cs r) ∈ t.walk ∧
      (n.value.getD []).filter (fun e => !e.isText) = tabStopsOf head.value ∧
      (n.attributes.getD []).map (fun a => (a.value.getD []).filter fun e => !e.isText) =
        (head.attributes.getD []).map fun a => tabStopsOf a.value) ∧
    ∀ text ∈ t.received src place way, ∃ snapshot τ, t.Inserts src snapshot τ ∧
      text = src.textAt snapshot.value := by
  obtain ⟨b, hb, hshown⟩ : ∃ b ∈ t.builds src, b.Shown src n := by
    obtain ⟨i, hi, hget⟩ := List.getElem_of_mem (Node.mem_postorderAll_of_at? h)
    have hbuilds := t.forall₂_builds src
    have hi' : i < (t.builds src).length := by rw [hbuilds.length_eq]; exact hi
    refine ⟨(t.builds src)[i], List.getElem_mem hi', ?_⟩
    rw [← hget]
    exact hbuilds.get hi' hi
  -- and it is a node of the unrolled tree that has grown by what it received
  obtain ⟨m, hm, hown⟩ : ∃ m, Node.at? (Statement.unrollAll src [] t.statements) place way = some m ∧
      Node.own { m with value := grownValue m.value (t.received src place way) } = n.own := by
    have hown := t.own_at?_expand src place way
    rw [h, Option.map_some] at hown
    exact Option.map_eq_some_iff.mp hown.symm
  have hvalue : n.value = grownValue m.value (t.received src place way) := (congrArg Node.value hown).symm
  have hjoined : m.Joined := Statement.joined_unrollAll t.statements [] m (Node.mem_postorderAll_of_at? hm)
  refine ⟨?_, ?_, ?_, ?_⟩
  · rw [hvalue]
    have hm : ∀ es ∈ m.value, Entry.Settled [] es := fun es hes =>
      Entry.settled_of_not_mem (hjoined es hes).1 (hjoined es hes).2 []
    exact settled_grownValue hm _
  · intro a ha
    rw [hshown.attributes_eq] at ha
    cases hattributes : b.head.attributes with
    | none =>
      rw [hattributes] at ha
      cases ha
    | some as =>
      rw [hattributes] at ha
      obtain ⟨w, -, rfl⟩ := List.mem_map.mp ha
      exact (Attribute.formed_nodeIn src b.env w).value
  · obtain ⟨cs, r, hw⟩ := Tree.mem_walk_of_mem_builds hb
    exact ⟨b.position, b.head, cs, r, hw, hshown.tabStops_value src, hshown.tabStops_attributes src⟩
  · intro text htext
    obtain ⟨x, hx, rfl⟩ := Placement.exists_mem_of_mem_receivedAt htext
    exact t.exists_inserts hx

/-- A value that ends in a tab stop, and gets an empty text. -/
theorem Tree.values_of_expand_items :
    let src : Source := { text := .items [some "", some "a"] }
    let head : Element := { name := some [.literal "li"], value := some [.literal "x", .field (some 1) ""] }
    let t : Tree := { statements := [.element head [] (some { implicit := true })] }
    let n : Node := {
      name := some "li", value := some [.text "x", .field 1 "", .text ""]
      repeater := some { implicit := true } }
    Node.at? (t.expand src) 0 [] = some n ∧ "" ∈ t.received src 0 [] ∧
      (∃ front, [.text "x", .field 1 "", .text ""] = front ++ [Entry.text ""] ∧ .text "" ∉ front) ∧
      ∃ snapshot τ, t.Inserts src snapshot τ ∧ src.textAt snapshot.value = "" := by
  intro src head t n
  have hn : Node.at? (t.expand src) 0 [] = some n := rfl
  obtain ⟨hvalue, -, -, hreceived⟩ := Tree.values_of_expand hn
  obtain ⟨-, hempty⟩ := hvalue [.text "x", .field 1 "", .text ""] rfl
  obtain ⟨hmem, hfront⟩ := hempty (by decide)
  obtain ⟨snapshot, τ, hins, htext⟩ := hreceived "" hmem
  exact ⟨hn, hmem, hfront, snapshot, τ, hins, htext.symm⟩

end Shorthand
