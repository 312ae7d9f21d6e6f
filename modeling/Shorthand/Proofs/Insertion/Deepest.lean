import Shorthand.Proofs.Expansion.Displayed
import Shorthand.Proofs.Insertion.Address

/-!
# Text for the deepest node

Text that is put to the deepest node at the end of a tree changes one value, and there it goes behind all
that was written before.  So texts that are put there one after the other come to one text.

* `Entry.appendText_eq`: what becomes of a value, as it ends in a text or not;
* `Entry.appendText_appendText`, `Entry.displayAll_appendText`, `Entry.tabStops_appendText`: two texts behind
  a value, its written form and its tab stops;
* `Node.DownLast`: the way over last children, and `Node.downLast`: it leads to the deepest node;
* `Node.insertDeepest_acts`: what becomes of a tree whose deepest node gets text.
-/

namespace Shorthand

/-! ### Values -/

namespace Entry

theorem appendText_concat (text : String) (front : List Entry) (e : Entry) :
    appendText text (front ++ [e]) = front ++ appendText text [e] := by
  induction front with
  | nil => rfl
  | cons a front ih =>
    have hcons : appendText text (a :: (front ++ [e])) = a :: appendText text (front ++ [e]) := by
      obtain ⟨b, rest, hb⟩ := List.exists_cons_of_ne_nil (List.concat_ne_nil e front)
      rw [hb]
      cases a <;> rfl
    rw [List.cons_append, hcons, ih]
    rfl

/-- Text goes onto the last text of a value that ends in one, and else behind all of its entries. -/
theorem appendText_eq (es : List Entry) :
    (∃ front s, es = front ++ [.text s] ∧ ∀ text, appendText text es = front ++ [.text (s ++ text)]) ∨
      ∀ text, appendText text es = es ++ [.text text] := by
  rcases es.eq_nil_or_concat' with rfl | ⟨front, e, rfl⟩
  · right
    intro text
    rfl
  · cases e with
    | text s =>
      left
      refine ⟨front, s, rfl, ?_⟩
      intro text
      rw [appendText_concat]
      rfl
    | field index name =>
      right
      intro text
      rw [appendText_concat, List.append_assoc]
      rfl

/-- **Two texts behind a value**: the second goes onto the first. -/
theorem appendText_appendText (s t : String) (es : List Entry) :
    appendText t (appendText s es) = appendText (s ++ t) es := by
  have honto (front : List Entry) (u : String) :
      appendText t (front ++ [.text u]) = front ++ [.text (u ++ t)] := by
    rw [appendText_concat]
    rfl
  rcases appendText_eq es with ⟨front, u, -, h⟩ | h
  · rw [h s, honto, h (s ++ t), String.append_assoc]
  · rw [h s, honto, h (s ++ t)]

/-- A value with text behind it is written with that text at its end. -/
theorem displayAll_appendText (text : String) (es : List Entry) :
    displayAll (appendText text es) = displayAll es ++ text := by
  have hlast (s : String) : displayAll [.text s] = s := by
    simp [display]
  rcases appendText_eq es with ⟨front, s, rfl, h⟩ | h
  · rw [h, displayAll_append, displayAll_append, hlast, hlast, String.append_assoc]
  · rw [h, displayAll_append, hlast]

theorem tabStops_appendText (text : String) (es : List Entry) : tabStops (appendText text es) = tabStops es := by
  rcases appendText_eq es with ⟨front, s, rfl, h⟩ | h
  · rw [h]
    simp [tabStops, isText]
  · rw [h]
    simp [tabStops, isText]

end Entry

/-! ### The way to the deepest node -/

namespace Node

/-- Over last children, a way leads from a node down to one that has no children. -/
inductive DownLast : Node → List Nat → Node → Prop where
  | here {n : Node} (h : n.children = []) : DownLast n [] n
  | last {n c m : Node} {front : List Node} {way : List Nat} (h : n.children = front ++ [c])
    (hc : DownLast c way m) : DownLast n (front.length :: way) m

theorem lastWayAmong_concat (front : List Node) (c : Node) :
    lastWayAmong (front ++ [c]) = front.length :: c.lastWay := by
  induction front with
  | nil => rw [List.nil_append, lastWayAmong, List.length_nil]
  | cons n front ih =>
    obtain ⟨m, rest, h⟩ := List.exists_cons_of_ne_nil (List.concat_ne_nil c front)
    rw [List.cons_append, h, lastWayAmong, ← h, ih]
    rfl

theorem deepestOfLast?_concat (front : List Node) (c : Node) :
    deepestOfLast? (front ++ [c]) = some c.deepest := by
  induction front with
  | nil => rw [List.nil_append, deepestOfLast?]
  | cons n front ih =>
    obtain ⟨m, rest, h⟩ := List.exists_cons_of_ne_nil (List.concat_ne_nil c front)
    rw [List.cons_append, h, deepestOfLast?, ← h, ih]

theorem insertIntoLast_concat (text : String) (front : List Node) (c : Node) :
    insertIntoLast text (front ++ [c]) = front ++ [c.insertDeepest text] := by
  induction front with
  | nil => rw [List.nil_append, insertIntoLast, List.nil_append]
  | cons n front ih =>
    obtain ⟨m, rest, h⟩ := List.exists_cons_of_ne_nil (List.concat_ne_nil c front)
    rw [List.cons_append, h, insertIntoLast, ← h, ih, List.cons_append]

section Steps

variable {n c : Node} {front : List Node} (text : String)

theorem insertDeepest_of_no_children (h : n.children = []) : n.insertDeepest text = n.insertText text := by
  cases n
  subst h
  rw [insertDeepest]
  rfl

theorem insertDeepest_of_children (h : n.children = front ++ [c]) :
    n.insertDeepest text = { n with children := front ++ [c.insertDeepest text] } := by
  cases n
  subst h
  rw [insertDeepest, insertIntoLast_concat]
  simp

end Steps

mutual

/-- The way over last children leads to the deepest node. -/
theorem downLast : ∀ n : Node, n.DownLast n.lastWay n.deepest
  | ⟨name, value, attributes, children, repeater, selfClosing⟩ => by
    have ih := downLastAll children
    rw [lastWay, deepest]
    rcases children.eq_nil_or_concat' with rfl | ⟨front, c, rfl⟩
    · exact .here rfl
    · rw [lastWayAmong_concat, deepestOfLast?_concat]
      exact .last rfl (ih c (by simp))

theorem downLastAll : ∀ ns : List Node, ∀ c ∈ ns, c.DownLast c.lastWay c.deepest
  | [], _, h => absurd h List.not_mem_nil
  | n :: ns, c, h => by
    rcases List.mem_cons.mp h with hn | h
    · rw [hn]
      exact downLast n
    · exact downLastAll ns c h

end

/-! ### Text at its end -/

theorem insertText_insertText (s t : String) (n : Node) :
    (n.insertText s).insertText t = n.insertText (s ++ t) := by
  unfold insertText
  rw [← Entry.appendText_appendText]
  rfl

/-- **Two texts for the deepest node** are put there like one. -/
theorem DownLast.insertDeepest_insertDeepest {n m : Node} {way : List Nat} (h : n.DownLast way m)
    (s t : String) : (n.insertDeepest s).insertDeepest t = n.insertDeepest (s ++ t) := by
  induction h with
  | @here n h =>
    have hs : (n.insertText s).children = [] := h
    rw [insertDeepest_of_no_children s h, insertDeepest_of_no_children t hs,
      insertDeepest_of_no_children (s ++ t) h, insertText_insertText]
  | last h _ ih =>
    rw [insertDeepest_of_children s h, insertDeepest_of_children t rfl, ih,
      insertDeepest_of_children (s ++ t) h]

/-- Text for the deepest node arrives at the end of the way. -/
theorem DownLast.under?_insertDeepest {n m : Node} {way : List Nat} (h : n.DownLast way m) (text : String) :
    (n.insertDeepest text).under? way = some (m.insertText text) := by
  induction h with
  | here h =>
    rw [insertDeepest_of_no_children text h]
    rfl
  | last h _ ih =>
    rw [insertDeepest_of_children text h, under?_cons, at?]
    simpa using ih

/-- **Text for the deepest node acts on one value.**  Two texts that are put there one after the other come
to the same as both in one.  It is the node at the end of the way over last children that gets the text: nodes
stand at the same addresses as before, and all the others say of themselves what they said before.  Of this one
only the value is another: it is written as before, with the text at its end, its tab stops are the same ones
in the same order, and no two texts stand side by side in it if none did before. -/
theorem insertDeepest_acts (n : Node) (s t : String) :
    (n.insertDeepest s).insertDeepest t = n.insertDeepest (s ++ t) ∧
    n.DownLast n.lastWay n.deepest ∧
    (∀ way, way ≠ n.lastWay → ((n.insertDeepest s).under? way).map own = (n.under? way).map own) ∧
    ∃ es, (n.insertDeepest s).under? n.lastWay = some { n.deepest with value := some es } ∧
      Entry.displayAll es = Entry.displayAll (n.deepest.value.getD []) ++ s ∧
      es.filter (fun e => !e.isText) = (n.deepest.value.getD []).filter (fun e => !e.isText) ∧
      (Entry.Alternating (n.deepest.value.getD []) → Entry.Alternating es) := by
  have h : n.DownLast n.lastWay n.deepest := n.downLast
  refine ⟨h.insertDeepest_insertDeepest s t, h, ?_, Entry.appendText s (n.deepest.value.getD []), ?_, ?_, ?_, ?_⟩
  · intro way hway
    rw [own_under?_insertDeepest, if_neg (Ne.symm hway)]
  · exact h.under?_insertDeepest s
  · exact Entry.displayAll_appendText s _
  · exact Entry.tabStops_appendText s _
  · intro halternating
    exact halternating.appendText s

/-- A list of two items, the last of which ends in a tab stop. -/
theorem insertDeepest_acts_items :
    let li : Node := { name := some "li", value := some [.text "x", .field 1 ""] }
    let ul : Node := { name := some "ul", children := [{ name := some "li" }, li] }
    ul.lastWay = [1] ∧ Entry.Alternating [.text "x", .field 1 ""] ∧
      (ul.insertDeepest "a").insertDeepest "b" = ul.insertDeepest "ab" ∧
      ((ul.insertDeepest "a").under? [0]).map own = some { name := some "li" } ∧
      ∃ es, (ul.insertDeepest "a").under? [1] = some { name := some "li", value := some es } ∧
        Entry.displayAll es = "x$\x7b1\x7da" ∧ Entry.Alternating es := by
  intro li ul
  have hold : Entry.Alternating [.text "x", .field 1 ""] := by
    unfold Entry.Alternating
    decide
  obtain ⟨htwo, -, helse, es, hes, hdisplay, -, halternating⟩ := insertDeepest_acts ul "a" "b"
  exact ⟨rfl, hold, htwo, helse [0] (by decide), es, hes, hdisplay, halternating hold⟩

end Node

end Shorthand
