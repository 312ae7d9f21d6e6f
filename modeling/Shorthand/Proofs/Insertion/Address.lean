import Shorthand.Proofs.Expansion.Postorder
import Shorthand.Proofs.Insertion.Place

/-!
# Where a node stands

A node is found by its place among some nodes and by the way from there over children.  Text that is put
to the deepest node at the end of a node changes the value of one node, and that one is found by its
address.

* `Node.under?`, `Node.at?`: the node to which an address leads;
* `Node.mem_postorderAll_of_at?`: what stands at an address is one of the nodes;
* `Node.lastWay`: the way over last children, down to the deepest node;
* `own_under?_insertDeepest`: text put to the deepest node changes the value there, and nothing else;
* `Placement.target?`, `Placement.receivedAt`: the node that gets a text, and the texts that a node gets;
* `Placement.own_at?_applyAll`: what becomes of a node when texts are put to some nodes.
-/

namespace Shorthand

namespace Node

/-! ### Addresses -/

/-- The node to which a way over children leads. -/
def under? : List Nat → Node → Option Node
  | [], n => some n
  | k :: way, n => n.children[k]?.bind (under? way)

/-- The node at a place among some nodes, or at the end of a way from there. -/
def at? (ns : List Node) (place : Nat) (way : List Nat) : Option Node := ns[place]?.bind (under? way)

theorem under?_cons (k : Nat) (way : List Nat) (n : Node) : under? (k :: way) n = at? n.children k way := rfl

/-- What holds of some nodes and passes on to children holds wherever an address leads. -/
theorem of_under? {P : Node → Prop} (hchild : ∀ n, P n → ∀ c ∈ n.children, P c) {way : List Nat}
    {n m : Node} (h : P n) (hm : n.under? way = some m) : P m := by
  induction way generalizing n with
  | nil =>
    cases hm
    exact h
  | cons k way ih =>
    obtain ⟨c, hc, hm⟩ := Option.bind_eq_some_iff.mp hm
    exact ih (hchild n h c (List.mem_of_getElem? hc)) hm

theorem of_at? {P : Node → Prop} (hchild : ∀ n, P n → ∀ c ∈ n.children, P c) {ns : List Node}
    (h : ∀ n ∈ ns, P n) {place : Nat} {way : List Nat} {m : Node} (hm : at? ns place way = some m) : P m := by
  obtain ⟨n, hn, hm⟩ := Option.bind_eq_some_iff.mp hm
  exact of_under? hchild (h n (List.mem_of_getElem? hn)) hm

theorem postorder_subset_of_mem {ns : List Node} {n : Node} (h : n ∈ ns) :
    n.postorder ⊆ postorderAll ns := by
  induction ns with
  | nil => cases h
  | cons m ns ih =>
    rw [postorderAll]
    obtain rfl | h := List.mem_cons.mp h
    · exact List.subset_append_left _ _
    · exact List.Subset.trans (ih h) (List.subset_append_right _ _)

/-- What stands at an address is among the nodes behind their children. -/
theorem mem_postorderAll_of_at? {ns : List Node} {place : Nat} {way : List Nat} {m : Node}
    (h : at? ns place way = some m) : m ∈ postorderAll ns := by
  have hm : m.postorder ⊆ postorderAll ns := by
    refine of_at? (P := fun n => n.postorder ⊆ postorderAll ns) (fun n hn c hc => ?_)
      (fun n hn => postorder_subset_of_mem hn) h
    rw [postorder_eq] at hn
    exact List.Subset.trans (postorder_subset_of_mem hc) (List.Subset.trans (List.subset_append_left _ _) hn)
  refine hm ?_
  rw [postorder_eq]
  exact List.mem_append_right _ List.mem_cons_self

/-! ### The deepest node -/

mutual

/-- The way over last children to the deepest node. -/
def lastWay : Node → List Nat
  | ⟨_, _, _, children, _, _⟩ => lastWayAmong children

/-- The way to the deepest node below the last node of a list. -/
def lastWayAmong : List Node → List Nat
  | [] => []
  | [n] => 0 :: n.lastWay
  | _ :: n :: rest => (lastWayAmong (n :: rest)).modifyHead (· + 1)

end

theorem lastWayAmong_ne_nil (n : Node) (ns : List Node) : lastWayAmong (n :: ns) ≠ [] := by
  induction ns generalizing n with
  | nil =>
    rw [lastWayAmong]
    exact List.cons_ne_nil _ _
  | cons m ns ih =>
    rw [lastWayAmong]
    obtain ⟨k, way, h⟩ := List.exists_cons_of_ne_nil (ih m)
    rw [h]
    exact List.cons_ne_nil _ _

theorem modifyHead_succ_ne_zero_cons (l way : List Nat) : l.modifyHead (· + 1) ≠ 0 :: way := by
  cases l with
  | nil => exact nofun
  | cons k l => exact fun h => Nat.succ_ne_zero k (List.cons.inj h).1

theorem modifyHead_succ_eq_iff (l way : List Nat) (k : Nat) :
    l.modifyHead (· + 1) = (k + 1) :: way ↔ l = k :: way := by
  cases l with
  | nil => simp
  | cons j l => simp

/-! ### Text for the deepest node -/

/-- A node without its children. -/
def own (n : Node) : Node := { n with children := [] }

mutual

/-- **Text that is put to the deepest node** changes the value of the node at the end of the way over last
children, and nothing else of any node. -/
theorem own_under?_insertDeepest (text : String) : ∀ (n : Node) (way : List Nat),
    ((n.insertDeepest text).under? way).map own =
      if n.lastWay = way then (n.under? way).map fun m => (m.insertText text).own
      else (n.under? way).map own
  | ⟨name, value, attributes, [], repeater, selfClosing⟩, way => by
    cases way with
    | nil => rfl
    | cons k way => rfl
  | ⟨name, value, attributes, c :: cs, repeater, selfClosing⟩, way => by
    have hdeepest : insertDeepest text ⟨name, value, attributes, c :: cs, repeater, selfClosing⟩ =
        ⟨name, value, attributes, insertIntoLast text (c :: cs), repeater, selfClosing⟩ := by
      rw [insertDeepest]
      exact if_neg Bool.noConfusion
    rw [hdeepest, lastWay]
    cases way with
    | nil =>
      rw [if_neg (lastWayAmong_ne_nil c cs)]
      rfl
    | cons k way => exact own_at?_insertIntoLast text (c :: cs) k way

theorem own_at?_insertIntoLast (text : String) : ∀ (ns : List Node) (place : Nat) (way : List Nat),
    (at? (insertIntoLast text ns) place way).map own =
      if lastWayAmong ns = place :: way then (at? ns place way).map fun m => (m.insertText text).own
      else (at? ns place way).map own
  | [], place, way => rfl
  | [n], place, way => by
    rw [insertIntoLast, lastWayAmong]
    cases place with
    | zero =>
      have h := own_under?_insertDeepest text n way
      by_cases hw : n.lastWay = way
      · rw [if_pos hw] at h
        rw [if_pos (congrArg _ hw)]
        exact h
      · rw [if_neg hw] at h
        rw [if_neg fun he => hw (List.cons.inj he).2]
        exact h
    | succ place =>
      rw [if_neg fun he => Nat.succ_ne_zero place (List.cons.inj he).1.symm]
      rfl
  | m :: n :: rest, place, way => by
    rw [insertIntoLast, lastWayAmong]
    cases place with
    | zero =>
      rw [if_neg (modifyHead_succ_ne_zero_cons _ way)]
      rfl
    | succ place =>
      have h := own_at?_insertIntoLast text (n :: rest) place way
      simp only [modifyHead_succ_eq_iff]
      exact h

end

/-- The same for text that is put to the deepest node below the end of a way. -/
theorem own_under?_insertUnder (text : String) (w : List Nat) (n : Node) (way : List Nat) :
    ((n.insertUnder text w).under? way).map own =
      if (n.under? w).map (fun m => w ++ m.lastWay) = some way then
        (n.under? way).map fun m => (m.insertText text).own
      else (n.under? way).map own := by
  induction w generalizing n way with
  | nil =>
    have h := own_under?_insertDeepest text n way
    simp only [under?, Option.map_some, List.nil_append, Option.some.injEq]
    exact h
  | cons k w ih =>
    cases way with
    | nil =>
      have hne : (n.under? (k :: w)).map (fun m => (k :: w) ++ m.lastWay) ≠ some [] := by
        cases n.under? (k :: w) with
        | none => exact nofun
        | some m => exact nofun
      rw [if_neg hne]
      rfl
    | cons j way =>
      have hchildren : ((n.insertUnder text (k :: w)).under? (j :: way)) =
          ((n.children.modify k (insertUnder text w))[j]?).bind (under? way) := rfl
      rw [hchildren, List.getElem?_modify, under?_cons, under?_cons, at?, at?]
      -- the text goes into the child at `k`, and the children beside it stay
      by_cases hkj : k = j
      · subst hkj
        cases hc : n.children[k]? with
        | none => rfl
        | some c =>
          have hcond : (c.under? w).map (fun m => (k :: w) ++ m.lastWay) = some (k :: way) ↔
              (c.under? w).map (fun m => w ++ m.lastWay) = some way := by
            cases c.under? w with
            | none => simp
            | some m => simp
          have h := ih c way
          simp only [if_true, Option.map_eq_map, Option.map_some, Option.bind_some, hcond]
          exact h
      · have hne : ((n.children[k]?).bind (under? w)).map (fun m => (k :: w) ++ m.lastWay) ≠ some (j :: way) := by
          cases (n.children[k]?).bind (under? w) with
          | none => exact nofun
          | some m => exact fun h => hkj (List.cons.inj (Option.some.inj h)).1
        rw [if_neg hne]
        simp [hkj]

end Node

/-! ### Texts for some nodes -/

namespace Placement

/-- The address of the node that gets a text, if there is one. -/
def target? (x : Placement) (ns : List Node) : Option (List Nat) :=
  (Node.at? ns x.place x.way).map fun m => x.place :: x.way ++ m.lastWay

/-- The texts that the node at an address gets, when texts are put to some nodes one after the other. -/
def receivedAt (place : Nat) (way : List Nat) : List Placement → List Node → List String
  | [], _ => []
  | x :: xs, ns =>
    (if x.target? ns = some (place :: way) then [x.text] else []) ++ receivedAt place way xs (x.apply ns)

theorem own_at?_apply (x : Placement) (ns : List Node) (place : Nat) (way : List Nat) :
    (Node.at? (x.apply ns) place way).map Node.own =
      if x.target? ns = some (place :: way) then
        (Node.at? ns place way).map fun m => (m.insertText x.text).own
      else (Node.at? ns place way).map Node.own :=
  -- the nodes as the children of one node
  Node.own_under?_insertUnder x.text (x.place :: x.way) { children := ns } (place :: way)

/-- **What becomes of a node** when texts are put to some nodes: those that it gets are put behind its
value, one after the other, and nothing else changes. -/
theorem own_at?_applyAll (xs : List Placement) (ns : List Node) (place : Nat) (way : List Nat) :
    (Node.at? (applyAll xs ns) place way).map Node.own =
      (Node.at? ns place way).map fun m =>
        Node.own { m with value := grownValue m.value (receivedAt place way xs ns) } := by
  induction xs generalizing ns with
  | nil => rfl
  | cons x xs ih =>
    let grown (texts : List String) (m : Node) : Node := { m with value := grownValue m.value texts }
    have hown (texts : List String) (o : Option Node) :
        (o.map fun m => (grown texts m).own) = (o.map Node.own).map (grown texts) := by
      rw [Option.map_map]
      rfl
    have hrest : (Node.at? (applyAll (x :: xs) ns) place way).map Node.own =
        ((Node.at? (x.apply ns) place way).map Node.own).map (grown (receivedAt place way xs (x.apply ns))) :=
      (ih (x.apply ns)).trans (hown _ _)
    rw [hrest, own_at?_apply, receivedAt]
    by_cases hx : x.target? ns = some (place :: way)
    · rw [if_pos hx, if_pos hx, Option.map_map]
      rfl
    · rw [if_neg hx, if_neg hx, ← hown]
      rfl

end Placement

end Shorthand
