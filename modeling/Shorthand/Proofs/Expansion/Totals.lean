import Shorthand.Proofs.Document.Counts
import Shorthand.Proofs.Document.Grammar
import Shorthand.Proofs.Expansion.Postorder

/-!
# How many nodes an expansion has

Nothing of a tree is lost in its expansion, and nothing is there more often than the repeats say.

* `Statement.stated`, `Tree.statedTimes`: how many copies are stated of a statement, and of all that
  stands at a position;
* `Tree.sum_nodes`: what the elements add up to in all nodes of an expansion;
* `Tree.expand_totals`: how many nodes and attributes there are.
-/

namespace Shorthand

/-! ### Stated copies -/

/-- How many copies of a statement are stated: one where there is no repeat, one for every item where the
repeat is implicit and the text is a list, and else the count, where none and zero mean one. -/
def Statement.stated (text : TextSource) (s : Statement) : Nat :=
  match s.repeater with
  | none => 1
  | some r =>
    match r.implicit, text with
    | true, .items xs => xs.length
    | _, _ => max 1 (r.count.getD 0).toNat

/-- How many copies are stated of what stands at a position: the product over the statement there and all
statements around it. -/
def Tree.statedTimes (text : TextSource) (t : Tree) (q : Position) : Nat :=
  ((t.walk.filter fun x => x.1 <+: q).map fun x => x.2.stated text).prod

theorem Repeater.turns_eq {src : Source} {r : Repeater} (h : r.Counted)
    (hi : ∀ xs, ¬ (r.implicit = true ∧ src.text = .items xs)) : r.turns src = max 1 (r.count.getD 0).toNat := by
  have h : 0 ≤ r.count.getD 0 := h
  have hc : r.copies src = if r.count.getD 0 = 0 then 1 else r.count.getD 0 := by
    unfold copies Source.items?
    cases hr : r.implicit with
    | false => rfl
    | true =>
      cases ht : src.text with
      | absent => rfl
      | whole s => rfl
      | items xs => exact absurd ⟨hr, ht⟩ (hi xs)
  unfold turns
  rw [hc]
  split <;> omega

theorem Statement.turns_eq_stated (src : Source) {s : Statement} (h : s.Counted) :
    s.turns src = s.stated src.text := by
  have hr : ∀ r ∈ s.repeater, r.Counted := by
    cases s <;> exact h.1
  unfold turns stated
  cases hs : s.repeater with
  | none => rfl
  | some r =>
    have hc : r.Counted := hr r hs
    dsimp only [Option.elim_some]
    split
    · next xs hi ht =>
      unfold Repeater.turns Repeater.copies Source.items?
      rw [hi, ht]
      rfl
    · next hn => exact Repeater.turns_eq hc fun xs hx => hn xs hx.1 hx.2

mutual

theorem Statement.counted_of_mem_walk : ∀ (s : Statement) {p : Position} {x : Position × Statement},
    s.Counted → x ∈ s.walk p → x.2.Counted
  | .element _ cs _, p, x, h, hx | .group cs _, p, x, h, hx => by
    rw [walk] at hx
    obtain rfl | hx := List.mem_cons.mp hx
    · exact h
    · exact counted_of_mem_walkAll cs h.2 hx

theorem Statement.counted_of_mem_walkAll : ∀ (ss : List Statement) {p : Position} {k : Nat}
    {x : Position × Statement}, Statement.CountedAll ss → x ∈ Statement.walkAll p k ss → x.2.Counted
  | [], _, _, _, _, hx => by cases hx
  | s :: rest, p, k, x, h, hx => by
    rw [walkAll] at hx
    obtain hx | hx := List.mem_append.mp hx
    · exact counted_of_mem_walk s h.1 hx
    · exact counted_of_mem_walkAll rest h.2 hx

end

/-- In a checked tree the copies that are made are the ones that are stated. -/
theorem Tree.times_eq_statedTimes (src : Source) {t : Tree} (h : t.Counted) (q : Position) :
    t.times src q = t.statedTimes src.text q := by
  unfold times timesIn statedTimes
  refine congrArg List.prod (List.map_congr_left fun x hx => ?_)
  exact x.2.turns_eq_stated src (Statement.counted_of_mem_walkAll _ h (List.mem_of_mem_filter hx))

theorem Tree.statedTimes_eq_one {t : Tree} (h : ∀ x ∈ t.walk, x.2.repeater = none) (text : TextSource)
    (q : Position) : t.statedTimes text q = 1 := by
  unfold statedTimes
  refine List.prod_eq_one fun n hn => ?_
  obtain ⟨x, hx, rfl⟩ := List.mem_map.mp hn
  rw [Statement.stated, h x (List.mem_of_mem_filter hx)]

/-! ### Sums over nodes -/

/-- What an element counts; a group counts nothing. -/
def Statement.weigh (weight : Element → Nat) : Statement → Nat
  | .element head _ _ => weight head
  | .group _ _ => 0

/-- What the elements of a walk count together, each with a factor for its position. -/
theorem sum_flatMap_ownAt (weight : Element → Nat) (factor : Position → Nat)
    (walk : List (Position × Statement)) :
    ((walk.flatMap (ownAt fun p head => List.replicate (weight head) p)).map factor).sum =
      (walk.map fun x => x.2.weigh weight * factor x.1).sum := by
  induction walk with
  | nil => rfl
  | cons x walk ih =>
    obtain ⟨p, s⟩ := x
    rw [List.flatMap_cons, List.map_append, List.sum_append, ih, List.map_cons, List.sum_cons]
    cases s with
    | element head cs r =>
      rw [ownAt, List.map_replicate, List.sum_replicate_nat, Statement.weigh]
    | group cs r => rw [ownAt, Statement.weigh, Nat.zero_mul]; rfl

/-- **What all nodes count together.**  If a node counts what the element counts that it shows, then the
nodes of an expansion count what the elements of the tree do, each as often as it is copied. -/
theorem Tree.sum_nodes (src : Source) (t : Tree) (weight : Element → Nat) (count : Node → Nat)
    (h : ∀ b n, Build.Shown src b n → weight b.head = count n) :
    ((Node.postorderAll (t.expand src)).map count).sum =
      (t.walk.map fun x => x.2.weigh weight * t.times src x.1).sum := by
  let own : Position → Element → List Position := fun p head => List.replicate (weight head) p
  have inside : ∀ p head, ∀ q ∈ own p head, p.Inside q := by
    intro p head q hq
    rw [List.eq_of_mem_replicate hq]
    exact ⟨List.prefix_refl p, fun hp => Position.ne_of_field hp rfl⟩
  have hbuilds := t.sum_builds src inside
  rw [sum_flatMap_ownAt] at hbuilds
  rw [← hbuilds, ← map_eq_of_forall₂ (t.forall₂_builds src) h]
  simp only [own, List.length_replicate]

theorem Build.Shown.length_attributes {src : Source} {b : Build} {n : Node} (h : b.Shown src n) :
    (b.head.attributes.getD []).length = (n.attributes.getD []).length := by
  rw [h.attributes_eq]
  cases b.head.attributes <;> simp

namespace Tree

variable (src : Source) {t : Tree}

theorem length_nodes (h : t.Counted) :
    (Node.postorderAll (t.expand src)).length =
      ((t.walk.filter (·.2.isElement)).map fun x => t.statedTimes src.text x.1).sum := by
  have hsum := t.sum_nodes src (fun _ => 1) (fun _ => 1) fun _ _ _ => rfl
  have hone : ∀ x : Position × Statement, x.2.weigh (fun _ => 1) * t.times src x.1 =
      if x.2.isElement then t.statedTimes src.text x.1 else 0 := by
    rintro ⟨p, s⟩
    rw [t.times_eq_statedTimes src h]
    cases s <;> simp [Statement.weigh, Statement.isElement]
  rw [List.map_const', List.sum_replicate_nat, Nat.mul_one] at hsum
  rw [hsum, funext hone, List.sum_map_ite]
  simp

/-- How many attributes the nodes of an expansion have. -/
theorem sum_attributes (h : t.Counted) :
    ((Node.postorderAll (t.expand src)).map fun n => (n.attributes.getD []).length).sum =
      (t.walk.map fun x => x.2.attributes.length * t.statedTimes src.text x.1).sum := by
  rw [t.sum_nodes src (fun head => (head.attributes.getD []).length) _ fun _ _ => (·.length_attributes)]
  refine congrArg List.sum (List.map_congr_left fun x _ => ?_)
  rw [t.times_eq_statedTimes src h]
  cases x.2 <;> rfl

/-- **Nothing is lost and nothing is doubled.**  Let a document have a tree.  Its expansion has, at any
depth, as many nodes as the elements of the tree state copies, where the copies of an element are those of
its own repeat times those of the repeats of all statements around it; and these nodes have the attributes
that the elements declare, each as often.  So an expansion of a tree without repeats has the elements and
the attributes that are counted in the tree. -/
theorem expand_totals (d : Document) (t : Tree) (h : d.validate = .ok t) (src : Source) :
    let nodes := Node.postorderAll (t.expand src)
    let attributes := (nodes.map fun n => (n.attributes.getD []).length).sum
    nodes.length = ((t.walk.filter (·.2.isElement)).map fun x => t.statedTimes src.text x.1).sum ∧
    attributes = (t.walk.map fun x => x.2.attributes.length * t.statedTimes src.text x.1).sum ∧
    ((∀ x ∈ t.walk, x.2.repeater = none) →
      nodes.length = t.stats.elements ∧ attributes = t.stats.attributes) := by
  intro nodes attributes
  have hc : t.Counted := d.counted_of_validate h
  have hnodes : nodes.length = _ := length_nodes src hc
  have hattributes : attributes = _ := sum_attributes src hc
  refine ⟨hnodes, hattributes, fun hr => ?_⟩
  have hone := statedTimes_eq_one hr src.text
  constructor
  · rw [hnodes, t.stats_eq, List.countP_eq_length_filter]
    simp only [hone, List.map_const', List.sum_replicate_nat, Nat.mul_one]
  · rw [hattributes, t.stats_eq]
    simp only [hone, Nat.mul_one]

/-- Two copies of an item for each of three texts, with a link in every item whose count of zero means one,
and a list that is not repeated. -/
theorem expand_totals_lists :
    let entry (name : String) : Value := .record [("name", .string name)]
    let link : Value := .record [("name", .string "a"), ("repeat", .record [("count", .int 0)]),
      ("attributes", .list [entry "href"])]
    let item : Value := .record [("name", .string "li"), ("repeat", .record [("implicit", .bool true)]),
      ("attributes", .list [entry "id", entry "class"]), ("elements", .list [link])]
    let group : Value := .record [("type", .string "group"), ("repeat", .record [("count", .int 2)]),
      ("elements", .list [item])]
    let list : Value := .record [("name", .string "ul"), ("elements", .list [entry "li"])]
    let document (elements : List Value) : Document :=
      { version := .string "1", tree := .record [("elements", .list elements)] }
    let named (name : String) : Option (List Token) := some [.literal name]
    let attributes (names : List String) : Option (List Attribute) :=
      some (names.map fun name => { name := named name })
    let repeated : Tree :=
      { statements := [.group
          [.element { name := named "li", attributes := attributes ["id", "class"] }
            [.element { name := named "a", attributes := attributes ["href"] } [] (some { count := some 0 })]
            (some { implicit := true })]
          (some { count := some 2 })] }
    let once : Tree :=
      { statements := [.element { name := named "ul" } [.element { name := named "li" } [] none] none] }
    let src : Source := { text := .items [some "x", none, some "z"] }
    (document [group]).validate = .ok repeated ∧
      (Node.postorderAll (repeated.expand src)).length = 12 ∧
      ((Node.postorderAll (repeated.expand src)).map fun n => (n.attributes.getD []).length).sum = 18 ∧
      (document [list]).validate = .ok once ∧ (∀ x ∈ once.walk, x.2.repeater = none) ∧
      (Node.postorderAll (once.expand src)).length = once.stats.elements := by
  intro entry link item group list document named attributes repeated once src
  have hrepeated : (document [group]).validate = .ok repeated := rfl
  have honce : (document [list]).validate = .ok once := rfl
  have hnone : ∀ x ∈ once.walk, x.2.repeater = none := by decide
  obtain ⟨hnodes, hattributes, -⟩ := expand_totals _ repeated hrepeated src
  obtain ⟨-, -, hcounts⟩ := expand_totals _ once honce src
  exact ⟨hrepeated, hnodes.trans rfl, hattributes.trans rfl, honce, hnone, (hcounts hnone).1⟩

end Tree

end Shorthand
