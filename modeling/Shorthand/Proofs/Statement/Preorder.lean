import Shorthand.Proofs.Position.Reading
import Shorthand.Proofs.Statement.Walk

/-!
# The order of the walk

The walk over a tree meets every statement below the root at the position to which the places in its
lists lead, and meets it before those that come after it in the document.

* `Position.through`, `Statement.descendant?`, `Tree.statement?`: where places lead;
* `Tree.mem_walk_iff`: the walk meets what they lead to, and nothing else;
* `Position.Before`, `Tree.pairwise_walk`: it does so in the order of the document.
-/

namespace Shorthand

/-! ### Places -/

/-- The position to which places in lists of statements lead from another one. -/
def Position.through (p : Position) (is : List Nat) : Position :=
  is.foldl (fun p i => (p.field "elements").item i) p

/-- The statement to which places in lists of statements lead from another one. -/
def Statement.descendant? (s : Statement) : List Nat → Option Statement
  | [] => some s
  | i :: is => s.children[i]?.bind (·.descendant? is)

/-- The statement of a tree to which places lead from its root; the root itself is none. -/
def Tree.statement? (t : Tree) : List Nat → Option Statement
  | [] => none
  | i :: is => t.statements[i]?.bind (·.descendant? is)

theorem Position.through_cons (p : Position) (i : Nat) (is : List Nat) :
    p.through (i :: is) = ((p.field "elements").item i).through is := rfl

theorem Position.plain_through {p : Position} (hp : p.Plain) (is : List Nat) : (p.through is).Plain := by
  induction is generalizing p with
  | nil => exact hp
  | cons i is ih => exact ih ((hp.field (by decide)).item i)

namespace Statement

/-- What is met at a statement: the statement, and what is met at its children. -/
theorem mem_walk_iff_of_children {s : Statement} {cs : List Statement} (hc : s.children = cs)
    (ih : ∀ {p q : Position} {k : Nat} {s' : Statement}, (q, s') ∈ Statement.walkAll p k cs ↔
      ∃ i is, q = (p.item (k + i)).through is ∧ cs[i]?.bind (·.descendant? is) = some s')
    {p q : Position} {s' : Statement} :
    (q, s') ∈ (p, s) :: Statement.walkAll (p.field "elements") 0 cs ↔
      ∃ is, q = p.through is ∧ s.descendant? is = some s' := by
  rw [List.mem_cons, ih]
  constructor
  · rintro (h | ⟨i, is, hq, hs⟩)
    · cases h
      exact ⟨[], rfl, rfl⟩
    · refine ⟨i :: is, ?_, ?_⟩
      · rw [hq, Nat.zero_add, Position.through_cons]
      · rw [descendant?, hc, hs]
  · rintro ⟨is, hq, hs⟩
    cases is with
    | nil =>
      cases hs
      exact .inl (by rw [hq]; rfl)
    | cons i is =>
      refine .inr ⟨i, is, ?_, ?_⟩
      · rw [hq, Nat.zero_add, Position.through_cons]
      · rw [descendant?, hc] at hs
        exact hs

mutual

theorem mem_walk_iff : ∀ (s : Statement) {p q : Position} {s' : Statement},
    (q, s') ∈ s.walk p ↔ ∃ is, q = p.through is ∧ s.descendant? is = some s'
  | .element head cs r, p, q, s' => by
    rw [walk]
    exact mem_walk_iff_of_children rfl (mem_walkAll_iff cs)
  | .group cs r, p, q, s' => by
    rw [walk]
    exact mem_walk_iff_of_children rfl (mem_walkAll_iff cs)

theorem mem_walkAll_iff : ∀ (ss : List Statement) {p q : Position} {k : Nat} {s' : Statement},
    (q, s') ∈ Statement.walkAll p k ss ↔
      ∃ i is, q = (p.item (k + i)).through is ∧ ss[i]?.bind (·.descendant? is) = some s'
  | [], p, q, k, s' => by
    constructor
    · intro h
      cases h
    · rintro ⟨i, is, -, h⟩
      cases h
  | s :: rest, p, q, k, s' => by
    rw [walkAll, List.mem_append, mem_walk_iff s, mem_walkAll_iff rest]
    constructor
    · rintro (⟨is, hq, hs⟩ | ⟨i, is, hq, hs⟩)
      · exact ⟨0, is, hq, hs⟩
      · exact ⟨i + 1, is, by rw [hq, Nat.add_assoc, Nat.add_comm 1 i], hs⟩
    · rintro ⟨i, is, hq, hs⟩
      cases i with
      | zero => exact .inl ⟨is, hq, hs⟩
      | succ i => exact .inr ⟨i, is, by rw [hq, Nat.add_assoc, Nat.add_comm 1 i], hs⟩

end

end Statement

/-- **The walk meets every statement** below the root, and meets it where its places lead. -/
theorem Tree.mem_walk_iff {t : Tree} {p : Position} {s : Statement} :
    (p, s) ∈ t.walk ↔ ∃ is, p = Tree.root.through is ∧ t.statement? is = some s := by
  rw [walk, Statement.mem_walkAll_iff]
  constructor
  · rintro ⟨i, is, hp, hs⟩
    exact ⟨i :: is, by rw [hp, Nat.zero_add]; rfl, hs⟩
  · rintro ⟨is, hp, hs⟩
    cases is with
    | nil => cases hs
    | cons i is => exact ⟨i, is, by rw [hp, Nat.zero_add]; rfl, hs⟩

theorem Tree.plain_root : Tree.root.Plain := by
  intro name hn
  cases List.mem_singleton.mp hn
  decide

theorem Tree.plain_of_mem_walk {t : Tree} {p : Position} {s : Statement} (h : (p, s) ∈ t.walk) : p.Plain := by
  obtain ⟨is, rfl, -⟩ := Tree.mem_walk_iff.mp h
  exact Position.plain_through Tree.plain_root is

/-! ### Order -/

/-- What stands at one position comes before what stands at the other in a document: the first holds the
second, or they part at a list, of which the first goes to the earlier item. -/
def Position.Before (p q : Position) : Prop :=
  (p <+: q ∧ p ≠ q) ∨ ∃ (list : Position) (i j : Nat), i < j ∧ list.item i <+: p ∧ list.item j <+: q

namespace Statement

mutual

theorem pairwise_walk : ∀ (s : Statement) (p : Position), ((s.walk p).map (·.1)).Pairwise Position.Before
  | .element _ cs _, p | .group cs _, p => by
    rw [walk, List.map_cons, List.pairwise_cons]
    refine ⟨fun q hq => ?_, pairwise_walkAll cs _ 0⟩
    obtain ⟨x, hx, rfl⟩ := List.mem_map.mp hq
    obtain ⟨j, -, hj⟩ := prefix_of_mem_walkAll cs hx
    exact .inl ⟨Position.prefix_of_field (Position.prefix_of_item hj), ne_of_mem_walk_children hx⟩

theorem pairwise_walkAll : ∀ (ss : List Statement) (p : Position) (k : Nat),
    ((Statement.walkAll p k ss).map (·.1)).Pairwise Position.Before
  | [], _, _ => List.Pairwise.nil
  | s :: rest, p, k => by
    rw [walkAll, List.map_append, List.pairwise_append]
    refine ⟨pairwise_walk s _, pairwise_walkAll rest p (k + 1), ?_⟩
    intro q hq q' hq'
    obtain ⟨x, hx, rfl⟩ := List.mem_map.mp hq
    obtain ⟨y, hy, rfl⟩ := List.mem_map.mp hq'
    obtain ⟨j, hj, hjy⟩ := prefix_of_mem_walkAll rest hy
    exact .inr ⟨p, k, j, hj, prefix_of_mem_walk s hx, hjy⟩

end

end Statement

/-- The walk goes through a document from its beginning to its end. -/
theorem Tree.pairwise_walk (t : Tree) : (t.walk.map (·.1)).Pairwise Position.Before :=
  Statement.pairwise_walkAll t.statements _ 0

theorem Tree.nodup_walk (t : Tree) : (t.walk.map (·.1)).Nodup := Statement.nodup_walkAll t.statements _ 0

/-- No two statements have positions that are written alike. -/
theorem Tree.nodup_walk_text (t : Tree) : (t.walk.map (·.1.text)).Nodup := by
  have h : (t.walk.map (·.1.text)) = (t.walk.map (·.1)).map Position.text := by
    rw [List.map_map]
    rfl
  rw [h]
  refine List.Nodup.map_on ?_ t.nodup_walk
  intro p hp q hq hpq
  obtain ⟨x, hx, rfl⟩ := List.mem_map.mp hp
  obtain ⟨y, hy, rfl⟩ := List.mem_map.mp hq
  exact Position.text_inj (Tree.plain_of_mem_walk hx) (Tree.plain_of_mem_walk hy) hpq

end Shorthand
