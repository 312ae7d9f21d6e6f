import Mathlib.Data.List.Nodup
import Shorthand.Proofs.Insertion.Marks

/-!
# Positions of the walk

Where the walk over a tree meets its statements, and what a position below them belongs to.

* `Statement.prefix_of_mem_walk`: all that a statement holds stands below it;
* `Statement.nodup_walk`: no two statements stand at the same position;
* `Position.Inside p q`: `q` is in the statement at `p`, and in none of its children.
-/

namespace Shorthand

/-! ### Inside of a statement -/

namespace Position

/-- The position `q` is in the statement at `p`, and in none of its children. -/
def Inside (p q : Position) : Prop := p <+: q ∧ ¬ p.field "elements" <+: q

variable {p q : Position} {name other : String} {j : Nat}

theorem field_inj (h : p.field name <+: q) (h' : p.field other <+: q) : name = other := by
  have hp : p.field name <+: p.field other := List.prefix_of_prefix_length_le h h' (by simp [field])
  simpa [field] using hp

theorem inside_of_field (hn : name ≠ "elements") (h : p.field name <+: q) : p.Inside q :=
  ⟨prefix_of_field h, fun he => hn (field_inj h he)⟩

/-- What is in a statement itself does not stand below any of its children. -/
theorem Inside.not_prefix_child (h : p.Inside q) : ¬ (p.field "elements").item j <+: q :=
  fun hj => h.2 (prefix_of_item hj)

end Position

/-! ### The walk -/

namespace Statement

theorem walk_eq (s : Statement) (p : Position) :
    s.walk p = (p, s) :: Statement.walkAll (p.field "elements") 0 s.children := by
  cases s <;> rw [walk] <;> rfl

mutual

theorem prefix_of_mem_walk : ∀ (s : Statement) {p : Position} {x : Position × Statement},
    x ∈ s.walk p → p <+: x.1
  | .element _ cs _, p, x, h | .group cs _, p, x, h => by
    rw [walk] at h
    obtain rfl | h := List.mem_cons.mp h
    · exact List.prefix_refl p
    · obtain ⟨j, -, hj⟩ := prefix_of_mem_walkAll cs h
      exact Position.prefix_of_field (Position.prefix_of_item hj)

theorem prefix_of_mem_walkAll : ∀ (ss : List Statement) {p : Position} {k : Nat}
    {x : Position × Statement}, x ∈ Statement.walkAll p k ss → ∃ j, k ≤ j ∧ p.item j <+: x.1
  | [], _, _, _, h => by cases h
  | s :: rest, p, k, x, h => by
    rw [walkAll] at h
    obtain h | h := List.mem_append.mp h
    · exact ⟨k, Nat.le_refl k, prefix_of_mem_walk s h⟩
    · obtain ⟨j, hj, h⟩ := prefix_of_mem_walkAll rest h
      exact ⟨j, Nat.le_of_succ_le hj, h⟩

end

/-- A statement among the children of another one does not stand where that one does. -/
theorem ne_of_mem_walk_children {cs : List Statement} {p : Position} {x : Position × Statement}
    (h : x ∈ Statement.walkAll (p.field "elements") 0 cs) : p ≠ x.1 := by
  obtain ⟨j, -, hj⟩ := prefix_of_mem_walkAll cs h
  exact Position.ne_of_field (Position.prefix_of_item hj)

theorem not_prefix_of_mem_walk_children {cs : List Statement} {p : Position} {x : Position × Statement}
    (h : x ∈ Statement.walkAll (p.field "elements") 0 cs) : ¬ x.1 <+: p := by
  intro hp
  obtain ⟨j, -, hj⟩ := prefix_of_mem_walkAll cs h
  exact Position.ne_of_field (Position.prefix_of_item (hj.trans hp)) rfl

/-- What is below a statement of a list is below none of those behind it. -/
theorem not_prefix_of_mem_rest {rest : List Statement} {p q : Position} {k : Nat} (hq : p.item k <+: q)
    {x : Position × Statement} (h : x ∈ Statement.walkAll p (k + 1) rest) : ¬ x.1 <+: q := by
  intro hx
  obtain ⟨j, hj, hjx⟩ := prefix_of_mem_walkAll rest h
  have hjk : j = k := Position.item_inj (hjx.trans hx) hq
  omega

/-- What is below a statement behind another one in a list is not below that one. -/
theorem not_prefix_of_mem_first {s : Statement} {p q : Position} {j k : Nat} (hj : k < j)
    (hq : p.item j <+: q) {x : Position × Statement} (h : x ∈ s.walk (p.item k)) : ¬ x.1 <+: q := by
  intro hx
  have hjk : j = k := Position.item_inj hq ((prefix_of_mem_walk s h).trans hx)
  omega

mutual

theorem nodup_walk : ∀ (s : Statement) (p : Position), ((s.walk p).map (·.1)).Nodup
  | .element _ cs _, p | .group cs _, p => by
    rw [walk, List.map_cons, List.nodup_cons]
    refine ⟨fun hp => ?_, nodup_walkAll cs _ 0⟩
    obtain ⟨x, hx, he⟩ := List.mem_map.mp hp
    exact ne_of_mem_walk_children hx he.symm

theorem nodup_walkAll : ∀ (ss : List Statement) (p : Position) (k : Nat),
    ((Statement.walkAll p k ss).map (·.1)).Nodup
  | [], _, _ => List.nodup_nil
  | s :: rest, p, k => by
    rw [walkAll, List.map_append, List.nodup_append]
    refine ⟨nodup_walk s _, nodup_walkAll rest p (k + 1), ?_⟩
    intro q hs q' hr he
    obtain ⟨x, hx, rfl⟩ := List.mem_map.mp hs
    obtain ⟨y, hy, rfl⟩ := List.mem_map.mp hr
    have hk : p.item k <+: y.1 := he ▸ prefix_of_mem_walk s hx
    exact not_prefix_of_mem_rest hk hy (List.prefix_refl y.1)

end

end Statement

namespace Tree

theorem eq_of_mem_walk {t : Tree} {p : Position} {s s' : Statement} (h : (p, s) ∈ t.walk)
    (h' : (p, s') ∈ t.walk) : s = s' := by
  have hn : (t.walk.map (·.1)).Nodup := Statement.nodup_walkAll t.statements _ 0
  exact congrArg Prod.snd (List.inj_on_of_nodup_map hn h h' rfl)

end Tree

end Shorthand
