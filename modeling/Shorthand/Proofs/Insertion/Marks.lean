import Shorthand.Proofs.Expansion.Balance
import Shorthand.Statement.Walk

/-!
# The marks of the text

A tree lays hold of the text by its marks: its placeholders and its implicit repeaters.

* `Statement.marks p`: the marks of a statement at the position `p`, in the order in which an expansion
  meets them, so that an implicit repeater comes after the whole body that it repeats;
* `Statement.marks_eq_nil`: a statement has no mark just if it does not mention the text;
* `Statement.mem_marks`: the marks of a statement stand below its position;
* `Statement.head_marks`: the first mark of a statement is the first one of its children, if it is an
  implicit repeater and not that of the statement itself.
-/

namespace Shorthand

/-! ### Positions -/

namespace Position

variable {p q : Position} {name : String} {j k : Nat}

theorem prefix_of_field (h : p.field name <+: q) : p <+: q := (List.prefix_append p _).trans h

theorem prefix_of_item (h : p.item k <+: q) : p <+: q := (List.prefix_append p _).trans h

theorem not_prefix_of_child (h : ¬ p <+: q) (j : Nat) : ¬ (p.field name).item j <+: q :=
  fun hj => h (prefix_of_field (prefix_of_item hj))

/-- What stands below an entry of a map is not the map. -/
theorem ne_of_field (h : p.field name <+: q) : p ≠ q := by
  rintro rfl
  have hl := h.length_le
  simp only [field, List.length_append, List.length_singleton] at hl
  omega

theorem item_inj (hj : p.item j <+: q) (hk : p.item k <+: q) : j = k := by
  have h := List.prefix_of_prefix_length_le hj hk (by simp [item])
  simpa [item] using h

end Position

/-! ### Marks -/

/-- A mark of the text: a placeholder, or the statement of an implicit repeater. -/
inductive Mark where
  | placeholder
  | implicit (site : Position)
  deriving DecidableEq, Repr

def marksOf (tokens : Option (List Token)) : List Mark :=
  ((tokens.getD []).filter Token.isPlaceholder).map fun _ => .placeholder

def Attribute.marks (a : Attribute) : List Mark := marksOf a.name ++ marksOf a.value

/-- The placeholders of an element: those of its attributes come before those of its name and of its
value. -/
def Element.marks (head : Element) : List Mark :=
  (head.attributes.getD []).flatMap Attribute.marks ++ marksOf head.name ++ marksOf head.value

/-- The mark that the repeater of a statement makes of it. -/
def Statement.ownMarks (p : Position) (r : Option Repeater) : List Mark :=
  if r.any (·.implicit) then [.implicit p] else []

mutual

def Statement.marks (p : Position) : Statement → List Mark
  | .element head cs r =>
    Statement.marksAll (p.field "elements") 0 cs ++ head.marks ++ Statement.ownMarks p r
  | .group cs r => Statement.marksAll (p.field "elements") 0 cs ++ Statement.ownMarks p r

/-- The marks of the statements of a list at a position, counted from `k`. -/
def Statement.marksAll (p : Position) (k : Nat) : List Statement → List Mark
  | [] => []
  | s :: rest => s.marks (p.item k) ++ Statement.marksAll p (k + 1) rest

end

def Tree.marks (t : Tree) : List Mark := Statement.marksAll (Tree.root.field "elements") 0 t.statements

/-! ### Trees without marks -/

theorem marksOf_eq_nil (tokens : Option (List Token)) :
    marksOf tokens = [] ↔ holdsPlaceholder tokens = false := by
  simp [marksOf, holdsPlaceholder]

theorem Attribute.marks_eq_nil (a : Attribute) : a.marks = [] ↔ a.holdsPlaceholder = false := by
  rw [marks, holdsPlaceholder, List.append_eq_nil_iff, Bool.or_eq_false_iff, marksOf_eq_nil,
    marksOf_eq_nil]

theorem Element.marks_eq_nil (head : Element) : head.marks = [] ↔ head.holdsPlaceholder = false := by
  rw [marks, holdsPlaceholder, List.append_eq_nil_iff, List.append_eq_nil_iff, Bool.or_eq_false_iff,
    Bool.or_eq_false_iff, marksOf_eq_nil, marksOf_eq_nil]
  simp [Attribute.marks_eq_nil]

theorem Statement.ownMarks_eq_nil (p : Position) (r : Option Repeater) :
    ownMarks p r = [] ↔ r.any (·.implicit) = false := by
  unfold ownMarks
  cases r.any (·.implicit) <;> simp

mutual

theorem Statement.marks_eq_nil : ∀ (s : Statement) (p : Position),
    s.marks p = [] ↔ s.mentionsText = false
  | .element head cs r, p => by
    rw [marks, mentionsText, List.append_eq_nil_iff, List.append_eq_nil_iff, Bool.or_eq_false_iff,
      Bool.or_eq_false_iff, marksAll_eq_nil cs, head.marks_eq_nil, ownMarks_eq_nil]
  | .group cs r, p => by
    rw [marks, mentionsText, List.append_eq_nil_iff, Bool.or_eq_false_iff, marksAll_eq_nil cs,
      ownMarks_eq_nil]

theorem Statement.marksAll_eq_nil : ∀ (ss : List Statement) (p : Position) (k : Nat),
    Statement.marksAll p k ss = [] ↔ Statement.mentionsTextAll ss = false
  | [], _, _ => by simp [marksAll, mentionsTextAll]
  | s :: rest, p, k => by
    rw [marksAll, mentionsTextAll, List.append_eq_nil_iff, Bool.or_eq_false_iff, marks_eq_nil s,
      marksAll_eq_nil rest]

end

/-! ### Where the marks stand -/

theorem Element.not_mem_marks (head : Element) (q : Position) : .implicit q ∉ head.marks := by
  have ho (tokens : Option (List Token)) : Mark.implicit q ∉ marksOf tokens := by simp [marksOf]
  simp [marks, Attribute.marks, ho]

theorem Statement.mem_ownMarks {p q : Position} {r : Option Repeater} :
    .implicit q ∈ ownMarks p r ↔ r.any (·.implicit) ∧ q = p := by
  unfold ownMarks
  split <;> simp_all

mutual

theorem Statement.mem_marks : ∀ (s : Statement) {p q : Position}, .implicit q ∈ s.marks p → p <+: q
  | .element head cs r, p, q, h => by
    rw [marks, List.mem_append, List.mem_append] at h
    obtain (h | h) | h := h
    · obtain ⟨k, -, h⟩ := mem_marksAll cs h
      exact Position.prefix_of_field (Position.prefix_of_item h)
    · exact absurd h (head.not_mem_marks q)
    · obtain ⟨-, rfl⟩ := mem_ownMarks.mp h
      exact List.prefix_refl q
  | .group cs r, p, q, h => by
    rw [marks, List.mem_append] at h
    obtain h | h := h
    · obtain ⟨k, -, h⟩ := mem_marksAll cs h
      exact Position.prefix_of_field (Position.prefix_of_item h)
    · obtain ⟨-, rfl⟩ := mem_ownMarks.mp h
      exact List.prefix_refl q

theorem Statement.mem_marksAll : ∀ (ss : List Statement) {p q : Position} {k : Nat},
    .implicit q ∈ Statement.marksAll p k ss → ∃ j, k ≤ j ∧ p.item j <+: q
  | [], _, _, _, h => by cases h
  | s :: rest, p, q, k, h => by
    rw [marksAll, List.mem_append] at h
    obtain h | h := h
    · exact ⟨k, Nat.le_refl k, mem_marks s h⟩
    · obtain ⟨j, hj, h⟩ := mem_marksAll rest h
      exact ⟨j, by omega, h⟩

end

/-! ### The body of a statement -/

namespace Statement

/-- The marks of what a statement repeats. -/
def bodyMarks (p : Position) : Statement → List Mark
  | .element head cs _ => Statement.marksAll (p.field "elements") 0 cs ++ head.marks
  | .group cs _ => Statement.marksAll (p.field "elements") 0 cs

theorem marks_eq (s : Statement) (p : Position) : s.marks p = s.bodyMarks p ++ ownMarks p s.repeater := by
  cases s <;> rw [marks] <;> rfl

theorem bodyMarks_eq_nil (src : Source) {s : Statement} (h : s.Counted) (p : Position) :
    s.bodyMarks p = [] ↔ s.bodyReaches src = false := by
  cases s with
  | element head cs r =>
    rw [bodyMarks, bodyReaches, List.append_eq_nil_iff, Bool.or_eq_false_iff, marksAll_eq_nil,
      reachesTextAll_eq src cs h.2, head.marks_eq_nil]
  | group cs r => rw [bodyMarks, bodyReaches, marksAll_eq_nil, reachesTextAll_eq src cs h.2]

/-- A mark in the body of a statement is not that of the statement. -/
theorem ne_of_mem_children {cs : List Statement} {p q : Position}
    (h : .implicit q ∈ Statement.marksAll (p.field "elements") 0 cs) : p ≠ q := by
  obtain ⟨j, -, hj⟩ := mem_marksAll cs h
  exact Position.ne_of_field (Position.prefix_of_item hj)

theorem ne_of_mem_bodyMarks {s : Statement} {p q : Position} (h : .implicit q ∈ s.bodyMarks p) : p ≠ q := by
  cases s with
  | element head cs r =>
    obtain h | h := List.mem_append.mp h
    · exact ne_of_mem_children h
    · exact absurd h (head.not_mem_marks q)
  | group cs r => exact ne_of_mem_children h

theorem children_prefix (s : Statement) (p : Position) :
    Statement.marksAll (p.field "elements") 0 s.children <+: s.marks p := by
  cases s with
  | element head cs r =>
    rw [marks]
    exact (List.prefix_append _ _).trans (List.prefix_append _ _)
  | group cs r =>
    rw [marks]
    exact List.prefix_append _ _

/-- An implicit repeater that is the first mark of a statement is the first mark of its children, or
its own, and then nothing in the body is a mark. -/
theorem head_marks {s : Statement} {p q : Position} (h : (s.marks p).head? = some (.implicit q)) :
    (Statement.marksAll (p.field "elements") 0 s.children).head? = some (.implicit q) ∨
      s.bodyMarks p = [] ∧ q = p ∧ s.repeater.any (·.implicit) = true := by
  by_cases hb : s.bodyMarks p = []
  · rw [marks_eq, hb, List.nil_append] at h
    obtain ⟨hi, hq⟩ := mem_ownMarks.mp (List.mem_of_head? h)
    exact .inr ⟨hb, hq, hi⟩
  · left
    obtain ⟨m, ms, hm⟩ := List.exists_cons_of_ne_nil hb
    have hq : (s.bodyMarks p).head? = some (.implicit q) := by
      rw [marks_eq, hm] at h
      rw [hm]
      exact h
    cases s with
    | element head cs r =>
      rw [bodyMarks, List.head?_append, Option.or_eq_some_iff] at hq
      obtain hq | ⟨-, hq⟩ := hq
      · exact hq
      · exact absurd (List.mem_of_head? hq) (head.not_mem_marks q)
    | group cs r => exact hq

end Statement

end Shorthand
