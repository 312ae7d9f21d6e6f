import Shorthand.Proofs.Insertion.Receipt
import Shorthand.Proofs.Lint.Findings

/-!
# Implicit repeaters that come later

Of all implicit repeaters, lint takes the first one of the walk for the one that gets the text, and
reports the others.  An expansion takes the one that is complete first.  These differ when an implicit
repeater stands inside another one: the walk meets the outer one first, and the inner one is complete
before it.

* `Statement.sites`: the implicit repeaters of a statement, in the order of the walk;
* `Statement.prefix_of_head_marks`: the first one of the walk is the first mark, or is around it;
* `Lint.laterImplicit_receives`: which of the reported statements gets text.
-/

namespace Shorthand

open Lint

/-! ### The walk -/

namespace Statement

/-- Where the implicit repeaters of a statement at a position stand, in the order of the walk. -/
def sites (p : Position) (s : Statement) : List Position :=
  ((s.walk p).filter fun (_, s) => isImplicit s).map (·.1)

/-- The same for the statements of a list at a position, counted from `k`. -/
def sitesAll (p : Position) (k : Nat) (ss : List Statement) : List Position :=
  ((Statement.walkAll p k ss).filter fun (_, s) => isImplicit s).map (·.1)

theorem sites_eq (s : Statement) (p : Position) :
    s.sites p = (if isImplicit s then [p] else []) ++ sitesAll (p.field "elements") 0 s.children := by
  cases s <;> simp only [sites, sitesAll, walk, children, List.filter_cons] <;> split <;> rfl

theorem sitesAll_cons (s : Statement) (rest : List Statement) (p : Position) (k : Nat) :
    sitesAll p k (s :: rest) = s.sites (p.item k) ++ sitesAll p (k + 1) rest := by
  simp only [sitesAll, sites, walkAll, List.filter_append, List.map_append]

theorem mem_marks_of_children {s : Statement} {p q : Position}
    (hs : q ∈ s.sites p)
    (h : q ∈ sitesAll (p.field "elements") 0 s.children →
      .implicit q ∈ Statement.marksAll (p.field "elements") 0 s.children) : .implicit q ∈ s.marks p := by
  rw [sites_eq, List.mem_append] at hs
  obtain hs | hs := hs
  · split at hs
    · next hi =>
      obtain rfl := List.mem_singleton.mp hs
      rw [marks_eq]
      exact List.mem_append_right _ (mem_ownMarks.mpr ⟨hi, rfl⟩)
    · cases hs
  · exact (s.children_prefix p).subset (h hs)

mutual

theorem mem_marks_of_mem_sites : ∀ (s : Statement) {p q : Position},
    q ∈ s.sites p → .implicit q ∈ s.marks p
  | .element _ cs _, _, _, h => mem_marks_of_children h fun h => mem_marksAll_of_mem_sitesAll cs h
  | .group cs _, _, _, h => mem_marks_of_children h fun h => mem_marksAll_of_mem_sitesAll cs h

theorem mem_marksAll_of_mem_sitesAll : ∀ (ss : List Statement) {p q : Position} {k : Nat},
    q ∈ sitesAll p k ss → .implicit q ∈ Statement.marksAll p k ss
  | [], _, _, _, h => by cases h
  | s :: rest, p, q, k, h => by
    rw [sitesAll_cons, List.mem_append] at h
    rw [marksAll, List.mem_append]
    obtain h | h := h
    · exact .inl (mem_marks_of_mem_sites s h)
    · exact .inr (mem_marksAll_of_mem_sitesAll rest h)

end

theorem nodup_sitesAll (ss : List Statement) (p : Position) (k : Nat) : (sitesAll p k ss).Nodup :=
  (nodup_walkAll ss p k).sublist (List.filter_sublist.map _)

/-! ### The first of the walk and the first mark -/

theorem prefix_of_children {s : Statement} {p q : Position} (h : (s.marks p).head? = some (.implicit q))
    (ih : (Statement.marksAll (p.field "elements") 0 s.children).head? = some (.implicit q) →
      ∃ first, (sitesAll (p.field "elements") 0 s.children).head? = some first ∧ first <+: q) :
    ∃ first, (s.sites p).head? = some first ∧ first <+: q := by
  rw [sites_eq]
  split
  · exact ⟨p, rfl, mem_marks s (List.mem_of_head? h)⟩
  · next hi =>
    obtain h | ⟨-, -, hr⟩ := head_marks h
    · exact ih h
    · exact absurd hr hi

mutual

/-- The implicit repeater that the walk meets first is around the first mark, or is that mark. -/
theorem prefix_of_head_marks : ∀ (s : Statement) {p q : Position},
    (s.marks p).head? = some (.implicit q) → ∃ first, (s.sites p).head? = some first ∧ first <+: q
  | .element _ cs _, _, _, h => prefix_of_children h fun h => prefix_of_head_marksAll cs h
  | .group cs _, _, _, h => prefix_of_children h fun h => prefix_of_head_marksAll cs h

theorem prefix_of_head_marksAll : ∀ (ss : List Statement) {p q : Position} {k : Nat},
    (Statement.marksAll p k ss).head? = some (.implicit q) →
      ∃ first, (sitesAll p k ss).head? = some first ∧ first <+: q
  | [], _, _, _, h => by cases h
  | s :: rest, p, q, k, h => by
    rw [marksAll] at h
    rw [sitesAll_cons]
    cases hm : s.marks (p.item k) with
    | nil =>
      have hs : s.sites (p.item k) = [] := by
        refine List.eq_nil_iff_forall_not_mem.mpr fun x hx => ?_
        have hx := mem_marks_of_mem_sites s hx
        rw [hm] at hx
        cases hx
      rw [hm] at h
      rw [hs]
      exact prefix_of_head_marksAll rest h
    | cons m ms =>
      rw [hm] at h
      obtain ⟨first, hf, hq⟩ := prefix_of_head_marks s (by rw [hm]; exact h)
      exact ⟨first, by rw [List.head?_append, hf]; rfl, hq⟩

end

end Statement

/-! ### Findings -/

namespace Lint

/-- What a statement shows by itself has nothing to do with the text. -/
theorem rule_ne_laterImplicit {known : Option (List String)} {p : Position} {s : Statement} {f : Finding}
    (h : f ∈ statementFindings known p s) (first : Position) : f.rule ≠ .laterImplicit first := by
  rw [statementFindings_eq, List.mem_append] at h
  obtain h | h := h
  · rw [rule_of_mem_repeatFindings h]
    exact nofun
  · cases s with
    | group cs r => cases h
    | element head cs r =>
      have ho := (of_mem_elementFindings h).1
      intro he
      rw [he] at ho
      cases ho

/-- All implicit repeaters but the first one of the walk are reported. -/
theorem mem_findings_laterImplicit {known : Option (List String)} {t : Tree} {first q : Position} :
    ⟨.laterImplicit first, q.field "repeat"⟩ ∈ findings known t ↔
      ∃ later, Statement.sitesAll (Tree.root.field "elements") 0 t.statements = first :: later ∧
        q ∈ later := by
  have hs : ⟨.laterImplicit first, q.field "repeat"⟩ ∉
      t.walk.flatMap fun (p, s) => statementFindings known p s := by
    intro h
    obtain ⟨⟨p, s⟩, -, h⟩ := List.mem_flatMap.mp h
    exact rule_ne_laterImplicit h first rfl
  have hw : (t.walk.filter fun (_, s) => isImplicit s).map (·.1) =
      Statement.sitesAll (Tree.root.field "elements") 0 t.statements := rfl
  rw [findings, List.mem_append, or_iff_right hs, implicitFindings, hw]
  cases Statement.sitesAll (Tree.root.field "elements") 0 t.statements with
  | nil => simp
  | cons first' later =>
    simp only [List.mem_map, Finding.mk.injEq, Rule.laterImplicit.injEq, List.cons.injEq]
    constructor
    · rintro ⟨x, hx, rfl, hq⟩
      exact ⟨later, ⟨rfl, rfl⟩, List.append_cancel_right hq ▸ hx⟩
    · rintro ⟨_, ⟨rfl, rfl⟩, hq⟩
      exact ⟨q, hq, rfl, rfl⟩

/-- **Which of the later implicit repeaters gets text.**  A statement that is reported because an
implicit repeater comes before it in the walk gets text all the same, just if it is the first mark of
the tree and its copies have nodes.  Then the repeater that comes before it is around it, and that one
gets none: so the report is right about every statement that does not stand inside of the first. -/
theorem laterImplicit_receives (d : Document) (t : Tree) (h : d.validate = .ok t) (src : Source)
    (known : Option (List String)) (first q : Position)
    (hf : ⟨.laterImplicit first, q.field "repeat"⟩ ∈ findings known t) :
    (t.Receives src q ↔ t.marks.head? = some (.implicit q) ∧ t.placements src q ≠ []) ∧
      (t.Receives src q → first <+: q ∧ first ≠ q ∧ ¬ t.Receives src first) := by
  have hc : t.Counted := d.counted_of_validate h
  obtain ⟨later, hs, hq⟩ := mem_findings_laterImplicit.mp hf
  refine ⟨Tree.receives_iff hc, fun hr => ?_⟩
  obtain ⟨hm, -⟩ := (Tree.receives_iff hc).mp hr
  obtain ⟨first', hfirst, hp⟩ := Statement.prefix_of_head_marksAll t.statements hm
  have hn := Statement.nodup_sitesAll t.statements (Tree.root.field "elements") 0
  rw [hs] at hfirst hn
  cases hfirst
  have hne : first ≠ q := fun he => (List.nodup_cons.mp hn).1 (he ▸ hq)
  refine ⟨hp, hne, fun hr' => hne ?_⟩
  obtain ⟨hm', -⟩ := (Tree.receives_iff hc).mp hr'
  rw [hm] at hm'
  cases hm'
  rfl

/-- A list for every text, with an item for every text: the items are reported, and get the texts. -/
theorem laterImplicit_receives_items :
    let implicit : Value := .map [(.string "implicit", .bool true)]
    let item : Value := .map [(.string "name", .string "li"), (.string "repeat", implicit)]
    let list : Value := .map [(.string "name", .string "ul"), (.string "elements", .list [item]),
      (.string "repeat", implicit)]
    let d : Document := { version := .string "1", tree := .map [(.string "elements", .list [list])] }
    let r : Repeater := { implicit := true }
    let t : Tree := { statements := [.element { name := some [.literal "ul"] }
      [.element { name := some [.literal "li"] } [] (some r)] (some r)] }
    let src : Source := { text := .items [some "a", some "b"] }
    let first : Position := (Tree.root.field "elements").item 0
    let q : Position := (first.field "elements").item 0
    d.validate = .ok t ∧ ⟨.laterImplicit first, q.field "repeat"⟩ ∈ findings none t ∧
      t.Receives src q ∧ first <+: q ∧ ¬ t.Receives src first := by
  intro implicit item list d r t src first q
  have h : d.validate = .ok t := rfl
  have hf : ⟨.laterImplicit first, q.field "repeat"⟩ ∈ findings none t := List.mem_singleton.mpr rfl
  obtain ⟨hiff, hnested⟩ := laterImplicit_receives d t h src none first q hf
  have hr : t.Receives src q := hiff.mpr ⟨rfl, List.cons_ne_nil _ _⟩
  obtain ⟨hp, -, hn⟩ := hnested hr
  exact ⟨h, hf, hr, hp, hn⟩

end Lint

end Shorthand
