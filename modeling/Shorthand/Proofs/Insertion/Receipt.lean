import Shorthand.Proofs.Insertion.Insertions

/-!
# Who gets the text

The statements to which the expansion of a tree comes, each with the state in which it comes there, and
those among them whose copies get text.

* `Tree.Visits`: the expansion comes to the statements of a list in some state;
* `GetsText`: a copy of a statement gets text; `copy_nodes` says what becomes of its nodes;
* `Tree.Receives`: some copy of the statement at a position gets text;
* `Tree.receives_iff`: in a checked tree, that is the statement of the first mark, and no other.
-/

namespace Shorthand

open Expansion State Repeater Placement

/-- The state in which the body of the copy `i` begins. -/
def bodyState (src : Source) (r : Repeater) (s : Statement) (σ : State) (i : Nat) : State :=
  (loopState src r (s.body src) σ i).replaceTop (r.turn i)

/-- The expansion of a tree comes, in the state `σ`, to the statements `ss`, which stand in the list at
`p` from `k` on. -/
inductive Tree.Visits (src : Source) (t : Tree) : Position → Nat → List Statement → State → Prop where
  | start : Visits src t (Tree.root.field "elements") 0 t.statements {}
  | next {p k s rest σ} (h : Visits src t p k (s :: rest) σ) :
    Visits src t p (k + 1) rest ((s.expand src).run σ).2
  | once {p k s rest σ} (h : Visits src t p k (s :: rest) σ) (hr : s.repeater = none) :
    Visits src t ((p.item k).field "elements") 0 s.children σ
  | copy {p k s rest σ r i} (h : Visits src t p k (s :: rest) σ) (hr : s.repeater = some r)
    (hi : i < r.turns src) : Visits src t ((p.item k).field "elements") 0 s.children (bodyState src r s σ i)

/-- The copy `i` of a statement gets text: it is an implicit copy, it has nodes, and the text still
waits when these are made. -/
def GetsText (src : Source) (r : Repeater) (s : Statement) (σ : State) (i : Nat) : Prop :=
  let q := (s.body src (r.turn i)).run (bodyState src r s σ i)
  r.implicit = true ∧ q.2.inserted = false ∧ q.1 ≠ []

/-- The expansion of a tree puts text to a copy of the statement at `q`. -/
def Tree.Receives (src : Source) (t : Tree) (q : Position) : Prop :=
  ∃ p k s rest σ r i, t.Visits src p k (s :: rest) σ ∧ q = p.item k ∧ s.repeater = some r ∧
    i < r.turns src ∧ GetsText src r s σ i

/-- Text is put to the nodes of a copy just if it gets any. -/
theorem copy_nodes (src : Source) (r : Repeater) (s : Statement) (σ : State) (i : Nat) :
    let nodes := ((s.body src (r.turn i)).run (bodyState src r s σ i)).1
    let result := ((copy src r (s.body src) i).run (loopState src r (s.body src) σ i)).1
    (GetsText src r s σ i → result = Node.insertIntoLast (src.textAt i) nodes) ∧
      (¬ GetsText src r s σ i → result = nodes) := by
  intro nodes result
  have hr : result = r.filled src
      (!((s.body src (r.turn i)).run (bodyState src r s σ i)).2.inserted) i nodes := by
    unfold result
    rw [copy_run]
    rfl
  unfold filled at hr
  refine ⟨fun ⟨hi, hn, _⟩ => ?_, fun h => ?_⟩
  · rw [hr, hi, hn]
    rfl
  · split at hr
    · next hc =>
      obtain ⟨hi, hn⟩ := Bool.and_eq_true_iff.mp hc
      have he : nodes = [] := Decidable.byContradiction fun he => h ⟨hi, by simpa using hn, he⟩
      rw [hr, he]
      rfl
    · exact hr

/-! ### Bodies -/

theorem bodyState_inserted {src : Source} {r : Repeater} {s : Statement} {σ : State} {i : Nat}
    (h : (bodyState src r s σ i).inserted = false) : σ.inserted = false := by
  rw [bodyState, replaceTop_inserted] at h
  cases hi : σ.inserted with
  | false => rfl
  | true => rw [loopState_inserted src r s σ i hi] at h; cases h

theorem bodyState_zero (src : Source) (r : Repeater) (s : Statement) (σ : State) :
    (bodyState src r s σ 0).inserted = σ.inserted := replaceTop_inserted _ _

namespace Statement

/-- How many nodes a copy of a statement has. -/
def bodyWidth (src : Source) : Statement → Nat
  | .element _ _ _ => 1
  | .group cs _ => Statement.widthAll src cs

theorem length_body (src : Source) (s : Statement) (snapshot : Repeater) (σ : State) :
    ((s.body src snapshot).run σ).1.length = s.bodyWidth src := by
  cases s with
  | element head cs r =>
    rw [body, run_element (Statement.expandAll_run src cs)]
    rfl
  | group cs r =>
    rw [body, Statement.expandAll_run src cs]
    exact Statement.length_nodesInAll src cs _ _

theorem placements_self {src : Source} {s : Statement} {r : Repeater} (h : s.repeater = some r)
    (p : Position) :
    s.placements src p p = forCopies (fun i => src.textAt i) (r.turns src) (s.bodyWidth src) := by
  cases s <;> cases h <;> rw [placements] <;> exact if_pos rfl

theorem placements_children {src : Source} {s : Statement} {p q : Position} (h : p ≠ q) :
    s.placements src q p ≠ [] ↔ (∀ r, s.repeater = some r → r.turns src ≠ 0) ∧
      Statement.placementsAll src q (p.field "elements") 0 s.children ≠ [] := by
  have hr (r : Repeater) (width : Nat) (inner : List Placement) :
      r.placements src q p width inner ≠ [] ↔ r.turns src ≠ 0 ∧ inner ≠ [] := by
    unfold Repeater.placements
    rw [if_neg h]
    split <;> simp_all
  cases s with
  | element _ cs r =>
    cases r with
    | none => simp [placements, repeater, children]
    | some r => simp [placements, repeater, children, hr]
  | group cs r =>
    cases r with
    | none => simp [placements, repeater, children]
    | some r => simp [placements, repeater, children, hr]

end Statement

/-! ### Only the first mark -/

section Visits

variable {src : Source} {t : Tree} {p q : Position} {k : Nat} {s : Statement} {rest : List Statement}
  {σ τ : State}

/-- What lies ahead of an expansion that comes to some statements of a tree: while it still has its
text, the marks ahead are the marks of the tree, from the first one on; and what has a place ahead has
one in the tree. -/
def Tree.Ahead (src : Source) (t : Tree) (p : Position) (k : Nat) (ss : List Statement) (σ : State) :
    Prop :=
  Statement.CountedAll ss ∧ (σ.inserted = false → Statement.marksAll p k ss <+: t.marks) ∧
    ∀ q, Statement.placementsAll src q p k ss ≠ [] → t.placements src q ≠ []

theorem Tree.Ahead.head (h : t.Ahead src p k (s :: rest) σ) :
    s.Counted ∧ (σ.inserted = false → s.marks (p.item k) <+: t.marks) ∧
      ∀ q, s.placements src q (p.item k) ≠ [] → t.placements src q ≠ [] := by
  obtain ⟨⟨hs, -⟩, hm, hp⟩ := h
  refine ⟨hs, fun hi => (List.prefix_append _ _).trans (hm hi), fun q hq => hp q ?_⟩
  simp [Statement.placementsAll, hq]

theorem Tree.Ahead.next (h : t.Ahead src p k (s :: rest) σ) :
    t.Ahead src p (k + 1) rest ((s.expand src).run σ).2 := by
  obtain ⟨⟨hs, hr⟩, hm, hp⟩ := h
  refine ⟨hr, fun hi => ?_, fun q hq => hp q ?_⟩
  · rw [s.expand_run, after_inserted, Bool.or_eq_false_iff, s.reachesText_eq src hs] at hi
    have hm := hm hi.1
    rw [Statement.marksAll, (s.marks_eq_nil _).mpr hi.2] at hm
    exact hm
  · simp [Statement.placementsAll, hq]

theorem Tree.Ahead.children (h : t.Ahead src p k (s :: rest) σ)
    (hr : ∀ r, s.repeater = some r → r.turns src ≠ 0) (hi : τ.inserted = false → σ.inserted = false) :
    t.Ahead src ((p.item k).field "elements") 0 s.children τ := by
  obtain ⟨hs, hm, hp⟩ := h.head
  refine ⟨Statement.counted_children hs, fun hτ => (s.children_prefix _).trans (hm (hi hτ)), fun q hq => ?_⟩
  have hne : p.item k ≠ q := by
    rintro rfl
    refine hq (Statement.placementsAll_eq_nil _ fun j _ hj => ?_)
    exact Position.ne_of_field (Position.prefix_of_item hj) rfl
  exact hp q ((Statement.placements_children hne).mpr ⟨hr, hq⟩)

theorem Tree.Visits.ahead (hc : t.Counted) {ss : List Statement} (h : t.Visits src p k ss σ) :
    t.Ahead src p k ss σ := by
  induction h with
  | start => exact ⟨hc, fun _ => List.prefix_refl _, fun _ hq => hq⟩
  | next _ ih => exact ih.next
  | once _ hr ih => exact ih.children (fun r h => by rw [hr] at h; cases h) id
  | copy _ hr hi ih =>
    refine ih.children (fun r h => ?_) bodyState_inserted
    rw [hr] at h
    cases h
    omega

theorem Tree.Receives.first_mark (hc : t.Counted) (h : t.Receives src q) :
    t.marks.head? = some (.implicit q) ∧ t.placements src q ≠ [] := by
  obtain ⟨p, k, s, rest, σ, r, i, hv, rfl, hr, hi, himp, hn, hne⟩ := h
  obtain ⟨hs, hm, hp⟩ := (hv.ahead hc).head
  rw [s.body_inserted, Bool.or_eq_false_iff] at hn
  obtain ⟨hb, hbody⟩ := hn
  refine ⟨?_, hp _ ?_⟩
  · have hmarks : s.marks (p.item k) = [.implicit (p.item k)] := by
      rw [s.marks_eq, (Statement.bodyMarks_eq_nil src hs _).mpr hbody, hr]
      simp [Statement.ownMarks, himp]
    obtain ⟨more, hmore⟩ := hm (bodyState_inserted hb)
    rw [← hmore, hmarks]
    rfl
  · have hw : s.bodyWidth src ≠ 0 := by
      rw [← s.length_body src (r.turn i) (bodyState src r s σ i)]
      exact fun h => hne (List.length_eq_zero_iff.mp h)
    rw [Statement.placements_self hr, forCopies_ne_nil]
    exact ⟨hw, by omega⟩

/-! ### The first mark, always -/

theorem Tree.Visits.receives_of_own (hv : t.Visits src p k (s :: rest) σ) (hi : σ.inserted = false)
    (hs : s.Counted) (hb : s.bodyMarks (p.item k) = []) (hr : s.repeater.any (·.implicit) = true)
    (hp : s.placements src (p.item k) (p.item k) ≠ []) : t.Receives src (p.item k) := by
  obtain ⟨r, hr, himp⟩ := (Option.any_eq_true _ _).mp hr
  rw [Statement.placements_self hr, forCopies_ne_nil] at hp
  obtain ⟨hw, hn⟩ := hp
  refine ⟨p, k, s, rest, σ, r, 0, hv, rfl, hr, by omega, himp, ?_, fun hnil => hw ?_⟩
  · rw [s.body_inserted, bodyState_zero, hi, (Statement.bodyMarks_eq_nil src hs _).mp hb]
    rfl
  · rw [← s.length_body src (r.turn 0) (bodyState src r s σ 0), hnil]
    rfl

/-- The first mark is that of the statement itself, or it is the first one of its children. -/
theorem Tree.Visits.receives_of_children (hv : t.Visits src p k (s :: rest) σ) (hi : σ.inserted = false)
    (hs : s.Counted) (hm : (s.marks (p.item k)).head? = some (.implicit q))
    (hp : s.placements src q (p.item k) ≠ [])
    (ih : ∀ {p' τ}, t.Visits src p' 0 s.children τ → τ.inserted = false →
      (Statement.marksAll p' 0 s.children).head? = some (.implicit q) →
      Statement.placementsAll src q p' 0 s.children ≠ [] → t.Receives src q) :
    t.Receives src q := by
  obtain hm | ⟨hb, rfl, hr⟩ := Statement.head_marks hm
  · have hne : p.item k ≠ q := Statement.ne_of_mem_children (List.mem_of_head? hm)
    obtain ⟨hr, hp⟩ := (Statement.placements_children hne).mp hp
    cases hs : s.repeater with
    | none => exact ih (hv.once hs) hi hm hp
    | some r =>
      have hn := hr r hs
      refine ih (hv.copy hs (Nat.pos_of_ne_zero hn)) ?_ hm hp
      rw [bodyState_zero, hi]
  · exact hv.receives_of_own hi hs hb hr hp

mutual

theorem Tree.Visits.receives : ∀ (s : Statement) {rest : List Statement} {p : Position} {k : Nat}
    {σ : State}, t.Visits src p k (s :: rest) σ → σ.inserted = false → s.Counted →
    (s.marks (p.item k)).head? = some (.implicit q) → s.placements src q (p.item k) ≠ [] →
    t.Receives src q
  | .element _ cs _, _, _, _, _, hv, hi, hs, hm, hp =>
    hv.receives_of_children hi hs hm hp fun hv hi => receivesAll cs hv hi hs.2
  | .group cs _, _, _, _, _, hv, hi, hs, hm, hp =>
    hv.receives_of_children hi hs hm hp fun hv hi => receivesAll cs hv hi hs.2

theorem Tree.Visits.receivesAll : ∀ (ss : List Statement) {p : Position} {k : Nat} {σ : State},
    t.Visits src p k ss σ → σ.inserted = false → Statement.CountedAll ss →
    (Statement.marksAll p k ss).head? = some (.implicit q) →
    Statement.placementsAll src q p k ss ≠ [] → t.Receives src q
  | [], _, _, _, _, _, _, _, hp => absurd (by rw [Statement.placementsAll]) hp
  | s :: rest, p, k, σ, hv, hi, ⟨hs, hc⟩, hm, hp => by
    rw [Statement.marksAll] at hm
    by_cases hn : s.marks (p.item k) = []
    · rw [hn, List.nil_append] at hm
      obtain ⟨j, hj, hjq⟩ := Statement.mem_marksAll rest (List.mem_of_head? hm)
      rw [Statement.placementsAll_rest s rest hj hjq] at hp
      refine receivesAll rest hv.next ?_ hc hm fun h => hp (by rw [h]; rfl)
      rw [s.expand_run, after_inserted, hi, s.reachesText_eq src hs, (s.marks_eq_nil _).mp hn]
      rfl
    · obtain ⟨m, ms, he⟩ := List.exists_cons_of_ne_nil hn
      have hm : (s.marks (p.item k)).head? = some (.implicit q) := by
        rw [he] at hm ⊢
        exact hm
      rw [Statement.placementsAll_head s rest (Statement.mem_marks s (List.mem_of_head? hm))] at hp
      exact receives s hv hi hs hm hp

end

/-- The text goes to copies of the statement of the first mark, if it has nodes to put it to, and
nowhere else. -/
theorem Tree.receives_iff (hc : t.Counted) :
    t.Receives src q ↔ t.marks.head? = some (.implicit q) ∧ t.placements src q ≠ [] :=
  ⟨fun h => h.first_mark hc, fun ⟨hm, hp⟩ => Visits.receivesAll t.statements .start rfl hc hm hp⟩

end Visits

end Shorthand
