import Shorthand.Proofs.Document.Grammar
import Shorthand.Proofs.Expansion.Environment
import Shorthand.Proofs.Insertion.Marks
import Shorthand.Proofs.Insertion.Place

/-!
# The first mark gets the text

Where the text of an expansion goes is settled by the tree: the tree is unrolled without any text, and
then the copies of one statement get theirs.

* `Statement.width`: how many nodes a statement unrolls to;
* `Statement.placements src site`: where the nodes of the statement at `site` stand, in the first copy
  of all that is around it, and what text its copies get;
* `firstTexts`: the texts that the first mark calls for;
* `Statement.nodesIn_true`: an expansion that still has its text is an unrolling followed by these;
* `Document.expand_eq_applyAll`: and so is the expansion of a checked document.
-/

namespace Shorthand

open Repeater Placement

/-! ### Widths -/

mutual

def Statement.width (src : Source) : Statement → Nat
  | .element _ _ none => 1
  | .element _ _ (some r) => r.turns src
  | .group cs none => Statement.widthAll src cs
  | .group cs (some r) => r.turns src * Statement.widthAll src cs

def Statement.widthAll (src : Source) : List Statement → Nat
  | [] => 0
  | s :: rest => s.width src + Statement.widthAll src rest

end

mutual

theorem Statement.length_unroll (src : Source) : ∀ (s : Statement) (env : List Repeater),
    (s.unroll src env).length = s.width src
  | .element _ _ none, _ => by rw [unroll, width, List.length_singleton]
  | .element _ _ (some r), _ => by rw [unroll, width, List.length_map, List.length_range]
  | .group cs none, env => by rw [unroll, width, length_unrollAll src cs]
  | .group cs (some r), env => by
    rw [unroll, width, length_copies fun i => length_unrollAll src cs (r.turn i :: env)]

theorem Statement.length_unrollAll (src : Source) : ∀ (ss : List Statement) (env : List Repeater),
    (Statement.unrollAll src env ss).length = Statement.widthAll src ss
  | [], _ => by rw [unrollAll, widthAll, List.length_nil]
  | s :: rest, env => by
    rw [unrollAll, widthAll, List.length_append, length_unroll src s, length_unrollAll src rest]

end

/-! ### Placements -/

/-- The texts for the statement at `site`, if it is the one at `p`, that is repeated and has copies of
`width` nodes, or else if it stands inside of that one, in whose copies `inner` are the texts: then only
the first copy gets them, if there is one. -/
def Repeater.placements (src : Source) (r : Repeater) (site p : Position) (width : Nat)
    (inner : List Placement) : List Placement :=
  if p = site then forCopies (fun i => src.textAt i) (r.turns src) width
  else if r.turns src = 0 then [] else inner

mutual

/-- The texts for the copies of the statement at `site`, each for the last node of its copy, as they
are put to the nodes of the statement at `p`.  Everything around the statement at `site` is in its
first copy. -/
def Statement.placements (src : Source) (site p : Position) : Statement → List Placement
  | .element _ cs none => (Statement.placementsAll src site (p.field "elements") 0 cs).map inside
  | .element _ cs (some r) =>
    r.placements src site p 1 ((Statement.placementsAll src site (p.field "elements") 0 cs).map inside)
  | .group cs none => Statement.placementsAll src site (p.field "elements") 0 cs
  | .group cs (some r) =>
    r.placements src site p (Statement.widthAll src cs)
      (Statement.placementsAll src site (p.field "elements") 0 cs)

/-- The same for the statements of a list at a position, counted from `k`. -/
def Statement.placementsAll (src : Source) (site p : Position) (k : Nat) :
    List Statement → List Placement
  | [] => []
  | s :: rest =>
    s.placements src site (p.item k) ++
      (Statement.placementsAll src site p (k + 1) rest).map (behind (s.width src))

end

/-- The texts for the copies of the statement at `site`, as they are put to the nodes of a tree. -/
def Tree.placements (src : Source) (t : Tree) (site : Position) : List Placement :=
  Statement.placementsAll src site (Tree.root.field "elements") 0 t.statements

theorem Repeater.place_lt_of_mem {src : Source} {r : Repeater} {site p : Position} {width : Nat}
    {inner : List Placement} (h : ∀ x ∈ inner, x.place < width) {x : Placement}
    (hx : x ∈ r.placements src site p width inner) : x.place < r.turns src * width := by
  unfold placements at hx
  split at hx
  · exact place_lt_of_mem_forCopies hx
  · split at hx
    · cases hx
    · next hn => exact Nat.lt_of_lt_of_le (h x hx) (Nat.le_mul_of_pos_left _ (Nat.pos_of_ne_zero hn))

mutual

theorem Statement.place_lt_width {src : Source} {site : Position} : ∀ (s : Statement) {p : Position},
    ∀ x ∈ s.placements src site p, x.place < s.width src
  | .element _ cs none, p, x, hx => by
    rw [placements] at hx
    rw [width]
    exact place_lt_of_mem_inside x hx
  | .element _ cs (some r), p, x, hx => by
    rw [placements] at hx
    rw [width, ← Nat.mul_one (r.turns src)]
    exact r.place_lt_of_mem place_lt_of_mem_inside hx
  | .group cs none, p, x, hx => by
    rw [placements] at hx
    rw [width]
    exact place_lt_widthAll cs x hx
  | .group cs (some r), p, x, hx => by
    rw [placements] at hx
    rw [width]
    exact r.place_lt_of_mem (place_lt_widthAll cs) hx

theorem Statement.place_lt_widthAll {src : Source} {site : Position} : ∀ (ss : List Statement)
    {p : Position} {k : Nat}, ∀ x ∈ Statement.placementsAll src site p k ss,
      x.place < Statement.widthAll src ss
  | [], _, _, _, hx => by cases hx
  | s :: rest, p, k, x, hx => by
    rw [placementsAll, List.mem_append] at hx
    rw [widthAll]
    obtain hx | hx := hx
    · have h := place_lt_width s x hx
      omega
    · obtain ⟨y, hy, rfl⟩ := List.mem_map.mp hx
      have h := place_lt_widthAll rest y hy
      dsimp only [behind]
      omega

end

theorem Repeater.placements_nil {src : Source} {r : Repeater} {site p : Position} {width : Nat}
    (h : p ≠ site) : r.placements src site p width [] = [] := by
  rw [placements, if_neg h]
  split <;> rfl

mutual

/-- A statement has no node for a site that does not stand below it. -/
theorem Statement.placements_eq_nil {src : Source} {site : Position} : ∀ (s : Statement) {p : Position},
    ¬ p <+: site → s.placements src site p = []
  | .element _ cs none, p, h => by
    rw [placements, placementsAll_eq_nil cs fun j _ => Position.not_prefix_of_child h j, List.map_nil]
  | .element _ cs (some r), p, h => by
    have hp : p ≠ site := fun he => h (he ▸ List.prefix_refl p)
    rw [placements, placementsAll_eq_nil cs fun j _ => Position.not_prefix_of_child h j, List.map_nil,
      r.placements_nil hp]
  | .group cs none, p, h => by
    rw [placements, placementsAll_eq_nil cs fun j _ => Position.not_prefix_of_child h j]
  | .group cs (some r), p, h => by
    have hp : p ≠ site := fun he => h (he ▸ List.prefix_refl p)
    rw [placements, placementsAll_eq_nil cs fun j _ => Position.not_prefix_of_child h j,
      r.placements_nil hp]

theorem Statement.placementsAll_eq_nil {src : Source} {site : Position} : ∀ (ss : List Statement)
    {p : Position} {k : Nat}, (∀ j, k ≤ j → ¬ p.item j <+: site) →
      Statement.placementsAll src site p k ss = []
  | [], _, _, _ => by rw [placementsAll]
  | s :: rest, p, k, h => by
    rw [placementsAll, placements_eq_nil s (h k (Nat.le_refl k)),
      placementsAll_eq_nil rest fun j hj => h j (Nat.le_of_succ_le hj), List.map_nil, List.append_nil]

end

section List

variable {src : Source} {p q : Position} (s : Statement) (rest : List Statement) {j k : Nat}

theorem Statement.placementsAll_head (h : p.item k <+: q) :
    Statement.placementsAll src q p k (s :: rest) = s.placements src q (p.item k) := by
  rw [placementsAll, placementsAll_eq_nil rest fun j hj hjq => ?_, List.map_nil, List.append_nil]
  have he := Position.item_inj h hjq
  omega

theorem Statement.placementsAll_rest (hj : k + 1 ≤ j) (h : p.item j <+: q) :
    Statement.placementsAll src q p k (s :: rest) =
      (Statement.placementsAll src q p (k + 1) rest).map (behind (s.width src)) := by
  rw [placementsAll, placements_eq_nil s fun hkq => ?_, List.nil_append]
  have he := Position.item_inj h hkq
  omega

end List

/-! ### The first mark -/

/-- The texts that the first of some marks calls for: an implicit repeater calls for those of its
copies, and a placeholder for none. -/
def firstTexts (placements : Position → List Placement) (marks : List Mark) : List Placement :=
  match marks.head? with
  | some (.implicit site) => placements site
  | _ => []

/-- The nodes of a repeated statement whose text still waits.  Marks in the body leave the text to the
first copy; without any, the repeater puts it to all copies, if it is implicit. -/
theorem Repeater.nodesIn_true (src : Source) (r : Repeater) {marks : Bool}
    {nodes : Nat → Bool → List Node} {w : Nat} {inner : List Placement}
    (hl : ∀ i, (nodes i false).length = w) (hp : ∀ x ∈ inner, x.place < w)
    (step : ∀ i, nodes i true = applyAll inner (nodes i false)) (hm : marks = false → inner = []) :
    r.nodesIn src marks true nodes =
      applyAll
        (if marks then if r.turns src = 0 then [] else inner
          else if r.implicit then forCopies (fun i => src.textAt i) (r.turns src) w else [])
        ((List.range (r.turns src)).flatMap (nodes · false)) := by
  unfold nodesIn filled waitsAfter
  cases marks with
  | false =>
    have hs (i : Nat) : nodes i true = nodes i false := by rw [step i, hm rfl]; rfl
    simp only [Bool.and_false, Bool.not_false, Bool.and_true, hs, Bool.false_eq_true, if_false]
    cases r.implicit with
    | true => simp only [if_true]; exact (applyAll_copies _ hl _).symm
    | false => rfl
  | true =>
    simp only [Bool.and_true, Bool.not_true, Bool.and_false, Bool.true_and, Bool.false_eq_true, if_false,
      if_true]
    cases r.turns src with
    | zero => rfl
    | succ n =>
      have h0 : applyAll inner (nodes 0 false ++ (List.map Nat.succ (List.range n)).flatMap (nodes · false)) =
          applyAll inner (nodes 0 false) ++ (List.map Nat.succ (List.range n)).flatMap (nodes · false) :=
        applyAll_append_left (fun x hx => (hl 0).symm ▸ hp x hx) _
      rw [List.range_succ_eq_map, List.flatMap_cons, List.flatMap_cons, if_neg (Nat.succ_ne_zero n), h0,
        ← step 0, List.flatMap_map, List.flatMap_map]
      rfl

section FirstTexts

variable {f g : Position → List Placement} {ms : List Mark}

theorem firstTexts_congr (h : ∀ q, .implicit q ∈ ms → f q = g q) : firstTexts f ms = firstTexts g ms := by
  unfold firstTexts
  split
  · next site hs => exact h site (List.mem_of_head? hs)
  · rfl

theorem firstTexts_of_ne_nil (h : ms ≠ []) (ns : List Mark) : firstTexts f (ms ++ ns) = firstTexts f ms := by
  obtain ⟨m, ms, rfl⟩ := List.exists_cons_of_ne_nil h
  rfl

theorem firstTexts_map (f : Position → List Placement) (e : Placement → Placement) (ms : List Mark) :
    firstTexts (fun q => (f q).map e) ms = (firstTexts f ms).map e := by
  unfold firstTexts
  split <;> rfl

theorem firstTexts_placeholders (h : ∀ q, .implicit q ∉ ms) : firstTexts f ms = [] := by
  unfold firstTexts
  split
  · next site hs => exact absurd (List.mem_of_head? hs) (h site)
  · rfl

theorem firstTexts_body (head : Element) : firstTexts f (ms ++ head.marks) = firstTexts f ms := by
  by_cases h : ms = []
  · subst h
    exact firstTexts_placeholders head.not_mem_marks
  · exact firstTexts_of_ne_nil h _

theorem mem_firstTexts {x : Placement} (h : x ∈ firstTexts f ms) : ∃ q, x ∈ f q := by
  unfold firstTexts at h
  split at h
  · next site _ => exact ⟨site, h⟩
  · cases h

theorem firstTexts_repeated (src : Source) (r : Repeater) {p : Position} (w : Nat) {marks : Bool}
    (hp : ∀ q, .implicit q ∈ ms → p ≠ q) (hm : ms = [] ↔ marks = false) :
    firstTexts (fun q => r.placements src q p w (f q)) (ms ++ Statement.ownMarks p (some r)) =
      if marks then if r.turns src = 0 then [] else firstTexts f ms
      else if r.implicit then forCopies (fun i => src.textAt i) (r.turns src) w else [] := by
  cases marks with
  | true =>
    have hn : ms ≠ [] := by simp [hm]
    have hf : ∀ q, .implicit q ∈ ms →
        r.placements src q p w (f q) = if r.turns src = 0 then [] else f q := fun q hq => if_neg (hp q hq)
    rw [firstTexts_of_ne_nil hn, if_pos rfl, firstTexts_congr hf]
    by_cases ht : r.turns src = 0
    · simp only [if_pos ht]
      unfold firstTexts
      split <;> rfl
    · simp only [if_neg ht]
  | false =>
    obtain rfl : ms = [] := hm.mpr rfl
    cases hi : r.implicit <;> simp [firstTexts, Statement.ownMarks, hi, Repeater.placements]

end FirstTexts

/-! ### Expansion and unrolling -/

/-- A repeated statement: `ms` are the marks of its body, and `f` the texts for the nodes of a copy. -/
theorem Repeater.nodesIn_firstTexts (src : Source) (r : Repeater) {p : Position} {w : Nat}
    {marks : Bool} {ms : List Mark} {f : Position → List Placement} (nodes : Nat → Bool → List Node)
    (hp : ∀ q, .implicit q ∈ ms → p ≠ q) (hm : ms = [] ↔ marks = false)
    (hl : ∀ i, (nodes i false).length = w) (hf : ∀ q, ∀ x ∈ f q, x.place < w)
    (step : ∀ i, nodes i true = applyAll (firstTexts f ms) (nodes i false)) :
    r.nodesIn src marks true nodes =
      applyAll (firstTexts (fun q => r.placements src q p w (f q)) (ms ++ Statement.ownMarks p (some r)))
        ((List.range (r.turns src)).flatMap (nodes · false)) := by
  have hx : ∀ x ∈ firstTexts f ms, x.place < w := by
    intro x hx
    obtain ⟨q, hq⟩ := mem_firstTexts hx
    exact hf q x hq
  have hn : marks = false → firstTexts f ms = [] := by
    intro h
    rw [hm.mpr h]
    rfl
  rw [firstTexts_repeated src r w hp hm, r.nodesIn_true src hl hx step hn]

mutual

/-- **An expansion that still has its text is an unrolling followed by the texts that the first mark
calls for.** -/
theorem Statement.nodesIn_true (src : Source) : ∀ (s : Statement) (p : Position) (env : List Repeater),
    s.Counted → s.nodesIn src env true =
      applyAll (firstTexts (fun q => s.placements src q p) (s.marks p)) (s.unroll src env)
  | .element head cs none, p, env, hc => by
    have ih := nodesInAll_true src cs (p.field "elements") 0 env hc.2
    have hm : (Statement.element head cs none).marks p =
        Statement.marksAll (p.field "elements") 0 cs ++ head.marks := List.append_nil _
    simp only [placements]
    rw [nodesIn, unroll, hm, firstTexts_body, firstTexts_map, applyAll_inside, ih]
    rfl
  | .element head cs (some r), p, env, hc => by
    have ih (i : Nat) := nodesInAll_true src cs (p.field "elements") 0 (r.turn i :: env) hc.2
    simp only [placements]
    rw [nodesIn, unroll, marks_eq, List.map_eq_flatMap]
    simp only [← nodesInAll_false src cs]
    refine r.nodesIn_firstTexts src (fun i w =>
      [head.nodeIn src (r.turn i :: env) (Statement.nodesInAll src (r.turn i :: env) w cs) (some (r.turn i))])
      (fun q => ne_of_mem_bodyMarks) (bodyMarks_eq_nil src hc p) (fun _ => rfl)
      (fun q => place_lt_of_mem_inside) fun i => ?_
    rw [bodyMarks, firstTexts_body, firstTexts_map, applyAll_inside, ih, ← nodesInAll_false src cs]
    rfl
  | .group cs none, p, env, hc => by
    have ih := nodesInAll_true src cs (p.field "elements") 0 env hc.2
    have hm : (Statement.group cs none).marks p = Statement.marksAll (p.field "elements") 0 cs :=
      List.append_nil _
    simp only [placements]
    rw [nodesIn, unroll, hm, ih]
  | .group cs (some r), p, env, hc => by
    have ih (i : Nat) := nodesInAll_true src cs (p.field "elements") 0 (r.turn i :: env) hc.2
    simp only [placements]
    rw [nodesIn, unroll, marks_eq]
    simp only [← nodesInAll_false src cs] at ih ⊢
    refine r.nodesIn_firstTexts src (fun i w => Statement.nodesInAll src (r.turn i :: env) w cs)
      (fun q => ne_of_mem_bodyMarks) (bodyMarks_eq_nil src hc p) (fun i => ?_)
      (fun q => place_lt_widthAll cs) ih
    rw [nodesInAll_false src cs, length_unrollAll src cs]

theorem Statement.nodesInAll_true (src : Source) : ∀ (ss : List Statement) (p : Position) (k : Nat)
    (env : List Repeater), Statement.CountedAll ss → Statement.nodesInAll src env true ss =
      applyAll (firstTexts (fun q => Statement.placementsAll src q p k ss) (Statement.marksAll p k ss))
        (Statement.unrollAll src env ss)
  | [], _, _, _, _ => by rw [nodesInAll, unrollAll, applyAll_no_nodes]
  | s :: rest, p, k, env, hc => by
    have ihs := nodesIn_true src s (p.item k) env hc.1
    have ihr := nodesInAll_true src rest p (k + 1) env hc.2
    rw [nodesInAll, unrollAll, marksAll, reachesText_eq src s hc.1, Bool.true_and, ihs]
    cases hs : s.mentionsText with
    | true =>
      -- the first mark stands in `s`, and the statements after it are unrolled
      have hn : s.marks (p.item k) ≠ [] := by simp [marks_eq_nil, hs]
      have hl : ∀ x ∈ firstTexts (fun q => s.placements src q (p.item k)) (s.marks (p.item k)),
          x.place < (s.unroll src env).length := by
        intro x hx
        obtain ⟨q, hq⟩ := mem_firstTexts hx
        rw [s.length_unroll]
        exact place_lt_width s x hq
      rw [firstTexts_of_ne_nil hn, firstTexts_congr fun q hq => placementsAll_head s rest (mem_marks s hq),
        Bool.not_true, nodesInAll_false src rest, applyAll_append_left hl]
    | false =>
      -- there is no mark in `s`, and the text waits for the statements after it
      have hn : s.marks (p.item k) = [] := (marks_eq_nil s _).mpr hs
      have hr : firstTexts (fun q => Statement.placementsAll src q p k (s :: rest))
          (Statement.marksAll p (k + 1) rest) =
            (firstTexts (fun q => Statement.placementsAll src q p (k + 1) rest)
              (Statement.marksAll p (k + 1) rest)).map (behind (s.unroll src env).length) := by
        rw [← firstTexts_map, s.length_unroll]
        refine firstTexts_congr fun q hq => ?_
        obtain ⟨j, hj, h⟩ := mem_marksAll rest hq
        exact placementsAll_rest s rest hj h
      rw [hn, List.nil_append, hr, Bool.not_false, ihr, applyAll_behind]
      rfl

end

/-! ### Documents -/

/-- **The first mark of a tree settles where the text goes.**  The tree of a checked document expands
as it unrolls, which is what it expands to when the text has found its place before, and after that the
copies of the first implicit repeater get their texts, if no placeholder comes before it: every copy
gets its own at its end, in the first copy of all that is around the repeater, and nothing else gets
any. -/
theorem Document.expand_eq_applyAll (d : Document) (t : Tree) (h : d.validate = .ok t) (src : Source) :
    ((Statement.expandAll src t.statements).run { inserted := true }).1 =
      Statement.unrollAll src [] t.statements ∧
    t.expand src =
      match t.marks.head? with
      | some (.implicit site) => applyAll (t.placements src site) (Statement.unrollAll src [] t.statements)
      | _ => Statement.unrollAll src [] t.statements := by
  have hc : Statement.CountedAll t.statements := d.counted_of_validate h
  refine ⟨?_, ?_⟩
  · rw [Statement.expandAll_run]
    exact Statement.nodesInAll_false src t.statements []
  · have hn := Statement.nodesInAll_true src t.statements (Tree.root.field "elements") 0 [] hc
    rw [Tree.expand, Tree.run, Statement.expandAll_run]
    refine hn.trans ?_
    unfold firstTexts Tree.marks
    split <;> rfl

/-- Two lists with an item for every text: the items of the first list get the texts, and a rule after
the lists, which is repeated for every text too, gets none. -/
theorem Document.expand_eq_applyAll_lists :
    let implicit : Value := .map [(.string "implicit", .bool true)]
    let item : Value := .map [(.string "name", .string "li"), (.string "repeat", implicit)]
    let list : Value := .map [(.string "name", .string "ul"), (.string "elements", .list [item]),
      (.string "repeat", .map [(.string "count", .int 2)])]
    let rule : Value := .map [(.string "name", .string "hr"), (.string "repeat", implicit)]
    let d : Document := { version := .string "1", tree := .map [(.string "elements", .list [list, rule])] }
    let r : Repeater := { implicit := true }
    let t : Tree := { statements := [
      .element { name := some [.literal "ul"] } [.element { name := some [.literal "li"] } [] (some r)]
        (some { count := some 2 }),
      .element { name := some [.literal "hr"] } [] (some r)] }
    let src : Source := { text := .items [some "a", some "b"] }
    let site : Position := (((Tree.root.field "elements").item 0).field "elements").item 0
    let li (i : Nat) (value : Option (List Entry)) : Node :=
      { name := some "li", value, repeater := some (r.turn i) }
    let ul (i : Nat) (children : List Node) : Node :=
      { name := some "ul", children, repeater := some { count := some 2, value := i } }
    let hr (i : Nat) : Node := { name := some "hr", repeater := some (r.turn i) }
    d.validate = .ok t ∧ t.marks.head? = some (.implicit site) ∧
      t.placements src site =
        [{ place := 0, way := [0], text := "a" }, { place := 0, way := [1], text := "b" }] ∧
      t.expand src = [ul 0 [li 0 (some [.text "a"]), li 1 (some [.text "b"])],
        ul 1 [li 0 none, li 1 none], hr 0, hr 1] := by
  intro implicit item list rule d r t src site li ul hr
  have h : d.validate = .ok t := rfl
  obtain ⟨-, he⟩ := d.expand_eq_applyAll t h src
  exact ⟨h, rfl, rfl, he.trans rfl⟩

end Shorthand
