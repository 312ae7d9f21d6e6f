import Shorthand.Proofs.Expansion.Totals
import Shorthand.Proofs.Insertion.Moments
import Shorthand.Proofs.Number.Padded

/-!
# What the log says about the text

The log of an expansion has a line about the text that was inserted, with a number of copies.  It is written
where an implicit repeater ends that still has its text, and the number is that of the copies it has made.
Each of these got its text, if there was a node to put it to; copies without nodes get none, and they are
counted all the same.

* `Statement.receipts`: the copies that get text in the run of a statement;
* `Told`: what the log says about a run, and the copies that get text in it;
* `Statement.told_receipts`: how the two belong together in every run;
* `Tree.announced_receipts`: what the log of a tree says, and how much of it is true.
-/

namespace Shorthand

open Expansion State Repeater Placement

/-! ### Announcements -/

/-- The number of copies that an event says to have got text. -/
def Event.announced? : Event → Option Int
  | .insertedText copies => some copies
  | _ => none

/-- The numbers of copies that are said to have got text, in the log of a tree. -/
def Tree.announced (src : Source) (t : Tree) : List Int := (t.events src).filterMap Event.announced?

/-- The line of an announcement is that of no other event. -/
theorem Event.line_eq_iff (e : Event) (n : Int) : e.line = (Event.insertedText n).line ↔ e = .insertedText n := by
  constructor
  · intro h
    have hlevel : e.line.level = .debug := congrArg LogLine.level h
    have hmessage : e.line.message = (Event.insertedText n).line.message := congrArg LogLine.message h
    have hhead : e.line.message.toList.head? = some 'i' := by
      rw [hmessage]
      simp [line, toString]
    cases e with
    | insertedText m =>
      have hmn : toString m = toString n := by
        simpa [line] using hmessage
      rw [Number.toString_eq_padded, Number.toString_eq_padded] at hmn
      rw [Number.padded_inj hmn]
    | expanding => simp [line, toString] at hhead
    | unresolved => simp [line, toString] at hhead
    | unmatchedQuote => cases hlevel
    | unmatchedExpression => cases hlevel
  · rintro rfl
    rfl

theorem Tree.line_mem_iff (src : Source) (t : Tree) (n : Int) :
    (Event.insertedText n).line ∈ (t.events src).map Event.line ↔ n ∈ t.announced src := by
  unfold announced
  rw [List.mem_map, List.mem_filterMap]
  constructor
  · rintro ⟨e, he, hline⟩
    rw [Event.line_eq_iff] at hline
    subst hline
    exact ⟨_, he, rfl⟩
  · rintro ⟨e, he, hn⟩
    refine ⟨e, he, ?_⟩
    cases e with
    | insertedText m =>
      cases hn
      rfl
    | expanding | unmatchedQuote | unmatchedExpression | unresolved => cases hn

/-- When an element is built, nothing is said about copies. -/
theorem Element.announces_nothing (src : Source) (env : List Repeater) (head : Element) :
    (head.eventsIn src env).filterMap Event.announced? = [] := by
  refine List.filterMap_eq_nil_iff.mpr ?_
  intro e he
  have hbuild := head.isOfBuild_of_mem he
  cases e with
  | insertedText => cases hbuild
  | expanding | unmatchedQuote | unmatchedExpression | unresolved => rfl

/-! ### Receipts -/

/-- A copy that gets text: where its statement stands, and which one of its copies it is. -/
structure Receipt where
  site : Position
  copy : Nat
  deriving DecidableEq, Repr

instance (src : Source) (r : Repeater) (s : Statement) (σ : State) (i : Nat) :
    Decidable (GetsText src r s σ i) :=
  inferInstanceAs (Decidable (_ ∧ _ ∧ _))

/-- The copies that get text when the repeated statement `s` at `p` is expanded from the state `σ` on: with
each of its copies those inside, for which `inner` takes the state in which the body begins, and then the copy
itself. -/
def Repeater.receipts (src : Source) (r : Repeater) (s : Statement) (p : Position) (σ : State)
    (inner : State → List Receipt) : List Receipt :=
  (List.range (r.turns src)).flatMap fun i =>
    inner (bodyState src r s σ i) ++ if GetsText src r s σ i then [⟨p, i⟩] else []

mutual

/-- The copies that get text when a statement at a position is expanded from the state `σ` on. -/
def Statement.receipts (src : Source) (p : Position) (σ : State) : Statement → List Receipt
  | .element _ cs none => Statement.receiptsAll src (p.field "elements") 0 σ cs
  | .element head cs (some r) =>
    r.receipts src (.element head cs (some r)) p σ fun τ =>
      Statement.receiptsAll src (p.field "elements") 0 τ cs
  | .group cs none => Statement.receiptsAll src (p.field "elements") 0 σ cs
  | .group cs (some r) =>
    r.receipts src (.group cs (some r)) p σ fun τ => Statement.receiptsAll src (p.field "elements") 0 τ cs

/-- The same for the statements of a list at a position, counted from `k`. -/
def Statement.receiptsAll (src : Source) (p : Position) (k : Nat) (σ : State) : List Statement → List Receipt
  | [] => []
  | s :: rest =>
    s.receipts src (p.item k) σ ++ Statement.receiptsAll src p (k + 1) ((s.expand src).run σ).2 rest

end

def Tree.receipts (src : Source) (t : Tree) : List Receipt :=
  Statement.receiptsAll src (Tree.root.field "elements") 0 {} t.statements

/-- A copy gets text if its repeater is implicit, the text waits and the body leaves it alone, and there is
a node to put it to. -/
theorem getsText_iff (src : Source) (r : Repeater) (s : Statement) (σ : State) (i : Nat) :
    GetsText src r s σ i ↔
      r.implicit = true ∧ (!σ.inserted && !s.bodyReaches src) = true ∧ 0 < s.bodyWidth src := by
  have hinserted : ((s.body src (r.turn i)).run (bodyState src r s σ i)).2.inserted = false ↔
      (!σ.inserted && !s.bodyReaches src) = true := by
    have hwaits := bodyState_waits src r s σ i
    unfold waitsAfter at hwaits
    rw [s.body_inserted]
    revert hwaits
    cases (bodyState src r s σ i).inserted <;> cases s.bodyReaches src <;> cases σ.inserted <;> simp
  have hnodes : ((s.body src (r.turn i)).run (bodyState src r s σ i)).1 ≠ [] ↔ 0 < s.bodyWidth src := by
    rw [← s.length_body src (r.turn i) (bodyState src r s σ i), List.length_pos_iff]
  unfold GetsText
  dsimp only
  rw [hinserted, hnodes]

/-! ### Receipts and insertions -/

/-- Of a repeated statement, the texts that are inserted are those of the receipts. -/
theorem Repeater.texts_insertions (src : Source) (r : Repeater) (s : Statement) (p : Position) (σ : State)
    {placements : Bool → List Placement} {inner : State → List Receipt}
    (h : ∀ τ : State, (placements (!τ.inserted)).map (·.text) = (inner τ).map fun x => src.textAt x.copy) :
    (r.insertions src (s.bodyReaches src) (!σ.inserted) (s.bodyWidth src) placements).map (·.text) =
      (r.receipts src s p σ inner).map fun x => src.textAt x.copy := by
  unfold insertions receipts
  rw [List.map_flatMap, List.map_flatMap]
  refine List.flatMap_congr ?_
  intro i _
  have hbehind (xs : List Placement) (v : Nat) : (xs.map (behind v)).map (·.text) = xs.map (·.text) := by
    rw [List.map_map]
    rfl
  have hown : (r.ownInsertion src (!σ.inserted && !s.bodyReaches src) (s.bodyWidth src) i).map (·.text) =
      (if GetsText src r s σ i then [(⟨p, i⟩ : Receipt)] else []).map fun x => src.textAt x.copy := by
    unfold ownInsertion
    simp only [getsText_iff, Bool.and_eq_true, decide_eq_true_eq, and_assoc]
    split <;> rfl
  rw [hbehind, List.map_append, List.map_append, hown, ← bodyState_waits, h]

mutual

theorem Statement.texts_insertions (src : Source) : ∀ (s : Statement) (p : Position) (σ : State),
    (s.insertions src (!σ.inserted)).map (·.text) = (s.receipts src p σ).map fun x => src.textAt x.copy
  | .element head cs none, p, σ => by
    rw [insertions, receipts, List.map_map]
    exact texts_insertionsAll src cs _ 0 σ
  | .element head cs (some r), p, σ => by
    rw [insertions, receipts]
    refine r.texts_insertions src (.element head cs (some r)) p σ ?_
    intro τ
    rw [List.map_map]
    exact texts_insertionsAll src cs _ 0 τ
  | .group cs none, p, σ => by
    rw [insertions, receipts]
    exact texts_insertionsAll src cs _ 0 σ
  | .group cs (some r), p, σ => by
    rw [insertions, receipts]
    exact r.texts_insertions src (.group cs (some r)) p σ fun τ => texts_insertionsAll src cs _ 0 τ

theorem Statement.texts_insertionsAll (src : Source) : ∀ (ss : List Statement) (p : Position) (k : Nat)
    (σ : State), (Statement.insertionsAll src (!σ.inserted) ss).map (·.text) =
      (Statement.receiptsAll src p k σ ss).map fun x => src.textAt x.copy
  | [], _, _, _ => by
    rw [insertionsAll, receiptsAll]
    rfl
  | s :: rest, p, k, σ => by
    have hrest := texts_insertionsAll src rest p (k + 1) ((s.expand src).run σ).2
    rw [s.expand_run, after_inserted, Bool.not_or] at hrest
    rw [insertionsAll, receiptsAll, List.map_append, List.map_append, texts_insertions src s (p.item k) σ,
      s.expand_run, ← hrest, List.map_map]
    rfl

end

/-- **A receipt for every text.**  The texts that are inserted while a tree is expanded are those of the
copies that get text. -/
theorem Tree.texts_insertions (src : Source) (t : Tree) :
    (t.insertions src).map (·.text) = (t.receipts src).map fun x => src.textAt x.copy :=
  Statement.texts_insertionsAll src t.statements (root.field "elements") 0 {}

/-! ### What is told -/

/-- What a run over the statements of a walk says about copies that got text, and the copies that got it.  A
run that takes hold of the text may have said nothing, for the text went into a placeholder; or it has named
the copies of one implicit repeater, and these got their texts if they have nodes.  A run that does not take
hold of the text says nothing, and no copy gets any. -/
inductive Told (src : Source) (walk : List (Position × Statement)) :
    Bool → List Int → List Receipt → Prop where
  | nothing (takes : Bool) : Told src walk takes [] []
  | copies {q s r} (hw : (q, s) ∈ walk) (hr : s.repeater = some r) (hi : r.implicit = true) :
    Told src walk true [r.copies src]
      (if s.bodyWidth src = 0 then [] else (List.range (r.turns src)).map (Receipt.mk q))

namespace Told

variable {src : Source} {walk walk' : List (Position × Statement)} {takes takes' : Bool} {ns ms : List Int}
  {xs ys : List Receipt}

theorem mono (h : Told src walk takes ns xs) (hw : walk ⊆ walk') (ht : takes = true → takes' = true) :
    Told src walk' takes' ns xs := by
  cases h with
  | nothing => exact nothing takes'
  | copies hq hr hi =>
    rw [ht rfl]
    exact copies (hw hq) hr hi

theorem eq_nil (h : Told src walk false ns xs) : ns = [] ∧ xs = [] := by
  cases h
  exact ⟨rfl, rfl⟩

theorem length_le_one (h : Told src walk takes ns xs) : ns.length ≤ 1 := by
  cases h with
  | nothing => exact Nat.zero_le 1
  | copies => exact Nat.le_refl 1

theorem receipts_eq_nil (h : Told src walk takes [] xs) : xs = [] := by
  cases h
  rfl

/-- Copies that are named are those of an implicit repeater. -/
theorem exists_of_mem {n : Int} (h : Told src walk takes ns xs) (hn : n ∈ ns) :
    ∃ q s r, (q, s) ∈ walk ∧ s.repeater = some r ∧ r.implicit = true ∧ r.copies src = n ∧
      xs = if s.bodyWidth src = 0 then [] else (List.range n.toNat).map (Receipt.mk q) := by
  cases h with
  | nothing => cases hn
  | @copies q s r hw hr hi =>
    rw [List.mem_singleton] at hn
    subst hn
    exact ⟨q, s, r, hw, hr, hi, rfl, rfl⟩

/-- Of two runs, one after the other, only one takes hold of the text. -/
theorem append {waiting b c : Bool} (h : Told src walk (waiting && b) ns xs)
    (h' : Told src walk (waiting && !b && c) ms ys) : Told src walk (waiting && (b || c)) (ns ++ ms) (xs ++ ys) := by
  by_cases hb : (waiting && b) = true
  · have hc : (waiting && !b && c) = false := by
      revert hb
      cases waiting <;> cases b <;> simp
    rw [hc] at h'
    obtain ⟨rfl, rfl⟩ := h'.eq_nil
    rw [List.append_nil, List.append_nil]
    refine h.mono (List.Subset.refl _) ?_
    revert hb
    cases waiting <;> cases b <;> simp
  · rw [Bool.not_eq_true] at hb
    rw [hb] at h
    obtain ⟨rfl, rfl⟩ := h.eq_nil
    refine h'.mono (List.Subset.refl _) ?_
    revert hb
    cases waiting <;> cases b <;> simp

/-- The copies of a loop, one after the other: only the first one finds text. -/
theorem flatMap_range {waiting marks : Bool} {ns : Nat → List Int} {xs : Nat → List Receipt}
    (h : ∀ i, Told src walk (waitsAfter waiting marks i && marks) (ns i) (xs i)) (n : Nat) :
    Told src walk (waiting && (decide (0 < n) && marks)) ((List.range n).flatMap ns)
      ((List.range n).flatMap xs) := by
  induction n with
  | zero => exact nothing _
  | succ n ih =>
    have hlast : Told src walk (waiting && !(decide (0 < n) && marks) && marks) (ns n) (xs n) := h n
    rw [List.range_succ, List.flatMap_append, List.flatMap_append, List.flatMap_singleton,
      List.flatMap_singleton]
    refine (ih.append hlast).mono (List.Subset.refl _) ?_
    cases waiting <;> cases marks <;> simp

end Told

/-! ### Runs -/

namespace Repeater

variable (src : Source) (r : Repeater) {s : Statement} {p : Position} {σ : State}

/-- What a loop says about copies: what is said in each of its copies, and at its end how many it has made, if
it is implicit and still has the text. -/
theorem filterMap_announced (marks waiting : Bool) (events : Nat → Bool → List Event) :
    (r.eventsIn src marks waiting events).filterMap Event.announced? =
      ((List.range (r.turns src)).flatMap fun i =>
        (events i (waitsAfter waiting marks i)).filterMap Event.announced?) ++
      if r.implicit && waitsAfter waiting marks (r.turns src) then [r.copies src] else [] := by
  unfold eventsIn
  rw [List.filterMap_cons_none rfl, List.filterMap_append, List.filterMap_flatMap]
  split <;> rfl

/-- A loop that is implicit, finds text and leaves it alone in its bodies: all of its copies get text, if they
have nodes. -/
theorem receipts_of_own (hi : r.implicit = true) (hw : (!σ.inserted && !s.bodyReaches src) = true)
    {inner : State → List Receipt} (h : ∀ i, inner (bodyState src r s σ i) = []) :
    r.receipts src s p σ inner =
      if s.bodyWidth src = 0 then [] else (List.range (r.turns src)).map (Receipt.mk p) := by
  unfold receipts
  simp only [h, List.nil_append, getsText_iff, hi, hw, true_and]
  by_cases hwidth : s.bodyWidth src = 0
  · rw [if_pos hwidth]
    simp [hwidth]
  · have hpos : 0 < s.bodyWidth src := Nat.pos_of_ne_zero hwidth
    rw [if_neg hwidth, List.map_eq_flatMap]
    simp [hpos]

theorem receipts_of_not_own (h : ¬ (r.implicit = true ∧ (!σ.inserted && !s.bodyReaches src) = true))
    (inner : State → List Receipt) :
    r.receipts src s p σ inner = (List.range (r.turns src)).flatMap fun i => inner (bodyState src r s σ i) := by
  unfold receipts
  refine List.flatMap_congr ?_
  intro i _
  have hnot : ¬ GetsText src r s σ i := by
    rw [getsText_iff]
    intro hg
    exact h ⟨hg.1, hg.2.1⟩
  rw [if_neg hnot, List.append_nil]

/-- A loop is told if its bodies are, of which `events` is the log, and `inner` the copies inside that get
text. -/
theorem told_receipts {walk : List (Position × Statement)} (hp : (p, s) ∈ walk) (hr : s.repeater = some r)
    {events : Nat → Bool → List Event} {inner : State → List Receipt}
    (h : ∀ i (τ : State), Told src walk (!τ.inserted && s.bodyReaches src)
      ((events i (!τ.inserted)).filterMap Event.announced?) (inner τ)) :
    Told src walk (!σ.inserted && r.reaches src (s.bodyReaches src))
      ((r.eventsIn src (s.bodyReaches src) (!σ.inserted) events).filterMap Event.announced?)
      (r.receipts src s p σ inner) := by
  have hbody (i : Nat) : Told src walk (waitsAfter (!σ.inserted) (s.bodyReaches src) i && s.bodyReaches src)
      ((events i (waitsAfter (!σ.inserted) (s.bodyReaches src) i)).filterMap Event.announced?)
      (inner (bodyState src r s σ i)) := by
    rw [← bodyState_waits]
    exact h i _
  rw [filterMap_announced]
  unfold reaches
  by_cases hown : r.implicit = true ∧ (!σ.inserted && !s.bodyReaches src) = true
  · -- the bodies leave the text alone, and the loop gives it to its own copies
    obtain ⟨hi, hw⟩ := hown
    obtain ⟨hσ, hm⟩ := Bool.and_eq_true_iff.mp hw
    have hm : s.bodyReaches src = false := by simpa using hm
    rw [hm] at hbody ⊢
    have hnil (i : Nat) : (events i (waitsAfter (!σ.inserted) false i)).filterMap Event.announced? = [] ∧
        inner (bodyState src r s σ i) = [] := by
      have hi := hbody i
      rw [Bool.and_false] at hi
      exact hi.eq_nil
    have hevents : ((List.range (r.turns src)).flatMap fun i =>
        (events i (waitsAfter (!σ.inserted) false i)).filterMap Event.announced?) = [] :=
      List.flatMap_eq_nil_iff.mpr fun i _ => (hnil i).1
    rw [r.receipts_of_own src hi hw fun i => (hnil i).2, hevents, hσ, hi]
    simpa [waitsAfter] using Told.copies hp hr hi
  · rw [r.receipts_of_not_own src hown]
    have hbodies := Told.flatMap_range hbody (r.turns src)
    by_cases hend : (r.implicit && waitsAfter (!σ.inserted) (s.bodyReaches src) (r.turns src)) = true
    · -- the text is still there although the bodies would take it: there is no copy
      obtain ⟨hi, hw⟩ := Bool.and_eq_true_iff.mp hend
      have hn : r.turns src = 0 := by
        unfold waitsAfter at hw
        by_contra hne
        have hpos : 0 < r.turns src := Nat.pos_of_ne_zero hne
        apply hown
        refine ⟨hi, ?_⟩
        simpa [hpos] using hw
      have hcopies : Told src walk true [r.copies src]
          (if s.bodyWidth src = 0 then [] else (List.range (r.turns src)).map (Receipt.mk p)) := .copies hp hr hi
      rw [hn, List.range_zero, List.map_nil, ite_self] at hcopies
      rw [if_pos hend, hn, List.range_zero, List.flatMap_nil, List.flatMap_nil, List.nil_append]
      refine hcopies.mono (List.Subset.refl _) ?_
      intro _
      unfold waitsAfter at hw
      rw [Bool.and_eq_true_iff] at hw
      rw [hw.1, hi, Bool.or_true, Bool.and_self]
    · rw [if_neg hend, List.append_nil]
      refine hbodies.mono (List.Subset.refl _) ?_
      cases σ.inserted <;> cases s.bodyReaches src <;> simp_all

end Repeater

mutual

/-- **Every run is told**, from every state. -/
theorem Statement.told_receipts (src : Source) : ∀ (s : Statement) (p : Position) (env : List Repeater)
    (σ : State), Told src (s.walk p) (!σ.inserted && s.reachesText src)
      ((s.eventsIn src env (!σ.inserted)).filterMap Event.announced?) (s.receipts src p σ)
  | .element head cs none, p, env, σ => by
    have ih := told_receiptsAll src cs (p.field "elements") 0 env σ
    rw [walk, reachesText, eventsIn, receipts, List.filterMap_append, head.announces_nothing, List.append_nil]
    refine ih.mono (List.subset_cons_self _ _) ?_
    cases σ.inserted <;> simp_all
  | .element head cs (some r), p, env, σ => by
    rw [reachesText, eventsIn, receipts]
    refine r.told_receipts src (s := .element head cs (some r)) ?_ rfl ?_
    · rw [walk]
      exact List.mem_cons_self
    · intro i τ
      have ih := told_receiptsAll src cs (p.field "elements") 0 (r.turn i :: env) τ
      rw [walk, List.filterMap_append, head.announces_nothing, List.append_nil]
      refine ih.mono (List.subset_cons_self _ _) ?_
      cases τ.inserted <;> simp_all [bodyReaches]
  | .group cs none, p, env, σ => by
    have ih := told_receiptsAll src cs (p.field "elements") 0 env σ
    rw [walk, reachesText, eventsIn, receipts]
    exact ih.mono (List.subset_cons_self _ _) id
  | .group cs (some r), p, env, σ => by
    rw [reachesText, eventsIn, receipts]
    refine r.told_receipts src (s := .group cs (some r)) ?_ rfl ?_
    · rw [walk]
      exact List.mem_cons_self
    · intro i τ
      have ih := told_receiptsAll src cs (p.field "elements") 0 (r.turn i :: env) τ
      rw [walk]
      exact ih.mono (List.subset_cons_self _ _) id

theorem Statement.told_receiptsAll (src : Source) : ∀ (ss : List Statement) (p : Position) (k : Nat)
    (env : List Repeater) (σ : State),
    Told src (Statement.walkAll p k ss) (!σ.inserted && Statement.reachesTextAll src ss)
      ((Statement.eventsInAll src env (!σ.inserted) ss).filterMap Event.announced?)
      (Statement.receiptsAll src p k σ ss)
  | [], _, _, _, _ => by
    rw [receiptsAll, eventsInAll]
    exact .nothing _
  | s :: rest, p, k, env, σ => by
    have hs := told_receipts src s (p.item k) env σ
    have hrest := told_receiptsAll src rest p (k + 1) env ((s.expand src).run σ).2
    rw [s.expand_run, after_inserted, Bool.not_or] at hrest
    rw [walkAll, reachesTextAll, eventsInAll, receiptsAll, List.filterMap_append, s.expand_run]
    refine Told.append (hs.mono (List.subset_append_left _ _) id) ?_
    exact hrest.mono (List.subset_append_right _ _) id

end

/-! ### Trees -/

theorem Tree.told_receipts (src : Source) (t : Tree) :
    Told src t.walk (Statement.reachesTextAll src t.statements) (t.announced src) (t.receipts src) := by
  unfold announced
  rw [t.events_eq]
  exact Statement.told_receiptsAll src t.statements (root.field "elements") 0 [] {}

theorem Repeater.copies_nonneg (src : Source) {r : Repeater} (h : r.Counted) : 0 ≤ r.copies src := by
  have h : 0 ≤ r.count.getD 0 := h
  unfold copies
  split
  · omega
  · split <;> omega

/-- **What the log says about the text, and how much of it is true.**  The line about inserted text is logged
once at most.  Without it no copy gets text.  If it names `n` copies, then these are all the copies of one
implicit repeater, and if they have nodes then each of them gets text, and no other copy in the run does.  But
copies without nodes get none: in a checked tree the number is right just if there are no copies at all or the
copies have nodes.  The texts that copies get are those that make the expansion out of the unrolled tree. -/
theorem Tree.announced_receipts (src : Source) (t : Tree) :
    (∀ n, (Event.insertedText n).line ∈ (t.events src).map Event.line ↔ n ∈ t.announced src) ∧
    (t.announced src).length ≤ 1 ∧
    (t.announced src = [] → t.receipts src = []) ∧
    (∀ n ∈ t.announced src, ∃ q s r, (q, s) ∈ t.walk ∧ s.repeater = some r ∧ r.implicit = true ∧
      r.copies src = n ∧
      t.receipts src = (if s.bodyWidth src = 0 then [] else (List.range n.toNat).map (Receipt.mk q)) ∧
      (t.Counted → ((t.receipts src).length = n ↔ n = 0 ∨ s.bodyWidth src ≠ 0))) ∧
    t.expand src = applyAll (t.insertions src) (Statement.unrollAll src [] t.statements) ∧
    (t.insertions src).map (·.text) = (t.receipts src).map fun x => src.textAt x.copy := by
  have htold := t.told_receipts src
  refine ⟨t.line_mem_iff src, htold.length_le_one, ?_, ?_, t.expand_eq_insertions src, t.texts_insertions src⟩
  · intro hnone
    rw [hnone] at htold
    exact htold.receipts_eq_nil
  · intro n hn
    obtain ⟨q, s, r, hw, hr, hi, hcopies, hreceipts⟩ := htold.exists_of_mem hn
    refine ⟨q, s, r, hw, hr, hi, hcopies, hreceipts, ?_⟩
    intro hc
    have hs : s.Counted := Statement.counted_of_mem_walkAll t.statements hc hw
    have hrc : r.Counted := by
      cases s <;> exact hs.1 r hr
    have hpos : 0 ≤ n := hcopies ▸ copies_nonneg src hrc
    rw [hreceipts]
    by_cases hwidth : s.bodyWidth src = 0
    · simp [hwidth, eq_comm]
    · simp [hwidth, Int.toNat_of_nonneg hpos]

/-- A repeated group, for two texts.  With an item in it both copies get theirs, as the log says; without
any it says the same, and no copy gets text. -/
theorem Tree.announced_receipts_emptyGroup :
    let src : Source := { text := .items [some "a", some "b"] }
    let group (cs : List Statement) : Tree := { statements := [.group cs (some { implicit := true })] }
    let item : Statement := .element { name := some [.literal "li"] } [] none
    (group [item]).Counted ∧ (Event.insertedText 2).line ∈ ((group [item]).events src).map Event.line ∧
      ((group [item]).receipts src).length = 2 ∧
      (group []).Counted ∧ (Event.insertedText 2).line ∈ ((group []).events src).map Event.line ∧
      (group []).receipts src = [] ∧ (group []).expand src = [] := by
  intro src group item
  have hcounted : (group [item]).Counted := by
    simp [group, item, Counted, Statement.CountedAll, Statement.Counted, Repeater.Counted]
  have hcounted' : (group []).Counted := by
    simp [group, Counted, Statement.CountedAll, Statement.Counted, Repeater.Counted]
  have hitem : (group [item]).announced src = [2] := by decide
  have hnone : (group []).announced src = [2] := by decide
  obtain ⟨hline, -, -, hnamed, -⟩ := (group [item]).announced_receipts src
  obtain ⟨hline', -, -, hnamed', hexpand, -⟩ := (group []).announced_receipts src
  obtain ⟨q, s, r, hw, hr, -, -, -, hright⟩ := hnamed 2 (by simp [hitem])
  obtain ⟨q', s', r', hw', -, -, -, hreceipts, -⟩ := hnamed' 2 (by simp [hnone])
  -- the item is not repeated, so it is the group that the log is about
  have hs : s = .group [item] (some { implicit := true }) := by
    simp only [walk, group, item, Statement.walkAll, Statement.walk, List.append_nil, List.mem_cons,
      Prod.mk.injEq, List.not_mem_nil, or_false] at hw
    rcases hw with ⟨-, hs⟩ | ⟨-, hs⟩
    · exact hs
    · rw [hs] at hr
      cases hr
  have hs' : s' = .group [] (some { implicit := true }) := by
    simp only [walk, group, Statement.walkAll, Statement.walk, List.append_nil, List.mem_singleton,
      Prod.mk.injEq] at hw'
    exact hw'.2
  have hlength : (((group [item]).receipts src).length : Int) = 2 := by
    refine (hright hcounted).mpr (.inr ?_)
    rw [hs]
    decide
  have hwidth : s'.bodyWidth src = 0 := by
    rw [hs']
    rfl
  rw [if_pos hwidth] at hreceipts
  refine ⟨hcounted, (hline 2).mpr (by simp [hitem]), ?_, hcounted', (hline' 2).mpr (by simp [hnone]),
    hreceipts, ?_⟩
  · exact_mod_cast hlength
  · rw [hexpand]
    rfl

end Shorthand
