import Shorthand.Proofs.Insertion.Receipt

/-!
# The repeaters around are in range

Whenever an expansion renders a token or puts text to a node, each of the repeaters around is making one
of its copies.  What a repeater says at first of the copy that is being made is never looked at.

* `Repeater.InRange`: the copy that is being made is one of those that the repeater makes;
* `Element.Renders`, `Tree.Renders`, `Tree.Inserts`: the moments of a run at which tokens are rendered
  and text is inserted, each with its state;
* `Tree.Visits.inRange`: wherever an expansion comes, the repeaters around are in range;
* `repeated_turn`: a loop does not depend on the value with which its repeater begins;
* `Tree.run_inRange`: what this says of runs.
-/

namespace Shorthand

open Expansion State Repeater

/-! ### Copies -/

/-- A repeater is making one of its copies. -/
def Repeater.InRange (src : Source) (r : Repeater) : Prop := 0 ≤ r.value ∧ r.value < r.copies src

theorem Repeater.inRange_turn {src : Source} {r : Repeater} {i : Nat} (hi : i < r.turns src) :
    (r.turn i).InRange src := by
  have hc : (r.turn i).copies src = r.copies src := rfl
  have hv : (r.turn i).value = i := rfl
  unfold turns at hi
  unfold InRange
  omega

/-- The copy of an implicit repeater in range has an item of a list of text. -/
theorem Repeater.InRange.exists_item {src : Source} {r : Repeater} (h : r.InRange src)
    (hi : r.implicit = true) {xs : List (Option String)} (hx : src.text = .items xs) :
    ∃ item, xs[r.value.toNat]? = some item ∧ src.textAt r.value = item.getD "" := by
  obtain ⟨h0, hlt⟩ := h
  have hc : r.copies src = xs.length := by
    unfold copies Source.items?
    rw [hi, hx]
  have hl : r.value.toNat < xs.length := by omega
  refine ⟨xs[r.value.toNat], List.getElem?_eq_getElem hl, ?_⟩
  have hn : ¬ r.value < 0 := by omega
  unfold Source.textAt
  rw [hx]
  dsimp only
  rw [if_neg hn, List.getElem?_eq_getElem hl]
  rfl

/-- The body of a copy begins with the repeater of the copy on top of those around the statement. -/
theorem bodyState_stack (src : Source) (r : Repeater) (s : Statement) (σ : State) (i : Nat) :
    (bodyState src r s σ i).stack = r.turn i :: σ.stack := by
  unfold bodyState replaceTop
  rw [loopState_stack]

/-- **Wherever an expansion comes, the repeaters around are in range.** -/
theorem Tree.Visits.inRange {src : Source} {t : Tree} {p : Position} {k : Nat} {ss : List Statement}
    {σ : State} (h : t.Visits src p k ss σ) : ∀ r ∈ σ.stack, r.InRange src := by
  induction h with
  | start => exact nofun
  | next _ ih =>
    rw [Statement.expand_run]
    exact ih
  | once _ _ ih => exact ih
  | copy _ _ hi ih =>
    rw [bodyState_stack]
    exact List.forall_mem_cons.mpr ⟨inRange_turn hi, ih⟩

/-! ### Moments -/

/-- Of the steps for some things, which are taken one after the other from the state `σ` on, the one for
`x` is taken in the state `τ`. -/
def StepAt {ι α : Type} (f : ι → Expansion α) (xs : List ι) (σ : State) (x : ι) (τ : State) : Prop :=
  ∃ before behind, xs = before ++ x :: behind ∧ τ = ((before.mapM f).run σ).2

/-- Steps that keep the repeaters around are all taken among the same ones. -/
theorem StepAt.stack_eq {ι α : Type} {f : ι → Expansion α} {xs : List ι} {σ τ : State} {x : ι}
    (hf : ∀ x σ, ((f x).run σ).2.stack = σ.stack) (h : StepAt f xs σ x τ) : τ.stack = σ.stack := by
  obtain ⟨before, behind, -, rfl⟩ := h
  induction before generalizing σ with
  | nil => rfl
  | cons y before ih =>
    rw [List.mapM_cons, run_bind, run_bind, run_pure]
    exact ih.trans (hf y σ)

/-- The state in which the tokens of a value of an attribute are rendered: the name is rendered before,
and a missing delimiter is noted. -/
def Attribute.valueState (src : Source) (a : Attribute) (ts : List Token) (σ : State) : State :=
  let q := (renderSome (renderName src) a.name).run σ
  if (unwrap ts).closed = false then q.2.note (unmatched (unwrap ts).kind q.1) else q.2

/-- When an attribute is rendered from the state `σ` on, one of its tokens is rendered in some state. -/
inductive Attribute.Renders (src : Source) (a : Attribute) (σ : State) : Token → State → Prop where
  | name {t τ} (h : StepAt (Token.render src) (a.name.getD []) σ t τ) : Renders src a σ t τ
  | value {ts t τ} (hv : a.value = some ts)
    (h : StepAt (Token.entry src) (unwrap ts).inner (a.valueState src ts σ) t τ) : Renders src a σ t τ

namespace Element

/-- The state in which the name of an element is rendered: its attributes are rendered before. -/
def nameState (src : Source) (head : Element) (σ : State) : State :=
  (((head.attributes.getD []).mapM (Attribute.render src)).run σ).2

/-- The state in which the value of an element is rendered. -/
def valueState (src : Source) (head : Element) (σ : State) : State :=
  ((renderSome (renderName src) head.name).run (head.nameState src σ)).2

/-- When the node of an element is built from the state `σ` on, one of its tokens is rendered in some
state. -/
inductive Renders (src : Source) (head : Element) (σ : State) : Token → State → Prop where
  | ofAttribute {a τ t υ} (ha : StepAt (Attribute.render src) (head.attributes.getD []) σ a τ)
    (h : a.Renders src τ t υ) : Renders src head σ t υ
  | name {t τ} (h : StepAt (Token.render src) (head.name.getD []) (head.nameState src σ) t τ) :
    Renders src head σ t τ
  | value {t τ} (h : StepAt (Token.entry src) (head.value.getD []) (head.valueState src σ) t τ) :
    Renders src head σ t τ

end Element

namespace Tree

/-- In the expansion of a tree the node of an element is built from some state on, in which its children
are expanded. -/
inductive Builds (src : Source) (t : Tree) : Element → State → Prop where
  | once {p k head cs rest σ} (h : t.Visits src p k (.element head cs none :: rest) σ) :
    Builds src t head ((Statement.expandAll src cs).run σ).2
  | copy {p k head cs r rest σ i} (h : t.Visits src p k (.element head cs (some r) :: rest) σ)
    (hi : i < r.turns src) :
    Builds src t head
      ((Statement.expandAll src cs).run (bodyState src r (.element head cs (some r)) σ i)).2

/-- In the expansion of a tree a token is rendered in some state. -/
def Renders (src : Source) (t : Tree) (tok : Token) (τ : State) : Prop :=
  ∃ head σ, t.Builds src head σ ∧ head.Renders src σ tok τ

/-- In the expansion of a tree the text of the copy that `snapshot` is making is put to a node of that
copy, in some state. -/
def Inserts (src : Source) (t : Tree) (snapshot : Repeater) (τ : State) : Prop :=
  ∃ p k s rest σ r i, t.Visits src p k (s :: rest) σ ∧ s.repeater = some r ∧ i < r.turns src ∧
    GetsText src r s σ i ∧ snapshot = r.turn i ∧
    τ = ((s.body src (r.turn i)).run (bodyState src r s σ i)).2

end Tree

section Moments

variable {src : Source} {σ τ : State} {tok : Token}

theorem renderSome_stack (tokens : Option (List Token)) (σ : State) :
    ((renderSome (renderName src) tokens).run σ).2.stack = σ.stack := by
  rw [renderSome_run (renderName_run src)]
  rfl

theorem Token.render_stack (t : Token) (σ : State) : ((t.render src).run σ).2.stack = σ.stack := by
  rw [t.render_run]
  rfl

theorem Token.entry_stack (t : Token) (σ : State) : ((t.entry src).run σ).2.stack = σ.stack := by
  rw [t.entry_run]
  rfl

theorem Attribute.render_stack (a : Attribute) (σ : State) : ((a.render src).run σ).2.stack = σ.stack := by
  rw [a.render_run]
  rfl

theorem Attribute.Renders.stack_eq {a : Attribute} (h : a.Renders src σ tok τ) : τ.stack = σ.stack := by
  cases h with
  | name h => exact h.stack_eq Token.render_stack
  | @value ts _ _ _ h =>
    rw [h.stack_eq Token.entry_stack]
    unfold Attribute.valueState
    split <;> exact renderSome_stack a.name σ

theorem Element.nameState_stack (head : Element) (σ : State) : (head.nameState src σ).stack = σ.stack := by
  unfold nameState
  rw [run_mapM (Attribute.nodeIn src) _ _ (Attribute.render_run src)]
  rfl

/-- All tokens of an element are rendered among the repeaters that are around when its node is built. -/
theorem Element.Renders.stack_eq {head : Element} (h : head.Renders src σ tok τ) : τ.stack = σ.stack := by
  cases h with
  | ofAttribute ha h => rw [h.stack_eq, ha.stack_eq Attribute.render_stack]
  | name h => rw [h.stack_eq Token.render_stack, head.nameState_stack]
  | value h =>
    rw [h.stack_eq Token.entry_stack]
    exact (renderSome_stack head.name _).trans (head.nameState_stack σ)

variable {t : Tree}

theorem Tree.Builds.inRange {head : Element} (h : t.Builds src head σ) :
    ∀ r ∈ σ.stack, r.InRange src := by
  cases h with
  | once h =>
    rw [Statement.expandAll_run]
    exact h.inRange
  | copy h hi =>
    rw [Statement.expandAll_run, after_stack, bodyState_stack]
    exact List.forall_mem_cons.mpr ⟨inRange_turn hi, h.inRange⟩

theorem Tree.Renders.inRange (h : t.Renders src tok τ) : ∀ r ∈ τ.stack, r.InRange src := by
  obtain ⟨head, σ, hb, hr⟩ := h
  rw [hr.stack_eq]
  exact hb.inRange

/-- The copy that gets text is made by the innermost repeater, which is implicit. -/
theorem Tree.Inserts.stack_eq {snapshot : Repeater} (h : t.Inserts src snapshot τ) :
    snapshot.implicit = true ∧ τ.stack.head? = some snapshot ∧ ∀ r ∈ τ.stack, r.InRange src := by
  obtain ⟨p, k, s, rest, σ, r, i, hv, -, hi, ⟨himp, -, -⟩, rfl, rfl⟩ := h
  rw [s.body_stack, bodyState_stack]
  exact ⟨himp, rfl, List.forall_mem_cons.mpr ⟨inRange_turn hi, hv.inRange⟩⟩

end Moments

/-! ### Values that do not matter -/

/-- The first copy overwrites the innermost repeater, whatever it is; and without a copy it is taken
away. -/
theorem mapM_copy_push (src : Source) (r : Repeater) (body : Repeater → Expansion (List Node)) (n : Nat)
    (e : Event) (top top' : Repeater) (σ : State) :
    let loop (top : Repeater) := ((List.range n).mapM (copy src r body)).run ((σ.push top).note e)
    (loop top').1 = (loop top).1 ∧ (loop top').2.pop = (loop top).2.pop := by
  cases n with
  | zero => exact ⟨rfl, rfl⟩
  | succ n =>
    have hfirst : (copy src r body 0).run ((σ.push top').note e) =
        (copy src r body 0).run ((σ.push top).note e) := by
      rw [copy_run, copy_run]
      rfl
    rw [List.range_succ_eq_map, List.mapM_cons]
    dsimp only
    rw [run_bind, run_bind, hfirst]
    exact ⟨rfl, rfl⟩

/-- **A loop does not depend on the value of its repeater.** -/
theorem repeated_turn (src : Source) (r : Repeater) (body : Repeater → Expansion (List Node)) (v : Nat) :
    repeated src (r.turn v) body = repeated src r body := by
  funext σ
  obtain ⟨hn, hσ⟩ := mapM_copy_push src r body (r.turns src) (.expanding (r.copies src) r.implicit) r
    (r.turn v) σ
  have hturn := repeated_run src (r.turn v) body σ
  have hr := repeated_run src r body σ
  -- apart from the repeater on top, the loop of `r.turn v` is that of `r`
  exact hturn.trans
    ((Prod.ext (congrArg List.flatten hn) (congrArg (closed r (r.copies src)) hσ)).trans hr.symm)

mutual

/-- A statement whose repeaters have lost their values. -/
def Statement.withoutValues : Statement → Statement
  | .element head cs r => .element head (Statement.withoutValuesAll cs) (r.map (·.turn 0))
  | .group cs r => .group (Statement.withoutValuesAll cs) (r.map (·.turn 0))

def Statement.withoutValuesAll : List Statement → List Statement
  | [] => []
  | s :: rest => s.withoutValues :: Statement.withoutValuesAll rest

end

/-- A tree whose repeaters have lost their values, and the root its repeater. -/
def Tree.withoutValues (t : Tree) : Tree := { statements := Statement.withoutValuesAll t.statements }

mutual

theorem Statement.expand_withoutValues (src : Source) : ∀ s : Statement,
    s.withoutValues.expand src = s.expand src
  | .element head cs none => by
    rw [withoutValues, Option.map_none, expand, expand, expandAll_withoutValues src cs]
  | .element head cs (some r) => by
    rw [withoutValues, Option.map_some, expand, expand, expandAll_withoutValues src cs, repeated_turn]
  | .group cs none => by
    rw [withoutValues, Option.map_none, expand, expand, expandAll_withoutValues src cs]
  | .group cs (some r) => by
    rw [withoutValues, Option.map_some, expand, expand, expandAll_withoutValues src cs, repeated_turn]

theorem Statement.expandAll_withoutValues (src : Source) : ∀ ss : List Statement,
    Statement.expandAll src (Statement.withoutValuesAll ss) = Statement.expandAll src ss
  | [] => rfl
  | s :: rest => by
    rw [withoutValuesAll, expandAll, expandAll, expand_withoutValues src s, expandAll_withoutValues src rest]

end

namespace Tree

/-- **The repeaters around are in range** at every moment at which an expansion renders a token or puts
text to a node, whatever counts and values the repeaters of the tree state.  So if the text is a list,
then a placeholder inside an implicit repeater takes an item that there is, and so does every copy that
gets text.  And two trees of which only the values of the repeaters are different, or the repeater of the
root, have the same expansion and the same log. -/
theorem run_inRange (src : Source) (t : Tree) :
    (∀ tok τ, t.Renders src tok τ → ∀ r ∈ τ.stack, 0 ≤ r.value ∧ r.value < r.copies src) ∧
    (∀ snapshot τ, t.Inserts src snapshot τ → snapshot.implicit = true ∧ τ.stack.head? = some snapshot ∧
      ∀ r ∈ τ.stack, 0 ≤ r.value ∧ r.value < r.copies src) ∧
    (∀ xs, src.text = .items xs →
      (∀ τ r, t.Renders src .placeholder τ → τ.implicit? = some r → ∃ item,
        xs[r.value.toNat]? = some item ∧ ((Token.placeholder.render src).run τ).1 = item.getD "") ∧
      ∀ snapshot τ, t.Inserts src snapshot τ → ∃ item,
        xs[snapshot.value.toNat]? = some item ∧ src.textAt snapshot.value = item.getD "") ∧
    ∀ t' : Tree, t.withoutValues = t'.withoutValues → t.run src = t'.run src := by
  refine ⟨fun tok τ h => h.inRange, fun snapshot τ h => h.stack_eq, fun xs hx => ⟨?_, ?_⟩, ?_⟩
  · intro τ r h hr
    have hi : r.implicit = true := List.find?_some hr
    obtain ⟨item, hitem, htext⟩ := (h.inRange r (List.mem_of_find?_eq_some hr)).exists_item hi hx
    refine ⟨item, hitem, ?_⟩
    rw [Token.render_run, ← htext]
    unfold State.implicit? at hr
    simp only [Token.textIn, hr, Option.elim_some]
  · intro snapshot τ h
    obtain ⟨hi, htop, hin⟩ := h.stack_eq
    exact InRange.exists_item (hin snapshot (List.mem_of_head? htop)) hi hx
  · intro t' h
    have hs : Statement.withoutValuesAll t.statements = Statement.withoutValuesAll t'.statements :=
      congrArg Tree.statements h
    unfold run
    rw [← Statement.expandAll_withoutValues, hs, Statement.expandAll_withoutValues]

/-- Two items, the second of which is rendered with the second text, although the repeater says to begin
with that it is making the copy `7`; and a root that says it is repeated. -/
theorem run_inRange_items :
    let src : Source := { text := .items [some "a", some "b"] }
    let r : Repeater := { value := 7, implicit := true }
    let head : Element := { name := some [.literal "li"], value := some [.placeholder] }
    let t : Tree := { statements := [.element head [] (some r)] }
    let t' : Tree := { statements := [.element head [] (some (r.turn 0))], repeater := some r }
    let τ : State := { stack := [r.turn 1], inserted := true, log := [.expanding 2 true] }
    t.Renders src .placeholder τ ∧ src.text = .items [some "a", some "b"] ∧
      τ.implicit? = some (r.turn 1) ∧ (∀ x ∈ τ.stack, 0 ≤ x.value ∧ x.value < x.copies src) ∧
      (∃ item, [some "a", some "b"][(r.turn 1).value.toNat]? = some item ∧
        ((Token.placeholder.render src).run τ).1 = item.getD "") ∧
      t.withoutValues = t'.withoutValues ∧ t.run src = t'.run src := by
  intro src r head t t' τ
  have hi : 1 < r.turns src := by decide
  have hv : t.Visits src (root.field "elements") 0 (.element head [] (some r) :: []) {} := .start
  have hb : t.Builds src head τ := Builds.copy hv hi
  have hr : t.Renders src .placeholder τ := ⟨head, τ, hb, .value ⟨[], [], rfl, rfl⟩⟩
  obtain ⟨hin, -, hitems, hsame⟩ := t.run_inRange src
  obtain ⟨hplaceholder, -⟩ := hitems _ rfl
  exact ⟨hr, rfl, rfl, hin _ τ hr, hplaceholder τ _ hr rfl, rfl, hsame t' rfl⟩

end Tree

end Shorthand
