import Shorthand.Proofs.Expansion.Acts

/-!
# Attempts

An attempt breaks off at the first number that cannot be written, and else it is the expansion.

* `Statement.hindrance?`: what breaks the expansion of a statement off, with the repeaters around, told by
  the elements that are built;
* `Statement.attempt_of_none`, `Statement.attempt_of_some`: how an attempt ends;
* `Statement.attempt_balanced`: what an attempt leaves behind.
-/

namespace Shorthand

open Expansion State Repeater

/-! ### What breaks an expansion off -/

/-- What keeps an element from being built inside some repeaters. -/
def Element.hindrance? (src : Source) (env : List Repeater) (head : Element) : Option Hindrance :=
  head.acts.findSome? (·.hindrance? src env)

/-- What keeps the first of some elements from being built that cannot be, and the repeaters around it. -/
def hindranceOf? (src : Source) (builds : List Build) : Option (Hindrance × List Repeater) :=
  builds.findSome? fun b => (b.head.hindrance? src b.env).map (·, b.env)

/-- What breaks the expansion of a statement off inside some repeaters, and the repeaters that are around
then. -/
def Statement.hindrance? (src : Source) (env : List Repeater) (s : Statement) :
    Option (Hindrance × List Repeater) := hindranceOf? src (s.builds src Tree.root env)

def Statement.hindranceAll? (src : Source) (env : List Repeater) (ss : List Statement) :
    Option (Hindrance × List Repeater) := hindranceOf? src (Statement.buildsAll src Tree.root 0 env ss)

variable (src : Source)

theorem hindranceOf?_eq_none {bs : List Build} :
    hindranceOf? src bs = none ↔ ∀ b ∈ bs, b.head.hindrance? src b.env = none := by
  simp [hindranceOf?]

theorem Numbering.hindrance?_eq_none {n : Numbering} {stack : List Repeater} :
    n.hindrance? src stack = none ↔ isWritable (n.value src stack) = true ∧ n.size ≤ longestText := by
  unfold hindrance?
  rw [Option.or_eq_none_iff, Hindrance.ofInt?_eq_none]
  simp

theorem findSome?_acts (b : Build) :
    b.acts.findSome? (fun x => (x.1.hindrance? src x.2).map (·, x.2)) =
      (b.head.hindrance? src b.env).map (·, b.env) := by
  unfold Build.acts Element.hindrance?
  induction b.head.acts with
  | nil => rfl
  | cons act acts ih =>
    rw [List.map_cons, List.findSome?_cons, List.findSome?_cons, ih]
    cases act.hindrance? src b.env <;> rfl

theorem findSome?_flatMap_acts (bs : List Build) :
    (bs.flatMap Build.acts).findSome? (fun x => (x.1.hindrance? src x.2).map (·, x.2)) =
      hindranceOf? src bs := by
  induction bs with
  | nil => rfl
  | cons b bs ih =>
    rw [List.flatMap_cons, List.findSome?_append, ih, findSome?_acts]
    unfold hindranceOf?
    rw [List.findSome?_cons]
    cases b.head.hindrance? src b.env <;> rfl

theorem Act.token?_of_hindrance? {stack : List Repeater} {act : Act} {h : Hindrance}
    (ha : act.hindrance? src stack = some h) : act.token?.isSome := by
  cases act with
  | insert => cases ha
  | text | entry => rfl

/-- Text that is put to nodes hinders nothing: only what is written does. -/
theorem Attempt.stop?_eq (ms : List (Act × State)) :
    (stop? src ms).map (fun x => (x.1, x.2.stack)) =
      (rendered ms).findSome? fun x => (x.1.hindrance? src x.2).map (·, x.2) := by
  induction ms with
  | nil => rfl
  | cons m ms ih =>
    -- an act that writes nothing is left out on the right, and hinders nothing on the left
    have hw (ns : List (Act × State)) : rendered (m :: ns) =
        (if m.1.token?.isSome then [(m.1, m.2.stack)] else []) ++ rendered ns := by
      unfold rendered stacked
      rw [List.filter_cons]
      split <;> rfl
    unfold stop? at ih ⊢
    rw [hw, List.findSome?_append, ← ih, List.findSome?_cons]
    cases hm : m.1.hindrance? src m.2.stack with
    | none => cases m.1.token?.isSome <;> simp [hm]
    | some h => simp [hm, m.1.token?_of_hindrance? src hm]

section Outcome

variable {src : Source} {x : Traced (List Node)} {builds : List Repeater → List Build}
  (hx : x.Writes fun env => (builds env).flatMap Build.acts) {σ : State} {q : List Node × State}
include hx

theorem Attempt.stop?_of_writes :
    (stop? src (x.moments σ)).map (fun x => (x.1, x.2.stack)) = hindranceOf? src (builds σ.stack) := by
  rw [stop?_eq, hx.rendered_eq, findSome?_flatMap_acts]

theorem Attempt.outcome_of_none (h : hindranceOf? src (builds σ.stack) = none) :
    outcome src (x.moments σ) q = (.ok q.1, q.2) := by
  have hs : stop? src (x.moments σ) = none := by
    rw [← Option.map_eq_none_iff, stop?_of_writes hx, h]
  unfold outcome
  rw [hs]

/-- What breaks an expansion off is found among the repeaters of its element, in a later state. -/
theorem Attempt.outcome_of_some {h : Hindrance} {env : List Repeater}
    (hh : hindranceOf? src (builds σ.stack) = some (h, env)) :
    ∃ τ, outcome src (x.moments σ) q = (.error h, τ) ∧ τ.stack = env ∧ σ.Before τ := by
  have hs : (stop? src (x.moments σ)).map _ = _ := stop?_of_writes hx
  rw [hh, Option.map_eq_some_iff] at hs
  obtain ⟨⟨h', τ⟩, hs, he⟩ := hs
  cases he
  refine ⟨τ, ?_, rfl, ?_⟩
  · unfold outcome
    rw [hs]
  · obtain ⟨m, hm, hf⟩ := List.exists_of_findSome?_eq_some hs
    obtain ⟨_, -, he⟩ := Option.map_eq_some_iff.mp hf
    cases he
    exact (hx.forward σ).2 m hm

end Outcome

/-! ### How an attempt ends -/

section Ends

variable {src : Source} {σ : State}

theorem Statement.attempt_of_none {s : Statement} (h : s.hindrance? src σ.stack = none) :
    (s.attempt src).run.run σ = (.ok ((s.expand src).run σ).1, ((s.expand src).run σ).2) := by
  rw [s.attempt_run]
  exact Attempt.outcome_of_none (s.writes src Tree.root) h

theorem Statement.attempt_of_some {s : Statement} {h : Hindrance} {env : List Repeater}
    (hh : s.hindrance? src σ.stack = some (h, env)) :
    ∃ τ, (s.attempt src).run.run σ = (.error h, τ) ∧ τ.stack = env ∧ σ.Before τ := by
  rw [s.attempt_run]
  exact Attempt.outcome_of_some (s.writes src Tree.root) hh

theorem Statement.attemptAll_of_none {ss : List Statement} (h : hindranceAll? src σ.stack ss = none) :
    (Statement.attemptAll src ss).run.run σ =
      (.ok ((Statement.expandAll src ss).run σ).1, ((Statement.expandAll src ss).run σ).2) := by
  rw [Statement.attemptAll_run]
  exact Attempt.outcome_of_none (writesAll src ss Tree.root 0) h

theorem Statement.attemptAll_of_some {ss : List Statement} {h : Hindrance} {env : List Repeater}
    (hh : hindranceAll? src σ.stack ss = some (h, env)) :
    ∃ τ, (Statement.attemptAll src ss).run.run σ = (.error h, τ) ∧ τ.stack = env ∧ σ.Before τ := by
  rw [Statement.attemptAll_run]
  exact Attempt.outcome_of_some (writesAll src ss Tree.root 0) hh

/-- What an attempt gives depends on the repeaters around, and on whether the text waits. -/
theorem Statement.attemptAll_fst (ss : List Statement) (σ : State) :
    ((Statement.attemptAll src ss).run.run σ).1 =
      match hindranceAll? src σ.stack ss with
      | none => .ok (Statement.nodesInAll src σ.stack (!σ.inserted) ss)
      | some (h, _) => .error h := by
  cases hh : hindranceAll? src σ.stack ss with
  | none => rw [attemptAll_of_none hh, Statement.expandAll_run]
  | some e =>
    obtain ⟨τ, hq, -, -⟩ := attemptAll_of_some hh
    rw [hq]

/-- There are nodes of a tree just if nothing hinders what is built. -/
theorem Tree.attempt_fst (t : Tree) :
    (t.attempt src).1 = match hindranceOf? src (t.builds src) with
      | none => .ok (t.expand src)
      | some (h, _) => .error h := by
  have hw := Statement.writesAll src t.statements (root.field "elements") 0
  unfold attempt
  rw [Statement.attemptAll_run]
  cases hh : hindranceOf? src (t.builds src) with
  | none => exact congrArg Prod.fst (Attempt.outcome_of_none hw hh)
  | some e =>
    obtain ⟨τ, hq, -, -⟩ := Attempt.outcome_of_some hw (σ := {}) hh
    exact congrArg Prod.fst hq

theorem Attempt.render_run (t : Token) (σ : State) :
    (Watched.render (watch src) src t).run.run σ = match t.hindrance? src σ.stack with
      | none => (.ok ((t.render src).run σ).1, ((t.render src).run σ).2)
      | some h => (.error h, σ) := by
  have hl := (lockstep_traced src).bind ((lockstep_traced src).watch (.text t)) fun _ =>
    (lockstep_traced src).step (t.render src)
  refine (hl σ).trans ?_
  unfold outcome stop?
  rw [Traced.moments_bind, Traced.moments_watch, Traced.moments_step, List.append_nil,
    List.findSome?_singleton]
  dsimp only [Act.hindrance?]
  cases t.hindrance? src σ.stack <;> rfl

end Ends

/-- **Attempts are balanced.**  From every state, an attempt of a statement that nothing hinders is its
expansion: the repeaters around end as they began, and the flag is set just if it was, or if a mark of the
text is reached, which in a tree of a document is to say that the statement mentions the text.  An attempt
that something hinders breaks off there, with the repeaters that are around then.  At no moment is one of the
repeaters gone that were around before, or the flag taken back.  While the copies of a repeated statement are
made, what is overwritten and what is taken away is always the one entry that lies on top of the repeaters
around the statement: neither step is ever refused. -/
theorem Statement.attempt_balanced (s : Statement) (σ : State) :
    let q := (s.attempt src).run.run σ
    (s.hindrance? src σ.stack = none →
      q = (.ok ((s.expand src).run σ).1, ((s.expand src).run σ).2) ∧ q.2.stack = σ.stack ∧
        q.2.inserted = (σ.inserted || s.reachesText src) ∧
        (s.Counted → q.2.inserted = (σ.inserted || s.mentionsText))) ∧
    (∀ h env, s.hindrance? src σ.stack = some (h, env) →
      q.1 = .error h ∧ q.2.stack = env ∧ σ.stack <:+ env ∧ (σ.inserted = true → q.2.inserted = true)) ∧
    (∀ act τ, (act, τ) ∈ s.moments src σ →
      σ.stack <:+ τ.stack ∧ (σ.inserted = true → τ.inserted = true)) ∧
    ∀ r, s.repeater = some r →
      ((s.expand src).run σ).2 =
        closed r (r.copies src) (loopState src r (s.body src) σ (r.turns src)).pop ∧
      ∀ k, let τ := loopState src r (s.body src) σ k
        Session.step src τ (.replaceTop (r.turn k)) = (.ok .done, { τ with stack := r.turn k :: σ.stack }) ∧
        Session.step src τ .pop = (.ok (.repeater (r.topAfter k)), { τ with stack := σ.stack }) ∧
        (σ.inserted = true → τ.inserted = true) := by
  intro q
  obtain ⟨hstack, hinserted, hcounted, hloop⟩ := expand_balanced src s σ
  refine ⟨fun h => ?_, fun h env hh => ?_, fun act τ hm => ?_, hloop⟩
  · have hq : q = _ := attempt_of_none h
    rw [hq]
    exact ⟨rfl, hstack, hinserted, hcounted⟩
  · obtain ⟨τ, hq, rfl, hb⟩ := attempt_of_some hh
    have hq : q = _ := hq
    rw [hq]
    exact ⟨rfl, rfl, hb.stack, hb.inserted⟩
  -- the moments of an attempt are among those of the trace
  · have hb := ((s.writes src Tree.root).forward σ).2 (act, τ) hm
    exact ⟨hb.stack, hb.inserted⟩

/-- With no item of text there is no copy, and its placeholder is never rendered; but the text is taken all
the same, by the repeater.  And a number that is to fill more characters than a text can have leaves its
repeater on the stack. -/
theorem Statement.attempt_balanced_no_copies :
    let src : Source := { text := .items [] }
    let r : Repeater := { implicit := true }
    let s : Statement := .element { value := some [.placeholder] } [] (some r)
    let around : Repeater := { count := some 2, value := 1 }
    let σ : State := { stack := [around] }
    let wide : Statement := .element { name := some [.number { size := longestText + 1 }] } [] (some around)
    s.hindrance? src σ.stack = none ∧ s.Counted ∧ s.repeater = some r ∧
      ((s.attempt src).run.run σ).2.stack = σ.stack ∧ ((s.attempt src).run.run σ).2.inserted = true ∧
      Session.step src (loopState src r (s.body src) σ 0) .pop =
        (.ok (.repeater r), { σ with log := [.expanding 0 true] }) ∧
      wide.hindrance? src σ.stack = some (.wideNumber, [around.turn 0, around]) ∧
      ((wide.attempt src).run.run σ).1 = .error .wideNumber ∧
      ((wide.attempt src).run.run σ).2.stack = [around.turn 0, around] := by
  intro src r s around σ wide
  have hn : s.hindrance? src σ.stack = none := rfl
  have hc : s.Counted := ⟨fun x hx => by cases hx; decide, trivial⟩
  have hw : wide.hindrance? src σ.stack = some (.wideNumber, [around.turn 0, around]) := by decide +kernel
  obtain ⟨hnone, -, -, hloop⟩ := attempt_balanced src s σ
  obtain ⟨-, hsome, -, -⟩ := attempt_balanced src wide σ
  obtain ⟨-, hs, -, hi⟩ := hnone hn
  obtain ⟨herror, hstack, -, -⟩ := hsome _ _ hw
  exact ⟨hn, hc, rfl, hs, hi hc, ((hloop r rfl).2 0).2.1, hw, herror, hstack⟩

end Shorthand
