import Shorthand.Expansion.Session
import Shorthand.Proofs.Expansion.Environment

/-!
# The state an expansion leaves behind

Expansions are balanced, and they tell by the tree alone what becomes of the text.

* `Statement.mentionsText`: is there an implicit repeater or a placeholder anywhere in a statement?
* `Statement.Counted`: no stated count is below zero, as in every tree of a document;
* `Statement.reachesText_eq`: of such statements, those that mention the text lay hold of it;
* `loopState`: the state between two copies of a repeated statement;
* `expand_balanced`: the repeaters end as they began, the loop works on its own entry of the stack
  alone, and the text is taken just if the statement mentions it.
-/

namespace Shorthand

open Expansion State Repeater

/-! ### The text in a tree -/

mutual

/-- Is there an implicit repeater or a placeholder anywhere in a statement? -/
def Statement.mentionsText : Statement → Bool
  | .element head cs r => Statement.mentionsTextAll cs || head.holdsPlaceholder || r.any (·.implicit)
  | .group cs r => Statement.mentionsTextAll cs || r.any (·.implicit)

def Statement.mentionsTextAll : List Statement → Bool
  | [] => false
  | s :: rest => s.mentionsText || Statement.mentionsTextAll rest

end

/-- A repeater without a stated count, or with one of zero or more. -/
def Repeater.Counted (r : Repeater) : Prop := 0 ≤ r.count.getD 0

instance (r : Repeater) : Decidable r.Counted := Int.decLe 0 (r.count.getD 0)

mutual

/-- No repeater in a statement states a count below zero. -/
def Statement.Counted : Statement → Prop
  | .element _ cs r => (∀ x ∈ r, x.Counted) ∧ Statement.CountedAll cs
  | .group cs r => (∀ x ∈ r, x.Counted) ∧ Statement.CountedAll cs

def Statement.CountedAll : List Statement → Prop
  | [] => True
  | s :: rest => s.Counted ∧ Statement.CountedAll rest

end

theorem Statement.counted_children {s : Statement} (h : s.Counted) :
    Statement.CountedAll s.children := by
  cases s <;> exact h.2

theorem Repeater.turns_pos (src : Source) {r : Repeater} (h : r.Counted) (hi : r.implicit = false) :
    0 < r.turns src := by
  have h : 0 ≤ r.count.getD 0 := h
  unfold turns copies
  rw [hi]
  dsimp only
  split <;> omega

theorem Repeater.reaches_eq (src : Source) {r : Repeater} (h : r.Counted) (marks : Bool) :
    r.reaches src marks = (marks || r.implicit) := by
  unfold reaches
  cases hi : r.implicit with
  | true => simp
  | false => simp [turns_pos src h hi]

mutual

/-- The copies that are not made do not matter: the repeater that makes none is implicit, and takes
the text itself. -/
theorem Statement.reachesText_eq (src : Source) : ∀ s : Statement, s.Counted →
    s.reachesText src = s.mentionsText
  | .element head cs none, h => by
    rw [reachesText, mentionsText, reachesTextAll_eq src cs h.2]
    simp
  | .element head cs (some r), h => by
    rw [reachesText, mentionsText, reachesTextAll_eq src cs h.2, r.reaches_eq src (h.1 r rfl)]
    simp
  | .group cs none, h => by
    rw [reachesText, mentionsText, reachesTextAll_eq src cs h.2]
    simp
  | .group cs (some r), h => by
    rw [reachesText, mentionsText, reachesTextAll_eq src cs h.2, r.reaches_eq src (h.1 r rfl)]
    simp

theorem Statement.reachesTextAll_eq (src : Source) : ∀ ss : List Statement, Statement.CountedAll ss →
    Statement.reachesTextAll src ss = Statement.mentionsTextAll ss
  | [], _ => rfl
  | s :: rest, h => by
    rw [reachesTextAll, mentionsTextAll, reachesText_eq src s h.1, reachesTextAll_eq src rest h.2]

end

/-! ### The loop of a repeated statement -/

def Statement.body (src : Source) : Statement → Repeater → Expansion (List Node)
  | .element head cs _ => fun snapshot => do
    let nodes ← Statement.expandAll src cs
    pure [← head.build src nodes (some snapshot)]
  | .group cs _ => fun _ => Statement.expandAll src cs

def Statement.bodyReaches (src : Source) : Statement → Bool
  | .element head cs _ => Statement.reachesTextAll src cs || head.holdsPlaceholder
  | .group cs _ => Statement.reachesTextAll src cs

theorem Statement.expand_eq_repeated (src : Source) {s : Statement} {r : Repeater}
    (h : s.repeater = some r) : s.expand src = repeated src r (s.body src) := by
  cases s <;> cases h <;> simp only [expand, body]

/-- The state in which the copy `k` of a repeated statement begins, which is also the one in which the
copies before it end. -/
def loopState (src : Source) (r : Repeater) (body : Repeater → Expansion (List Node)) (σ : State) :
    Nat → State
  | 0 => (σ.push r).note (.expanding (r.copies src) r.implicit)
  | k + 1 => ((copy src r body k).run (loopState src r body σ k)).2

theorem mapM_copy_snd (src : Source) (r : Repeater) (body : Repeater → Expansion (List Node)) (σ : State)
    (k : Nat) :
    (((List.range k).mapM (copy src r body)).run (loopState src r body σ 0)).2 =
      loopState src r body σ k := by
  induction k with
  | zero => rfl
  | succ k ih =>
    rw [List.range_succ, List.mapM_append, run_bind, run_bind, List.mapM_cons, List.mapM_nil, run_bind,
      run_bind, ih]
    rfl

theorem repeated_snd (src : Source) (r : Repeater) (body : Repeater → Expansion (List Node)) (σ : State) :
    ((repeated src r body).run σ).2 =
      closed r (r.copies src) (loopState src r body σ (r.turns src)).pop := by
  rw [repeated_run, ← mapM_copy_snd]
  rfl

theorem Statement.body_stack (src : Source) (s : Statement) (snapshot : Repeater) (σ : State) :
    ((s.body src snapshot).run σ).2.stack = σ.stack := by
  cases s with
  | element head cs r =>
    rw [body, run_element (Statement.expandAll_run src cs)]
    rfl
  | group cs r =>
    rw [body, Statement.expandAll_run src cs]
    rfl

theorem Statement.body_inserted (src : Source) (s : Statement) (snapshot : Repeater) (σ : State) :
    ((s.body src snapshot).run σ).2.inserted = (σ.inserted || s.bodyReaches src) := by
  cases s with
  | element head cs r =>
    rw [body, run_element (Statement.expandAll_run src cs)]
    rfl
  | group cs r =>
    rw [body, Statement.expandAll_run src cs]
    rfl

/-- Between two copies the entry of the loop lies on top of the repeaters that were around before. -/
theorem loopState_stack (src : Source) (r : Repeater) (s : Statement) (σ : State) (k : Nat) :
    (loopState src r (s.body src) σ k).stack = r.topAfter k :: σ.stack := by
  induction k with
  | zero => rfl
  | succ k ih =>
    have htop : (State.replaceTop (r.turn k) (loopState src r (s.body src) σ k)).stack =
        r.turn k :: σ.stack := by
      unfold replaceTop
      rw [ih]
    rw [loopState, copy_run]
    dsimp only
    rw [s.body_stack, htop]
    rfl

theorem loopState_inserted (src : Source) (r : Repeater) (s : Statement) (σ : State) (k : Nat)
    (h : σ.inserted = true) : (loopState src r (s.body src) σ k).inserted = true := by
  induction k with
  | zero => exact h
  | succ k ih =>
    rw [loopState, copy_run]
    dsimp only
    rw [s.body_inserted, replaceTop_inserted, ih, Bool.true_or]

/-- An expansion is balanced.  From every state, the repeaters around end as they began, and the
flag is never taken back: it is set just if it was, or if a mark of the text is reached, which in a
tree of a document is to say that the statement mentions the text.  While the copies of a repeated
statement are made, what is overwritten and what is taken away is always the one entry that lies on
top of the repeaters around the statement: neither step is ever refused.  Text and variables are no
part of the state, so that no step can change them. -/
theorem expand_balanced (src : Source) (s : Statement) (σ : State) :
    ((s.expand src).run σ).2.stack = σ.stack ∧
    ((s.expand src).run σ).2.inserted = (σ.inserted || s.reachesText src) ∧
    (s.Counted → ((s.expand src).run σ).2.inserted = (σ.inserted || s.mentionsText)) ∧
    ∀ r, s.repeater = some r →
      ((s.expand src).run σ).2 =
        closed r (r.copies src) (loopState src r (s.body src) σ (r.turns src)).pop ∧
      ∀ k, let τ := loopState src r (s.body src) σ k
        Session.step src τ (.replaceTop (r.turn k)) = (.ok .done, { τ with stack := r.turn k :: σ.stack }) ∧
        Session.step src τ .pop = (.ok (.repeater (r.topAfter k)), { τ with stack := σ.stack }) ∧
        (σ.inserted = true → τ.inserted = true) := by
  have hi : ((s.expand src).run σ).2.inserted = (σ.inserted || s.reachesText src) := by
    rw [s.expand_run, after_inserted]
  refine ⟨by rw [s.expand_run, after_stack], hi, fun h => by rw [hi, s.reachesText_eq src h],
    fun r hr => ⟨by rw [s.expand_eq_repeated src hr, repeated_snd], fun k => ?_⟩⟩
  intro τ
  have hs : τ.stack = r.topAfter k :: σ.stack := loopState_stack src r s σ k
  refine ⟨?_, ?_, loopState_inserted src r s σ k⟩
  · simp [Session.step, replaceTop, hs]
  · simp [Session.step, State.pop, hs]

end Shorthand
