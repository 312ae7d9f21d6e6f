import Mathlib.Algebra.BigOperators.Ring.List
import Mathlib.Algebra.Ring.Nat
import Shorthand.Proofs.Statement.Walk

/-!
# The elements that an expansion builds

An expansion builds a node for an element once in every copy of all that is around it.

* `Statement.builds`: the elements that are built, one after the other, each inside its repeaters;
* `Tree.filter_events`: what is logged, the loops apart, is logged when an element is built;
* `Tree.times`: the product of the copies of all statements around a position;
* `Tree.sum_builds`: what is counted over all builds is counted over the walk with these products.
-/

namespace Shorthand

/-! ### Builds -/

/-- An element that is built: where it stands, what it says of itself, and the repeaters around. -/
structure Build where
  position : Position
  head : Element
  env : List Repeater
  deriving DecidableEq, Repr

/-- What is logged when the node of an element is built. -/
def Build.events (src : Source) (b : Build) : List Event := b.head.eventsIn src b.env

/-- The repeaters around each of the copies of a statement: its own one in front of those around it. -/
def Repeater.environments (src : Source) (env : List Repeater) : Option Repeater → List (List Repeater)
  | none => [env]
  | some r => (List.range (r.turns src)).map fun i => r.turn i :: env

mutual

/-- The builds of a statement at a position, inside the repeaters `env`: an element is built after its
children, and all of it once for every copy. -/
def Statement.builds (src : Source) (p : Position) (env : List Repeater) : Statement → List Build
  | .element head cs r =>
    (Repeater.environments src env r).flatMap fun env =>
      Statement.buildsAll src (p.field "elements") 0 env cs ++ [⟨p, head, env⟩]
  | .group cs r =>
    (Repeater.environments src env r).flatMap fun env =>
      Statement.buildsAll src (p.field "elements") 0 env cs

/-- The builds of the statements of a list at a position, counted from `k`. -/
def Statement.buildsAll (src : Source) (p : Position) (k : Nat) (env : List Repeater) :
    List Statement → List Build
  | [] => []
  | s :: rest => s.builds src (p.item k) env ++ Statement.buildsAll src p (k + 1) env rest

end

def Tree.builds (src : Source) (t : Tree) : List Build :=
  Statement.buildsAll src (Tree.root.field "elements") 0 [] t.statements

mutual

theorem Statement.mem_walk_of_mem_builds {src : Source} : ∀ (s : Statement) {p : Position}
    {env : List Repeater} {b : Build}, b ∈ s.builds src p env →
      ∃ cs r, (b.position, .element b.head cs r) ∈ s.walk p
  | .element head cs r, p, env, b, h => by
    rw [builds] at h
    rw [walk]
    obtain ⟨env', -, h⟩ := List.mem_flatMap.mp h
    obtain h | h := List.mem_append.mp h
    · obtain ⟨cs', r', hb⟩ := mem_walkAll_of_mem_buildsAll cs h
      exact ⟨cs', r', List.mem_cons_of_mem _ hb⟩
    · rw [List.mem_singleton.mp h]
      exact ⟨cs, r, List.mem_cons_self⟩
  | .group cs r, p, env, b, h => by
    rw [builds] at h
    rw [walk]
    obtain ⟨env', -, h⟩ := List.mem_flatMap.mp h
    obtain ⟨cs', r', hb⟩ := mem_walkAll_of_mem_buildsAll cs h
    exact ⟨cs', r', List.mem_cons_of_mem _ hb⟩

theorem Statement.mem_walkAll_of_mem_buildsAll {src : Source} : ∀ (ss : List Statement) {p : Position}
    {k : Nat} {env : List Repeater} {b : Build}, b ∈ Statement.buildsAll src p k env ss →
      ∃ cs r, (b.position, .element b.head cs r) ∈ Statement.walkAll p k ss
  | [], _, _, _, _, h => by cases h
  | s :: rest, p, k, env, b, h => by
    rw [buildsAll] at h
    rw [walkAll]
    obtain h | h := List.mem_append.mp h
    · obtain ⟨cs, r, hb⟩ := mem_walk_of_mem_builds s h
      exact ⟨cs, r, List.mem_append_left _ hb⟩
    · obtain ⟨cs, r, hb⟩ := mem_walkAll_of_mem_buildsAll rest h
      exact ⟨cs, r, List.mem_append_right _ hb⟩

end

theorem Tree.mem_walk_of_mem_builds {src : Source} {t : Tree} {b : Build} (h : b ∈ t.builds src) :
    ∃ cs r, (b.position, .element b.head cs r) ∈ t.walk :=
  Statement.mem_walkAll_of_mem_buildsAll t.statements h

/-! ### The log -/

/-- Is the event about an element that is built, and not about the loop of a repeater? -/
def Event.isOfBuild : Event → Bool
  | .expanding _ _ => false
  | .insertedText _ => false
  | .unmatchedQuote _ => true
  | .unmatchedExpression _ => true
  | .unresolved _ => true

/-- Tokens log nothing but what is not known about their variables. -/
theorem eq_unresolved_of_mem {src : Source} {tokens : Option (List Token)} {e : Event}
    (h : e ∈ eventsOf src tokens) : ∃ name, e = .unresolved name := by
  obtain ⟨t, -, ht⟩ := List.mem_flatMap.mp h
  have hu : ∀ name, e ∈ src.unknown name → ∃ name, e = .unresolved name := by
    intro name hn
    unfold Source.unknown at hn
    split at hn
    · exact ⟨name, List.mem_singleton.mp hn⟩
    · cases hn
  unfold Token.events at ht
  split at ht
  · split at ht
    · cases ht
    · exact hu _ ht
  · exact hu _ ht
  · cases ht

theorem isOfBuild_of_mem_eventsOf {src : Source} {tokens : Option (List Token)} {e : Event}
    (h : e ∈ eventsOf src tokens) : e.isOfBuild := by
  obtain ⟨name, rfl⟩ := eq_unresolved_of_mem h
  rfl

theorem Attribute.isOfBuild_of_mem {src : Source} {env : List Repeater} {a : Attribute} {e : Event}
    (h : e ∈ a.eventsIn src env) : e.isOfBuild := by
  unfold eventsIn at h
  obtain h | h := List.mem_append.mp h
  · exact isOfBuild_of_mem_eventsOf h
  · split at h
    · cases h
    · obtain h | h := List.mem_append.mp h
      · unfold delimiterEvents at h
        split at h
        · rw [List.mem_singleton.mp h]
          unfold unmatched
          split <;> rfl
        · cases h
      · exact isOfBuild_of_mem_eventsOf h

theorem Element.isOfBuild_of_mem {src : Source} {env : List Repeater} {head : Element} {e : Event}
    (h : e ∈ head.eventsIn src env) : e.isOfBuild := by
  unfold eventsIn at h
  rw [List.mem_append, List.mem_append] at h
  obtain (h | h) | h := h
  · obtain ⟨a, -, ha⟩ := List.mem_flatMap.mp h
    exact a.isOfBuild_of_mem ha
  · exact isOfBuild_of_mem_eventsOf h
  · exact isOfBuild_of_mem_eventsOf h

theorem Element.filter_eventsIn (src : Source) (env : List Repeater) (head : Element) :
    (head.eventsIn src env).filter Event.isOfBuild = head.eventsIn src env :=
  List.filter_eq_self.mpr fun _ h => head.isOfBuild_of_mem h

/-- The loop of a repeater adds nothing to what is logged in its copies. -/
theorem Repeater.filter_eventsIn (src : Source) (r : Repeater) (marks waiting : Bool)
    {events : Nat → Bool → List Event} {builds : List Repeater → List Event} (env : List Repeater)
    (h : ∀ i w, (events i w).filter Event.isOfBuild = builds (r.turn i :: env)) :
    (r.eventsIn src marks waiting events).filter Event.isOfBuild =
      (environments src env (some r)).flatMap builds := by
  have hl : (if r.implicit && waitsAfter waiting marks (r.turns src)
      then [Event.insertedText (r.copies src)] else []).filter Event.isOfBuild = [] := by
    split <;> rfl
  rw [eventsIn, List.filter_cons_of_neg (by simp [Event.isOfBuild]), List.filter_append, hl,
    List.append_nil, List.filter_flatMap, environments, List.flatMap_map]
  simp only [h]

mutual

theorem Statement.filter_eventsIn (src : Source) : ∀ (s : Statement) (p : Position)
    (env : List Repeater) (waiting : Bool),
    (s.eventsIn src env waiting).filter Event.isOfBuild =
      (s.builds src p env).flatMap (Build.events src)
  | .element head cs none, p, env, waiting => by
    have ih := filter_eventsInAll src cs (p.field "elements") 0 env waiting
    rw [eventsIn, builds, List.filter_append, ih, head.filter_eventsIn]
    simp [Repeater.environments, Build.events]
  | .element head cs (some r), p, env, waiting => by
    rw [eventsIn, builds, List.flatMap_assoc]
    refine r.filter_eventsIn src _ _ env fun i w => ?_
    have ih := filter_eventsInAll src cs (p.field "elements") 0 (r.turn i :: env) w
    rw [List.filter_append, ih, head.filter_eventsIn]
    simp [Build.events]
  | .group cs none, p, env, waiting => by
    have ih := filter_eventsInAll src cs (p.field "elements") 0 env waiting
    rw [eventsIn, builds, ih]
    simp [Repeater.environments]
  | .group cs (some r), p, env, waiting => by
    rw [eventsIn, builds, List.flatMap_assoc]
    exact r.filter_eventsIn src _ _ env fun i w =>
      filter_eventsInAll src cs (p.field "elements") 0 (r.turn i :: env) w

theorem Statement.filter_eventsInAll (src : Source) : ∀ (ss : List Statement) (p : Position) (k : Nat)
    (env : List Repeater) (waiting : Bool),
    (Statement.eventsInAll src env waiting ss).filter Event.isOfBuild =
      (Statement.buildsAll src p k env ss).flatMap (Build.events src)
  | [], _, _, _, _ => by rw [eventsInAll, buildsAll]; rfl
  | s :: rest, p, k, env, waiting => by
    rw [eventsInAll, buildsAll, List.filter_append, List.flatMap_append,
      filter_eventsIn src s (p.item k), filter_eventsInAll src rest p (k + 1)]

end

theorem Tree.events_eq (src : Source) (t : Tree) :
    t.events src = Statement.eventsInAll src [] true t.statements := by
  have hr := congrArg Prod.snd (Statement.expandAll_run src t.statements {})
  unfold events run State.events
  rw [hr]
  simp [State.after]

def Statement.turns (src : Source) (s : Statement) : Nat := s.repeater.elim 1 (·.turns src)

theorem Repeater.length_environments (src : Source) (env : List Repeater) (s : Statement) :
    (environments src env s.repeater).length = s.turns src := by
  unfold Statement.turns
  cases s.repeater <;> simp [environments]

/-- The product of the copies of those statements of a walk that are around a position. -/
def timesIn (src : Source) (walk : List (Position × Statement)) (q : Position) : Nat :=
  ((walk.filter fun x => x.1 <+: q).map fun x => x.2.turns src).prod

/-- How many copies are made of what stands at a position: the product of the copies of the statement
there and of all statements around it. -/
def Tree.times (src : Source) (t : Tree) (q : Position) : Nat := timesIn src t.walk q

section Times

variable (src : Source) {p q : Position}

theorem timesIn_append (xs ys : List (Position × Statement)) (q : Position) :
    timesIn src (xs ++ ys) q = timesIn src xs q * timesIn src ys q := by
  simp [timesIn]

theorem timesIn_eq_one {walk : List (Position × Statement)} (h : ∀ x ∈ walk, ¬ x.1 <+: q) :
    timesIn src walk q = 1 := by
  have hn : walk.filter (fun x => x.1 <+: q) = [] := List.filter_eq_nil_iff.mpr (by simpa using h)
  rw [timesIn, hn]
  rfl

theorem Statement.timesIn_walk (s : Statement) (h : p <+: q) :
    timesIn src (s.walk p) q =
      s.turns src * timesIn src (Statement.walkAll (p.field "elements") 0 s.children) q := by
  rw [s.walk_eq, timesIn, List.filter_cons_of_pos (by simpa using h), List.map_cons, List.prod_cons]
  rfl

/-- What is in a statement itself is in none of its children, and is copied only with the statement. -/
theorem Statement.timesIn_inside (s : Statement) (h : p.Inside q) :
    timesIn src (s.walk p) q = s.turns src := by
  have hc : ∀ x ∈ Statement.walkAll (p.field "elements") 0 s.children, ¬ x.1 <+: q := by
    intro x hx hq
    obtain ⟨j, -, hj⟩ := prefix_of_mem_walkAll s.children hx
    exact h.not_prefix_child (hj.trans hq)
  rw [s.timesIn_walk src h.1, timesIn_eq_one src hc, Nat.mul_one]

end Times

/-! ### Sums over builds -/

theorem sum_flatMap_const {α β : Type} (g : β → Nat) {f : α → List β} {c : Nat} {xs : List α}
    (h : ∀ x, ((f x).map g).sum = c) : ((xs.flatMap f).map g).sum = xs.length * c := by
  induction xs with
  | nil => simp
  | cons x xs ih =>
    rw [List.flatMap_cons, List.map_append, List.sum_append, h, ih, List.length_cons, Nat.succ_mul]
    exact Nat.add_comm _ _

/-- The positions that a statement of a walk has of its own, if `own` tells those of an element; a group
has none. -/
def ownAt (own : Position → Element → List Position) : Position × Statement → List Position
  | (p, .element head _ _) => own p head
  | (_, .group _ _) => []

/-- The copies that are made of all positions which statements of a walk have of their own. -/
def ownTimes (src : Source) (own : Position → Element → List Position)
    (walk : List (Position × Statement)) : Nat :=
  ((walk.flatMap (ownAt own)).map (timesIn src walk)).sum

section Sums

variable (src : Source) {own : Position → Element → List Position}
  (inside : ∀ p head, ∀ q ∈ own p head, p.Inside q)
include inside

theorem inside_of_mem_ownAt {x : Position × Statement} {q : Position} (h : q ∈ ownAt own x) :
    x.1.Inside q := by
  obtain ⟨p, s⟩ := x
  cases s with
  | element head cs r => exact inside p head q h
  | group cs r => cases h

theorem Statement.ownTimes_walk (s : Statement) (p : Position) :
    ownTimes src own (s.walk p) =
      s.turns src * ((ownAt own (p, s)).length +
        ownTimes src own (Statement.walkAll (p.field "elements") 0 s.children)) := by
  have h₀ : ∀ q ∈ ownAt own (p, s), timesIn src (s.walk p) q = s.turns src := fun q hq =>
    s.timesIn_inside src (inside_of_mem_ownAt inside hq)
  have h₁ : ∀ q ∈ (Statement.walkAll (p.field "elements") 0 s.children).flatMap (ownAt own),
      timesIn src (s.walk p) q =
        s.turns src * timesIn src (Statement.walkAll (p.field "elements") 0 s.children) q := by
    intro q hq
    obtain ⟨x, hx, hq⟩ := List.mem_flatMap.mp hq
    obtain ⟨j, -, hj⟩ := prefix_of_mem_walkAll s.children hx
    have hp : p <+: x.1 := Position.prefix_of_field (Position.prefix_of_item hj)
    exact s.timesIn_walk src (hp.trans (inside_of_mem_ownAt inside hq).1)
  unfold ownTimes
  nth_rewrite 2 [s.walk_eq]
  rw [List.flatMap_cons, List.map_append, List.sum_append, List.map_congr_left h₀,
    List.map_congr_left h₁, List.sum_map_mul_left, List.map_const', List.sum_replicate_nat,
    Nat.mul_comm, Nat.mul_add]

theorem Statement.ownTimes_walkAll_cons (s : Statement) (rest : List Statement) (p : Position) (k : Nat) :
    ownTimes src own (Statement.walkAll p k (s :: rest)) =
      ownTimes src own (s.walk (p.item k)) + ownTimes src own (Statement.walkAll p (k + 1) rest) := by
  -- what stands below one statement does not stand below any of the others
  have h₀ : ∀ q ∈ (s.walk (p.item k)).flatMap (ownAt own),
      timesIn src (Statement.walkAll p (k + 1) rest) q = 1 := by
    intro q hq
    obtain ⟨x, hx, hq⟩ := List.mem_flatMap.mp hq
    have hk : p.item k <+: q := (prefix_of_mem_walk s hx).trans (inside_of_mem_ownAt inside hq).1
    exact timesIn_eq_one src fun y hy => not_prefix_of_mem_rest hk hy
  have h₁ : ∀ q ∈ (Statement.walkAll p (k + 1) rest).flatMap (ownAt own),
      timesIn src (s.walk (p.item k)) q = 1 := by
    intro q hq
    obtain ⟨x, hx, hq⟩ := List.mem_flatMap.mp hq
    obtain ⟨j, hj, hjx⟩ := prefix_of_mem_walkAll rest hx
    have hjq : p.item j <+: q := hjx.trans (inside_of_mem_ownAt inside hq).1
    exact timesIn_eq_one src fun y hy => not_prefix_of_mem_first hj hjq hy
  unfold ownTimes
  rw [walkAll, List.flatMap_append, List.map_append, List.sum_append]
  congr 2
  · exact List.map_congr_left fun q hq => by rw [timesIn_append, h₀ q hq, Nat.mul_one]
  · exact List.map_congr_left fun q hq => by rw [timesIn_append, h₁ q hq, Nat.one_mul]

mutual

theorem Statement.sum_builds : ∀ (s : Statement) (p : Position) (env : List Repeater),
    ((s.builds src p env).map fun b => (own b.position b.head).length).sum =
      ownTimes src own (s.walk p)
  | .element head cs r, p, env => by
    rw [builds, ownTimes_walk src inside, ← Repeater.length_environments src env]
    refine sum_flatMap_const _ fun env => ?_
    rw [List.map_append, List.sum_append, sum_buildsAll cs]
    simp [ownAt, children, Nat.add_comm]
  | .group cs r, p, env => by
    rw [builds, ownTimes_walk src inside, ← Repeater.length_environments src env]
    refine sum_flatMap_const _ fun env => ?_
    rw [sum_buildsAll cs]
    simp [ownAt, children]

theorem Statement.sum_buildsAll : ∀ (ss : List Statement) (p : Position) (k : Nat) (env : List Repeater),
    ((Statement.buildsAll src p k env ss).map fun b => (own b.position b.head).length).sum =
      ownTimes src own (Statement.walkAll p k ss)
  | [], _, _, _ => rfl
  | s :: rest, p, k, env => by
    rw [buildsAll, List.map_append, List.sum_append, sum_builds s, sum_buildsAll rest,
      ownTimes_walkAll_cons src inside]

end

/-- **Counting over builds is counting over the walk**, with the copies that are made of each
position. -/
theorem Tree.sum_builds (t : Tree) :
    ((t.builds src).map fun b => (own b.position b.head).length).sum =
      ((t.walk.flatMap (ownAt own)).map (t.times src)).sum :=
  Statement.sum_buildsAll src inside t.statements (root.field "elements") 0 []

end Sums

end Shorthand
