import Shorthand.Proofs.Expansion.Attempt

/-!
# Siblings

Statements that stand side by side have nothing in common but the text: what one of them leaves to the
next is whether the text still waits for its place.

* `Statement.nodesIn_of_not_mentions`: a statement that does not mention the text expands as it unrolls;
* `Statement.attemptFrom_append`: what comes of two lists of statements, one after the other;
* `Tree.attempt_siblings`: what this says of the siblings at the top of a tree.
-/

namespace Shorthand

open Expansion State Repeater

/-! ### Statements that do not mention the text -/

mutual

/-- A statement that does not mention the text leaves it alone. -/
theorem Statement.reachesText_of_not_mentions (src : Source) : ∀ s : Statement,
    s.mentionsText = false → s.reachesText src = false
  | .element head cs r, h => by
    rw [mentionsText, Bool.or_eq_false_iff, Bool.or_eq_false_iff] at h
    obtain ⟨⟨hcs, hh⟩, hr⟩ := h
    have ih := reachesTextAll_of_not_mentions src cs hcs
    cases r with
    | none => rw [reachesText, ih, hh]; rfl
    | some r =>
      have hi : r.implicit = false := hr
      simp [reachesText, ih, hh, reaches, hi]
  | .group cs r, h => by
    rw [mentionsText, Bool.or_eq_false_iff] at h
    obtain ⟨hcs, hr⟩ := h
    have ih := reachesTextAll_of_not_mentions src cs hcs
    cases r with
    | none => rw [reachesText, ih]
    | some r =>
      have hi : r.implicit = false := hr
      simp [reachesText, ih, reaches, hi]

theorem Statement.reachesTextAll_of_not_mentions (src : Source) : ∀ ss : List Statement,
    Statement.mentionsTextAll ss = false → Statement.reachesTextAll src ss = false
  | [], _ => rfl
  | s :: rest, h => by
    rw [mentionsTextAll, Bool.or_eq_false_iff] at h
    rw [reachesTextAll, reachesText_of_not_mentions src s h.1, reachesTextAll_of_not_mentions src rest h.2]
    rfl

end

/-- The copies of an explicit repeater, if the text makes no difference to any of them. -/
theorem Repeater.nodesIn_explicit (src : Source) {r : Repeater} (hr : r.implicit = false) (marks waiting : Bool)
    {nodes : Nat → Bool → List Node} {same : Nat → List Node} (h : ∀ i w, nodes i w = same i) :
    r.nodesIn src marks waiting nodes = (List.range (r.turns src)).flatMap same := by
  simp [nodesIn, filled, hr, h]

mutual

/-- **A statement that does not mention the text** has the same nodes whether it waits or not. -/
theorem Statement.nodesIn_of_not_mentions (src : Source) : ∀ (s : Statement) (env : List Repeater)
    (waiting : Bool), s.mentionsText = false → s.nodesIn src env waiting = s.unroll src env
  | .element head cs r, env, waiting, h => by
    rw [mentionsText, Bool.or_eq_false_iff, Bool.or_eq_false_iff] at h
    obtain ⟨⟨hcs, -⟩, hr⟩ := h
    have ih (env : List Repeater) (w : Bool) := nodesInAll_of_not_mentions src cs env w hcs
    cases r with
    | none => rw [nodesIn, unroll, ih]
    | some r =>
      have hi : r.implicit = false := hr
      rw [nodesIn, unroll, List.map_eq_flatMap]
      exact r.nodesIn_explicit src hi _ waiting fun i w => by rw [ih]
  | .group cs r, env, waiting, h => by
    rw [mentionsText, Bool.or_eq_false_iff] at h
    obtain ⟨hcs, hr⟩ := h
    have ih (env : List Repeater) (w : Bool) := nodesInAll_of_not_mentions src cs env w hcs
    cases r with
    | none => rw [nodesIn, unroll, ih]
    | some r =>
      have hi : r.implicit = false := hr
      rw [nodesIn, unroll]
      exact r.nodesIn_explicit src hi _ waiting fun i w => ih _ w

theorem Statement.nodesInAll_of_not_mentions (src : Source) : ∀ (ss : List Statement)
    (env : List Repeater) (waiting : Bool), Statement.mentionsTextAll ss = false →
    Statement.nodesInAll src env waiting ss = Statement.unrollAll src env ss
  | [], _, _, _ => rfl
  | s :: rest, env, waiting, h => by
    rw [mentionsTextAll, Bool.or_eq_false_iff] at h
    rw [nodesInAll, unrollAll, nodesIn_of_not_mentions src s env waiting h.1,
      nodesInAll_of_not_mentions src rest env _ h.2]

end

/-! ### One list after another -/

theorem Statement.reachesTextAll_append (src : Source) (xs ys : List Statement) :
    Statement.reachesTextAll src (xs ++ ys) =
      (Statement.reachesTextAll src xs || Statement.reachesTextAll src ys) := by
  induction xs with
  | nil => rfl
  | cons x xs ih =>
    rw [List.cons_append, reachesTextAll, reachesTextAll, ih, Bool.or_assoc]

theorem Statement.attemptAll_append (src : Source) (xs ys : List Statement) :
    Statement.attemptAll src (xs ++ ys) = (do
      let ns ← Statement.attemptAll src xs
      let ms ← Statement.attemptAll src ys
      pure (ns ++ ms)) := by
  unfold attemptAll
  induction xs with
  | nil => simp [Watched.expandAll]
  | cons x xs ih =>
    simp only [List.cons_append, Watched.expandAll, ih, bind_assoc, pure_bind, List.append_assoc]

/-- The nodes of some statements that are expanded on their own, in a state in which the text has found
its place just if `taken` says so. -/
def Statement.nodesFrom (src : Source) (taken : Bool) (ss : List Statement) : List Node :=
  ((Statement.expandAll src ss).run { inserted := taken }).1

theorem Statement.nodesFrom_eq (src : Source) (taken : Bool) (ss : List Statement) :
    Statement.nodesFrom src taken ss = Statement.nodesInAll src [] (!taken) ss := by
  rw [nodesFrom, Statement.expandAll_run]

/-- What comes of some statements that are attempted on their own, in a state in which the text has found its
place just if `taken` says so. -/
def Statement.attemptFrom (src : Source) (taken : Bool) (ss : List Statement) :
    Except Hindrance (List Node) := ((Statement.attemptAll src ss).run.run { inserted := taken }).1

def followedBy (x y : Except Hindrance (List Node)) : Except Hindrance (List Node) := do
  pure ((← x) ++ (← y))

theorem Statement.attemptAll_append_fst (src : Source) (xs ys : List Statement) (σ : State) :
    ((Statement.attemptAll src (xs ++ ys)).run.run σ).1 =
      followedBy ((Statement.attemptAll src xs).run.run σ).1
        ((Statement.attemptAll src ys).run.run ((Statement.attemptAll src xs).run.run σ).2).1 := by
  rw [attemptAll_append, Attempt.run_bind]
  obtain ⟨_ | ns, τ⟩ := (Statement.attemptAll src xs).run.run σ
  · rfl
  · dsimp only
    rw [Attempt.run_bind]
    obtain ⟨_ | ms, υ⟩ := (Statement.attemptAll src ys).run.run τ <;> rfl

section AttemptFrom

variable (src : Source) (taken : Bool)

theorem Statement.attemptFrom_eq (ss : List Statement) :
    Statement.attemptFrom src taken ss = match hindranceAll? src [] ss with
      | none => .ok (Statement.nodesInAll src [] (!taken) ss)
      | some (h, _) => .error h := attemptAll_fst ss _

theorem Statement.attemptFrom_append (xs ys : List Statement) :
    Statement.attemptFrom src taken (xs ++ ys) =
      followedBy (Statement.attemptFrom src taken xs)
        (Statement.attemptFrom src (taken || Statement.reachesTextAll src xs) ys) := by
  unfold attemptFrom
  rw [attemptAll_append_fst]
  cases hx : hindranceAll? src [] xs with
  | none =>
    rw [attemptAll_of_none (σ := { inserted := taken }) hx, attemptAll_fst ys, attemptAll_fst ys,
      Statement.expandAll_run]
    rfl
  | some e =>
    obtain ⟨τ, hq, -, -⟩ := attemptAll_of_some (σ := { inserted := taken }) hx
    rw [hq]
    rfl

theorem Statement.attemptFrom_of_not_mentions {ss : List Statement}
    (h : Statement.mentionsTextAll ss = false) (other : Bool) :
    Statement.attemptFrom src taken ss = Statement.attemptFrom src other ss := by
  rw [attemptFrom_eq, attemptFrom_eq, nodesInAll_of_not_mentions src ss _ _ h,
    nodesInAll_of_not_mentions src ss _ _ h]

/-- Two neighbours of which one at least does not mention the text: neither of them takes anything from the
other. -/
theorem Statement.attemptFrom_neighbours {s s' : Statement}
    (h : s.mentionsText = false ∨ s'.mentionsText = false) :
    Statement.attemptFrom src taken [s, s'] =
      followedBy (Statement.attemptFrom src taken [s]) (Statement.attemptFrom src taken [s']) := by
  have ha : Statement.attemptFrom src taken ([s] ++ [s']) = _ := attemptFrom_append src taken [s] [s']
  rw [List.singleton_append] at ha
  rw [ha]
  rcases h with h | h
  · have hr : Statement.reachesTextAll src [s] = false :=
      reachesTextAll_of_not_mentions src [s] (by rw [mentionsTextAll, h]; rfl)
    rw [hr, Bool.or_false]
  · have hm : Statement.mentionsTextAll [s'] = false := by rw [mentionsTextAll, h]; rfl
    rw [attemptFrom_of_not_mentions src _ hm taken]

end AttemptFrom

namespace Tree

/-- **Siblings are expanded one after the other.**  What comes of two lists of statements is what comes of
the first list, whatever stands behind it, followed by what comes of the second one from a state in which the
text has found its place just if the first list lays hold of it, which in a tree of a document is to say that
it mentions the text.  So the lists are expanded independently if one of them does not mention the text; and
if two neighbours of which this is true of one are exchanged, then so are their nodes, and nothing else
changes.  There are nodes if nothing hinders the statements, and else there are none at all. -/
theorem attempt_siblings (src : Source) (xs ys : List Statement) :
    let convert (ss : List Statement) := (({ statements := ss } : Tree).attempt src).1
    convert (xs ++ ys) =
      followedBy (convert xs) (Statement.attemptFrom src (Statement.reachesTextAll src xs) ys) ∧
    (Statement.CountedAll xs →
      Statement.reachesTextAll src xs = Statement.mentionsTextAll xs ∧
      convert (xs ++ ys) =
        followedBy (convert xs) (Statement.attemptFrom src (Statement.mentionsTextAll xs) ys)) ∧
    (Statement.mentionsTextAll xs = false ∨ Statement.mentionsTextAll ys = false →
      convert (xs ++ ys) = followedBy (convert xs) (convert ys)) ∧
    (∀ s s' : Statement, s.mentionsText = false ∨ s'.mentionsText = false →
      let taken := Statement.reachesTextAll src xs
      let behind := Statement.attemptFrom src (taken || Statement.reachesTextAll src [s, s']) ys
      convert (xs ++ [s, s'] ++ ys) = followedBy (followedBy (convert xs)
        (followedBy (Statement.attemptFrom src taken [s]) (Statement.attemptFrom src taken [s']))) behind ∧
      convert (xs ++ [s', s] ++ ys) = followedBy (followedBy (convert xs)
        (followedBy (Statement.attemptFrom src taken [s']) (Statement.attemptFrom src taken [s]))) behind) ∧
    ∀ taken ss,
      (Statement.hindranceAll? src [] ss = none →
        Statement.attemptFrom src taken ss = .ok (Statement.nodesFrom src taken ss)) ∧
      ∀ h env, Statement.hindranceAll? src [] ss = some (h, env) →
        Statement.attemptFrom src taken ss = .error h := by
  intro convert
  have convert_eq (ss : List Statement) : convert ss = Statement.attemptFrom src false ss := rfl
  have happend : convert (xs ++ ys) =
      followedBy (convert xs) (Statement.attemptFrom src (Statement.reachesTextAll src xs) ys) := by
    rw [convert_eq, convert_eq, Statement.attemptFrom_append, Bool.false_or]
  refine ⟨happend, ?_, ?_, ?_, ?_⟩
  · intro hc
    have hm := Statement.reachesTextAll_eq src xs hc
    exact ⟨hm, by rw [happend, hm]⟩
  · intro h
    rw [happend, convert_eq, convert_eq]
    rcases h with h | h
    · rw [Statement.reachesTextAll_of_not_mentions src xs h]
    · rw [Statement.attemptFrom_of_not_mentions src _ h false]
  · intro s s' h taken behind
    -- the two leave the same to what comes behind them, in either order
    have hswap : Statement.reachesTextAll src [s', s] = Statement.reachesTextAll src [s, s'] := by
      have hss (u v : Statement) : Statement.reachesTextAll src [u, v] =
          (u.reachesText src || v.reachesText src) := by
        simp only [Statement.reachesTextAll, Bool.or_false]
      rw [hss, hss, Bool.or_comm]
    constructor
    · rw [convert_eq, Statement.attemptFrom_append, Statement.attemptFrom_append,
        Statement.reachesTextAll_append, Bool.false_or, Bool.false_or,
        Statement.attemptFrom_neighbours src _ h]
      rfl
    · rw [convert_eq, Statement.attemptFrom_append, Statement.attemptFrom_append,
        Statement.reachesTextAll_append, Bool.false_or, Bool.false_or,
        Statement.attemptFrom_neighbours src _ h.symm, hswap]
      rfl
  · intro taken ss
    constructor
    · intro h
      rw [Statement.attemptFrom_eq, h, Statement.nodesFrom_eq]
    · intro h env hh
      rw [Statement.attemptFrom_eq, hh]

/-- An item and a rule for each of two texts, and a heading: the items, which come first, get the texts, and
the heading may stand on either side of the rules.  A number that is to fill more characters than a text can
have takes the items with it. -/
theorem attempt_siblings_items :
    let src : Source := { text := .items [some "a", some "b"] }
    let each (name : String) : Statement :=
      .element { name := some [.literal name] } [] (some { implicit := true })
    let heading : Statement := .element { name := some [.literal "h"] } [] none
    let wide : Statement := .element { name := some [.number { size := longestText + 1 }] } [] none
    let node (name : String) (i : Nat) (value : Option (List Entry)) : Node :=
      { name := some name, value, repeater := some { implicit := true, value := i } }
    let lis : List Node := [node "li" 0 (some [.text "a"]), node "li" 1 (some [.text "b"])]
    let hrs : List Node := [node "hr" 0 none, node "hr" 1 none]
    let convert (ss : List Statement) := (({ statements := ss } : Tree).attempt src).1
    Statement.CountedAll [each "li"] ∧ Statement.mentionsTextAll [heading] = false ∧
      Statement.hindranceAll? src [] [each "li"] = none ∧
      Statement.hindranceAll? src [] [wide] = some (.wideNumber, []) ∧
      convert ([each "li"] ++ [each "hr"]) = .ok (lis ++ hrs) ∧
      convert ([heading] ++ [each "li"]) = .ok ([{ name := some "h" }] ++ lis) ∧
      convert ([each "li"] ++ [heading, each "hr"] ++ []) = .ok (lis ++ ([{ name := some "h" }] ++ hrs) ++ []) ∧
      convert ([each "li"] ++ [each "hr", heading] ++ []) = .ok (lis ++ (hrs ++ [{ name := some "h" }]) ++ []) ∧
      convert ([each "li"] ++ [wide]) = .error .wideNumber := by
  intro src each heading wide node lis hrs convert
  have hc : Statement.CountedAll [each "li"] := ⟨⟨fun x hx => by cases hx; decide, trivial⟩, trivial⟩
  have hm : Statement.mentionsTextAll [heading] = false := rfl
  have hn : Statement.hindranceAll? src [] [each "li"] = none := rfl
  have hw : Statement.hindranceAll? src [] [wide] = some (.wideNumber, []) := by decide +kernel
  obtain ⟨-, hmarked, -, -, hends⟩ := attempt_siblings src [each "li"] [each "hr"]
  obtain ⟨-, -, hfree, -, -⟩ := attempt_siblings src [heading] [each "li"]
  obtain ⟨-, -, -, hswap, -⟩ := attempt_siblings src [each "li"] []
  obtain ⟨-, -, hbroken, -, -⟩ := attempt_siblings src [each "li"] [wide]
  obtain ⟨hone, hother⟩ := hswap heading (each "hr") (.inl rfl)
  have hli : convert [each "li"] = .ok lis := ((hends false _).1 hn).trans rfl
  have hwide : convert [wide] = .error .wideNumber := (hends false [wide]).2 _ _ hw
  exact ⟨hc, hm, hn, hw, (hmarked hc).2.trans rfl, (hfree (.inl hm)).trans rfl, hone.trans rfl,
    hother.trans rfl, (hbroken (.inr rfl)).trans (congrArg₂ followedBy hli hwide)⟩

end Tree

end Shorthand
