import Shorthand.Proofs.Expansion.Builds

/-!
# The repeaters around a position

Inside of which repeaters the copies of an element are built, in the order in which they are built.

* `Tree.around`: the repeaters around a position, innermost first;
* `Repeater.allEnvironments`: the repeaters around each of the copies that they make together, the
  innermost one the fastest to turn;
* `Tree.env_builds`: these are the repeaters inside of which the element at a position is built.
-/

namespace Shorthand

open Repeater

/-! ### Environments -/

/-- The repeaters of those statements of a walk that are around a position, innermost first. -/
def aroundIn (walk : List (Position × Statement)) (q : Position) : List Repeater :=
  ((walk.filter fun x => x.1 <+: q).filterMap fun x => x.2.repeater).reverse

/-- The repeaters around what stands at a position, innermost first: that of the statement there, and
those of the statements around it. -/
def Tree.around (t : Tree) (q : Position) : List Repeater := aroundIn t.walk q

/-- The repeaters around each of the copies that some repeaters, innermost first, make together, each
copy inside of one of `envs`.  The innermost repeater is the fastest to turn. -/
def Repeater.environmentsFrom (src : Source) (envs : List (List Repeater)) :
    List Repeater → List (List Repeater)
  | [] => envs
  | r :: outer => (environmentsFrom src envs outer).flatMap fun env => environments src env (some r)

/-- The repeaters around each of the copies that some repeaters make together. -/
abbrev Repeater.allEnvironments (src : Source) (around : List Repeater) : List (List Repeater) :=
  environmentsFrom src [[]] around

section Around

variable {src : Source} {p q : Position}

theorem aroundIn_append (xs ys : List (Position × Statement)) (q : Position) :
    aroundIn (xs ++ ys) q = aroundIn ys q ++ aroundIn xs q := by
  simp [aroundIn]

theorem aroundIn_eq_nil {walk : List (Position × Statement)} (h : ∀ x ∈ walk, ¬ x.1 <+: q) :
    aroundIn walk q = [] := by
  have hn : walk.filter (fun x => x.1 <+: q) = [] := List.filter_eq_nil_iff.mpr (by simpa using h)
  rw [aroundIn, hn]
  rfl

theorem Statement.aroundIn_walk (s : Statement) (h : p <+: q) :
    aroundIn (s.walk p) q =
      aroundIn (Statement.walkAll (p.field "elements") 0 s.children) q ++ s.repeater.toList := by
  rw [s.walk_eq, aroundIn, List.filter_cons_of_pos (by simpa using h), List.filterMap_cons]
  cases s.repeater <;> simp [aroundIn]

theorem Repeater.environmentsFrom_append (envs : List (List Repeater)) (inner outer : List Repeater) :
    environmentsFrom src envs (inner ++ outer) =
      environmentsFrom src (environmentsFrom src envs outer) inner := by
  induction inner with
  | nil => rfl
  | cons r inner ih => rw [List.cons_append, environmentsFrom, environmentsFrom, ih]

/-- Copies are made inside of one environment after the other. -/
theorem Repeater.environmentsFrom_flatMap (envs : List (List Repeater)) (around : List Repeater) :
    environmentsFrom src envs around = envs.flatMap fun env => environmentsFrom src [env] around := by
  induction around with
  | nil => simp [environmentsFrom]
  | cons r outer ih =>
    rw [environmentsFrom, ih, List.flatMap_assoc]
    rfl

theorem Repeater.environmentsFrom_toList (env : List Repeater) (r : Option Repeater) :
    environmentsFrom src [env] r.toList = environments src env r := by
  cases r
  · rfl
  · exact List.flatMap_singleton ..

/-! ### Builds at a position -/

/-- What is built for a statement itself: an element, and nothing for a group. -/
def Statement.ownBuilds (p : Position) (env : List Repeater) : Statement → List Build
  | .element head _ _ => [⟨p, head, env⟩]
  | .group _ _ => []

theorem Statement.builds_eq (s : Statement) (p : Position) (env : List Repeater) :
    s.builds src p env = (environments src env s.repeater).flatMap fun env =>
      Statement.buildsAll src (p.field "elements") 0 env s.children ++ s.ownBuilds p env := by
  cases s with
  | element head cs r => rw [builds]; rfl
  | group cs r => rw [builds]; simp [ownBuilds, repeater, children]

theorem Statement.position_of_mem_ownBuilds {s : Statement} {env : List Repeater} {b : Build}
    (h : b ∈ s.ownBuilds p env) : b.position = p := by
  cases s with
  | element head cs r => rw [List.mem_singleton.mp h]
  | group cs r => cases h

/-- Nothing is built at a position around which no statement stands. -/
theorem Statement.filter_buildsAll_eq_nil {ss : List Statement} {k : Nat} {env : List Repeater}
    (h : ∀ x ∈ Statement.walkAll p k ss, ¬ x.1 <+: q) :
    (Statement.buildsAll src p k env ss).filter (·.position = q) = [] := by
  refine List.filter_eq_nil_iff.mpr fun b hb hq => ?_
  obtain ⟨cs, r, hw⟩ := mem_walkAll_of_mem_buildsAll ss hb
  exact h _ hw (of_decide_eq_true hq ▸ List.prefix_refl b.position)

theorem Statement.filter_builds_eq_nil {s : Statement} {env : List Repeater}
    (h : ∀ x ∈ s.walk p, ¬ x.1 <+: q) : (s.builds src p env).filter (·.position = q) = [] := by
  refine List.filter_eq_nil_iff.mpr fun b hb hq => ?_
  obtain ⟨cs, r, hw⟩ := mem_walk_of_mem_builds s hb
  exact h _ hw (of_decide_eq_true hq ▸ List.prefix_refl b.position)

variable {head : Element} {cs : List Statement} {own : Option Repeater}

/-- Inside of which repeaters an element in a statement is built, if this is known of the children. -/
theorem Statement.env_builds_of_children {s : Statement} {env : List Repeater}
    (ih : (q, .element head cs own) ∈ Statement.walkAll (p.field "elements") 0 s.children →
      ∀ env, ((Statement.buildsAll src (p.field "elements") 0 env s.children).filter
          (·.position = q)).map (·.env) =
        environmentsFrom src [env] (aroundIn (Statement.walkAll (p.field "elements") 0 s.children) q))
    (h : (q, .element head cs own) ∈ s.walk p) :
    ((s.builds src p env).filter (·.position = q)).map (·.env) =
      environmentsFrom src [env] (aroundIn (s.walk p) q) := by
  have hp : p <+: q := prefix_of_mem_walk s h
  rw [s.builds_eq, s.aroundIn_walk hp, environmentsFrom_append, environmentsFrom_toList,
    environmentsFrom_flatMap, List.filter_flatMap, List.map_flatMap]
  refine List.flatMap_congr fun env _ => ?_
  rw [List.filter_append, List.map_append]
  rw [s.walk_eq] at h
  obtain hs | hc := List.mem_cons.mp h
  · -- the element is the statement itself, and none of its children stands there
    cases hs
    have hn : ∀ x ∈ Statement.walkAll (p.field "elements") 0 cs, ¬ x.1 <+: p := fun x hx =>
      not_prefix_of_mem_walk_children hx
    rw [children, filter_buildsAll_eq_nil hn, aroundIn_eq_nil hn]
    simp [ownBuilds, environmentsFrom]
  · have hown : (s.ownBuilds p env).filter (·.position = q) = [] :=
      List.filter_eq_nil_iff.mpr fun b hb hq => ne_of_mem_walk_children hc
        ((position_of_mem_ownBuilds hb).symm.trans (of_decide_eq_true hq))
    rw [hown, List.map_nil, List.append_nil, ih hc]

mutual

theorem Statement.env_builds : ∀ (s : Statement) {p : Position} (env : List Repeater),
    (q, .element head cs own) ∈ s.walk p →
    ((s.builds src p env).filter (·.position = q)).map (·.env) =
      environmentsFrom src [env] (aroundIn (s.walk p) q)
  | .element _ children _, _, _, h => env_builds_of_children (fun hc env => env_buildsAll children env hc) h
  | .group children _, _, _, h => env_builds_of_children (fun hc env => env_buildsAll children env hc) h

theorem Statement.env_buildsAll : ∀ (ss : List Statement) {p : Position} {k : Nat} (env : List Repeater),
    (q, .element head cs own) ∈ Statement.walkAll p k ss →
    ((Statement.buildsAll src p k env ss).filter (·.position = q)).map (·.env) =
      environmentsFrom src [env] (aroundIn (Statement.walkAll p k ss) q)
  | [], _, _, _, h => by cases h
  | s :: rest, p, k, env, h => by
    rw [buildsAll, walkAll, List.filter_append, List.map_append, aroundIn_append]
    rw [walkAll] at h
    -- what stands in one of the statements stands in none of the others
    obtain hs | hr := List.mem_append.mp h
    · have hn : ∀ x ∈ Statement.walkAll p (k + 1) rest, ¬ x.1 <+: q := fun x hx =>
        not_prefix_of_mem_rest (prefix_of_mem_walk s hs) hx
      rw [filter_buildsAll_eq_nil hn, aroundIn_eq_nil hn, List.map_nil, List.append_nil, List.nil_append]
      exact env_builds s env hs
    · obtain ⟨j, hj, hjq⟩ := prefix_of_mem_walkAll rest hr
      have hn : ∀ x ∈ s.walk (p.item k), ¬ x.1 <+: q := fun x hx => not_prefix_of_mem_first hj hjq hx
      rw [filter_builds_eq_nil hn, aroundIn_eq_nil hn, List.map_nil, List.nil_append, List.append_nil]
      exact env_buildsAll rest env hr

end

/-- **An element is built inside of each of the environments** that the repeaters around it make
together, and in their order. -/
theorem Tree.env_builds {t : Tree} (h : (q, .element head cs own) ∈ t.walk) :
    ((t.builds src).filter (·.position = q)).map (·.env) = allEnvironments src (t.around q) :=
  Statement.env_buildsAll t.statements [] h

/-- Each of the environments is one copy of every repeater around. -/
theorem Repeater.length_of_mem_environments {env around : List Repeater}
    (h : env ∈ allEnvironments src around) : env.length = around.length := by
  induction around generalizing env with
  | nil => rw [List.mem_singleton.mp h]
  | cons r outer ih =>
    obtain ⟨rest, hrest, henv⟩ := List.mem_flatMap.mp h
    obtain ⟨i, -, rfl⟩ := List.mem_map.mp henv
    rw [List.length_cons, List.length_cons, ih hrest]

/-- The outermost repeater of an environment is a copy of the outermost one around. -/
theorem Repeater.getLast?_of_mem_environments {env around : List Repeater} {last : Repeater}
    (h : env ∈ allEnvironments src around) (hl : around.getLast? = some last) :
    ∃ j < last.turns src, env.getLast? = some (last.turn j) := by
  induction around generalizing env with
  | nil => cases hl
  | cons r outer ih =>
    obtain ⟨rest, hrest, henv⟩ := List.mem_flatMap.mp h
    obtain ⟨i, hi, rfl⟩ := List.mem_map.mp henv
    cases outer with
    | nil =>
      cases hl
      rw [List.mem_singleton.mp hrest]
      exact ⟨i, List.mem_range.mp hi, rfl⟩
    | cons r' outer =>
      rw [List.getLast?_cons_cons] at hl
      obtain ⟨j, hj, hlast⟩ := ih hrest hl
      exact ⟨j, hj, by rw [List.getLast?_cons, hlast]; rfl⟩

end Around

end Shorthand
