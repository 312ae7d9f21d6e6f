import Shorthand.Proofs.Expansion.Around
import Shorthand.Proofs.Expansion.Attempt
import Shorthand.Proofs.Expansion.Postorder
import Shorthand.Proofs.Number.Padded

/-!
# How copies are numbered

The numbers that a token gets in all copies of its element, in the order in which the copies are made.

* `Numbering.consecutive`, `Numbering.round`: the texts of numbers that follow one another, up or down;
* `Numbering.map_text_environments`, `Numbering.map_text_environments_two`: the numbers of the copies of
  one repeater, and of one repeater in another one;
* `Tree.numbersAt`: the texts of a number in all copies of an element;
* `Tree.attempt_numbered`: what they are, and which of them are written.
-/

namespace Shorthand

open Repeater

/-! ### Rounds of numbers -/

namespace Numbering

variable (n : Numbering)

def consecutive (first : Int) (count : Nat) : List String :=
  (List.range count).map fun i : Nat => Number.padded n.size (first + i)

/-- The texts of a round of copies: of the numbers from `first` up, or down to it. -/
def round (first : Int) (count : Nat) : List String :=
  if n.reverse then (n.consecutive first count).reverse else n.consecutive first count

/-- The number of a copy among `count` copies, as long as no repeater further out is counted. -/
def own (count i : Nat) : Int := if n.reverse then n.base + (count - 1 - i : Nat) else n.base + i

theorem round_perm (first : Int) (count : Nat) : (n.round first count).Perm (n.consecutive first count) := by
  unfold round
  split
  · exact List.reverse_perm _
  · exact .refl _

theorem round_of_not_reverse (h : n.reverse = false) (first : Int) (count : Nat) :
    n.round first count = n.consecutive first count := if_neg (by simp [h])

theorem round_eq (skipped : Int) (count : Nat) :
    n.round (n.base + skipped) count =
      (List.range count).map fun i : Nat => Number.padded n.size (n.own count i + skipped) := by
  unfold round consecutive own
  split
  · rw [← List.map_reverse, List.range_eq_range', List.reverse_range', ← List.range_eq_range',
      List.map_map]
    refine List.map_congr_left fun i hi => ?_
    have hi := List.mem_range.mp hi
    simp only [Function.comp_apply]
    congr 1
    omega
  · refine List.map_congr_left fun i hi => ?_
    congr 1
    omega

/-- Rounds of numbers, each going on where the one before ended, are one long round. -/
theorem flatMap_consecutive (first : Int) (count rounds : Nat) :
    ((List.range rounds).flatMap fun j : Nat => n.consecutive (first + count * j) count) =
      n.consecutive first (rounds * count) := by
  induction rounds with
  | zero => simp [consecutive]
  | succ rounds ih =>
    rw [List.range_succ, List.flatMap_append, ih, Nat.succ_mul, consecutive, consecutive, List.range_add,
      List.map_append, List.map_map, List.flatMap_singleton]
    refine congrArg _ (List.map_congr_left fun i _ => congrArg (Number.padded n.size) ?_)
    rw [Int.natCast_add, Int.natCast_mul, Int.add_assoc, Int.mul_comm]

variable {src : Source} {r : Repeater}

/-- The number of a copy: its own one, and those of all copies that were made in the earlier turns of the
repeater from which the numbers go on. -/
theorem value_turn {i : Nat} (hi : i < r.turns src) (outer : List Repeater) :
    n.value src (r.turn i :: outer) = n.own (r.turns src) i +
      (outer.take n.parent).getLast?.elim 0 fun parent => r.turns src * parent.value := by
  -- the turn on top has the count of its repeater, and with it the length of the round
  have hc : (r.turn i).copies src = r.turns src := by
    have hr : (r.turn i).copies src = r.copies src := rfl
    unfold turns at hi ⊢
    omega
  have ho : (if n.reverse then n.base + (r.turns src : Int) - i - 1 else n.base + i) =
      n.own (r.turns src) i := by
    unfold own
    split
    · omega
    · rfl
  unfold value
  simp only [hc]
  have hv : (r.turn i).value = i := rfl
  rw [hv, ho]
  cases (outer.take n.parent).getLast? with
  | none => exact (Int.add_zero _).symm
  | some parent => rfl

/-- **The copies of one repeater are numbered in a round**, which begins behind what is skipped for the
repeater from which the numbers go on. -/
theorem map_text_environments {env : List Repeater} {skipped : Int}
    (h : ((env.take n.parent).getLast?.elim 0 fun parent => r.turns src * parent.value) = skipped) :
    (environments src env (some r)).map ((Token.number n).textIn src) =
      n.round (n.base + skipped) (r.turns src) := by
  rw [round_eq, environments, List.map_map]
  refine List.map_congr_left fun i hi => ?_
  have hv := n.value_turn (List.mem_range.mp hi) env
  rw [h] at hv
  exact congrArg (Number.padded n.size) hv

/-- **The copies of one repeater in another one**, from which the numbers go on, are numbered in as many
rounds as that one makes copies. -/
theorem map_text_environments_two (hp : n.parent = 1) (r' : Repeater) (env : List Repeater) :
    ((environments src env (some r')).flatMap fun env =>
        (environments src env (some r)).map ((Token.number n).textIn src)) =
      (List.range (r'.turns src)).flatMap fun j : Nat => n.round (n.base + r.turns src * j) (r.turns src) := by
  rw [environments, List.flatMap_map]
  refine List.flatMap_congr fun j _ => n.map_text_environments ?_
  rw [hp]
  rfl

/-- A repeater from which the numbers go on, and which would stand beyond the outermost one, is the
outermost one. -/
theorem textIn_of_le {env : List Repeater} {r : Repeater} (h : env.length ≤ n.parent) :
    (Token.number n).textIn src (r :: env) =
      (Token.number { n with parent := env.length }).textIn src (r :: env) := by
  have ht : env.take n.parent = env.take env.length := by
    rw [List.take_of_length_le h, List.take_length]
  simp only [Token.textIn, text, value, ht]

end Numbering

/-! ### Numbers of all copies -/

/-- The texts of a number that stands in the element at a position, in all copies of the element. -/
def Tree.numbersAt (src : Source) (t : Tree) (q : Position) (n : Numbering) : List String :=
  ((t.builds src).filter (·.position = q)).map fun b => (Token.number n).textIn src b.env

section Numbers

variable {src : Source} {t : Tree} {q : Position} {head : Element} {cs : List Statement}
  {own : Option Repeater}

theorem Tree.numbersAt_eq (h : (q, .element head cs own) ∈ t.walk) (n : Numbering) :
    t.numbersAt src q n = (allEnvironments src (t.around q)).map ((Token.number n).textIn src) := by
  rw [← env_builds h, List.map_map]
  rfl

/-- In the copies of the innermost repeater, inside of each environment of the others. -/
theorem Tree.numbersAt_eq_flatMap (h : (q, .element head cs own) ∈ t.walk) {r : Repeater}
    {outer : List Repeater} (ha : t.around q = r :: outer) (n : Numbering) :
    t.numbersAt src q n = (allEnvironments src outer).flatMap fun env =>
      (environments src env (some r)).map ((Token.number n).textIn src) := by
  rw [numbersAt_eq h, ha, allEnvironments, environmentsFrom, List.map_flatMap]

/-- Where no repeater further out counts, there is a round of numbers in each of their copies. -/
theorem Tree.numbersAt_rounds (h : (q, .element head cs own) ∈ t.walk) {r : Repeater}
    {outer : List Repeater} (ha : t.around q = r :: outer) (n : Numbering)
    (hp : n.parent = 0 ∨ outer = []) :
    t.numbersAt src q n =
      (allEnvironments src outer).flatMap fun _ => n.round n.base (r.turns src) := by
  rw [numbersAt_eq_flatMap h ha]
  refine List.flatMap_congr fun env he => ?_
  have ht : env.take n.parent = [] := by
    obtain hp | rfl := hp
    · rw [hp, List.take_zero]
    · rw [List.mem_singleton.mp he, List.take_nil]
  have hs : ((env.take n.parent).getLast?.elim 0 fun parent => r.turns src * parent.value) = 0 := by
    rw [ht]
    rfl
  rw [n.map_text_environments hs, Int.add_zero]

/-- Where the next repeater counts, there is a round of numbers in each of its copies, and these go on
one after the other. -/
theorem Tree.numbersAt_two (h : (q, .element head cs own) ∈ t.walk) {r r' : Repeater}
    {outer : List Repeater} (ha : t.around q = r :: r' :: outer) (n : Numbering) (hp : n.parent = 1) :
    t.numbersAt src q n = (allEnvironments src outer).flatMap fun _ =>
      (List.range (r'.turns src)).flatMap fun j : Nat =>
        n.round (n.base + r.turns src * j) (r.turns src) := by
  rw [numbersAt_eq_flatMap h ha, allEnvironments, environmentsFrom, List.flatMap_assoc]
  exact List.flatMap_congr fun env _ => n.map_text_environments_two hp r' env

theorem Tree.numbersAt_of_le (h : (q, .element head cs own) ∈ t.walk) {r : Repeater}
    {outer : List Repeater} (ha : t.around q = r :: outer) (n : Numbering) (hp : outer.length ≤ n.parent) :
    t.numbersAt src q n = t.numbersAt src q { n with parent := outer.length } := by
  rw [numbersAt_eq_flatMap h ha, numbersAt_eq_flatMap h ha]
  refine List.flatMap_congr fun env he => ?_
  have hl : env.length = outer.length := length_of_mem_environments he
  rw [environments, List.map_map, List.map_map]
  refine List.map_congr_left fun i _ => ?_
  rw [← hl] at hp ⊢
  exact n.textIn_of_le hp

/-- Where the outermost repeater counts, the numbers skip the copies made in its earlier turns. -/
theorem Tree.value_of_le (h : (q, .element head cs own) ∈ t.walk) {r last : Repeater}
    {outer : List Repeater} (ha : t.around q = r :: outer) (hlast : outer.getLast? = some last)
    (n : Numbering) (hp : outer.length ≤ n.parent) {b : Build} (hb : b ∈ t.builds src)
    (hq : b.position = q) : ∃ i < r.turns src, ∃ j < last.turns src,
      b.env.head? = some (r.turn i) ∧ b.env.getLast? = some (last.turn j) ∧
        n.value src b.env = n.own (r.turns src) i + r.turns src * j := by
  have he : b.env ∈ allEnvironments src (r :: outer) := by
    rw [← ha, ← env_builds h]
    exact List.mem_map_of_mem (List.mem_filter.mpr ⟨hb, decide_eq_true hq⟩)
  obtain ⟨env, henv, hi⟩ := List.mem_flatMap.mp he
  obtain ⟨i, hi, hturn⟩ := List.mem_map.mp hi
  obtain ⟨j, hj, hl⟩ := getLast?_of_mem_environments henv hlast
  have ht : env.take n.parent = env := List.take_of_length_le (length_of_mem_environments henv ▸ hp)
  refine ⟨i, List.mem_range.mp hi, j, hj, by rw [← hturn]; rfl, ?_, ?_⟩
  · rw [← hturn, List.getLast?_cons, hl]
    rfl
  · rw [← hturn, n.value_turn (List.mem_range.mp hi), ht, hl]
    rfl

end Numbers

/-- A number that cannot be written keeps its element from being built. -/
theorem Element.hindrance?_of_number {src : Source} {env : List Repeater} {head : Element} {act : Act}
    {n : Numbering} (ha : act ∈ head.acts) (ht : act.token? = some (.number n))
    (hn : n.hindrance? src env ≠ none) : head.hindrance? src env ≠ none := by
  have hact : act.hindrance? src env = n.hindrance? src env := by
    cases act with
    | text t => cases ht; rfl
    | entry t => cases ht; rfl
    | insert => cases ht
  intro h
  exact hn (hact ▸ List.findSome?_eq_none_iff.mp h act ha)

/-- **How the copies of an element are numbered.**  The nodes of an expansion show what is built, one
after the other.  Let the innermost repeater around an element make `c` copies.  Then a number in the
element runs through a round of `c` numbers in each copy of what is further out: from the base up, or down
to it.  If it goes on from the next repeater, which makes `d` copies, it runs through the `d * c` numbers
from the base on, in order if it goes up, and in some order if it goes down.  A repeater that would stand
beyond the outermost one is the outermost one; where there is only one, nothing is added.  Every text is
at least as long as it should be and spells out its number, of either sign, so that other numbers have
other texts.  But a number of too many digits is not written, nor one that is to fill more characters than a
text can have; and where an element holds such a number, the tree has no nodes at all. -/
theorem Tree.attempt_numbered (src : Source) {t : Tree} {q : Position} {head : Element}
    {cs : List Statement} {own : Option Repeater} (h : (q, .element head cs own) ∈ t.walk) {r : Repeater}
    {outer : List Repeater} (ha : t.around q = r :: outer) :
    List.Forall₂ (Build.Shown src) (t.builds src) (Node.postorderAll (t.expand src)) ∧
    ((∀ b ∈ t.builds src, b.head.hindrance? src b.env = none) → (t.attempt src).1 = .ok (t.expand src)) ∧
    ∀ n : Numbering,
      (n.parent = 0 → t.numbersAt src q n =
        (allEnvironments src outer).flatMap fun _ => n.round n.base (r.turns src)) ∧
      (outer = [] → t.numbersAt src q n = n.round n.base (r.turns src)) ∧
      (∀ r' rest, outer = r' :: rest → n.parent = 1 → ∃ texts : List String,
        t.numbersAt src q n = (allEnvironments src rest).flatMap (fun _ => texts) ∧
        texts.Perm (n.consecutive n.base (r'.turns src * r.turns src)) ∧
        (n.reverse = false → texts = n.consecutive n.base (r'.turns src * r.turns src))) ∧
      (outer.length ≤ n.parent →
        t.numbersAt src q n = t.numbersAt src q { n with parent := outer.length } ∧
        ∀ last, outer.getLast? = some last → ∀ b ∈ t.builds src, b.position = q →
          ∃ i < r.turns src, ∃ j < last.turns src, b.env.head? = some (r.turn i) ∧
            b.env.getLast? = some (last.turn j) ∧
            n.value src b.env = n.own (r.turns src) i + r.turns src * j) ∧
      (∀ b ∈ t.builds src, ∀ act ∈ b.head.acts, act.token? = some (.number n) →
        n.hindrance? src b.env ≠ none → ∃ cause, (t.attempt src).1 = .error cause) ∧
      ∀ τ : State, let text := (((Token.number n).render src).run τ).1
        let value := n.value src τ.stack
        n.size ≤ text.length ∧ Number.Spells text.toList value ∧
        (text.length ≤ Number.mostDigits → Number.int? 10 text.toList = some value) ∧
        (∀ (n' : Numbering) (τ' : State), value ≠ n'.value src τ'.stack →
          text ≠ (((Token.number n').render src).run τ').1) ∧
        (n.hindrance? src τ.stack = none ↔ isWritable value = true ∧ n.size ≤ longestText) ∧
        (Watched.render (Attempt.watch src) src (.number n)).run.run τ =
          (match n.hindrance? src τ.stack with | none => .ok text | some cause => .error cause, τ) := by
  refine ⟨t.forall₂_builds src, fun hb => ?_,
    fun n => ⟨fun hp => numbersAt_rounds h ha n (.inl hp), ?_, ?_, ?_, ?_, ?_⟩⟩
  · rw [attempt_fst, (hindranceOf?_eq_none src).mpr hb]
  · rintro rfl
    rw [numbersAt_rounds h ha n (.inr rfl)]
    exact List.flatMap_singleton ..
  · rintro r' rest rfl hp
    refine ⟨_, numbersAt_two h ha n hp, ?_, fun hr => ?_⟩
    · rw [← n.flatMap_consecutive]
      exact List.Perm.flatMap_left _ fun j _ => n.round_perm _ _
    · rw [← n.flatMap_consecutive]
      exact List.flatMap_congr fun j _ => n.round_of_not_reverse hr _ _
  · intro hp
    exact ⟨numbersAt_of_le h ha n hp, fun last hlast b hb hq => value_of_le h ha hlast n hp hb hq⟩
  · intro b hb act hact ht hn
    have hne : hindranceOf? src (t.builds src) ≠ none := fun hnone =>
      Element.hindrance?_of_number hact ht hn ((hindranceOf?_eq_none src).mp hnone b hb)
    obtain ⟨⟨cause, env⟩, hc⟩ := Option.ne_none_iff_exists'.mp hne
    exact ⟨cause, by rw [attempt_fst, hc]⟩
  · intro τ text value
    have hrun := Token.render_run src (.number n) τ
    have ht : text = Number.padded n.size value := congrArg Prod.fst hrun
    have hs : Number.Spells text.toList value := ht ▸ Number.spells_padded _ _
    refine ⟨?_, hs, fun hl => hs.int?_eq hl, fun n' τ' hne he => hne ?_, n.hindrance?_eq_none src, ?_⟩
    · rw [ht, Number.length_padded]
      exact Nat.le_max_left ..
    · rw [ht, Token.render_run] at he
      exact Number.padded_inj he
    · rw [Attempt.render_run]
      have hτ : (((Token.number n).render src).run τ).2 = τ := by
        rw [hrun]
        exact State.after_none τ
      rw [hτ]
      dsimp only [Token.hindrance?]
      cases n.hindrance? src τ.stack <;> rfl

/-- Three items in each of two groups, one for each text: they are numbered from `-1` on, in two
characters, through both groups; and down in each of them.  In more characters than a text can have, none of
them is written. -/
theorem Tree.attempt_numbered_groups :
    let src : Source := { text := .items [some "a", some "b"] }
    let up : Numbering := { size := 2, base := -1, parent := 1 }
    let down : Numbering := { up with reverse := true }
    let wide : Numbering := { size := longestText + 1 }
    let head : Element := { name := some [.literal "li", .number up, .literal ":", .number down] }
    let inner : Repeater := { count := some 3 }
    let outer : Repeater := { implicit := true }
    let t : Tree := { statements := [.group [.element head [] (some inner)] (some outer)] }
    let q : Position := (((root.field "elements").item 0).field "elements").item 0
    (q, .element head [] (some inner)) ∈ t.walk ∧ t.around q = [inner, outer] ∧
      t.numbersAt src q up = ["-1", "00", "01", "02", "03", "04"] ∧
      (t.numbersAt src q down).Perm ["-1", "00", "01", "02", "03", "04"] ∧
      (t.attempt src).1 = .ok (t.expand src) ∧
      (t.expand src).map (·.name) = [some "li-1:01", some "li00:00", some "li01:-1", some "li02:04",
        some "li03:03", some "li04:02"] ∧
      wide.hindrance? src [] = some .wideNumber ∧
      ((Watched.render (Attempt.watch src) src (.number wide)).run.run {}).1 = .error .wideNumber := by
  intro src up down wide head inner outer t q
  have hq : (q, .element head [] (some inner)) ∈ t.walk := List.mem_cons_of_mem _ List.mem_cons_self
  have ha : t.around q = [inner, outer] := rfl
  have hsix : up.consecutive up.base 6 = ["-1", "00", "01", "02", "03", "04"] := by decide
  have hb : ∀ b ∈ t.builds src, b.head.hindrance? src b.env = none := by decide +kernel
  have hw : wide.hindrance? src [] = some .wideNumber := by decide +kernel
  obtain ⟨-, hok, hn⟩ := attempt_numbered src hq ha
  obtain ⟨-, -, hup, -, -, -⟩ := hn up
  obtain ⟨-, -, hdown, -, -, -⟩ := hn down
  obtain ⟨-, -, -, -, -, hwide⟩ := hn wide
  obtain ⟨-, -, -, -, -, hrun⟩ := hwide {}
  obtain ⟨texts, ht, -, he⟩ := hup outer [] rfl rfl
  obtain ⟨texts', ht', hperm, -⟩ := hdown outer [] rfl rfl
  refine ⟨hq, ha, ?_, ?_, hok hb, by decide, hw, ?_⟩
  · rw [ht, he rfl]
    exact hsix
  · have hf : (allEnvironments src []).flatMap (fun _ => texts') = texts' := List.flatMap_singleton ..
    rw [ht', hf]
    exact hperm.trans (.of_eq hsix)
  · rw [hrun, show wide.hindrance? src ({} : State).stack = _ from hw]

end Shorthand
