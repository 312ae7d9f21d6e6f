import Shorthand.Proofs.Expansion.Rendered
import Shorthand.Proofs.Statement.Walk

/-!
# What an expansion asks of the text

An expansion asks the text how many copies an implicit repeater makes and what goes with each of them,
and for the whole of it where a placeholder stands in no such copy.  Texts that answer alike cannot be
told apart by their expansions.

* `Element.nodeIn_congr`: an element has the same node where its tokens have the same texts;
* `Repeater.Alike`, `AlikeAround`, `AlikeIn`: a repeater, the repeaters around and all statements of a
  walk get the same answers from another text;
* `Statement.nodesIn_alike`, `Statement.eventsIn_alike`: then nodes and log are the same;
* `Tree.run_text`: which texts these are.
-/

namespace Shorthand

open Expansion State Repeater

/-! ### Elements -/

section Congr

variable {src src' : Source} {env env' : List Repeater}

theorem Token.entryIn_congr {t : Token} (h : t.textIn src env = t.textIn src' env') :
    t.entryIn src env = t.entryIn src' env' := by
  unfold entryIn
  split
  · rfl
  · rw [h]

theorem nameIn_congr {ts : List Token} (h : ∀ t ∈ ts, t.textIn src env = t.textIn src' env') :
    nameIn src env ts = nameIn src' env' ts := by
  unfold nameIn
  rw [List.map_congr_left h]

theorem valueIn_congr {ts : List Token} (h : ∀ t ∈ ts, t.textIn src env = t.textIn src' env') :
    valueIn src env ts = valueIn src' env' ts := by
  unfold valueIn
  rw [List.map_congr_left fun t ht => Token.entryIn_congr (h t ht)]

theorem someIn_congr {α : Type} {f g : List Token → α} {tokens : Option (List Token)}
    (h : f (tokens.getD []) = g (tokens.getD [])) : someIn f tokens = someIn g tokens := by
  match tokens with
  | none | some [] => rfl
  | some (t :: ts) => exact congrArg some h

theorem Attribute.nodeIn_congr {a : Attribute}
    (h : ∀ t ∈ a.rendered, t.textIn src env = t.textIn src' env') :
    a.nodeIn src env = a.nodeIn src' env' := by
  have hn : someIn (nameIn src env) a.name = someIn (nameIn src' env') a.name :=
    someIn_congr (nameIn_congr fun t ht => h t (List.mem_append_left _ ht))
  unfold nodeIn
  rw [hn]
  cases hv : a.value with
  | none => rfl
  | some ts =>
    have hi : valueIn src env (unwrap ts).inner = valueIn src' env' (unwrap ts).inner :=
      valueIn_congr fun t ht => h t (List.mem_append_right _ (by rw [hv]; exact ht))
    simp only [Option.map_some, hi]

/-- **An element has the same node** inside other repeaters and with another source if its tokens have
the same texts there. -/
theorem Element.nodeIn_congr {head : Element}
    (h : ∀ t ∈ head.rendered, t.textIn src env = t.textIn src' env') (children : List Node)
    (repeater : Option Repeater) :
    head.nodeIn src env children repeater = head.nodeIn src' env' children repeater := by
  unfold rendered at h
  simp only [List.mem_append, List.mem_flatMap] at h
  have hn : someIn (nameIn src env) head.name = someIn (nameIn src' env') head.name :=
    someIn_congr (nameIn_congr fun t ht => h t (.inl (.inr ht)))
  have hv : someIn (valueIn src env) head.value = someIn (valueIn src' env') head.value :=
    someIn_congr (valueIn_congr fun t ht => h t (.inr ht))
  have ha : head.attributes.map (·.map (Attribute.nodeIn src env)) =
      head.attributes.map (·.map (Attribute.nodeIn src' env')) := by
    cases has : head.attributes with
    | none => rfl
    | some as =>
      have hm : ∀ a ∈ as, a.nodeIn src env = a.nodeIn src' env' := fun a ha =>
        Attribute.nodeIn_congr fun t ht => h t (.inl (.inl ⟨a, by rw [has]; exact ha, ht⟩))
      simp only [Option.map_some, List.map_congr_left hm]
  unfold nodeIn
  rw [hn, hv, ha]

/-- What is logged about an element besides its variables depends on the texts of its tokens. -/
theorem Element.eventsIn_congr {head : Element} (hv : Token.events src = Token.events src')
    (h : ∀ t ∈ head.rendered, t.textIn src env = t.textIn src' env') :
    head.eventsIn src env = head.eventsIn src' env' := by
  have ho (tokens : Option (List Token)) : eventsOf src tokens = eventsOf src' tokens := by
    unfold eventsOf
    rw [hv]
  have ha : ∀ a ∈ head.attributes.getD [], a.eventsIn src env = a.eventsIn src' env' := by
    intro a ha
    have hn : someIn (nameIn src env) a.name = someIn (nameIn src' env') a.name :=
      someIn_congr (nameIn_congr fun t ht => h t ?_)
    · unfold Attribute.eventsIn
      rw [ho, hn]
      simp only [ho]
    · unfold rendered Attribute.rendered
      simp only [List.mem_append, List.mem_flatMap]
      exact .inl (.inl ⟨a, ha, .inl ht⟩)
  unfold eventsIn
  rw [List.flatMap_congr ha, ho, ho]

end Congr

/-- A placeholder among the tokens that are rendered for an element is one that the element holds. -/
theorem Element.holdsPlaceholder_of_mem {head : Element} {t : Token} (h : t ∈ head.rendered)
    (ht : t.isPlaceholder = true) : head.holdsPlaceholder = true := by
  have hp : ∀ {tokens : Option (List Token)}, t ∈ tokens.getD [] →
      Shorthand.holdsPlaceholder tokens = true := fun hm => List.any_eq_true.mpr ⟨t, hm, ht⟩
  unfold rendered at h
  simp only [List.mem_append, List.mem_flatMap] at h
  unfold holdsPlaceholder
  obtain (⟨a, ha, hm⟩ | hm) | hm := h
  · have hh : a.holdsPlaceholder = true := by
      unfold Attribute.holdsPlaceholder
      obtain hm | hm := List.mem_append.mp hm
      · rw [hp hm, Bool.true_or]
      · have hv : Shorthand.holdsPlaceholder a.value = true := by
          rw [Shorthand.holdsPlaceholder, ← unwrap_any_isPlaceholder]
          exact List.any_eq_true.mpr ⟨t, hm, ht⟩
        rw [hv, Bool.or_true]
    rw [List.any_eq_true.mpr ⟨a, ha, hh⟩, Bool.true_or, Bool.true_or]
  · rw [hp hm, Bool.or_true, Bool.true_or]
  · rw [hp hm, Bool.or_true]

/-! ### Repeaters -/

section Alike

variable (src : Source) (text : TextSource)

/-- A repeater gets the same answers from another text: how many copies it makes, and what goes with
each of them if it is implicit. -/
structure Repeater.Alike (r : Repeater) : Prop where
  copies_eq : r.copies { src with text } = r.copies src
  textAt_eq : r.implicit = true → ∀ i < r.turns src, Source.textAt { src with text } i = src.textAt i

/-- The repeaters around get the same answers from another text for the copies that they are making. -/
def AlikeAround (env : List Repeater) : Prop :=
  ∀ r ∈ env, r.copies { src with text } = r.copies src ∧
    (r.implicit = true → Source.textAt { src with text } r.value = src.textAt r.value)

/-- Does a placeholder stand in a statement itself, and not in its children? -/
def Statement.holdsPlaceholder : Statement → Bool
  | .element head _ _ => head.holdsPlaceholder
  | .group _ _ => false

/-- The statements of a walk get the same answers from another text: the repeaters do, and if there is a
placeholder, the whole of the text is the same. -/
structure AlikeIn (walk : List (Position × Statement)) : Prop where
  repeater : ∀ x ∈ walk, ∀ r, x.2.repeater = some r → r.Alike src text
  placeholder : ∀ x ∈ walk, x.2.holdsPlaceholder = true →
    Source.wholeText { src with text } = src.wholeText

variable {src text} {r : Repeater} {env : List Repeater} {s : Statement} {p : Position}

theorem AlikeAround.turn (he : AlikeAround src text env) (h : r.Alike src text) {i : Nat}
    (hi : i < r.turns src) : AlikeAround src text (r.turn i :: env) := by
  intro x hx
  obtain rfl | hx := List.mem_cons.mp hx
  · exact ⟨h.copies_eq, fun hr => h.textAt_eq hr i hi⟩
  · exact he x hx

/-- A number asks for the copies of the innermost repeater. -/
theorem Numbering.text_alike (n : Numbering) (he : AlikeAround src text env) :
    n.text { src with text } env = n.text src env := by
  unfold Numbering.text
  cases env with
  | nil => rfl
  | cons r outer => simp only [value, (he r List.mem_cons_self).1]

namespace AlikeIn

variable {xs ys : List (Position × Statement)}

theorem of_append (h : AlikeIn src text (xs ++ ys)) : AlikeIn src text xs ∧ AlikeIn src text ys :=
  ⟨⟨fun x hx => h.repeater x (List.mem_append_left ys hx),
    fun x hx => h.placeholder x (List.mem_append_left ys hx)⟩,
   ⟨fun x hx => h.repeater x (List.mem_append_right xs hx),
    fun x hx => h.placeholder x (List.mem_append_right xs hx)⟩⟩

theorem append (hx : AlikeIn src text xs) (hy : AlikeIn src text ys) : AlikeIn src text (xs ++ ys) :=
  ⟨fun x h => (List.mem_append.mp h).elim (hx.repeater x) (hy.repeater x),
    fun x h => (List.mem_append.mp h).elim (hx.placeholder x) (hy.placeholder x)⟩

theorem cons {x : Position × Statement} (h : AlikeIn src text xs)
    (hr : ∀ r, x.2.repeater = some r → r.Alike src text)
    (hp : x.2.holdsPlaceholder = true → Source.wholeText { src with text } = src.wholeText) :
    AlikeIn src text (x :: xs) :=
  ⟨List.forall_mem_cons.mpr ⟨hr, h.repeater⟩, List.forall_mem_cons.mpr ⟨hp, h.placeholder⟩⟩

theorem own (h : AlikeIn src text (s.walk p)) (hr : s.repeater = some r) : r.Alike src text :=
  h.repeater (p, s) (by rw [s.walk_eq]; exact List.mem_cons_self) r hr

theorem children (h : AlikeIn src text (s.walk p)) :
    AlikeIn src text (Statement.walkAll (p.field "elements") 0 s.children) := by
  rw [s.walk_eq] at h
  exact ⟨fun x hx => h.repeater x (List.mem_cons_of_mem _ hx),
    fun x hx => h.placeholder x (List.mem_cons_of_mem _ hx)⟩

theorem textIn_eq {head : Element} {cs : List Statement} {repeater : Option Repeater}
    (h : AlikeIn src text ((Statement.element head cs repeater).walk p)) (he : AlikeAround src text env)
    {t : Token} (ht : t ∈ head.rendered) : t.textIn { src with text } env = t.textIn src env := by
  cases t with
  | placeholder =>
    unfold Token.textIn
    cases hf : env.find? (·.implicit) with
    | none =>
      have hp : (Statement.element head cs repeater).holdsPlaceholder = true :=
        Element.holdsPlaceholder_of_mem ht rfl
      exact h.placeholder _ (by rw [Statement.walk_eq]; exact List.mem_cons_self) hp
    | some r => exact (he r (List.mem_of_find?_eq_some hf)).2 (List.find?_some hf)
  | number n => exact n.text_alike he
  | field index name => cases index <;> rfl
  | literal | reference | quote | bracket | space => rfl

/-- So has an element the same node, and the same is logged about it. -/
theorem element_eq {head : Element} {cs : List Statement} {repeater : Option Repeater}
    (h : AlikeIn src text ((Statement.element head cs repeater).walk p)) (he : AlikeAround src text env) :
    head.nodeIn { src with text } env = head.nodeIn src env ∧
      head.eventsIn { src with text } env = head.eventsIn src env := by
  have ht : ∀ t ∈ head.rendered, t.textIn { src with text } env = t.textIn src env := fun t ht =>
    h.textIn_eq he ht
  have hv : Token.events { src with text } = Token.events src := rfl
  exact ⟨funext fun children => funext fun r => Element.nodeIn_congr ht children r,
    Element.eventsIn_congr hv ht⟩

end AlikeIn

/-! ### Statements -/

namespace Repeater.Alike

variable (h : r.Alike src text)
include h

theorem turns_eq : r.turns { src with text } = r.turns src := congrArg Int.toNat h.copies_eq

theorem reaches_eq (marks : Bool) : r.reaches { src with text } marks = r.reaches src marks := by
  unfold reaches
  rw [h.turns_eq]

theorem nodesIn_eq (marks waiting : Bool) {nodes' nodes : Nat → Bool → List Node}
    (hn : ∀ i < r.turns src, ∀ w, nodes' i w = nodes i w) :
    r.nodesIn { src with text } marks waiting nodes' = r.nodesIn src marks waiting nodes := by
  unfold nodesIn
  rw [h.turns_eq]
  refine List.flatMap_congr fun i hi => ?_
  have hi := List.mem_range.mp hi
  rw [hn i hi]
  unfold filled
  split
  · next hc => rw [h.textAt_eq (Bool.and_eq_true_iff.mp hc).1 i hi]
  · rfl

theorem eventsIn_eq (marks waiting : Bool) {events' events : Nat → Bool → List Event}
    (hn : ∀ i < r.turns src, ∀ w, events' i w = events i w) :
    r.eventsIn { src with text } marks waiting events' = r.eventsIn src marks waiting events := by
  unfold eventsIn
  rw [h.turns_eq, h.copies_eq, List.flatMap_congr fun i hi => hn i (List.mem_range.mp hi) _]

end Repeater.Alike

mutual

theorem Statement.reachesText_alike : ∀ (s : Statement) {p : Position}, AlikeIn src text (s.walk p) →
    s.reachesText { src with text } = s.reachesText src
  | .element head cs none, p, h => by
    rw [reachesText, reachesText, reachesTextAll_alike cs h.children]
  | .element head cs (some r), p, h => by
    rw [reachesText, reachesText, reachesTextAll_alike cs h.children, (h.own rfl).reaches_eq]
  | .group cs none, p, h => by
    rw [reachesText, reachesText, reachesTextAll_alike cs h.children]
  | .group cs (some r), p, h => by
    rw [reachesText, reachesText, reachesTextAll_alike cs h.children, (h.own rfl).reaches_eq]

theorem Statement.reachesTextAll_alike : ∀ (ss : List Statement) {p : Position} {k : Nat},
    AlikeIn src text (Statement.walkAll p k ss) →
    Statement.reachesTextAll { src with text } ss = Statement.reachesTextAll src ss
  | [], _, _, _ => rfl
  | s :: rest, p, k, h => by
    rw [walkAll] at h
    obtain ⟨hs, hrest⟩ := h.of_append
    rw [reachesTextAll, reachesTextAll, reachesText_alike s hs, reachesTextAll_alike rest hrest]

end

mutual

theorem Statement.nodesIn_alike : ∀ (s : Statement) {p : Position} {env : List Repeater} (waiting : Bool),
    AlikeIn src text (s.walk p) → AlikeAround src text env →
    s.nodesIn { src with text } env waiting = s.nodesIn src env waiting
  | .element head cs none, p, env, waiting, h, he => by
    rw [nodesIn, nodesIn, nodesInAll_alike cs waiting h.children he, (h.element_eq he).1]
  | .element head cs (some r), p, env, waiting, h, he => by
    rw [nodesIn, nodesIn, reachesTextAll_alike cs h.children]
    refine (h.own rfl).nodesIn_eq _ waiting fun i hi w => ?_
    have hi := he.turn (h.own rfl) hi
    rw [nodesInAll_alike cs w h.children hi, (h.element_eq hi).1]
  | .group cs none, p, env, waiting, h, he => by
    rw [nodesIn, nodesIn, nodesInAll_alike cs waiting h.children he]
  | .group cs (some r), p, env, waiting, h, he => by
    rw [nodesIn, nodesIn, reachesTextAll_alike cs h.children]
    exact (h.own rfl).nodesIn_eq _ waiting fun i hi w =>
      nodesInAll_alike cs w h.children (he.turn (h.own rfl) hi)

theorem Statement.nodesInAll_alike : ∀ (ss : List Statement) {p : Position} {k : Nat}
    {env : List Repeater} (waiting : Bool), AlikeIn src text (Statement.walkAll p k ss) →
    AlikeAround src text env →
    Statement.nodesInAll { src with text } env waiting ss = Statement.nodesInAll src env waiting ss
  | [], _, _, _, _, _, _ => rfl
  | s :: rest, p, k, env, waiting, h, he => by
    rw [walkAll] at h
    obtain ⟨hs, hrest⟩ := h.of_append
    rw [nodesInAll, nodesInAll, nodesIn_alike s waiting hs he, reachesText_alike s hs,
      nodesInAll_alike rest _ hrest he]

end

mutual

theorem Statement.eventsIn_alike : ∀ (s : Statement) {p : Position} {env : List Repeater} (waiting : Bool),
    AlikeIn src text (s.walk p) → AlikeAround src text env →
    s.eventsIn { src with text } env waiting = s.eventsIn src env waiting
  | .element head cs none, p, env, waiting, h, he => by
    rw [eventsIn, eventsIn, eventsInAll_alike cs waiting h.children he, (h.element_eq he).2]
  | .element head cs (some r), p, env, waiting, h, he => by
    rw [eventsIn, eventsIn, reachesTextAll_alike cs h.children]
    refine (h.own rfl).eventsIn_eq _ waiting fun i hi w => ?_
    have hi := he.turn (h.own rfl) hi
    rw [eventsInAll_alike cs w h.children hi, (h.element_eq hi).2]
  | .group cs none, p, env, waiting, h, he => by
    rw [eventsIn, eventsIn, eventsInAll_alike cs waiting h.children he]
  | .group cs (some r), p, env, waiting, h, he => by
    rw [eventsIn, eventsIn, reachesTextAll_alike cs h.children]
    exact (h.own rfl).eventsIn_eq _ waiting fun i hi w =>
      eventsInAll_alike cs w h.children (he.turn (h.own rfl) hi)

theorem Statement.eventsInAll_alike : ∀ (ss : List Statement) {p : Position} {k : Nat}
    {env : List Repeater} (waiting : Bool), AlikeIn src text (Statement.walkAll p k ss) →
    AlikeAround src text env →
    Statement.eventsInAll { src with text } env waiting ss = Statement.eventsInAll src env waiting ss
  | [], _, _, _, _, _, _ => rfl
  | s :: rest, p, k, env, waiting, h, he => by
    rw [walkAll] at h
    obtain ⟨hs, hrest⟩ := h.of_append
    rw [eventsInAll, eventsInAll, eventsIn_alike s waiting hs he, reachesText_alike s hs,
      eventsInAll_alike rest _ hrest he]

end

/-- **A tree is expanded alike with another text** from which its statements get the same answers. -/
theorem Tree.run_alike {t : Tree} (h : AlikeIn src text t.walk) : t.run { src with text } = t.run src := by
  have he : AlikeAround src text [] := nofun
  unfold run
  rw [Statement.expandAll_run, Statement.expandAll_run, Statement.reachesTextAll_alike _ h,
    Statement.nodesInAll_alike _ _ h he, Statement.eventsInAll_alike _ _ h he]

end Alike

/-! ### Texts that answer alike -/

section Texts

variable {src : Source} {text : TextSource}

/-- A text that gives the same answers whatever is asked. -/
theorem AlikeIn.of_same (walk : List (Position × Statement))
    (hc : ∀ r : Repeater, r.copies { src with text } = r.copies src)
    (ht : ∀ i : Nat, Source.textAt { src with text } i = src.textAt i)
    (hw : Source.wholeText { src with text } = src.wholeText) : AlikeIn src text walk :=
  ⟨fun _ _ r _ => ⟨hc r, fun _ i _ => ht i⟩, fun _ _ _ => hw⟩

theorem Repeater.alike_of_explicit {r : Repeater} (h : r.implicit = false) : r.Alike src text where
  copies_eq := by
    unfold copies
    rw [h]
  textAt_eq := fun hi => by
    rw [h] at hi
    cases hi

end Texts

section Vars

variable (vars : Option (List (String × Option String)))

theorem AlikeIn.absent_empty (walk : List (Position × Statement)) :
    AlikeIn { text := .whole "", vars } .absent walk :=
  .of_same walk (fun r => by unfold Repeater.copies; cases r.implicit <;> rfl) (fun _ => rfl) rfl

theorem AlikeIn.missing_items (walk : List (Position × Statement)) {xs ys : List (Option String)}
    (h : xs.map (·.getD "") = ys.map (·.getD "")) :
    AlikeIn { text := .items ys, vars } (.items xs) walk := by
  have hl : xs.length = ys.length := by simpa using congrArg List.length h
  refine .of_same walk (fun r => ?_) (fun i => ?_) ?_
  · unfold Repeater.copies
    cases r.implicit
    · rfl
    · exact congrArg Int.ofNat hl
  · have hg (zs : List (Option String)) :
        (zs[i]?.getD none).getD "" = ((zs.map (·.getD ""))[i]?).getD "" := by
      rw [List.getElem?_map]
      cases zs[i]? <;> rfl
    have hn : ¬ (i : Int) < 0 := by omega
    simp only [Source.textAt, if_neg hn, Int.toNat_natCast]
    rw [hg xs, hg ys, h]
  · exact congrArg ("\n".intercalate ·) h

/-- One piece of text is a list of one item for implicit repeaters that make one copy of either. -/
theorem Repeater.alike_singleton {r : Repeater} (h : r.count.getD 0 = 0 ∨ r.count.getD 0 = 1) (s : String) :
    r.Alike { text := .whole s, vars } (.items [some s]) := by
  cases hi : r.implicit with
  | false => exact alike_of_explicit hi
  | true =>
    have hc : r.copies { text := .whole s, vars } = 1 := by
      unfold copies
      rw [hi]
      dsimp only [Source.items?]
      split <;> omega
    refine ⟨?_, fun _ i hn => ?_⟩
    · rw [hc]
      unfold copies
      rw [hi]
      rfl
    · have hz : i = 0 := by
        rw [turns, hc] at hn
        omega
      subst hz
      rfl

mutual

/-- Statements that do not mention the text get the same answers from every text. -/
theorem Statement.alikeIn_walk {src : Source} {text : TextSource} : ∀ (s : Statement) (p : Position),
    s.mentionsText = false → AlikeIn src text (s.walk p)
  | .element head cs r, p, h => by
    rw [mentionsText, Bool.or_eq_false_iff, Bool.or_eq_false_iff] at h
    obtain ⟨⟨hcs, hh⟩, hr⟩ := h
    rw [walk]
    refine (alikeIn_walkAll cs _ 0 hcs).cons ?_ fun hp => ?_
    · rintro r rfl
      exact Repeater.alike_of_explicit hr
    · rw [holdsPlaceholder, hh] at hp
      cases hp
  | .group cs r, p, h => by
    rw [mentionsText, Bool.or_eq_false_iff] at h
    rw [walk]
    refine (alikeIn_walkAll cs _ 0 h.1).cons ?_ nofun
    rintro r rfl
    exact Repeater.alike_of_explicit h.2

theorem Statement.alikeIn_walkAll {src : Source} {text : TextSource} : ∀ (ss : List Statement)
    (p : Position) (k : Nat), Statement.mentionsTextAll ss = false →
    AlikeIn src text (Statement.walkAll p k ss)
  | [], _, _, _ => ⟨nofun, nofun⟩
  | s :: rest, p, k, h => by
    rw [mentionsTextAll, Bool.or_eq_false_iff] at h
    rw [walkAll]
    exact (alikeIn_walk s _ h.1).append (alikeIn_walkAll rest p (k + 1) h.2)

end

end Vars

namespace Tree

/-- **Texts that an expansion cannot tell apart**, whatever the variables are: the nodes and the log are
the same.  A missing text is an empty one, and so is a missing item of a list.  One piece of text is a
list of one item if no implicit repeater states a count above one.  And a tree that does not mention the
text, by an implicit repeater or by a placeholder, is expanded alike with all of them. -/
theorem run_text (t : Tree) (vars : Option (List (String × Option String))) :
    t.run { text := .absent, vars } = t.run { text := .whole "", vars } ∧
    (∀ xs ys : List (Option String), xs.map (·.getD "") = ys.map (·.getD "") →
      t.run { text := .items xs, vars } = t.run { text := .items ys, vars }) ∧
    ((∀ x ∈ t.walk, ∀ r, x.2.repeater = some r → r.implicit = true →
        r.count = none ∨ r.count = some 0 ∨ r.count = some 1) →
      ∀ s : String, t.run { text := .whole s, vars } = t.run { text := .items [some s], vars }) ∧
    (Statement.mentionsTextAll t.statements = false →
      ∀ text text' : TextSource, t.run { text, vars } = t.run { text := text', vars }) := by
  refine ⟨run_alike (.absent_empty vars _), fun xs ys h => run_alike (.missing_items vars _ h),
    fun h s => (run_alike ⟨fun x hx r hr => ?_, fun _ _ _ => ?_⟩).symm, fun h text text' => ?_⟩
  · cases hi : r.implicit with
    | false => exact Repeater.alike_of_explicit hi
    | true =>
      refine Repeater.alike_singleton vars ?_ s
      obtain hc | hc | hc := h x hx r hr hi <;> simp [hc]
  · rfl
  · have ha : AlikeIn { text := text', vars } text t.walk := Statement.alikeIn_walkAll _ _ _ h
    exact run_alike ha

/-- An item that is repeated for the text has the same node for `a` and for the list of `a` alone, and
two items are made if the first text is missing as if it were empty.  A heading that is written twice
does not ask. -/
theorem run_text_item :
    let each (count : Option Int) : Statement :=
      .element { name := some [.literal "li", .number {}] } [] (some { count, implicit := true })
    let item : Tree := { statements := [each (some 1)] }
    let heading : Tree :=
      { statements := [.element { name := some [.literal "h"] } [] (some { count := some 2 })] }
    (∀ x ∈ item.walk, ∀ r, x.2.repeater = some r → r.implicit = true →
        r.count = none ∨ r.count = some 0 ∨ r.count = some 1) ∧
      [none, some "b"].map (·.getD "") = [some "", some "b"].map (·.getD "") ∧
      Statement.mentionsTextAll heading.statements = false ∧
      item.run { text := .whole "a" } = item.run { text := .items [some "a"] } ∧
      item.expand { text := .items [some "a"] } =
        [{ name := some "li1", value := some [.text "a"],
           repeater := some { count := some 1, implicit := true } }] ∧
      item.run { text := .items [none, some "b"] } = item.run { text := .items [some "", some "b"] } ∧
      heading.run { text := .items [some "a", some "b", some "c"] } = heading.run { text := .absent } := by
  intro each item heading
  have hcount : ∀ x ∈ item.walk, ∀ r, x.2.repeater = some r → r.implicit = true →
      r.count = none ∨ r.count = some 0 ∨ r.count = some 1 := by
    intro x hx r hr _
    obtain rfl := List.mem_singleton.mp hx
    cases hr
    exact .inr (.inr rfl)
  obtain ⟨-, hitems, hone, -⟩ := item.run_text none
  obtain ⟨-, -, -, hall⟩ := heading.run_text none
  exact ⟨hcount, rfl, rfl, hone hcount "a", rfl, hitems [none, some "b"] [some "", some "b"] rfl,
    hall rfl _ _⟩

end Tree

end Shorthand
