import Shorthand.Proofs.Expansion.Acts
import Shorthand.Proofs.Expansion.InRange

/-!
# The moments of a run

The moments at which tokens are rendered and text is put to nodes, as the tree and the states tell them,
are those of the trace that the run itself keeps.

* `Traced.Renders`: a part of an expansion renders a token in some state;
* `copy_moments`: when a copy puts text to its nodes, and what becomes of them;
* `Tree.renders_iff`, `Tree.inserts_iff`: the moments of `Tree.Renders` and `Tree.Inserts` are those of
  `Tree.moments`, and no others.
-/

namespace Shorthand

open Expansion State Repeater

/-! ### Steps -/

/-- Of the steps for a list, the first one is taken at once, and the others after it. -/
theorem stepAt_cons {ι α : Type} {g : ι → Expansion α} {x y : ι} {xs : List ι} {σ τ : State} :
    StepAt g (x :: xs) σ y τ ↔ (y = x ∧ τ = σ) ∨ StepAt g xs ((g x).run σ).2 y τ := by
  constructor
  · rintro ⟨before, behind, he, rfl⟩
    cases before with
    | nil =>
      cases he
      exact .inl ⟨rfl, rfl⟩
    | cons z before =>
      cases he
      refine .inr ⟨before, behind, rfl, ?_⟩
      rw [List.mapM_cons]
      rfl
  · rintro (⟨rfl, rfl⟩ | ⟨before, behind, rfl, rfl⟩)
    · exact ⟨[], xs, rfl, rfl⟩
    · refine ⟨x :: before, behind, rfl, ?_⟩
      rw [List.mapM_cons]
      rfl

/-- The copies of a loop are made in the states between them. -/
theorem stepAt_copy {src : Source} {r : Repeater} {body : Repeater → Expansion (List Node)} {σ τ : State}
    {n i : Nat} :
    StepAt (copy src r body) (List.range n) (loopState src r body σ 0) i τ ↔
      i < n ∧ τ = loopState src r body σ i := by
  constructor
  · rintro ⟨before, behind, he, rfl⟩
    have hn : before.length < n := by
      have hl := congrArg List.length he
      simp at hl
      omega
    have hi : before.length = i := by
      have hg := List.getElem_range (n := n) (by simpa using hn : before.length < (List.range n).length)
      simpa [he] using hg.symm
    -- so the steps in front are those of the copies before it
    have hb : before = List.range i := by
      have ht := congrArg (List.take before.length) he
      rw [List.take_range, List.take_left, hi, Nat.min_eq_left (by omega)] at ht
      exact ht.symm
    rw [hb, mapM_copy_snd]
    exact ⟨hi ▸ hn, rfl⟩
  · rintro ⟨hi, rfl⟩
    refine ⟨List.range i, (List.range n).drop (i + 1), ?_, (mapM_copy_snd ..).symm⟩
    have hl : i < (List.range n).length := by simpa using hi
    have hd := List.drop_eq_getElem_cons hl
    rw [List.getElem_range] at hd
    rw [← hd, ← Nat.min_eq_left (Nat.le_of_lt hi), ← List.take_range, Nat.min_eq_left (Nat.le_of_lt hi),
      List.take_append_drop]

namespace Traced

variable {ι α β : Type} {src : Source} {σ τ : State} {act : Act}

/-- What a traced list of steps does is what its steps do, each in the state in which it is taken. -/
theorem mem_moments_mapM {f : ι → Traced α} {g : ι → Expansion α}
    (hf : ∀ a σ, (f a).result σ = (g a).run σ) {xs : List ι} {σ : State} {x : Act × State} :
    x ∈ (xs.mapM f).moments σ ↔ ∃ y τ, StepAt g xs σ y τ ∧ x ∈ (f y).moments τ := by
  induction xs generalizing σ with
  | nil =>
    rw [List.mapM_nil, moments_pure]
    simp [StepAt]
  | cons a xs ih =>
    rw [List.mapM_cons, moments_bind, moments_bind, moments_pure, List.append_nil, List.mem_append, ih, hf]
    simp only [stepAt_cons]
    constructor
    · rintro (h | ⟨y, τ, hs, hx⟩)
      · exact ⟨a, σ, .inl ⟨rfl, rfl⟩, h⟩
      · exact ⟨y, τ, .inr hs, hx⟩
    · rintro ⟨y, τ, ⟨rfl, rfl⟩ | hs, hx⟩
      · exact .inl hx
      · exact .inr ⟨y, τ, hs, hx⟩

/-! ### Elements -/

/-- A part of an expansion renders a token in some state. -/
def Renders (x : Traced α) (σ : State) (tok : Token) (τ : State) : Prop :=
  ∃ act, (act, τ) ∈ x.moments σ ∧ act.token? = some tok

variable {tok : Token}

theorem renders_bind {x : Traced α} {f : α → Traced β} :
    (x >>= f).Renders σ tok τ ↔ x.Renders σ tok τ ∨ (f (x.result σ).1).Renders (x.result σ).2 tok τ := by
  unfold Renders
  simp only [moments_bind, List.mem_append, or_and_right, exists_or]

theorem not_renders_pure (a : α) : ¬ (pure a : Traced α).Renders σ tok τ := by
  simp [Renders]

theorem not_renders_step (x : Expansion α) : ¬ (Watched.step x : Traced α).Renders σ tok τ := by
  simp [Renders]

theorem renders_mapM {f : ι → Traced α} {g : ι → Expansion α}
    (hf : ∀ a σ, (f a).result σ = (g a).run σ) {xs : List ι} :
    (xs.mapM f).Renders σ tok τ ↔ ∃ y υ, StepAt g xs σ y υ ∧ (f y).Renders υ tok τ := by
  unfold Renders
  simp only [mem_moments_mapM hf]
  constructor
  · rintro ⟨act, ⟨y, υ, hs, hx⟩, ht⟩
    exact ⟨y, υ, hs, act, hx, ht⟩
  · rintro ⟨y, υ, hs, act, hx, ht⟩
    exact ⟨act, ⟨y, υ, hs, hx⟩, ht⟩

theorem renders_tokens {f : Token → Traced α} {g : Token → Expansion α}
    (hf : ∀ t σ, (f t).result σ = (g t).run σ) (ht : ∀ t υ, (f t).Renders υ tok τ ↔ t = tok ∧ υ = τ)
    (join : List α → β) (ts : List Token) :
    (do pure (join (← ts.mapM f)) : Traced β).Renders σ tok τ ↔ StepAt g ts σ tok τ := by
  rw [renders_bind, or_iff_left (not_renders_pure _), renders_mapM hf]
  simp [ht]

theorem renders_name (ts : List Token) :
    (Watched.renderName watch src ts).Renders σ tok τ ↔ StepAt (Token.render src) ts σ tok τ := by
  refine renders_tokens (fun t υ => rfl) (fun t υ => ?_) String.join ts
  unfold Renders Watched.render
  simp [moments_bind, Act.token?, and_comm, eq_comm]

theorem renders_value (ts : List Token) :
    (Watched.renderValue watch src ts).Renders σ tok τ ↔ StepAt (Token.entry src) ts σ tok τ := by
  refine renders_tokens (fun t υ => rfl) (fun t υ => ?_) Entry.joined ts
  unfold Renders Watched.entry
  simp [moments_bind, Act.token?, and_comm, eq_comm]

theorem renders_some {f : List Token → Traced α} {g : Token → Expansion β}
    (hf : ∀ ts, (f ts).Renders σ tok τ ↔ StepAt g ts σ tok τ) (tokens : Option (List Token)) :
    (renderSome f tokens).Renders σ tok τ ↔ StepAt g (tokens.getD []) σ tok τ := by
  match tokens with
  | none => simp [renderSome, Renders, StepAt]
  | some [] => simp [renderSome, Renders, StepAt]
  | some (t :: ts) =>
    unfold renderSome
    rw [renders_bind, or_iff_left (not_renders_pure _), hf]
    rfl

/-- The parts of an expansion end as they do when nobody watches. -/
theorem result_name (tokens : Option (List Token)) (σ : State) :
    (renderSome (Watched.renderName watch src) tokens).result σ =
      (renderSome (renderName src) tokens).run σ :=
  lockstep_unwatched.renderSome (lockstep_unwatched.renderName src) tokens σ

theorem result_attribute (a : Attribute) (σ : State) :
    (Watched.renderAttribute watch src a).result σ = (a.render src).run σ := by
  rw [lockstep_unwatched.renderAttribute src a σ, Watched.renderAttribute_unwatched]

theorem renders_attribute (a : Attribute) :
    (Watched.renderAttribute watch src a).Renders σ tok τ ↔ a.Renders src σ tok τ := by
  have hv (name : Option String) (υ : State) :
      (Watched.renderAttributeValue watch src name a.value).Renders υ tok τ ↔
        ∃ ts, a.value = some ts ∧ StepAt (Token.entry src) (unwrap ts).inner
          (if (unwrap ts).closed = false then υ.note (unmatched (unwrap ts).kind name) else υ) tok τ := by
    cases a.value with
    | none => simp [Watched.renderAttributeValue, Renders]
    | some ts =>
      unfold Watched.renderAttributeValue
      dsimp only
      rw [renders_bind, or_iff_right (not_renders_step _), renders_bind, or_iff_left (not_renders_pure _),
        renders_value]
      simp only [Option.some.injEq, exists_eq_left']
      split <;> rfl
  unfold Watched.renderAttribute
  rw [renders_bind, renders_bind, or_iff_left (not_renders_pure _), renders_some renders_name, hv, result_name]
  constructor
  · rintro (h | ⟨ts, hts, h⟩)
    · exact .name h
    · exact .value hts h
  · rintro (h | ⟨hts, h⟩)
    · exact .inl h
    · exact .inr ⟨_, hts, h⟩

theorem renders_build (head : Element) (children : List Node) (repeater : Option Repeater) :
    (Watched.build watch src head children repeater).Renders σ tok τ ↔ head.Renders src σ tok τ := by
  have ha : (Watched.renderAttributes watch src head.attributes).Renders σ tok τ ↔
      ∃ a υ, StepAt (Attribute.render src) (head.attributes.getD []) σ a υ ∧ a.Renders src υ tok τ := by
    cases head.attributes with
    | none => simp [Watched.renderAttributes, Renders, StepAt]
    | some as =>
      unfold Watched.renderAttributes
      rw [renders_bind, or_iff_left (not_renders_pure _), renders_mapM result_attribute]
      simp only [renders_attribute]
      rfl
  have hs : ((Watched.renderAttributes watch src head.attributes).result σ).2 = head.nameState src σ := by
    rw [lockstep_unwatched.renderAttributes src head.attributes σ]
    unfold Watched.renderAttributes Element.nameState
    rw [funext (Watched.renderAttribute_unwatched src)]
    cases head.attributes <;> rfl
  unfold Watched.build
  rw [renders_bind, renders_bind, renders_bind, or_iff_left (not_renders_pure _), ha, hs,
    renders_some renders_name, renders_some renders_value, result_name]
  constructor
  · rintro (⟨a, υ, hstep, h⟩ | h | h)
    · exact .ofAttribute hstep h
    · exact .name h
    · exact .value h
  · rintro (⟨hstep, h⟩ | h | h)
    · exact .inl ⟨_, _, hstep, h⟩
    · exact .inr (.inl h)
    · exact .inr (.inr h)

/-- All that is done for the node of an element is to render its tokens. -/
theorem renders_of_mem_build {head : Element} {children : List Node} {repeater : Option Repeater}
    {x : Act × State} (h : x ∈ (Watched.build watch src head children repeater).moments σ) :
    ∃ tok, x.1.token? = some tok ∧ head.Renders src σ tok x.2 := by
  -- an element does nothing but its acts, each of which is about a token
  have hx : (x.1, x.2.stack) ∈ head.acts.map (·, σ.stack) := by
    rw [← (does_build head children repeater).acts_eq]
    exact List.mem_map_of_mem h
  obtain ⟨act, ha, he⟩ := List.mem_map.mp hx
  have hact : act = x.1 := congrArg Prod.fst he
  obtain ⟨tok, htok⟩ := Option.isSome_iff_exists.mp (head.token?_acts act ha)
  rw [hact] at htok
  exact ⟨tok, htok, (renders_build head children repeater).mp ⟨x.1, h, htok⟩⟩

/-! ### Statements -/

section Statements

variable {s : Statement} {r : Repeater} {head : Element} {cs : List Statement} {x : Act × State}

theorem mem_moments_element {repeater : Option Repeater} :
    x ∈ (do let nodes ← Watched.expandAll watch src cs
            pure [← Watched.build watch src head nodes repeater] : Traced (List Node)).moments σ ↔
      x ∈ Statement.momentsAll src cs σ ∨
        x ∈ (Watched.build watch src head ((Statement.expandAll src cs).run σ).1 repeater).moments
          ((Statement.expandAll src cs).run σ).2 := by
  rw [moments_bind, moments_bind, moments_pure, List.append_nil, List.mem_append, result_expandAll]
  rfl

/-- A loop does what its copies do, each in the state in which it begins. -/
theorem mem_moments_repeated (hr : s.repeater = some r) :
    x ∈ s.moments src σ ↔ ∃ i < r.turns src,
      x ∈ (Watched.copy watch src r (body src s) i).moments (loopState src r (s.body src) σ i) := by
  unfold Statement.moments
  rw [expand_eq_repeated hr, moments_repeated, mem_moments_mapM (result_copy r s)]
  constructor
  · rintro ⟨i, τ, hs, hx⟩
    obtain ⟨hi, rfl⟩ := stepAt_copy.mp hs
    exact ⟨i, hi, hx⟩
  · rintro ⟨i, hi, hx⟩
    exact ⟨i, _, stepAt_copy.mpr ⟨hi, rfl⟩, hx⟩

/-- **A copy puts text to its nodes** when it gets any, and at no other moment: then the nodes are those of its
body with the text, and else they are as they were. -/
theorem copy_moments (src : Source) (r : Repeater) (s : Statement) (σ : State) (i : Nat) :
    let own := (body src s (r.turn i)).moments (bodyState src r s σ i)
    let all := (Watched.copy watch src r (body src s) i).moments (loopState src r (s.body src) σ i)
    let nodes := ((s.body src (r.turn i)).run (bodyState src r s σ i)).1
    let result := ((copy src r (s.body src) i).run (loopState src r (s.body src) σ i)).1
    (GetsText src r s σ i → result = Node.insertIntoLast (src.textAt i) nodes ∧
      all = own ++ [(.insert (r.turn i), ((s.body src (r.turn i)).run (bodyState src r s σ i)).2)]) ∧
      (¬ GetsText src r s σ i → result = nodes ∧ all = own) := by
  intro own all nodes result
  obtain ⟨hgets, hnot⟩ := copy_nodes src r s σ i
  have hall : all = _ := moments_copy r s i (loopState src r (s.body src) σ i)
  have hc : (r.implicit && !((s.body src (r.turn i)).run (bodyState src r s σ i)).2.inserted &&
      !((s.body src (r.turn i)).run (bodyState src r s σ i)).1.isEmpty) = true ↔ GetsText src r s σ i := by
    simp [GetsText, and_assoc]
  refine ⟨fun h => ⟨hgets h, ?_⟩, fun h => ⟨hnot h, ?_⟩⟩
  · exact hall.trans (congrArg (own ++ ·) (if_pos (hc.mpr h)))
  · exact (hall.trans (congrArg (own ++ ·) (if_neg (mt hc.mp h)))).trans (List.append_nil own)

end Statements

end Traced

/-! ### Trees -/

namespace Tree

open Traced

section

variable {src : Source} {t : Tree} {p : Position} {k : Nat} {σ : State} {x : Act × State}

/-- What is done at a moment is one of the things that an expansion of the tree is said to do. -/
def Tells (src : Source) (t : Tree) (x : Act × State) : Prop :=
  (∃ tok, x.1.token? = some tok ∧ t.Renders src tok x.2) ∨
    ∃ snapshot, x.1 = .insert snapshot ∧ t.Inserts src snapshot x.2

theorem Builds.tells {head : Element} {children : List Node} {repeater : Option Repeater}
    (h : t.Builds src head σ) (hx : x ∈ (Watched.build watch src head children repeater).moments σ) :
    t.Tells src x := by
  obtain ⟨tok, htok, hr⟩ := renders_of_mem_build hx
  exact .inl ⟨tok, htok, head, σ, h, hr⟩

/-- What is done in a loop is told if what is done in the bodies of its copies is. -/
theorem Visits.tells_of_copies {s : Statement} {rest : List Statement} {r : Repeater}
    (hv : t.Visits src p k (s :: rest) σ) (hr : s.repeater = some r)
    (hbody : ∀ i < r.turns src, ∀ x ∈ (body src s (r.turn i)).moments (bodyState src r s σ i), t.Tells src x) :
    ∀ x ∈ s.moments src σ, t.Tells src x := by
  intro x hx
  obtain ⟨i, hi, hx⟩ := (mem_moments_repeated hr).mp hx
  obtain ⟨hgets, hnot⟩ := copy_moments src r s σ i
  by_cases h : GetsText src r s σ i
  · rw [(hgets h).2] at hx
    obtain hx | hx := List.mem_append.mp hx
    · exact hbody i hi x hx
    · rw [List.mem_singleton.mp hx]
      exact .inr ⟨r.turn i, rfl, p, k, s, rest, σ, r, i, hv, hr, hi, h, rfl, rfl⟩
  · rw [(hnot h).2] at hx
    exact hbody i hi x hx

mutual

theorem Visits.tells : ∀ (s : Statement) {rest : List Statement} {p : Position} {k : Nat} {σ : State},
    t.Visits src p k (s :: rest) σ → ∀ x ∈ s.moments src σ, t.Tells src x
  | .element head cs none, rest, p, k, σ, hv, x, hx => by
    unfold Statement.moments at hx
    rw [Watched.expand] at hx
    obtain hx | hx := mem_moments_element.mp hx
    · exact tellsAll cs (hv.once rfl) x hx
    · exact (Builds.once hv).tells hx
  | .element head cs (some r), rest, p, k, σ, hv, x, hx => by
    refine hv.tells_of_copies rfl (fun i hi x hx => ?_) x hx
    obtain hx | hx := mem_moments_element.mp hx
    · exact tellsAll cs (hv.copy rfl hi) x hx
    · exact (Builds.copy hv hi).tells hx
  | .group cs none, rest, p, k, σ, hv, x, hx => by
    unfold Statement.moments at hx
    rw [Watched.expand] at hx
    exact tellsAll cs (hv.once rfl) x hx
  | .group cs (some r), rest, p, k, σ, hv, x, hx =>
    hv.tells_of_copies rfl (fun _ hi x hx => tellsAll cs (hv.copy rfl hi) x hx) x hx

theorem Visits.tellsAll : ∀ (ss : List Statement) {p : Position} {k : Nat} {σ : State},
    t.Visits src p k ss σ → ∀ x ∈ Statement.momentsAll src ss σ, t.Tells src x
  | [], _, _, _, _, _, hx => by
    unfold Statement.momentsAll at hx
    rw [Watched.expandAll] at hx
    cases hx
  | s :: rest, p, k, σ, hv, x, hx => by
    rw [momentsAll_cons] at hx
    obtain hx | hx := List.mem_append.mp hx
    · exact tells s hv x hx
    · exact tellsAll rest hv.next x hx

end

/-! ### All moments are told, and all that is told happens -/

theorem mem_moments_of_children {s : Statement} (hr : s.repeater = none)
    (hx : x ∈ Statement.momentsAll src s.children σ) : x ∈ s.moments src σ := by
  unfold Statement.moments
  match s, hr with
  | .element head cs none, _ =>
    rw [Watched.expand]
    exact mem_moments_element.mpr (.inl hx)
  | .group cs none, _ =>
    rw [Watched.expand]
    exact hx

theorem mem_body_of_children {s : Statement} {snapshot : Repeater}
    (hx : x ∈ Statement.momentsAll src s.children σ) : x ∈ (body src s snapshot).moments σ := by
  cases s with
  | element head cs r => exact mem_moments_element.mpr (.inl hx)
  | group cs r => exact hx

theorem mem_moments_of_body {s : Statement} {r : Repeater} {i : Nat} (hr : s.repeater = some r)
    (hi : i < r.turns src) (hx : x ∈ (body src s (r.turn i)).moments (bodyState src r s σ i)) :
    x ∈ s.moments src σ := by
  refine (mem_moments_repeated hr).mpr ⟨i, hi, ?_⟩
  rw [moments_copy]
  exact List.mem_append_left _ hx

/-- What is done where an expansion comes is done in the run. -/
theorem Visits.mem_moments {ss : List Statement} (h : t.Visits src p k ss σ) :
    ∀ x ∈ Statement.momentsAll src ss σ, x ∈ t.moments src := by
  -- along the way that leads to the list, each list on it does what the next one does
  induction h with
  | start => exact fun _ => id
  | next _ ih =>
    refine fun x hx => ih x ?_
    rw [momentsAll_cons]
    exact List.mem_append_right _ hx
  | once _ hr ih =>
    refine fun x hx => ih x ?_
    rw [momentsAll_cons]
    exact List.mem_append_left _ (mem_moments_of_children hr hx)
  | copy _ hr hi ih =>
    refine fun x hx => ih x ?_
    rw [momentsAll_cons]
    exact List.mem_append_left _ (mem_moments_of_body hr hi (mem_body_of_children hx))

theorem Visits.mem_moments_head {s : Statement} {rest : List Statement}
    (h : t.Visits src p k (s :: rest) σ) (hx : x ∈ s.moments src σ) : x ∈ t.moments src := by
  refine h.mem_moments x ?_
  rw [momentsAll_cons]
  exact List.mem_append_left _ hx

theorem Builds.mem_moments {head : Element} (h : t.Builds src head σ) : ∃ children repeater,
    ∀ x ∈ (Watched.build watch src head children repeater).moments σ, x ∈ t.moments src := by
  cases h with
  | @once p k head cs rest σ hv =>
    refine ⟨((Statement.expandAll src cs).run σ).1, none, fun x hx => hv.mem_moments_head ?_⟩
    unfold Statement.moments
    rw [Watched.expand]
    exact mem_moments_element.mpr (.inr hx)
  | @copy p k head cs r rest σ i hv hi =>
    exact ⟨_, some (r.turn i), fun x hx =>
      hv.mem_moments_head (mem_moments_of_body rfl hi (mem_moments_element.mpr (.inr hx)))⟩

end

variable (src : Source) (t : Tree)

/-- **The moments at which tokens are rendered** are those in the trace of the run. -/
theorem renders_iff (tok : Token) (τ : State) :
    t.Renders src tok τ ↔ ∃ act, (act, τ) ∈ t.moments src ∧ act.token? = some tok := by
  constructor
  · rintro ⟨head, σ, hb, hr⟩
    obtain ⟨children, repeater, hm⟩ := hb.mem_moments
    obtain ⟨act, ha, htok⟩ := (renders_build head children repeater).mpr hr
    exact ⟨act, hm _ ha, htok⟩
  · rintro ⟨act, ha, htok⟩
    obtain ⟨tok', htok', hr⟩ | ⟨snapshot, rfl, -⟩ := Visits.tellsAll t.statements .start _ ha
    · rwa [Option.some.inj (htok.symm.trans htok')]
    · cases htok

/-- **The moments at which text is put to nodes** are those in the trace of the run. -/
theorem inserts_iff (snapshot : Repeater) (τ : State) :
    t.Inserts src snapshot τ ↔ (.insert snapshot, τ) ∈ t.moments src := by
  constructor
  · rintro ⟨p, k, s, rest, σ, r, i, hv, hr, hi, hgets, rfl, rfl⟩
    refine hv.mem_moments_head ((mem_moments_repeated hr).mpr ⟨i, hi, ?_⟩)
    rw [((copy_moments src r s σ i).1 hgets).2]
    exact List.mem_append_right _ (List.mem_singleton.mpr rfl)
  · intro h
    obtain ⟨tok, htok, -⟩ | ⟨snapshot', he, hi⟩ := Visits.tellsAll t.statements .start _ h
    · cases htok
    · cases he
      exact hi

end Tree

end Shorthand
