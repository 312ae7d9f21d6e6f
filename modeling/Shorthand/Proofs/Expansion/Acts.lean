import Shorthand.Proofs.Expansion.Balance
import Shorthand.Proofs.Expansion.Builds
import Shorthand.Proofs.Expansion.Watched

/-!
# What an expansion writes

The tokens that an expansion renders are those of the elements it builds, one after the other, each inside
the repeaters of its element.

* `Element.acts`: how the tokens of an element are rendered, in order;
* `Traced.Does`: a part of an expansion does some acts, all inside the repeaters around it;
* `Statement.writes`: what is rendered when a statement is expanded is what is rendered in its builds.
-/

namespace Shorthand

open Expansion State Repeater

/-! ### Acts -/

def Act.token? : Act → Option Token
  | .text t => some t
  | .entry t => some t
  | .insert _ => none

/-- The name of an attribute is written out, and then its value without its delimiters. -/
def Attribute.acts (a : Attribute) : List Act :=
  (a.name.getD []).map .text ++ (a.value.elim [] fun ts => (unwrap ts).inner).map .entry

/-- How the tokens of an element are rendered: those of its attributes, of its name, and of its value. -/
def Element.acts (head : Element) : List Act :=
  (head.attributes.getD []).flatMap Attribute.acts ++ (head.name.getD []).map .text ++
    (head.value.getD []).map .entry

theorem Attribute.token?_acts (a : Attribute) : ∀ act ∈ a.acts, act.token?.isSome := by
  unfold acts
  simp only [List.mem_append, List.mem_map]
  rintro act (⟨t, -, rfl⟩ | ⟨t, -, rfl⟩) <;> rfl

theorem Element.token?_acts (head : Element) : ∀ act ∈ head.acts, act.token?.isSome := by
  unfold acts
  simp only [List.mem_append, List.mem_map, List.mem_flatMap]
  rintro act ((⟨a, -, ha⟩ | ⟨t, -, rfl⟩) | ⟨t, -, rfl⟩)
  · exact a.token?_acts act ha
  · rfl
  · rfl

/-! ### Parts of an element -/

/-- A state to which an expansion comes from `σ`: the repeaters around `σ` still lie below, text that has
found its place stays there, and nothing is taken from the log. -/
structure State.Before (σ τ : State) : Prop where
  stack : σ.stack <:+ τ.stack
  inserted : σ.inserted = true → τ.inserted = true
  log : σ.log <:+ τ.log

theorem State.Before.refl (σ : State) : σ.Before σ := ⟨List.suffix_refl _, id, List.suffix_refl _⟩

theorem State.Before.trans {σ τ υ : State} (h : σ.Before τ) (h' : τ.Before υ) : σ.Before υ :=
  ⟨h.stack.trans h'.stack, h'.inserted ∘ h.inserted, h.log.trans h'.log⟩

theorem State.before_after (σ : State) (marks : Bool) (events : List Event) :
    σ.Before (σ.after marks events) :=
  ⟨List.suffix_refl _, fun h => by rw [after_inserted, h, Bool.true_or], List.suffix_append ..⟩

/-- Acts with the repeaters that are around when they are done. -/
def stacked (ms : List (Act × State)) : List (Act × List Repeater) := ms.map fun m => (m.1, m.2.stack)

namespace Traced

variable {ι α β : Type} {src : Source}

def Forward (x : Traced α) : Prop := ∀ σ, σ.Before (x.result σ).2 ∧ ∀ m ∈ x.moments σ, σ.Before m.2

theorem Forward.bind {x : Traced α} {f : α → Traced β} (hx : x.Forward) (hf : ∀ a, (f a).Forward) :
    (x >>= f).Forward := by
  intro σ
  obtain ⟨h, hm⟩ := hx σ
  obtain ⟨h', hm'⟩ := hf (x.result σ).1 (x.result σ).2
  refine ⟨h.trans h', fun m hmem => ?_⟩
  obtain hmem | hmem := List.mem_append.mp hmem
  · exact hm m hmem
  · exact h.trans (hm' m hmem)

theorem forward_pure (a : α) : (pure a : Traced α).Forward := fun σ => ⟨.refl σ, nofun⟩

/-- A part of an expansion does some acts inside the repeaters around it, and leaves these as they are. -/
structure Does (x : Traced α) (acts : List Act) : Prop where
  acts_eq : ∀ σ, stacked (x.moments σ) = acts.map (·, σ.stack)
  stack_eq : ∀ σ, (x.result σ).2.stack = σ.stack
  forward : x.Forward

theorem does_pure (a : α) : (pure a : Traced α).Does [] :=
  ⟨fun _ => rfl, fun _ => rfl, forward_pure a⟩

theorem does_step {x : Expansion α}
    (h : ∀ σ, ∃ marks events, (x.run σ).2 = State.after σ marks events) :
    (Watched.step x : Traced α).Does [] where
  acts_eq _ := rfl
  stack_eq σ := by
    obtain ⟨marks, events, h⟩ := h σ
    exact congrArg (·.stack) h
  forward σ := by
    obtain ⟨marks, events, h⟩ := h σ
    exact ⟨h ▸ σ.before_after marks events, nofun⟩

theorem does_watch (act : Act) : (watch act).Does [act] :=
  ⟨fun _ => rfl, fun _ => rfl, fun σ => ⟨.refl σ, fun _ hm => List.mem_singleton.mp hm ▸ .refl σ⟩⟩

namespace Does

theorem bind {x : Traced α} {f : α → Traced β} {acts acts' : List Act} (hx : x.Does acts)
    (hf : ∀ a, (f a).Does acts') : (x >>= f).Does (acts ++ acts') where
  acts_eq σ := by
    rw [moments_bind, stacked, List.map_append, List.map_append, ← hx.acts_eq]
    refine congrArg _ (((hf _).acts_eq _).trans ?_)
    rw [hx.stack_eq]
  stack_eq σ := by rw [result_bind, (hf _).stack_eq, hx.stack_eq]
  forward := hx.forward.bind fun a => (hf a).forward

theorem then_pure {x : Traced α} {acts : List Act} (hx : x.Does acts) (f : α → β) :
    (do pure (f (← x)) : Traced β).Does acts := by
  have h := hx.bind fun a => does_pure (f a)
  rwa [List.append_nil] at h

theorem mapM {f : ι → Traced α} {acts : ι → List Act} (hf : ∀ x, (f x).Does (acts x)) (xs : List ι) :
    (xs.mapM f).Does (xs.flatMap acts) := by
  induction xs with
  | nil => exact does_pure []
  | cons x xs ih =>
    rw [List.mapM_cons, List.flatMap_cons]
    exact (hf x).bind fun y => ih.then_pure (y :: ·)

end Does

theorem does_render (t : Token) : (Watched.render watch src t).Does [.text t] :=
  (does_watch (.text t)).bind fun _ => does_step fun σ => ⟨_, _, congrArg Prod.snd (t.render_run src σ)⟩

theorem does_entry (t : Token) : (Watched.entry watch src t).Does [.entry t] :=
  (does_watch (.entry t)).bind fun _ => does_step fun σ => ⟨_, _, congrArg Prod.snd (t.entry_run src σ)⟩

theorem does_name (ts : List Token) : (Watched.renderName watch src ts).Does (ts.map .text) := by
  rw [List.map_eq_flatMap]
  exact (Does.mapM does_render ts).then_pure String.join

theorem does_value (ts : List Token) : (Watched.renderValue watch src ts).Does (ts.map .entry) := by
  rw [List.map_eq_flatMap]
  exact (Does.mapM does_entry ts).then_pure Entry.joined

theorem does_some {f : List Token → Traced α} {act : Token → Act} (hf : ∀ ts, (f ts).Does (ts.map act)) :
    ∀ tokens : Option (List Token), (renderSome f tokens).Does ((tokens.getD []).map act)
  | none => does_pure none
  | some [] => does_pure none
  | some (t :: ts) => (hf (t :: ts)).then_pure some

theorem does_attribute (a : Attribute) : (Watched.renderAttribute watch src a).Does a.acts := by
  have hv (name : Option String) : ∀ tokens : Option (List Token),
      (Watched.renderAttributeValue watch src name tokens).Does
        ((tokens.elim [] fun ts => (unwrap ts).inner).map .entry)
    | none => does_pure _
    | some ts => by
      refine Does.bind (does_step fun σ => ?_) fun _ => (does_value (unwrap ts).inner).then_pure _
      split
      · exact ⟨_, _, note_eq_after σ _⟩
      · exact ⟨_, _, (after_none σ).symm⟩
  exact (does_some does_name a.name).bind fun name => (hv name a.value).then_pure _

theorem does_build (head : Element) (children : List Node) (repeater : Option Repeater) :
    (Watched.build watch src head children repeater).Does head.acts := by
  have ha : ∀ attributes : Option (List Attribute),
      (Watched.renderAttributes watch src attributes).Does ((attributes.getD []).flatMap Attribute.acts)
    | none => does_pure none
    | some as => (Does.mapM does_attribute as).then_pure some
  unfold Element.acts
  rw [List.append_assoc]
  exact (ha head.attributes).bind fun _ => (does_some does_name head.name).bind fun _ =>
    (does_some does_value head.value).then_pure _

end Traced

/-! ### Statements -/

namespace Traced

variable {src : Source}

def body (src : Source) : Statement → Repeater → Traced (List Node)
  | .element head cs _ => fun snapshot => do
    let nodes ← Watched.expandAll watch src cs
    pure [← Watched.build watch src head nodes (some snapshot)]
  | .group cs _ => fun _ => Watched.expandAll watch src cs

theorem expand_eq_repeated {s : Statement} {r : Repeater} (h : s.repeater = some r) :
    Watched.expand watch src s = Watched.repeated watch src r (body src s) := by
  cases s <;> cases h <;> simp only [Watched.expand, body]

theorem result_expandAll (ss : List Statement) (σ : State) :
    (Watched.expandAll watch src ss).result σ = (Statement.expandAll src ss).run σ := by
  rw [lockstep_unwatched.expandAll src ss σ, Watched.expandAll_unwatched]

theorem result_expand (s : Statement) (σ : State) :
    (Watched.expand watch src s).result σ = (s.expand src).run σ := by
  rw [lockstep_unwatched.expand src s σ, Watched.expand_unwatched]

/-- A list does what its first statement does, and then the others from where that has ended. -/
theorem momentsAll_cons (s : Statement) (rest : List Statement) (σ : State) :
    Statement.momentsAll src (s :: rest) σ =
      s.moments src σ ++ Statement.momentsAll src rest ((s.expand src).run σ).2 := by
  unfold Statement.momentsAll
  rw [Watched.expandAll, moments_bind, moments_bind, moments_pure, List.append_nil, result_expand]
  rfl

theorem result_body (s : Statement) (snapshot : Repeater) (σ : State) :
    (body src s snapshot).result σ = (s.body src snapshot).run σ := by
  cases s with
  | element head cs r =>
    unfold body Statement.body
    rw [result_bind, result_bind, result_expandAll, lockstep_unwatched.build, Watched.build_unwatched]
    rfl
  | group cs r => exact result_expandAll cs σ

theorem result_copy (r : Repeater) (s : Statement) (i : Nat) (σ : State) :
    (Watched.copy watch src r (body src s) i).result σ = (copy src r (s.body src) i).run σ := by
  rw [lockstep_unwatched.copy src r (result_body s) i σ, Watched.copy_unwatched]

theorem moments_ite {α : Type} (c : Prop) [Decidable c] (x y : Traced α) (σ : State) :
    (if c then x else y).moments σ = if c then x.moments σ else y.moments σ := by
  split <;> rfl

/-- What is done in a copy: what its body does, and then text is put to the nodes, if there are any, and
if text still waits for them. -/
theorem moments_copy (r : Repeater) (s : Statement) (i : Nat) (σ : State) :
    (Watched.copy watch src r (body src s) i).moments σ =
      let q := (s.body src (r.turn i)).run (σ.replaceTop (r.turn i))
      (body src s (r.turn i)).moments (σ.replaceTop (r.turn i)) ++
        if r.implicit && !q.2.inserted && !q.1.isEmpty then [(.insert (r.turn i), q.2)] else [] := by
  rw [← result_body]
  unfold Watched.copy
  dsimp only
  rw [moments_bind, moments_step, List.nil_append, moments_bind, moments_bind, moments_step,
    List.nil_append, moments_ite]
  rfl

theorem moments_repeated (r : Repeater) (body : Repeater → Traced (List Node)) (σ : State) :
    (Watched.repeated watch src r body).moments σ =
      ((List.range (r.turns src)).mapM (Watched.copy watch src r body)).moments
        ((σ.push r).note (.expanding (r.copies src) r.implicit)) := by
  unfold Watched.repeated
  dsimp only
  rw [moments_bind, moments_bind, moments_bind, moments_bind, moments_step, moments_step, moments_step,
    moments_pure, List.append_nil, List.append_nil, List.nil_append, List.nil_append]
  rfl

end Traced

/-! ### What is written -/

/-- The moments at which a token is rendered, with the repeaters around. -/
def rendered (ms : List (Act × State)) : List (Act × List Repeater) :=
  stacked (ms.filter (·.1.token?.isSome))

theorem rendered_append (ms ns : List (Act × State)) : rendered (ms ++ ns) = rendered ms ++ rendered ns := by
  simp [rendered, stacked]

/-- The acts of an element that is built, inside the repeaters around. -/
def Build.acts (b : Build) : List (Act × List Repeater) := b.head.acts.map (·, b.env)

namespace Traced

variable {src : Source}

theorem rendered_build (head : Element) (children : List Node) (repeater : Option Repeater) (σ : State) :
    rendered ((Watched.build watch src head children repeater).moments σ) =
      head.acts.map (·, σ.stack) := by
  have hd : (Watched.build watch src head children repeater).Does head.acts := does_build head children repeater
  rw [rendered, List.filter_eq_self.mpr, hd.acts_eq]
  intro m hm
  have hm : (m.1, m.2.stack) ∈ head.acts.map (·, σ.stack) := by
    rw [← hd.acts_eq]
    exact List.mem_map_of_mem hm
  obtain ⟨act, ha, he⟩ := List.mem_map.mp hm
  exact (congrArg Prod.fst he) ▸ head.token?_acts act ha

/-- A part of an expansion writes what depends on the repeaters around alone, and leaves these as they
are. -/
structure Writes (x : Traced (List Node)) (acts : List Repeater → List (Act × List Repeater)) : Prop where
  rendered_eq : ∀ σ, rendered (x.moments σ) = acts σ.stack
  stack_eq : ∀ σ, (x.result σ).2.stack = σ.stack
  forward : x.Forward

theorem Writes.element {cs : List Statement} {acts : List Repeater → List (Act × List Repeater)}
    (h : (Watched.expandAll watch src cs).Writes acts) (head : Element) (repeater : Option Repeater) :
    (do let nodes ← Watched.expandAll watch src cs
        pure [← Watched.build watch src head nodes repeater] : Traced (List Node)).Writes
      fun env => acts env ++ head.acts.map (·, env) where
  rendered_eq σ := by
    rw [moments_bind, moments_bind, moments_pure, List.append_nil, rendered_append, h.rendered_eq,
      rendered_build, h.stack_eq]
  stack_eq σ := by
    rw [result_bind, ← h.stack_eq σ]
    exact ((does_build head _ repeater).then_pure fun n => [n]).stack_eq _
  forward := h.forward.bind fun nodes =>
    ((does_build head nodes repeater).then_pure fun n => [n]).forward

/-- The copies of a loop write one after the other, each inside its own repeater. -/
theorem rendered_copies {s : Statement} {r : Repeater} {acts : List Repeater → List (Act × List Repeater)}
    (h : ∀ snapshot, (body src s snapshot).Writes acts) (is : List Nat) {top : Repeater}
    {outer : List Repeater} {σ : State} (hσ : σ.stack = top :: outer) :
    rendered ((is.mapM (Watched.copy watch src r (body src s))).moments σ) =
      is.flatMap fun i => acts (r.turn i :: outer) := by
  induction is generalizing top σ with
  | nil => rfl
  | cons i is ih =>
    have htop : (σ.replaceTop (r.turn i)).stack = r.turn i :: outer := by
      unfold replaceTop
      rw [hσ]
    have hnext : ((Watched.copy watch src r (body src s) i).result σ).2.stack = r.turn i :: outer := by
      rw [result_copy, copy_run]
      exact (s.body_stack ..).trans htop
    -- text that is put to the nodes of the copy is no token
    have hown : ∀ c : Prop, [Decidable c] → ∀ τ : State,
        rendered (if c then [(Act.insert (r.turn i), τ)] else []) = [] := by
      intro c _ τ
      split <;> rfl
    rw [List.mapM_cons, moments_bind, moments_bind, moments_pure, List.append_nil, rendered_append, ih hnext,
      moments_copy]
    dsimp only
    rw [rendered_append, hown, List.append_nil, (h _).rendered_eq, htop, List.flatMap_cons]

theorem before_copies {s : Statement} {r : Repeater} (h : ∀ snapshot, (body src s snapshot).Forward)
    (is : List Nat) {top : Repeater} {σ τ : State} (hτ : τ.stack = top :: σ.stack)
    (hi : σ.inserted = true → τ.inserted = true) (hl : σ.log <:+ τ.log) :
    ∀ m ∈ (is.mapM (Watched.copy watch src r (body src s))).moments τ, σ.Before m.2 := by
  induction is generalizing top τ with
  | nil => exact nofun
  | cons i is ih =>
    have htop : (τ.replaceTop (r.turn i)).stack = r.turn i :: σ.stack := by
      unfold replaceTop
      rw [hτ]
    have hb : σ.Before (τ.replaceTop (r.turn i)) := by
      refine ⟨htop ▸ List.suffix_cons .., fun h => ?_, ?_⟩
      · rw [replaceTop_inserted]
        exact hi h
      · unfold replaceTop
        split <;> exact hl
    obtain ⟨hend, hm⟩ := h (r.turn i) (τ.replaceTop (r.turn i))
    rw [List.mapM_cons, moments_bind, moments_bind, moments_pure, List.append_nil, moments_copy]
    rw [result_body] at hend
    have hnext : ((Watched.copy watch src r (body src s) i).result τ).2 =
        ((s.body src (r.turn i)).run (τ.replaceTop (r.turn i))).2 := by
      rw [result_copy, copy_run]
    -- what is done is done in the body of the copy, or at its end, or in a copy after it
    intro m hmem
    obtain hmem | hmem := List.mem_append.mp hmem
    · obtain hmem | hmem := List.mem_append.mp hmem
      · exact hb.trans (hm m hmem)
      · split at hmem
        · rw [List.mem_singleton.mp hmem]
          exact hb.trans hend
        · cases hmem
    · have hlater := hb.trans hend
      rw [hnext] at hmem
      exact ih ((s.body_stack ..).trans htop) hlater.inserted hlater.log m hmem

theorem Writes.repeated {s : Statement} {r : Repeater}
    {acts : List Repeater → List (Act × List Repeater)} (hr : s.repeater = some r)
    (h : ∀ snapshot, (body src s snapshot).Writes acts) :
    (Watched.expand watch src s).Writes fun env => (environments src env (some r)).flatMap acts where
  rendered_eq σ := by
    rw [expand_eq_repeated hr, moments_repeated, rendered_copies h _ rfl, environments, List.flatMap_map]
  stack_eq σ := by
    rw [result_expand, s.expand_run]
    rfl
  forward σ := by
    rw [result_expand, s.expand_run, expand_eq_repeated hr, moments_repeated]
    exact ⟨σ.before_after _ _, before_copies (fun snapshot => (h snapshot).forward) _ rfl id
      (List.suffix_cons ..)⟩

end Traced

mutual

/-- **What is rendered when a statement is expanded** is what is rendered when its elements are built, in
order. -/
theorem Statement.writes (src : Source) : ∀ (s : Statement) (p : Position),
    (Watched.expand Traced.watch src s).Writes fun env => (s.builds src p env).flatMap Build.acts
  | .element head cs none, p => by
    have h := (writesAll src cs (p.field "elements") 0).element head none
    simpa [Watched.expand, builds, environments, Build.acts] using h
  | .element head cs (some r), p => by
    have h (snapshot : Repeater) :=
      (writesAll src cs (p.field "elements") 0).element head (some snapshot)
    simpa [builds, Build.acts, List.flatMap_assoc] using Traced.Writes.repeated (s := .element head cs (some r)) rfl h
  | .group cs none, p => by
    have h := writesAll src cs (p.field "elements") 0
    simpa [Watched.expand, builds, environments] using h
  | .group cs (some r), p => by
    have h := writesAll src cs (p.field "elements") 0
    simpa [builds, List.flatMap_assoc] using Traced.Writes.repeated (s := .group cs (some r)) rfl fun _ => h

theorem Statement.writesAll (src : Source) : ∀ (ss : List Statement) (p : Position) (k : Nat),
    (Watched.expandAll Traced.watch src ss).Writes fun env =>
      (Statement.buildsAll src p k env ss).flatMap Build.acts
  | [], p, k => by
    rw [Watched.expandAll]
    exact ⟨fun _ => rfl, fun _ => rfl, Traced.forward_pure []⟩
  | s :: rest, p, k => by
    have hs := writes src s (p.item k)
    have hrest := writesAll src rest p (k + 1)
    rw [Watched.expandAll]
    refine ⟨fun σ => ?_, fun σ => ?_, ?_⟩
    · rw [Traced.moments_bind, Traced.moments_bind, Traced.moments_pure, List.append_nil, rendered_append,
        hs.rendered_eq, hrest.rendered_eq, hs.stack_eq, buildsAll, List.flatMap_append]
    · rw [Traced.result_bind, Traced.result_bind, ← hs.stack_eq σ]
      exact hrest.stack_eq _
    · exact hs.forward.bind fun _ => hrest.forward.bind fun _ => Traced.forward_pure _

end

end Shorthand
