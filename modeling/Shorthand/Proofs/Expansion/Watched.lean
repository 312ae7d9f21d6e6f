import Mathlib.Control.Monad.Writer
import Shorthand.Expansion.Watched
import Shorthand.Proofs.Expansion.Run

/-!
# What a watched expansion does

However an expansion is watched, it takes the same steps.

* `Lockstep`: a relation between two kinds of runs that all steps of an expansion keep, and so all
  expansions;
* `Watched.expandAll_unwatched`: an expansion that nobody watches is that of `Statement.expandAll`;
* `Traced`, `Traced.moments`: an expansion with the acts that it does, each with its state;
* `Statement.attemptAll_run`: an attempt goes as the expansion does until an act cannot be done.
-/

namespace Shorthand

open Expansion State Repeater

variable {α β : Type}

/-! ### Runs in lockstep -/

/-- A relation between two kinds of runs that is kept when both take the same step, and when both let the
same be watched. -/
structure Lockstep {m n : Type → Type} [Monad m] [Monad n] [MonadStateOf State m] [MonadStateOf State n]
    (watch : Act → m Unit) (watch' : Act → n Unit) (R : ∀ {α : Type}, m α → n α → Prop) : Prop where
  pure : ∀ {α : Type} (a : α), R (pure a : m α) (pure a : n α)
  bind : ∀ {α β : Type} {x : m α} {y : n α} {f : α → m β} {g : α → n β},
    R x y → (∀ a, R (f a) (g a)) → R (x >>= f) (y >>= g)
  step : ∀ {α : Type} (x : Expansion α), R (Watched.step x : m α) (Watched.step x : n α)
  watch : ∀ act, R (watch act) (watch' act)

namespace Lockstep

variable {m n : Type → Type} [Monad m] [Monad n] [MonadStateOf State m] [MonadStateOf State n]
  {watch : Act → m Unit} {watch' : Act → n Unit} {R : ∀ {α : Type}, m α → n α → Prop}
  (h : Lockstep watch watch' R) (src : Source)
include h

theorem mapM {f : α → m β} {g : α → n β} (hf : ∀ a, R (f a) (g a)) (xs : List α) :
    R (xs.mapM f) (xs.mapM g) := by
  have hloop (bs : List β) : R (List.mapM.loop f xs bs) (List.mapM.loop g xs bs) := by
    induction xs generalizing bs with
    | nil => exact h.pure bs.reverse
    | cons x xs ih => exact h.bind (hf x) fun b => ih (b :: bs)
  exact hloop []

theorem renderSome {f : List Token → m α} {g : List Token → n α} (hf : ∀ ts, R (f ts) (g ts)) :
    ∀ tokens : Option (List Token), R (renderSome f tokens) (renderSome g tokens)
  | none => h.pure none
  | some [] => h.pure none
  | some (t :: ts) => h.bind (hf (t :: ts)) fun a => h.pure (some a)

theorem renderName (ts : List Token) :
    R (Watched.renderName watch src ts) (Watched.renderName watch' src ts) :=
  h.bind (h.mapM (fun t => h.bind (h.watch (.text t)) fun _ => h.step (t.render src)) ts)
    fun texts => h.pure (String.join texts)

theorem renderValue (ts : List Token) :
    R (Watched.renderValue watch src ts) (Watched.renderValue watch' src ts) :=
  h.bind (h.mapM (fun t => h.bind (h.watch (.entry t)) fun _ => h.step (t.entry src)) ts)
    fun entries => h.pure (Entry.joined entries)

theorem renderAttributeValue (name : Option String) : ∀ tokens : Option (List Token),
    R (Watched.renderAttributeValue watch src name tokens)
      (Watched.renderAttributeValue watch' src name tokens)
  | none => h.pure (none, ValueKind.raw)
  | some _ => h.bind (h.step _) fun _ => h.bind (h.renderValue src _) fun _ => h.pure _

theorem renderAttribute (a : Attribute) :
    R (Watched.renderAttribute watch src a) (Watched.renderAttribute watch' src a) :=
  h.bind (h.renderSome (h.renderName src) a.name) fun name =>
    h.bind (h.renderAttributeValue src name a.value) fun _ => h.pure _

theorem renderAttributes : ∀ attributes : Option (List Attribute),
    R (Watched.renderAttributes watch src attributes) (Watched.renderAttributes watch' src attributes)
  | none => h.pure none
  | some as => h.bind (h.mapM (h.renderAttribute src) as) fun bs => h.pure (some bs)

theorem build (head : Element) (children : List Node) (repeater : Option Repeater) :
    R (Watched.build watch src head children repeater)
      (Watched.build watch' src head children repeater) :=
  h.bind (h.renderAttributes src head.attributes) fun _ =>
    h.bind (h.renderSome (h.renderName src) head.name) fun _ =>
      h.bind (h.renderSome (h.renderValue src) head.value) fun _ => h.pure _

variable (r : Repeater) {body : Repeater → m (List Node)} {body' : Repeater → n (List Node)}

theorem copy (hb : ∀ snapshot, R (body snapshot) (body' snapshot)) (i : Nat) :
    R (Watched.copy watch src r body i) (Watched.copy watch' src r body' i) := by
  refine h.bind (h.step _) fun _ => h.bind (hb _) fun nodes => h.bind (h.step get) fun σ => ?_
  dsimp only
  split
  · exact h.bind (h.watch _) fun _ => h.pure _
  · exact h.pure nodes

theorem repeated (hb : ∀ snapshot, R (body snapshot) (body' snapshot)) :
    R (Watched.repeated watch src r body) (Watched.repeated watch' src r body') :=
  h.bind (h.step _) fun _ => h.bind (h.step _) fun _ =>
    h.bind (h.mapM (h.copy src r hb) _) fun _ => h.bind (h.step _) fun _ => h.pure _

mutual

theorem expand : ∀ s : Statement, R (Watched.expand watch src s) (Watched.expand watch' src s)
  | .element head cs none => by
    rw [Watched.expand, Watched.expand]
    exact h.bind (expandAll cs) fun nodes => h.bind (h.build src head nodes none) fun _ => h.pure _
  | .element head cs (some r) => by
    rw [Watched.expand, Watched.expand]
    exact h.repeated src r fun snapshot => h.bind (expandAll cs) fun nodes =>
      h.bind (h.build src head nodes (some snapshot)) fun _ => h.pure _
  | .group cs none => by
    rw [Watched.expand, Watched.expand]
    exact expandAll cs
  | .group cs (some r) => by
    rw [Watched.expand, Watched.expand]
    exact h.repeated src r fun _ => expandAll cs

/-- **Expansions go in lockstep**, however they are watched. -/
theorem expandAll : ∀ ss : List Statement,
    R (Watched.expandAll watch src ss) (Watched.expandAll watch' src ss)
  | [] => by
    rw [Watched.expandAll, Watched.expandAll]
    exact h.pure []
  | s :: rest => by
    rw [Watched.expandAll, Watched.expandAll]
    exact h.bind (expand s) fun _ => h.bind (expandAll rest) fun _ => h.pure _

end

end Lockstep

/-! ### Nobody watches -/

namespace Watched

/-- Nobody watches. -/
abbrev unwatched (_ : Act) : Expansion Unit := pure ()

variable (src : Source)

theorem run_step (x : Expansion α) (σ : State) : (step x : Expansion α).run σ = x.run σ := rfl

theorem renderAttribute_unwatched (a : Attribute) :
    Watched.renderAttribute unwatched src a = a.render src := by
  have hv (name : Option String) : ∀ tokens : Option (List Token),
      Watched.renderAttributeValue unwatched src name tokens = Shorthand.renderAttributeValue src name tokens
    | none => rfl
    | some tokens => by
      unfold Watched.renderAttributeValue Shorthand.renderAttributeValue
      by_cases h : (unwrap tokens).closed = false
      · simp only [h, if_true]
        rfl
      · simp only [h]
        rfl
  unfold Watched.renderAttribute Attribute.render
  simp only [hv]
  rfl

theorem build_unwatched (head : Element) (children : List Node) (repeater : Option Repeater) :
    Watched.build unwatched src head children repeater = head.build src children repeater := by
  unfold Watched.build Element.build Watched.renderAttributes
  rw [funext (renderAttribute_unwatched src)]
  cases head.attributes <;> rfl

theorem copy_unwatched (r : Repeater) (body : Repeater → Expansion (List Node)) (i : Nat) :
    Watched.copy unwatched src r body i = Shorthand.copy src r body i := by
  funext σ
  change (Watched.copy unwatched src r body i).run σ = (Shorthand.copy src r body i).run σ
  rw [copy_run]
  unfold Watched.copy filled
  dsimp only
  rw [run_bind, run_step, run_modify, run_bind, run_bind, run_step, run_get, run_ite]
  change (let q := (body (r.turn i)).run (σ.replaceTop (r.turn i));
    if r.implicit && !q.2.inserted && !q.1.isEmpty then (Node.insertIntoLast (src.textAt i) q.1, q.2)
    else q) = _
  generalize (body (r.turn i)).run (σ.replaceTop (r.turn i)) = q
  obtain ⟨nodes, τ⟩ := q
  -- where there are no nodes the text is put nowhere, whether it is asked for or not
  cases nodes with
  | nil => simp [Node.insertIntoLast]
  | cons n ns =>
    simp only [List.isEmpty_cons, Bool.not_false, Bool.and_true]
    split <;> rfl

theorem repeated_unwatched (r : Repeater) (body : Repeater → Expansion (List Node)) :
    Watched.repeated unwatched src r body = Shorthand.repeated src r body := by
  funext σ
  change (Watched.repeated unwatched src r body).run σ = (Shorthand.repeated src r body).run σ
  rw [repeated_run]
  unfold Watched.repeated
  rw [funext (copy_unwatched src r body), run_bind, run_step, run_modify, run_bind, run_step, run_modify,
    run_bind]
  generalize StateT.run (List.mapM (Shorthand.copy src r body) _) _ = q
  obtain ⟨copies, stack, inserted, log⟩ := q
  cases hr : r.implicit <;> cases inserted <;> simp only [closed, hr] <;> rfl

mutual

theorem expand_unwatched : ∀ s : Statement, Watched.expand unwatched src s = s.expand src
  | .element head cs none => by
    rw [Watched.expand, Statement.expand, expandAll_unwatched cs]
    simp only [build_unwatched]
  | .element head cs (some r) => by
    rw [Watched.expand, Statement.expand, expandAll_unwatched cs, repeated_unwatched]
    simp only [build_unwatched]
  | .group cs none => by rw [Watched.expand, Statement.expand, expandAll_unwatched cs]
  | .group cs (some r) => by
    rw [Watched.expand, Statement.expand, expandAll_unwatched cs, repeated_unwatched]

theorem expandAll_unwatched : ∀ ss : List Statement,
    Watched.expandAll unwatched src ss = Statement.expandAll src ss
  | [] => by rw [Watched.expandAll, Statement.expandAll]
  | s :: rest => by
    rw [Watched.expandAll, Statement.expandAll, expand_unwatched s, expandAll_unwatched rest]

end

end Watched

/-! ### Traces -/

/-- An expansion with a record of its acts, each with the state in which it is done. -/
abbrev Traced := StateT State (Writer (List (Act × State)))

/-- A writer of lists follows the laws of monads. -/
instance Writer.lawfulMonad {ω : Type} : LawfulMonad (Writer (List ω)) := LawfulMonad.mk' _
  (fun _ => rfl) (fun _ _ => rfl) (fun _ _ _ => Prod.ext rfl (List.append_assoc ..)) (fun _ _ => rfl)
  (fun _ _ => rfl) (fun _ _ => rfl) (fun _ _ => Prod.ext rfl (List.append_nil _)) (fun _ _ => rfl)

namespace Traced

/-- Keeps a record. -/
def watch (act : Act) : Traced Unit := do tell [(act, ← get)]

/-- What an expansion does, in order, each with its state. -/
def moments (x : Traced α) (σ : State) : List (Act × State) := (x.run σ).run.2

/-- What an expansion gives, and the state in which it ends. -/
def result (x : Traced α) (σ : State) : α × State := (x.run σ).run.1

@[simp] theorem moments_pure (a : α) (σ : State) : (pure a : Traced α).moments σ = [] := rfl

@[simp] theorem moments_step (x : Expansion α) (σ : State) :
    (Watched.step x : Traced α).moments σ = [] := rfl

@[simp] theorem moments_watch (act : Act) (σ : State) : (watch act).moments σ = [(act, σ)] := rfl

theorem moments_bind (x : Traced α) (f : α → Traced β) (σ : State) :
    (x >>= f).moments σ = x.moments σ ++ (f (x.result σ).1).moments (x.result σ).2 := rfl

theorem result_bind (x : Traced α) (f : α → Traced β) (σ : State) :
    (x >>= f).result σ = (f (x.result σ).1).result (x.result σ).2 := rfl

/-- Without its record, an expansion is one that nobody watches. -/
theorem lockstep_unwatched :
    Lockstep watch Watched.unwatched fun x y => ∀ σ, x.result σ = y.run σ where
  pure _ _ := rfl
  bind hx hf σ := by rw [result_bind, run_bind, hx, hf]
  step _ _ := rfl
  watch _ _ := rfl

end Traced

/-- The acts of the expansion of a statement, in order, each with its state. -/
def Statement.moments (src : Source) (s : Statement) (σ : State) : List (Act × State) :=
  Traced.moments (Watched.expand Traced.watch src s) σ

def Statement.momentsAll (src : Source) (ss : List Statement) (σ : State) : List (Act × State) :=
  Traced.moments (Watched.expandAll Traced.watch src ss) σ

def Tree.moments (src : Source) (t : Tree) : List (Act × State) :=
  Statement.momentsAll src t.statements {}

/-! ### Attempts -/

namespace Attempt

variable (src : Source)

/-- The first of some moments at which an act cannot be done, and why. -/
def stop? (moments : List (Act × State)) : Option (Hindrance × State) :=
  moments.findSome? fun m => (m.1.hindrance? src m.2.stack).map (·, m.2)

/-- What becomes of an expansion whose acts are known: it breaks off at the first that cannot be done. -/
def outcome (moments : List (Act × State)) (q : α × State) : Except Hindrance α × State :=
  match stop? src moments with
  | none => (.ok q.1, q.2)
  | some (h, τ) => (.error h, τ)

theorem stop?_append (ms ns : List (Act × State)) :
    stop? src (ms ++ ns) = (stop? src ms).or (stop? src ns) := List.findSome?_append

theorem run_bind (x : Attempt α) (f : α → Attempt β) (σ : State) :
    (x >>= f).run.run σ = match x.run.run σ with
      | (.ok a, τ) => (f a).run.run τ
      | (.error h, τ) => (.error h, τ) := by
  change (ExceptT.bindCont f (x.run.run σ).1).run (x.run.run σ).2 = _
  obtain ⟨_ | a, τ⟩ := x.run.run σ <;> rfl

theorem run_get (σ : State) : (get : Attempt State).run.run σ = (.ok σ, σ) := rfl

theorem watch_run (act : Act) (σ : State) :
    (watch src act).run.run σ = outcome src [(act, σ)] ((), σ) := by
  unfold watch outcome stop?
  rw [run_bind, run_get, List.findSome?_singleton]
  dsimp only
  cases act.hindrance? src σ.stack <;> rfl

/-- An attempt goes as the expansion does, as long as all acts can be done. -/
theorem lockstep_traced :
    Lockstep Traced.watch (watch src) fun x y => ∀ σ, y.run.run σ = outcome src (x.moments σ) (x.result σ) where
  pure _ _ := rfl
  bind hx hf σ := by
    rw [run_bind, hx, Traced.moments_bind, Traced.result_bind]
    unfold outcome
    rw [stop?_append]
    -- if the first part breaks off then the second one is never begun
    cases stop? src (Traced.moments _ σ) with
    | none => exact hf _ _
    | some e => rfl
  step _ _ := rfl
  watch := watch_run src

end Attempt

/-- **Attempts.**  An attempt goes as the expansion does, up to the first act that cannot be done: there it
breaks off, and leaves the state as it is. -/
theorem Statement.attempt_run (src : Source) (s : Statement) (σ : State) :
    (s.attempt src).run.run σ = Attempt.outcome src (s.moments src σ) ((s.expand src).run σ) := by
  -- the trace is what both are compared with: it tells the acts, and takes the same steps as the expansion
  have hr := Traced.lockstep_unwatched.expand src s σ
  rw [Watched.expand_unwatched] at hr
  rw [← hr]
  exact (Attempt.lockstep_traced src).expand src s σ

theorem Statement.attemptAll_run (src : Source) (ss : List Statement) (σ : State) :
    (Statement.attemptAll src ss).run.run σ =
      Attempt.outcome src (Statement.momentsAll src ss σ) ((Statement.expandAll src ss).run σ) := by
  have hr := Traced.lockstep_unwatched.expandAll src ss σ
  rw [Watched.expandAll_unwatched] at hr
  rw [← hr]
  exact (Attempt.lockstep_traced src).expandAll src ss σ

end Shorthand
