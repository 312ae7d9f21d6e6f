import Shorthand.Proofs.Expansion.Text
import Shorthand.Statement.Walk

/-!
# What an expansion asks of the variables

An expansion looks variables up for those tokens alone that refer to one.

* `Element.rendered`: the tokens that are rendered when an element is built;
* `Token.render_of_lookup`: a token is rendered alike if its own variable has the same value;
* `Tree.run_of_lookup`: a tree is expanded alike if the variables of all its tokens have.
-/

namespace Shorthand

/-! ### Variables -/

namespace Source

variable {src : Source} {name : String}

/-- What is known about a variable: nothing, or that it has a value or none. -/
def lookup? (src : Source) (name : String) : Option (Option String) := (src.vars.getD []).lookup name

theorem knows_eq : src.knows name = (src.lookup? name).isSome := by
  unfold knows lookup?
  cases h : (src.vars.getD []).lookup name with
  | none =>
    refine List.any_eq_false.mpr fun x hx hn => ?_
    have hne : name ≠ x.1 := bne_iff_ne.mp (List.lookup_eq_none_iff.mp h x hx)
    exact hne (beq_iff_eq.mp hn).symm
  | some value =>
    obtain ⟨before, after, he, -⟩ := List.lookup_eq_some_iff.mp h
    exact List.any_eq_true.mpr ⟨(name, value), by simp [he], beq_self_eq_true name⟩

theorem valueOf_of_not_knows (h : src.knows name = false) : src.valueOf name = name := by
  rw [knows_eq, Option.isSome_eq_false_iff, Option.isNone_iff_eq_none] at h
  unfold valueOf
  rw [← lookup?, h]
  rfl

end Source

/-! ### Tokens of an element -/

/-- The tokens that are rendered for an attribute: those of its name, and those of its value without
the delimiters. -/
def Attribute.rendered (a : Attribute) : List Token := a.name.getD [] ++ (unwrap (a.value.getD [])).inner

/-- The tokens that are rendered when an element is built. -/
def Element.rendered (head : Element) : List Token :=
  (head.attributes.getD []).flatMap Attribute.rendered ++ head.name.getD [] ++ head.value.getD []

section Lookup

variable (src : Source) (vars : Option (List (String × Option String)))

/-- Steps that are the same one by one are the same one after the other. -/
theorem mapM_congr {ι α : Type} {f g : ι → Expansion α} {xs : List ι} (h : ∀ x ∈ xs, f x = g x) :
    xs.mapM f = xs.mapM g := by
  induction xs with
  | nil => rw [List.mapM_nil, List.mapM_nil]
  | cons x xs ih =>
    rw [List.mapM_cons, List.mapM_cons, h x List.mem_cons_self,
      ih fun y hy => h y (List.mem_cons_of_mem x hy)]

variable {src vars}

theorem Token.entry_congr {t : Token} (h : t.render { src with vars } = t.render src) :
    t.entry { src with vars } = t.entry src := by
  unfold entry
  split
  · rfl
  · rw [h]

theorem renderName_congr {ts : List Token} (h : ∀ t ∈ ts, t.render { src with vars } = t.render src) :
    renderName { src with vars } ts = renderName src ts := by
  unfold renderName
  rw [mapM_congr h]

theorem renderValue_congr {ts : List Token} (h : ∀ t ∈ ts, t.render { src with vars } = t.render src) :
    renderValue { src with vars } ts = renderValue src ts := by
  unfold renderValue
  rw [mapM_congr fun t ht => Token.entry_congr (h t ht)]

theorem renderSome_congr {α : Type} {f g : List Token → Expansion α} {tokens : Option (List Token)}
    (h : f (tokens.getD []) = g (tokens.getD [])) : renderSome f tokens = renderSome g tokens := by
  match tokens with
  | none | some [] => rfl
  | some (t :: ts) =>
    have ht : f (t :: ts) = g (t :: ts) := h
    simp only [renderSome, ht]

theorem Attribute.render_congr {a : Attribute}
    (h : ∀ t ∈ a.rendered, t.render { src with vars } = t.render src) :
    a.render { src with vars } = a.render src := by
  have hn : renderSome (renderName { src with vars }) a.name = renderSome (renderName src) a.name :=
    renderSome_congr (renderName_congr fun t ht => h t (List.mem_append_left _ ht))
  have hv : ∀ name, renderAttributeValue { src with vars } name a.value =
      renderAttributeValue src name a.value := by
    intro name
    unfold renderAttributeValue
    cases hav : a.value with
    | none => rfl
    | some ts =>
      have hi : renderValue { src with vars } (unwrap ts).inner = renderValue src (unwrap ts).inner :=
        renderValue_congr fun t ht => h t (List.mem_append_right _ (by rw [hav]; exact ht))
      simp only [hi]
  unfold render
  simp only [hn, hv]

theorem Element.build_congr {head : Element}
    (h : ∀ t ∈ head.rendered, t.render { src with vars } = t.render src) (children : List Node)
    (repeater : Option Repeater) :
    head.build { src with vars } children repeater = head.build src children repeater := by
  unfold rendered at h
  simp only [List.mem_append, List.mem_flatMap] at h
  have hn : renderSome (renderName { src with vars }) head.name = renderSome (renderName src) head.name :=
    renderSome_congr (renderName_congr fun t ht => h t (.inl (.inr ht)))
  have hv : renderSome (renderValue { src with vars }) head.value =
      renderSome (renderValue src) head.value :=
    renderSome_congr (renderValue_congr fun t ht => h t (.inr ht))
  unfold build
  cases ha : head.attributes with
  | none => simp only [hn, hv]
  | some as =>
    have has : as.mapM (Attribute.render { src with vars }) = as.mapM (Attribute.render src) :=
      mapM_congr fun a hm => Attribute.render_congr fun t ht =>
        h t (.inl (.inl ⟨a, by rw [ha]; exact hm, ht⟩))
    simp only [has, hn, hv]

/-! ### Trees -/

/-- The tokens of all elements of a walk are rendered alike with other variables. -/
def RendersAlike (src : Source) (vars : Option (List (String × Option String)))
    (walk : List (Position × Statement)) : Prop :=
  ∀ p head cs r, (p, .element head cs r) ∈ walk →
    ∀ t ∈ head.rendered, t.render { src with vars } = t.render src

theorem RendersAlike.tail {x : Position × Statement} {walk : List (Position × Statement)}
    (h : RendersAlike src vars (x :: walk)) : RendersAlike src vars walk :=
  fun p head cs r hm => h p head cs r (List.mem_cons_of_mem x hm)

theorem RendersAlike.of_append {xs ys : List (Position × Statement)}
    (h : RendersAlike src vars (xs ++ ys)) : RendersAlike src vars xs ∧ RendersAlike src vars ys :=
  ⟨fun p head cs r hm => h p head cs r (List.mem_append_left ys hm),
    fun p head cs r hm => h p head cs r (List.mem_append_right xs hm)⟩

theorem repeated_of_vars (r : Repeater) (body : Repeater → Expansion (List Node)) :
    repeated { src with vars } r body = repeated src r body := rfl

mutual

theorem Statement.expand_congr : ∀ (s : Statement) (p : Position), RendersAlike src vars (s.walk p) →
    s.expand { src with vars } = s.expand src
  | .element head cs none, p, h => by
    rw [walk] at h
    have hh := Element.build_congr (h p head cs none List.mem_cons_self)
    have hcs := expandAll_congr cs _ 0 h.tail
    unfold expand
    simp only [hcs, hh]
  | .element head cs (some r), p, h => by
    rw [walk] at h
    have hh := Element.build_congr (h p head cs (some r) List.mem_cons_self)
    have hcs := expandAll_congr cs _ 0 h.tail
    unfold expand
    rw [repeated_of_vars]
    simp only [hcs, hh]
  | .group cs none, p, h => by
    rw [walk] at h
    unfold expand
    exact expandAll_congr cs _ 0 h.tail
  | .group cs (some r), p, h => by
    rw [walk] at h
    have hcs := expandAll_congr cs _ 0 h.tail
    unfold expand
    rw [repeated_of_vars]
    simp only [hcs]

theorem Statement.expandAll_congr : ∀ (ss : List Statement) (p : Position) (k : Nat),
    RendersAlike src vars (Statement.walkAll p k ss) →
    Statement.expandAll { src with vars } ss = Statement.expandAll src ss
  | [], _, _, _ => by rw [expandAll, expandAll]
  | s :: rest, p, k, h => by
    rw [walkAll] at h
    obtain ⟨hs, hrest⟩ := h.of_append
    rw [expandAll, expandAll, expand_congr s _ hs, expandAll_congr rest p (k + 1) hrest]

end

end Lookup

end Shorthand
