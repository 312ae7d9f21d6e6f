import Mathlib.Algebra.BigOperators.Ring.List
import Mathlib.Algebra.Ring.Nat
import Shorthand.Lint
import Shorthand.Proofs.Document.Located

/-!
# Counts of a document

What the counts of a tree count in the document from which it is read.

* `Tree.stats_eq`: the counts of a tree, each on its own;
* `Value.isElementRecord`, `Value.declaredAttributes`, `Value.hasRepeat` and their like: what the record
  of a statement holds;
* `Document.stats_eq_of_forall₂`: the counts of the tree are counts of these records.
-/

namespace Shorthand

/-! ### The counts of a tree -/

def Statement.isElement : Statement → Bool
  | .element _ _ _ => true
  | .group _ _ => false

def Statement.isExplicit (s : Statement) : Bool := s.repeater.any (!·.implicit)

namespace Tree

theorem Stats.count_eq (stats : Stats) (s : Statement) :
    stats.count s =
      { elements := stats.elements + if s.isElement then 1 else 0
        groups := stats.groups + if s.isElement then 0 else 1
        attributes := stats.attributes + s.attributes.length
        explicitRepeats := stats.explicitRepeats + if s.isExplicit then 1 else 0
        implicitRepeats := stats.implicitRepeats + if Lint.isImplicit s then 1 else 0 } := by
  cases s with
  | element head cs r =>
    cases r with
    | none => rfl
    | some r => cases hi : r.implicit <;> simp [count, Statement.isElement, Statement.isExplicit,
        Lint.isImplicit, Statement.repeater, hi]
  | group cs r =>
    cases r with
    | none => rfl
    | some r => cases hi : r.implicit <;> simp [count, Statement.isElement, Statement.isExplicit,
        Lint.isImplicit, Statement.repeater, Statement.attributes, hi]

theorem foldl_count (ss : List Statement) (stats : Stats) :
    ss.foldl Stats.count stats =
      { elements := stats.elements + ss.countP (·.isElement)
        groups := stats.groups + ss.countP (!·.isElement)
        attributes := stats.attributes + (ss.map (·.attributes.length)).sum
        explicitRepeats := stats.explicitRepeats + ss.countP (·.isExplicit)
        implicitRepeats := stats.implicitRepeats + ss.countP Lint.isImplicit } := by
  induction ss generalizing stats with
  | nil => rfl
  | cons s ss ih =>
    have hgroup : (if s.isElement then 0 else 1) = if (!s.isElement) = true then 1 else 0 := by
      cases s <;> rfl
    rw [List.foldl_cons, ih, Stats.count_eq, hgroup]
    simp only [List.countP_cons, List.map_cons, List.sum_cons, Stats.mk.injEq]
    omega

/-- **The counts of a tree**, each on its own. -/
theorem stats_eq (t : Tree) :
    t.stats =
      { elements := t.walk.countP (·.2.isElement)
        groups := t.walk.countP (!·.2.isElement)
        attributes := (t.walk.map (·.2.attributes.length)).sum
        explicitRepeats := t.walk.countP (·.2.isExplicit)
        implicitRepeats := t.walk.countP (Lint.isImplicit ·.2) } := by
  rw [stats, foldl_count]
  simp only [Nat.zero_add, List.countP_map, List.map_map]
  rfl

theorem explicit_add_implicit (t : Tree) :
    t.stats.explicitRepeats + t.stats.implicitRepeats = t.walk.countP (·.2.repeater.isSome) := by
  rw [stats_eq]
  dsimp only
  induction t.walk with
  | nil => rfl
  | cons x walk ih =>
    have hx : (if x.2.isExplicit then 1 else 0) + (if Lint.isImplicit x.2 then 1 else 0) =
        if x.2.repeater.isSome then 1 else 0 := by
      rw [Statement.isExplicit, Lint.isImplicit]
      cases x.2.repeater with
      | none => rfl
      | some r => cases hi : r.implicit <;> simp [hi]
    simp only [List.countP_cons]
    omega

end Tree

/-! ### The records of statements -/

namespace Value

def isElementRecord : Value → Bool
  | .map fields => Decode.kind? fields = some .element
  | _ => false

def isGroupRecord : Value → Bool
  | .map fields => Decode.kind? fields = some .group
  | _ => false

/-- The attributes that the record of an element lists; a group has none. -/
def declaredAttributes : Value → List Value
  | .map fields =>
    match Decode.kind? fields, Fields.get fields "attributes" with
    | some .element, .list items => items
    | _, _ => []
  | _ => []

/-- Is there a repeat in the record of a statement that is not null? -/
def hasRepeat : Value → Bool
  | .map fields =>
    match Fields.get fields "repeat" with
    | .null => false
    | _ => true
  | _ => false

/-- Is there a repeat in the record of a statement that says that it is implicit? -/
def hasImplicitRepeat : Value → Bool
  | .map fields =>
    match Fields.get fields "repeat" with
    | .map r => Decode.boolField r "implicit" = some true
    | _ => false
  | _ => false

end Value

namespace Decode.Reads

variable {p : Position} {fields : Fields} {s : Statement} (h : Reads p fields s)
include h

theorem isElementRecord_eq : (Value.map fields).isElementRecord = s.isElement := by
  cases s with
  | element head cs r => simp [Value.isElementRecord, Statement.isElement, h.head.1]
  | group cs r =>
    have hk : kind? fields = some .group := h.head
    simp [Value.isElementRecord, Statement.isElement, hk]

theorem isGroupRecord_eq : (Value.map fields).isGroupRecord = !s.isElement := by
  cases s with
  | element head cs r => simp [Value.isGroupRecord, Statement.isElement, h.head.1]
  | group cs r =>
    have hk : kind? fields = some .group := h.head
    simp [Value.isGroupRecord, Statement.isElement, hk]

theorem length_declaredAttributes : (Value.map fields).declaredAttributes.length = s.attributes.length := by
  cases s with
  | group cs r =>
    have hk : kind? fields = some .group := h.head
    rw [Value.declaredAttributes, hk]
    rfl
  | element head cs r =>
    obtain ⟨hk, -, -, hread⟩ := h.head
    rw [Value.declaredAttributes, hk, Statement.attributes]
    cases has : head.attributes with
    | none =>
      rw [has] at hread
      rw [attributeList_eq_ok_none hread]
      rfl
    | some as =>
      rw [has] at hread
      obtain ⟨items, hl, hi⟩ := attributeList_eq_ok hread
      rw [hl]
      exact (Checked.items_eq_ok hi).1.symm

theorem hasRepeat_eq : (Value.map fields).hasRepeat = s.repeater.isSome := by
  have hread := h.repeater
  cases hr : s.repeater with
  | none =>
    rw [hr] at hread
    rw [Value.hasRepeat, repeater_eq_ok_none hread]
    rfl
  | some r =>
    rw [hr] at hread
    obtain ⟨record, hm, -, -⟩ := repeater_eq_ok hread
    rw [Value.hasRepeat, hm]
    rfl

theorem hasImplicitRepeat_eq : (Value.map fields).hasImplicitRepeat = Lint.isImplicit s := by
  have hread := h.repeater
  cases hr : s.repeater with
  | none =>
    rw [hr] at hread
    rw [Value.hasImplicitRepeat, repeater_eq_ok_none hread, Lint.isImplicit, hr]
    rfl
  | some r =>
    rw [hr] at hread
    obtain ⟨record, hm, -, hb⟩ := repeater_eq_ok hread
    rw [Value.hasImplicitRepeat, hm, Lint.isImplicit, hr]
    simp [hb]

end Decode.Reads

/-! ### The counts of a document -/

/-- Lists whose items belong together in pairs have the same features, in order, if the pairs have. -/
theorem map_eq_of_forall₂ {α β γ : Type} {R : α → β → Prop} {f : α → γ} {g : β → γ} {xs : List α}
    {ys : List β} (h : List.Forall₂ R xs ys) (hfg : ∀ x y, R x y → f x = g y) : xs.map f = ys.map g := by
  induction h with
  | nil => rfl
  | cons hxy _ ih => rw [List.map_cons, List.map_cons, hfg _ _ hxy, ih]

theorem countP_eq_of_forall₂ {α β : Type} {R : α → β → Prop} {f : α → Bool} {g : β → Bool} {xs : List α}
    {ys : List β} (h : List.Forall₂ R xs ys) (hfg : ∀ x y, R x y → f x = g y) : xs.countP f = ys.countP g := by
  have hmap := congrArg (List.countP id) (map_eq_of_forall₂ h hfg)
  rw [List.countP_map, List.countP_map] at hmap
  exact hmap

/-- A feature of a statement is one of its record, if it is for all records that are read. -/
theorem Decode.ReadFrom.feature_eq {γ : Type} {f : Statement → γ} {g : Value → γ}
    (h : ∀ {p : Position} {fields : Fields} {s : Statement}, Reads p fields s → g (.map fields) = f s)
    (x : Position × Statement) (y : Position × Value) (hxy : ReadFrom x y) : f x.2 = g y.2 := by
  obtain ⟨fields, hm, hr⟩ := statement_eq_ok hxy.2
  rw [hm]
  exact (h hr).symm

namespace Document

open Decode

/-- **What the counts count** are the records of the document from which the tree is read. -/
theorem stats_eq_of_forall₂ {t : Tree} {records : List (Position × Value)}
    (h : List.Forall₂ ReadFrom t.walk records) :
    t.stats.elements = records.countP (·.2.isElementRecord) ∧
    t.stats.groups = records.countP (·.2.isGroupRecord) ∧
    t.stats.attributes = (records.map (·.2.declaredAttributes.length)).sum ∧
    t.stats.explicitRepeats + t.stats.implicitRepeats = records.countP (·.2.hasRepeat) ∧
    t.stats.implicitRepeats = records.countP (·.2.hasImplicitRepeat) := by
  rw [t.explicit_add_implicit, t.stats_eq]
  refine ⟨?_, ?_, congrArg List.sum ?_, ?_, ?_⟩
  · exact countP_eq_of_forall₂ h (ReadFrom.feature_eq Reads.isElementRecord_eq)
  · exact countP_eq_of_forall₂ h (ReadFrom.feature_eq Reads.isGroupRecord_eq)
  · exact map_eq_of_forall₂ h (ReadFrom.feature_eq (f := (·.attributes.length))
      (g := (·.declaredAttributes.length)) Reads.length_declaredAttributes)
  · exact countP_eq_of_forall₂ h (ReadFrom.feature_eq Reads.hasRepeat_eq)
  · exact countP_eq_of_forall₂ h (ReadFrom.feature_eq Reads.hasImplicitRepeat_eq)

end Document

end Shorthand
