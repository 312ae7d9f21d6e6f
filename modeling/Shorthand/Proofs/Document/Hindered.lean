import Shorthand.Proofs.Diagnostic.Order
import Shorthand.Proofs.Document.Grammar

/-!
# What hinders the check of a document

The check of a document breaks off where a fault cannot be reported.  Here is what that takes, told of the
data alone, and so which of three ways the check of any data ends in.

* `Grammar.Hinders`: what hinders the check of a statement;
* `Checked.Raises c P`: the faults of a check that cannot be reported are hindered in the ways that `P` says;
* `Decode.tokens_quiet`, `Decode.statement_raises`: the parts of a statement, and statements;
* `Document.validate_iff`: a document has a tree just if the grammar accepts it, and faults are reported
  otherwise, unless the check is hindered.
-/

namespace Shorthand

open Decode (Kind kind?)

/-! ### What hinders a check -/

namespace Grammar

/-- A repeater states a count below zero that is too long to be told. -/
def HasLongCount (v : Value) : Prop :=
  ∃ (fields : Fields) (i : Int), v = .map fields ∧ fields.get "count" = .int i ∧ i < 0 ∧ isWritable i = false

/-- What hinders the check of a statement: its own count, or one below it, or that there are statements
without end below it.  The count of a group is looked at if there is a list of elements. -/
inductive Hinders : Hindrance → Kind → Fields → Prop
  | ofElement {fields : Fields} (h : HasLongCount (fields.get "repeat")) : Hinders .longNumber .element fields
  | ofGroup {fields : Fields} {items : List Value} (elements : fields.get "elements" = .list items)
    (h : HasLongCount (fields.get "repeat")) : Hinders .longNumber .group fields
  | ofElements {kind : Kind} {fields : Fields} (elements : fields.get "elements" = .endless) :
    Hinders .endless kind fields
  | ofItem {kind : Kind} {fields : Fields} {items : List Value} (elements : fields.get "elements" = .list items)
    (h : .endless ∈ items) : Hinders .endless kind fields
  | ofChild {cause : Hindrance} {kind own : Kind} {fields child : Fields} {items : List Value}
    (elements : fields.get "elements" = .list items) (mem : .map child ∈ items) (type : kind? child = some own)
    (h : Hinders cause own child) : Hinders cause kind fields

/-- What hinders the check of a value in the place of a statement. -/
def HindersStatement (cause : Hindrance) (v : Value) : Prop :=
  v = .endless ∧ cause = .endless ∨ ∃ fields kind, v = .map fields ∧ kind? fields = some kind ∧ Hinders cause kind fields

/-- What hinders the check of a value in the place of the elements of a statement. -/
def HindersElements (cause : Hindrance) (v : Value) : Prop :=
  v = .endless ∧ cause = .endless ∨ ∃ items, v = .list items ∧ ∃ x ∈ items, HindersStatement cause x

/-- What hinders the check of the tree of a document, which is a group. -/
def HindersTree (cause : Hindrance) (v : Value) : Prop :=
  v = .endless ∧ cause = .endless ∨ ∃ fields, v = .map fields ∧ Hinders cause .group fields

section Hinders

variable {cause : Hindrance} {kind : Kind} {fields : Fields}

theorem Hinders.of_elements (h : HindersElements cause (fields.get "elements")) : Hinders cause kind fields := by
  obtain ⟨he, rfl⟩ | ⟨items, hl, x, hx, ⟨rfl, rfl⟩ | ⟨child, own, rfl, ht, hc⟩⟩ := h
  · exact .ofElements he
  · exact .ofItem hl hx
  · exact .ofChild hl hx ht hc

/-- What hinders is the count of the statement itself, or something in the place of its elements. -/
theorem Hinders.cases (h : Hinders cause kind fields) :
    HindersElements cause (fields.get "elements") ∨ cause = .longNumber ∧ HasLongCount (fields.get "repeat") ∧
      (kind = .group → ∃ items, fields.get "elements" = .list items) := by
  cases h with
  | ofElement h => exact .inr ⟨rfl, h, nofun⟩
  | ofGroup hl h => exact .inr ⟨rfl, h, fun _ => ⟨_, hl⟩⟩
  | ofElements he => exact .inl (.inl ⟨he, rfl⟩)
  | ofItem hl h => exact .inl (.inr ⟨_, hl, _, h, .inl ⟨rfl, rfl⟩⟩)
  | ofChild hl hm ht h => exact .inl (.inr ⟨_, hl, _, hm, .inr ⟨_, _, rfl, ht, h⟩⟩)

theorem hinders_element_iff : Hinders cause .element fields ↔
    HindersElements cause (fields.get "elements") ∨ cause = .longNumber ∧ HasLongCount (fields.get "repeat") := by
  constructor
  · intro h
    exact h.cases.imp_right fun ⟨hc, hl, _⟩ => ⟨hc, hl⟩
  · rintro (h | ⟨rfl, h⟩)
    · exact .of_elements h
    · exact .ofElement h

end Hinders

end Grammar

open Grammar

/-! ### Faults that cannot be reported -/

namespace Checked

variable {α β : Type}

/-- The faults of a check that cannot be reported are hindered in some ways, and in all of them. -/
def Raises (c : Checked α) (P : Hindrance → Prop) : Prop :=
  ∀ h, (∃ f ∈ c.faults, f.cause.hindrance? = some h) ↔ P h

/-- All faults of a check can be reported. -/
def Quiet (c : Checked α) : Prop := ∀ f ∈ c.faults, f.cause.hindrance? = none

section Quiet

variable {a : Checked α} {b : Checked β} {cause : Fault.Cause} {p : Position}

theorem Quiet.ok {x : α} : Checked.Quiet (.ok x) := nofun

theorem Quiet.fault (h : cause.hindrance? = none) : (Checked.fault cause p : Checked α).Quiet := fun f hf => by
  rw [List.mem_singleton.mp hf]
  exact h

theorem Quiet.demand {o : Option α} (h : cause.hindrance? = none) : (Decode.demand o cause p).Quiet := by
  cases o with
  | some x => exact .ok
  | none => exact .fault h

theorem Quiet.map {f : α → β} (h : a.Quiet) : Checked.Quiet (Except.map f a) := by
  unfold Quiet
  rw [faults_map]
  exact h

theorem Quiet.both (ha : a.Quiet) (hb : b.Quiet) : (Checked.both a b).Quiet := by
  intro f hf
  rw [faults_both] at hf
  exact (List.mem_append.mp hf).elim (ha f) (hb f)

theorem Quiet.bind {f : α → Checked β} (ha : a.Quiet) (hf : ∀ x, (f x).Quiet) : (a >>= f).Quiet := by
  cases a with
  | ok x => exact hf x
  | error fs => exact ha

theorem Quiet.items {check : Position → Value → Checked α} (h : ∀ q v, (check q v).Quiet) (vs : List Value) :
    (Checked.items check p vs).Quiet := by
  have hf : ∀ f : Nat → Value → Checked α, (∀ i v, (f i v).Quiet) → (Checked.all (vs.mapIdx f)).Quiet := by
    intro f hf
    induction vs generalizing f with
    | nil => exact .ok
    | cons v vs ih =>
      rw [List.mapIdx_cons, Checked.all]
      exact ((hf 0 v).both (ih (fun i => f (i + 1)) fun i => hf (i + 1))).map
  exact hf _ fun i => h (p.item i)

/-- A check whose faults can all be reported is hindered in those ways that there are not. -/
theorem Quiet.raises_of_not {P : Hindrance → Prop} (h : a.Quiet) (hn : ∀ cause, ¬ P cause) : a.Raises P := by
  intro cause
  refine iff_of_false ?_ (hn cause)
  rintro ⟨f, hf, hc⟩
  rw [h f hf] at hc
  cases hc

theorem Quiet.raises (h : a.Quiet) : a.Raises fun _ => False := h.raises_of_not fun _ => id

end Quiet

namespace Raises

variable {P Q : Hindrance → Prop} {a : Checked α} {b : Checked β} {cause : Fault.Cause} {p : Position}

theorem fault : (Checked.fault cause p : Checked α).Raises fun h => cause.hindrance? = some h := fun h => by
  simp [Checked.fault, faults]

theorem congr (ha : a.Raises P) (h : ∀ cause, P cause ↔ Q cause) : a.Raises Q := fun cause =>
  (ha cause).trans (h cause)

theorem map {f : α → β} (ha : a.Raises P) : Checked.Raises (Except.map f a) P := fun cause => by
  rw [faults_map]
  exact ha cause

theorem both (ha : a.Raises P) (hb : b.Raises Q) : (Checked.both a b).Raises fun h => P h ∨ Q h := fun cause => by
  dsimp only
  rw [faults_both, ← ha cause, ← hb cause]
  simp only [List.mem_append, or_and_right, exists_or]

/-- What is checked after the rest has passed hinders nothing. -/
theorem bind {f : α → Checked β} (ha : a.Raises P) (hf : ∀ x, (f x).Quiet) : (a >>= f).Raises P := by
  cases a with
  | ok x =>
    refine (hf x).raises_of_not fun cause h => ?_
    obtain ⟨f, hf, -⟩ := (ha cause).mpr h
    cases hf
  | error fs => exact ha

end Raises

end Checked

/-! ### Statements -/

namespace Decode

open Checked

variable (p : Position) (fields : Fields)

theorem tokenOfFields_quiet : (tokenOfFields p fields).Quiet := by
  unfold tokenOfFields
  split
  · unfold literal
    split
    · exact .ok
    · exact .fault rfl
  · exact .bind (.demand rfl) fun _ => .bind (.demand rfl) fun _ => .ok
  · unfold reference
    split
    · split
      · exact .fault rfl
      · exact .ok
    · exact .fault rfl
  · exact .bind (.demand rfl) fun _ => .ok
  · exact .bind (.demand rfl) fun _ => .bind (.demand rfl) fun _ => .ok
  · exact .bind (.demand rfl) fun _ => .bind (.demand rfl) fun _ => .bind (.demand rfl) fun _ =>
      .bind (.demand rfl) fun _ => .ok
  · exact .ok
  · exact .ok
  · exact .fault rfl

/-- Faults of tokens can be reported, whatever they are. -/
theorem tokens_quiet (v : Value) : (tokens p v).Quiet := by
  unfold tokens
  split
  · exact .ok
  · exact .ok
  · refine .map (.items (fun q v => ?_) _)
    unfold token
    split
    · exact .ok
    · exact tokenOfFields_quiet q _
    · exact .fault rfl
  · exact .fault rfl

theorem attributeList_quiet (v : Value) : (attributeList p v).Quiet := by
  unfold attributeList
  split
  · exact .ok
  · refine .map (.items (fun q v => ?_) _)
    unfold attributeRecord
    split
    · exact .map (.both (tokens_quiet _ _) (tokens_quiet _ _))
    · exact .fault rfl
  · exact .fault rfl

/-- The count of a repeater is told if it is below zero. -/
theorem count_raises : (count p fields).Raises fun cause =>
    cause = .longNumber ∧ ∃ i, fields.get "count" = .int i ∧ i < 0 ∧ isWritable i = false := by
  unfold count
  generalize fields.get "count" = v
  split
  · refine Quiet.ok.raises_of_not fun cause => ?_
    rintro ⟨-, i, hi, -⟩
    cases hi
  · next i =>
    split
    · next hneg =>
      refine Raises.fault.congr fun cause => ?_
      have hcause : (Fault.Cause.countNegative i).hindrance? = Hindrance.ofInt? i := by
        rw [Fault.Cause.hindrance?]
      rw [hcause, Hindrance.ofInt?_eq_some]
      refine and_congr_right fun _ => ⟨fun hw => ⟨i, rfl, hneg, hw⟩, ?_⟩
      rintro ⟨j, hj, -, hw⟩
      cases hj
      exact hw
    · next hneg =>
      refine Quiet.ok.raises_of_not fun cause => ?_
      rintro ⟨-, j, hj, hlt, -⟩
      cases hj
      exact hneg hlt
  · next hi =>
    refine (Quiet.fault rfl).raises_of_not fun cause => ?_
    rintro ⟨-, i, he, -⟩
    exact hi i he

theorem repeater_raises (v : Value) :
    (repeater p v).Raises fun cause => cause = .longNumber ∧ HasLongCount v := by
  unfold repeater HasLongCount
  split
  · refine Quiet.ok.raises_of_not fun cause => ?_
    rintro ⟨-, own, i, he, -⟩
    cases he
  · next own =>
    refine Raises.congr (.bind (count_raises p own) fun _ => .bind (.demand rfl) fun _ =>
      .bind (.demand rfl) fun _ => .ok) fun cause => and_congr_right fun _ => ⟨?_, ?_⟩
    · rintro ⟨i, h⟩
      exact ⟨own, i, rfl, h⟩
    · rintro ⟨other, i, he, h⟩
      cases he
      exact ⟨i, h⟩
  · next hm =>
    refine (Quiet.fault rfl).raises_of_not fun cause => ?_
    rintro ⟨-, own, i, he, -⟩
    exact hm own he

/-- What is found in the place of a list of statements hinders a check if what stands there does. -/
def ListField.Raises (c : ListField (Checked (List Statement))) (v : Value) : Prop :=
  match c with
  | .missing => v = .null
  | .other => v ≠ .endless ∧ ∀ items, v ≠ .list items
  | .list children => (∃ items, v = .list items) ∧ children.Raises (HindersElements · v)
  | .endless => v = .endless

variable {p fields}

theorem elementChildren_raises {c : ListField (Checked (List Statement))} {v : Value} (h : c.Raises v) :
    (elementChildren p c).Raises (HindersElements · v) := by
  cases c with
  | missing =>
    rw [show v = .null from h]
    refine Quiet.ok.raises_of_not fun cause => ?_
    rintro (⟨he, -⟩ | ⟨items, hl, -⟩)
    · cases he
    · cases hl
  | other =>
    refine (Quiet.fault rfl).raises_of_not fun cause => ?_
    rintro (⟨he, -⟩ | ⟨items, hl, -⟩)
    · exact h.1 he
    · exact h.2 items hl
  | list children => exact h.2
  | endless =>
    rw [show v = .endless from h]
    refine Raises.fault.congr fun cause => ⟨fun hc => ?_, ?_⟩
    · cases hc
      exact .inl ⟨rfl, rfl⟩
    · rintro (⟨-, rfl⟩ | ⟨items, hl, -⟩)
      · rfl
      · cases hl

theorem elementOf_raises {children : Checked (List Statement)}
    (h : children.Raises (HindersElements · (fields.get "elements"))) :
    (elementOf p fields children).Raises (Hinders · .element fields) := by
  unfold elementOf
  have hself : (demand (boolField fields "self_close") .selfCloseNotBool (p.field "self_close")).Quiet :=
    .demand rfl
  have parts := (tokens_quiet (p.field "name") (fields.get "name")).raises.both
    ((tokens_quiet (p.field "value") (fields.get "value")).raises.both
      ((attributeList_quiet (p.field "attributes") (fields.get "attributes")).raises.both
        (h.both (hself.raises.both (repeater_raises (p.field "repeat") (fields.get "repeat"))))))
  refine parts.map.congr fun cause => ?_
  rw [hinders_element_iff]
  simp only [false_or]

theorem groupOf_raises {c : ListField (Checked (List Statement))} (h : c.Raises (fields.get "elements")) :
    (groupOf p fields c).Raises (Hinders · .group fields) := by
  -- without a list of elements the count of the group is not looked at
  have hnone {cause : Hindrance} (hne : fields.get "elements" ≠ .endless)
      (hl : ∀ items, fields.get "elements" ≠ .list items) : ¬ Hinders cause .group fields := fun hh => by
    obtain (⟨he, -⟩ | ⟨items, hi, -⟩) | ⟨-, -, hlist⟩ := hh.cases
    · exact hne he
    · exact hl items hi
    · obtain ⟨items, hi⟩ := hlist rfl
      exact hl items hi
  cases c with
  | missing =>
    have hv : fields.get "elements" = .null := h
    exact (Quiet.fault rfl).raises_of_not fun cause => hnone (by simp [hv]) (by simp [hv])
  | other => exact (Quiet.fault rfl).raises_of_not fun cause => hnone h.1 h.2
  | list children =>
    obtain ⟨⟨items, hl⟩, hc⟩ := h
    refine ((repeater_raises _ _).both hc).map.congr fun cause => ⟨?_, fun hh => ?_⟩
    · rintro (⟨rfl, hcount⟩ | he)
      · exact .ofGroup hl hcount
      · exact .of_elements he
    · exact hh.cases.symm.imp_left fun ⟨hc, hcount, _⟩ => ⟨hc, hcount⟩
  | endless =>
    have hv : fields.get "elements" = .endless := h
    refine Raises.fault.congr fun cause => ⟨fun hc => ?_, fun hh => ?_⟩
    · cases hc
      exact .ofElements hv
    · obtain (⟨-, rfl⟩ | ⟨items, hi, -⟩) | ⟨-, -, hlist⟩ := hh.cases
      · rfl
      · rw [hv] at hi
        cases hi
      · obtain ⟨items, hi⟩ := hlist rfl
        rw [hv] at hi
        cases hi

mutual

/-- **The check of a statement is hindered** just by what its data says. -/
theorem statement_raises : ∀ (v : Value) (p : Position), (statement p v).Raises (HindersStatement · v)
  | .map fields, p => by
    have hc := childrenField_raises fields (p.field "elements")
    have hmap {kind : Option Kind} {cause : Hindrance} (hk : kind? fields = kind) :
        HindersStatement cause (.map fields) ↔ ∃ k, kind = some k ∧ Hinders cause k fields := by
      constructor
      · rintro (⟨he, -⟩ | ⟨own, k, he, ht, hh⟩)
        · cases he
        · cases he
          exact ⟨k, by rw [← hk, ht], hh⟩
      · rintro ⟨k, ht, hh⟩
        exact .inr ⟨fields, k, rfl, hk.trans ht, hh⟩
    rw [statement]
    dsimp only
    split
    · next hk =>
      refine (Quiet.fault rfl).raises.congr fun cause => ?_
      rw [hmap hk]
      simp
    · next hk =>
      refine (elementOf_raises (elementChildren_raises hc)).congr fun cause => ?_
      rw [hmap hk]
      simp
    · next hk =>
      refine (groupOf_raises hc).map.congr fun cause => ?_
      rw [hmap hk]
      simp
  | .endless, p => by
    refine Raises.fault.congr fun cause => ⟨fun hc => ?_, ?_⟩
    · cases hc
      exact .inl ⟨rfl, rfl⟩
    · rintro (⟨-, rfl⟩ | ⟨fields, k, he, -⟩)
      · rfl
      · cases he
  | .null, p | .bool _, p | .int _, p | .float _, p | .string _, p | .moment _, p | .bytes _, p
  | .list _, p | .set _, p | .pair _ _, p => by
    refine (Quiet.fault rfl).raises_of_not fun cause => ?_
    rintro (⟨he, -⟩ | ⟨fields, k, he, -⟩) <;> cases he

theorem childrenField_raises : ∀ (fields : Fields) (p : Position),
    (childrenField p fields).Raises (fields.get "elements")
  | [], _ => rfl
  | (key, value) :: rest, p => by
    rw [childrenField, Fields.get_cons]
    split
    · exact children_raises value p
    · exact childrenField_raises rest p

theorem children_raises : ∀ (v : Value) (p : Position), (children p v).Raises v
  | .null, _ => rfl
  | .endless, _ => rfl
  | .list items, p => by
    refine ⟨⟨items, rfl⟩, (statements_raises items p 0).congr fun cause => ⟨fun h => .inr ⟨items, rfl, h⟩, ?_⟩⟩
    rintro (⟨he, -⟩ | ⟨others, hl, h⟩)
    · cases he
    · cases hl
      exact h
  | .bool _, _ | .int _, _ | .float _, _ | .string _, _ | .moment _, _ | .bytes _, _ | .map _, _
  | .set _, _ | .pair _ _, _ => ⟨nofun, nofun⟩

theorem statements_raises : ∀ (vs : List Value) (p : Position) (i : Nat),
    (statements p i vs).Raises fun cause => ∃ v ∈ vs, HindersStatement cause v
  | [], _, _ => Quiet.ok.raises_of_not (by simp)
  | v :: rest, p, i => by
    rw [statements]
    refine ((statement_raises v _).both (statements_raises rest p (i + 1))).map.congr fun cause => ?_
    simp

end

end Decode

/-! ### Documents -/

namespace Document

open Checked

variable (d : Document)

theorem checked_raises : d.checked.Raises (HindersTree · d.tree) := by
  have hversion : d.checkVersion.Quiet := by
    unfold checkVersion
    split
    · split
      · exact .fault rfl
      · exact .ok
    · exact .fault rfl
  have habbreviation : d.checkAbbreviation.Quiet := by
    unfold checkAbbreviation
    split
    · exact .ok
    · exact .ok
    · exact .fault rfl
  have htree : d.checkTree.Raises (HindersTree · d.tree) := by
    unfold checkTree HindersTree
    split
    · next fields ht =>
      refine (Decode.groupOf_raises (Decode.childrenField_raises fields _)).map.congr fun cause => ?_
      rw [ht]
      simp
    · next he =>
      refine Raises.fault.congr fun cause => ?_
      rw [he]
      simp [Fault.Cause.hindrance?, eq_comm]
    · next hm he =>
      refine (Quiet.fault rfl).raises_of_not fun cause => ?_
      rintro (⟨ht, -⟩ | ⟨fields, ht, -⟩)
      · exact he ht
      · exact hm fields ht
  refine (hversion.raises.both (habbreviation.raises.both htree)).map.congr fun cause => ?_
  simp

/-- The check of a document breaks off just if something hinders it, and for a reason that does. -/
theorem validate_hindered :
    (∀ cause, d.validate = .error (.hindered cause) → HindersTree cause d.tree) ∧
      ((∃ cause, d.validate = .error (.hindered cause)) ↔ ∃ cause, HindersTree cause d.tree) := by
  have hcause (cause : Hindrance) (h : d.validate = .error (.hindered cause)) : HindersTree cause d.tree := by
    obtain ⟨faults, hc, hr⟩ := d.validate_eq_error.mp h
    refine (d.checked_raises cause).mp ?_
    rw [hc]
    exact Rejection.exists_of_ofFaults_eq_hindered hr
  refine ⟨hcause, fun ⟨cause, h⟩ => ⟨cause, hcause cause h⟩, ?_⟩
  rintro ⟨cause, h⟩
  obtain ⟨f, hf, hh⟩ := (d.checked_raises cause).mpr h
  cases hc : d.checked with
  | ok x =>
    rw [hc] at hf
    cases hf
  | error faults =>
    rw [hc] at hf
    cases hr : Rejection.ofFaults d.file faults with
    | hindered other => exact ⟨other, d.validate_eq_error.mpr ⟨faults, hc, hr⟩⟩
    | faulty reports =>
      unfold Rejection.ofFaults at hr
      split at hr
      · cases hr
      · next hnone =>
        rw [List.findSome?_eq_none_iff.mp hnone f hf] at hh
        cases hh

/-- Faults are reported about a document that is not well formed, unless something hinders its check. -/
theorem validate_faulty :
    (∃ report reports, d.validate = .error (.faulty (report :: reports))) ↔
      ¬ d.WellFormed ∧ ∀ cause, ¬ HindersTree cause d.tree := by
  constructor
  · rintro ⟨report, reports, h⟩
    refine ⟨not_wellFormed_of_validate h, fun cause hh => ?_⟩
    obtain ⟨other, ho⟩ := d.validate_hindered.2.mpr ⟨cause, hh⟩
    rw [h] at ho
    cases ho
  · rintro ⟨hnot, hfree⟩
    have hm := d.checked_meets
    cases hc : d.checked with
    | ok x =>
      rw [hc] at hm
      exact absurd hm.1 hnot
    | error faults =>
      rw [hc] at hm
      -- a check that nothing hinders has faults that can all be reported
      have hquiet : ∀ f ∈ faults, f.cause.hindrance? = none := by
        intro f hf
        rw [Option.eq_none_iff_forall_ne_some]
        intro cause hh
        refine hfree cause ((d.checked_raises cause).mp ⟨f, ?_, hh⟩)
        rw [hc]
        exact hf
      have hne : Diagnostic.sort (faults.map (Fault.diagnostic d.file)) ≠ [] :=
        Diagnostic.sort_ne_nil (List.map_eq_nil_iff.not.mpr hm.2)
      obtain ⟨report, reports, he⟩ := List.exists_cons_of_ne_nil hne
      refine ⟨report, reports, d.validate_eq_error.mpr ⟨faults, hc, ?_⟩⟩
      rw [Rejection.ofFaults_eq_faulty hquiet, he]

theorem validate_eq_ok_iff : (∃ t, d.validate = .ok t) ↔ d.WellFormed := by
  constructor
  · rintro ⟨t, h⟩
    exact (wellFormed_of_validate h).1
  · intro h
    cases hv : d.validate with
    | ok t => exact ⟨t, rfl⟩
    | error rejection => exact absurd h (not_wellFormed_of_validate hv)

/-- **Validation accepts the grammar.**  A document has a tree if the grammar accepts it, and only then.
At least one fault is reported about any other document, as long as no count below zero that is looked at
is too long to be told, and no statements without end.  Where there are such, and only there, the check
breaks off, and it does so for one of them. -/
theorem validate_iff (fields : Fields) (file : Option String) :
    let outcome := (ofFields fields file).validate
    ((∃ t, outcome = .ok t) ↔ IsDocument fields) ∧
      ((∃ report reports, outcome = .error (.faulty (report :: reports))) ↔
        ¬ IsDocument fields ∧ ∀ cause, ¬ HindersTree cause (fields.get "tree")) ∧
      ((∃ cause, outcome = .error (.hindered cause)) ↔ ∃ cause, HindersTree cause (fields.get "tree")) ∧
      (∀ cause, outcome = .error (.hindered cause) → HindersTree cause (fields.get "tree")) ∧
      outcome ≠ .error (.faulty []) := by
  intro outcome
  rw [← wellFormed_ofFields fields file]
  have hok := (ofFields fields file).validate_eq_ok_iff
  have hfaulty := (ofFields fields file).validate_faulty
  obtain ⟨hcause, hhindered⟩ := (ofFields fields file).validate_hindered
  refine ⟨hok, hfaulty, hhindered, hcause, fun hnil => ?_⟩
  have hfree (cause : Hindrance) : ¬ HindersTree cause (fields.get "tree") := fun hh => by
    obtain ⟨other, ho⟩ := hhindered.mpr ⟨cause, hh⟩
    cases hnil.symm.trans ho
  obtain ⟨report, reports, h⟩ := hfaulty.mpr ⟨not_wellFormed_of_validate hnil, hfree⟩
  cases hnil.symm.trans h

end Document

end Shorthand
