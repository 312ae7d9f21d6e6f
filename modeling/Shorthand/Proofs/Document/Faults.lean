import Shorthand.Proofs.Document.Grammar
import Shorthand.Proofs.Document.Located
import Shorthand.Proofs.Position.Region

/-!
# Where the faults of a document stand

Each fault that is found in a document stands at a place of its own, and what stands there, or that
nothing does, is what the rule forbids.

* `Fault.Cause.Refuses`: what a rule forbids at its position;
* `Value.IsPlace`, `Fault.StandsIn`: places of a document, and faults that stand at them;
* `Checked.Finds document region c`: the faults of a check stand in the document, all at different
  positions in the region;
* `Decode.statement_finds`, `Document.checked_finds`: this is so of all checks.
-/

namespace Shorthand

/-! ### What rules forbid -/

namespace Value

def IsMap (v : Value) : Prop := ∃ fields, v = .map fields

def IsList (v : Value) : Prop := ∃ items, v = .list items

end Value

namespace Fault.Cause

/-- The types of tokens, by the names that they have in a document. -/
def tokenTypes : List String :=
  ["bracket", "field", "literal", "quote", "repeater_number", "repeater_placeholder", "variable",
    "whitespace"]

/-- What a rule allows to stand at its position. -/
def Accepts (v : Value) : Cause → Prop
  | .versionMissing | .variableMissing => v.IsWritten
  | .abbreviationNotText => v = .null ∨ v.IsText
  | .treeMissing | .statementNotMap | .attributeNotMap => v.IsMap
  | .statementEndless => v ≠ .endless
  | .repeatNotMap => v = .null ∨ v.IsMap
  | .groupElementsMissing => v.IsList
  | .attributesNotList | .elementsNotList => v = .null ∨ v.IsList
  | .unknownStatement => v = .string "element" ∨ v = .string "group"
  | .countNotInt | .fieldIndexNotInt => v = .null ∨ v.IsInt
  | .countNegative count => v = .int count → 0 ≤ count
  | .valueNotInt | .baseNotInt => v.IsInt
  | .selfCloseNotBool | .implicitNotBool | .singleNotBool | .openMissing | .reverseNotBool => v.IsBool
  | .tokensNotList => v = .null ∨ v.IsText ∨ v.IsList
  | .tokenNotMap => v.IsText ∨ v.IsMap
  | .unknownToken => ∃ type ∈ tokenTypes, v = .string type
  | .literalMissing | .fieldNameNotText => v.IsText
  | .unknownContext => v = .string "attribute" ∨ v = .string "expression" ∨ v = .string "group"
  | .sizeNotPositive => v.IsIntFrom 1
  | .parentNegative => v.IsIntFrom 0

/-- Does a rule ask that something stands at its position? -/
def demands : Cause → Bool
  | .versionMissing | .treeMissing | .groupElementsMissing | .unknownToken | .literalMissing
  | .variableMissing | .unknownContext | .openMissing => true
  | _ => false

/-- What stands at its position breaks a rule, or nothing stands there though the rule asks for it. -/
def Refuses (cause : Cause) : Option Value → Prop
  | none => cause.demands
  | some v => ¬ cause.Accepts v

variable {cause : Cause} {fields : Fields} {name : String} {kind : Value → Prop}

/-- A value that is forbidden, and that stands for one that is missing just if that one is forbidden. -/
theorem refuses_of_get (h : ¬ cause.Accepts (fields.get name)) (hn : cause.demands ∨ cause.Accepts .null) :
    cause.Refuses (fields.get? name) := by
  unfold Fields.get at h
  cases hv : fields.get? name with
  | some v =>
    rw [hv] at h
    exact h
  | none =>
    rw [hv] at h
    exact hn.resolve_right h

theorem refuses_of_optional (h : ¬ fields.Optional name kind) (ha : ∀ v, cause.Accepts v → kind v) :
    cause.Refuses (fields.get? name) := by
  unfold Fields.Optional at h
  cases hv : fields.get? name with
  | some v =>
    rw [hv] at h
    intro hc
    refine h fun w hw => ?_
    cases hw
    exact ha v hc
  | none =>
    rw [hv] at h
    exact absurd nofun h

end Fault.Cause

/-! ### Places -/

namespace Value

/-- May a step lead into a value?  It leads into the entries of a map, or to the items of a list. -/
def Opens : Step → Value → Prop
  | .field _, .map _ => True
  | .item _, .list _ => True
  | _, _ => False

/-- All steps of a position but the last one lead to something, into which the last one may lead. -/
def IsPlace (document : Value) (q : Position) : Prop :=
  ∃ p step v, q = p ++ [step] ∧ document.at? p = some v ∧ v.Opens step

/-- A value stands at a position, and the names on the way are plain. -/
structure Has (document : Value) (p : Position) (v : Value) : Prop where
  plain : p.Plain
  at? : document.at? p = some v

end Value

/-- A fault stands at a place of a document, where the rule is broken. -/
structure Fault.StandsIn (document : Value) (f : Fault) : Prop where
  plain : f.position.Plain
  place : document.IsPlace f.position
  refused : f.cause.Refuses (document.at? f.position)

section Has

variable {document v : Value} {p : Position} {fields : Fields} {items : List Value} {name : String} {i : Nat}

theorem Value.Has.field (h : document.Has p (.map fields)) (hn : Position.IsPlain name)
    (hv : fields.get? name = some v) : document.Has (p.field name) v :=
  ⟨h.plain.field hn, (Value.at?_field h.at? name).trans hv⟩

theorem Value.Has.item (h : document.Has p (.list items)) (hv : items[i]? = some v) :
    document.Has (p.item i) v :=
  ⟨h.plain.item i, (Value.at?_item h.at? i).trans hv⟩

theorem Value.Has.isPlace_field (h : document.Has p (.map fields)) (name : String) :
    document.IsPlace (p.field name) :=
  ⟨p, .field name, .map fields, rfl, h.at?, trivial⟩

theorem Value.Has.isPlace_item (h : document.Has p (.list items)) (i : Nat) : document.IsPlace (p.item i) :=
  ⟨p, .item i, .list items, rfl, h.at?, trivial⟩

theorem Fault.standsIn_field {cause : Cause} (h : document.Has p (.map fields)) (hn : Position.IsPlain name)
    (hr : cause.Refuses (fields.get? name)) : StandsIn document ⟨cause, p.field name⟩ where
  plain := h.plain.field hn
  place := h.isPlace_field name
  refused := by rwa [Value.at?_field h.at? name]

theorem Fault.standsIn_of_has {cause : Cause} (h : document.Has p v) (hp : document.IsPlace p)
    (hr : ¬ cause.Accepts v) : StandsIn document ⟨cause, p⟩ where
  plain := h.plain
  place := hp
  refused := by rw [h.at?]; exact hr

end Has

/-! ### Faults that are found -/

namespace Checked

/-- The faults that a check finds stand in a document, in a region, and no two of them at one position. -/
structure Finds {α : Type} (document : Value) (region : Position → Prop) (c : Checked α) : Prop where
  stands : ∀ f ∈ c.faults, f.StandsIn document
  fills : Position.Fills region (c.faults.map (·.position))

namespace Finds

variable {α β : Type} {document : Value} {region other : Position → Prop} {a : Checked α} {b : Checked β}
  {p : Position} {fields : Fields} {names others : List String} {name : String} {cause : Fault.Cause}

theorem ok {x : α} : Checked.Finds document region (.ok x) := ⟨nofun, .nil⟩

theorem fault (h : Fault.StandsIn document ⟨cause, p⟩) (hp : region p) :
    (Checked.fault cause p : Checked α).Finds document region :=
  ⟨fun f hf => by rwa [List.mem_singleton.mp hf], .singleton hp⟩

theorem mono (h : a.Finds document region) (hr : ∀ q, region q → other q) : a.Finds document other :=
  ⟨h.stands, h.fills.mono hr⟩

theorem field (h : a.Finds document (p.field name <+: ·)) : a.Finds document (p.Under [name]) :=
  ⟨h.stands, h.fills.field⟩

theorem of_field (h : a.Finds document (p.field name <+: ·)) : a.Finds document (p <+: ·) :=
  h.mono fun _ => Position.prefix_of_field

theorem map {f : α → β} (h : a.Finds document region) : Checked.Finds document region (Except.map f a) := by
  cases a with
  | ok x => exact ok
  | error fs => exact ⟨h.stands, h.fills⟩

/-- A check that is made only if the one before it finds nothing. -/
theorem bind {f : α → Checked β} (h : a.Finds document region) (hf : ∀ x, (f x).Finds document region) :
    (a >>= f).Finds document region := by
  cases a with
  | ok x => exact hf x
  | error fs => exact ⟨h.stands, h.fills⟩

theorem bind_pure {f : α → β} (h : a.Finds document region) :
    (a >>= fun x => pure (f x)).Finds document region :=
  h.bind fun _ => ok

theorem both (h : a.Finds document (p.Under names)) (h' : b.Finds document (p.Under others))
    (hd : names.Disjoint others) : (Checked.both a b).Finds document (p.Under (names ++ others)) := by
  constructor
  · intro f hf
    rw [faults_both] at hf
    exact (List.mem_append.mp hf).elim (h.stands f) (h'.stands f)
  · rw [faults_both, List.map_append]
    exact h.fills.under_append h'.fills hd

theorem cons {as : Checked (List α)} {k : Nat} (h : a.Finds document (p.item k <+: ·))
    (h' : as.Finds document (p.UnderItems (k + 1))) :
    (Checked.cons a as).Finds document (p.UnderItems k) := by
  constructor
  · intro f hf
    rw [faults_cons] at hf
    exact (List.mem_append.mp hf).elim (h.stands f) (h'.stands f)
  · rw [faults_cons, List.map_append]
    exact h.fills.items_append h'.fills

theorem items {check : Position → Value → Checked α} {vs : List Value}
    (h : ∀ i v, vs[i]? = some v → (check (p.item i) v).Finds document (p.item i <+: ·)) :
    (Checked.items check p vs).Finds document (p.UnderItems 0) := by
  have hf : ∀ (k : Nat) (f : Nat → Value → Checked α),
      (∀ i v, vs[i]? = some v → (f i v).Finds document (p.item (k + i) <+: ·)) →
      (Checked.all (vs.mapIdx f)).Finds document (p.UnderItems k) := by
    clear h
    induction vs with
    | nil => exact fun _ _ _ => ok
    | cons v vs ih =>
      intro k f h
      rw [List.mapIdx_cons, Checked.all]
      refine (h 0 v rfl).cons (ih (k + 1) (fun i => f (i + 1)) fun i w hw => ?_)
      rw [Nat.add_right_comm]
      exact h (i + 1) w hw
  refine hf 0 _ fun i v hv => ?_
  rw [Nat.zero_add]
  exact h i v hv

/-- An entry of a map that is there though it is forbidden, or is not there though it is asked for. -/
theorem fault_field (h : document.Has p (.map fields)) (hn : Position.IsPlain name)
    (hr : cause.Refuses (fields.get? name)) :
    (Checked.fault cause (p.field name) : Checked α).Finds document (p.field name <+: ·) :=
  fault (Fault.standsIn_field h hn hr) (List.prefix_refl _)

theorem fault_get (h : document.Has p (.map fields)) (hn : Position.IsPlain name)
    (ha : ¬ cause.Accepts (fields.get name)) (hd : cause.demands ∨ cause.Accepts .null) :
    (Checked.fault cause (p.field name) : Checked α).Finds document (p.field name <+: ·) :=
  fault_field h hn (Fault.Cause.refuses_of_get ha hd)

theorem demand {o : Option α} {P : Prop} (h : document.Has p (.map fields)) (hn : Position.IsPlain name)
    (ho : o.isSome ↔ P) (hr : ¬ P → cause.Refuses (fields.get? name)) :
    (Decode.demand o cause (p.field name)).Finds document (p.field name <+: ·) := by
  cases o with
  | some x => exact ok
  | none =>
    have hP : ¬ P := fun hP => Bool.false_ne_true (ho.mpr hP)
    exact fault_field h hn (hr hP)

theorem optional {o : Option α} {kind : Value → Prop} (h : document.Has p (.map fields))
    (hn : Position.IsPlain name) (ho : o.isSome ↔ fields.Optional name kind)
    (ha : ∀ v, cause.Accepts v → kind v) :
    (Decode.demand o cause (p.field name)).Finds document (p.field name <+: ·) :=
  demand h hn ho fun hP => Fault.Cause.refuses_of_optional hP ha

end Finds

end Checked

/-! ### Tokens and repeaters -/

namespace Decode

open Checked Fault.Cause

variable {document v : Value} {p : Position} {fields : Fields} {name : String}

theorem literal_finds (h : document.Has p (.map fields)) :
    (literal p fields).Finds document (p.field "value" <+: ·) := by
  unfold literal
  split
  · exact .ok
  · next hs =>
    refine .fault_get h (by decide) ?_ (.inl rfl)
    exact fun ⟨s, he⟩ => hs s he

theorem field_finds (h : document.Has p (.map fields)) : (field p fields).Finds document (p <+: ·) := by
  unfold field
  have hindex : (demand (fieldIndex fields) .fieldIndexNotInt (p.field "index")).Finds document _ :=
    .demand h (by decide) isSome_fieldIndex fun hn => refuses_of_get hn (.inr (.inl rfl))
  refine hindex.of_field.bind fun index => .bind_pure ?_
  exact (Finds.optional h (by decide) isSome_fieldName fun _ => id).of_field

theorem reference_finds (h : document.Has p (.map fields)) :
    (reference p fields).Finds document (p.field "name" <+: ·) := by
  have hfault (hw : ¬ (fields.get "name").IsWritten) :
      (Checked.fault .variableMissing (p.field "name") : Checked Token).Finds document
        (p.field "name" <+: ·) :=
    .fault_get h (by decide) hw (.inl rfl)
  unfold reference
  split
  · next s hs =>
    split
    · next hb =>
      refine hfault ?_
      rw [hs, Value.isWritten_string, hb]
      exact Bool.noConfusion
    · exact .ok
  · next hs => exact hfault fun ⟨s, he, _⟩ => hs s he

theorem quote_finds (h : document.Has p (.map fields)) : (quote p fields).Finds document (p <+: ·) := by
  unfold quote
  exact .bind_pure (Finds.optional h (by decide) isSome_boolField fun _ => id).of_field

theorem bracket_finds (h : document.Has p (.map fields)) : (bracket p fields).Finds document (p <+: ·) := by
  unfold bracket
  have hcontext : (demand (context? (fields.get "context")) .unknownContext (p.field "context")).Finds
      document _ :=
    .demand h (by decide) isSome_context? fun hn => refuses_of_get hn (.inl rfl)
  have hopen : (demand (opening? (fields.get "open")) .openMissing (p.field "open")).Finds document _ :=
    .demand h (by decide) isSome_opening? fun hn => refuses_of_get hn (.inl rfl)
  exact hcontext.of_field.bind fun context => .bind_pure hopen.of_field

theorem number_finds (h : document.Has p (.map fields)) : (number p fields).Finds document (p <+: ·) := by
  unfold number
  have hsize : (demand (natField fields "size" 1 1) .sizeNotPositive (p.field "size")).Finds document _ :=
    .optional h (by decide) (isSome_natField (Nat.le_refl 1)) fun _ => id
  have hreverse : (demand (boolField fields "reverse") .reverseNotBool (p.field "reverse")).Finds document _ :=
    .optional h (by decide) isSome_boolField fun _ => id
  have hbase : (demand (intField fields "base" 1) .baseNotInt (p.field "base")).Finds document _ :=
    .optional h (by decide) isSome_intField fun _ => id
  have hparent : (demand (natField fields "parent" 0 0) .parentNegative (p.field "parent")).Finds document _ :=
    .optional h (by decide) (isSome_natField (Nat.le_refl 0)) fun _ => id
  exact hsize.of_field.bind fun size => hreverse.of_field.bind fun reverse =>
    hbase.of_field.bind fun base => .bind_pure hparent.of_field

theorem tokenOfFields_finds (h : document.Has p (.map fields)) :
    (tokenOfFields p fields).Finds document (p <+: ·) := by
  unfold tokenOfFields
  split
  · exact (literal_finds h).of_field
  · exact field_finds h
  · exact (reference_finds h).of_field
  · exact quote_finds h
  · exact bracket_finds h
  · exact number_finds h
  · exact .ok
  · exact .ok
  · refine .of_field (.fault_get h (by decide) ?_ (.inl rfl))
    rintro ⟨type, ht, he⟩
    simp only [tokenTypes, List.mem_cons, List.not_mem_nil, or_false] at ht
    rcases ht with rfl | rfl | rfl | rfl | rfl | rfl | rfl | rfl <;> contradiction

theorem token_finds (h : document.Has p v) (hp : document.IsPlace p) :
    (token p v).Finds document (p <+: ·) := by
  unfold token
  split
  · exact .ok
  · exact tokenOfFields_finds h
  · next hs hm =>
    refine .fault (Fault.standsIn_of_has h hp ?_) (List.prefix_refl p)
    rintro (⟨s, he⟩ | ⟨fields, he⟩)
    · exact hs s he
    · exact hm fields he

theorem tokens_finds (h : document.Has p (.map fields)) (name : String) (hn : Position.IsPlain name) :
    (tokens (p.field name) (fields.get name)).Finds document (p.field name <+: ·) := by
  unfold tokens
  split
  · exact .ok
  · exact .ok
  · next items hl =>
    have hlist := h.field hn (Fields.get?_of_get hl (by simp))
    refine .map (Finds.mono (Finds.items fun i v hv => ?_) fun q => Position.UnderItems.prefix)
    exact token_finds (hlist.item hv) (hlist.isPlace_item i)
  · next hnull hs hl =>
    refine .fault_get h hn ?_ (.inr (.inl rfl))
    rintro (he | ⟨s, he⟩ | ⟨items, he⟩)
    · exact hnull he
    · exact hs s he
    · exact hl items he

theorem count_finds (h : document.Has p (.map fields)) :
    (count p fields).Finds document (p.field "count" <+: ·) := by
  unfold count
  split
  · exact .ok
  · next i hi =>
    split
    · next hneg =>
      refine .fault_field h (by decide) ?_
      rw [Fields.get?_of_get hi (by simp)]
      exact fun hc => absurd (hc rfl) (Int.not_le.mpr hneg)
    · exact .ok
  · next hnull hi =>
    refine .fault_get h (by decide) ?_ (.inr (.inl rfl))
    rintro (he | ⟨i, he⟩)
    · exact hnull he
    · exact hi i he

theorem repeater_finds (h : document.Has p (.map fields)) :
    (repeater (p.field "repeat") (fields.get "repeat")).Finds document (p.field "repeat" <+: ·) := by
  unfold repeater
  split
  · exact .ok
  · next own hm =>
    have hown := h.field (by decide) (Fields.get?_of_get hm (by simp))
    have hvalue : (demand (intField own "value" 0) .valueNotInt ((p.field "repeat").field "value")).Finds
        document _ := .optional hown (by decide) isSome_intField fun _ => id
    have himplicit : (demand (boolField own "implicit") .implicitNotBool
        ((p.field "repeat").field "implicit")).Finds document _ :=
      .optional hown (by decide) isSome_boolField fun _ => id
    exact (count_finds hown).of_field.bind fun count => hvalue.of_field.bind fun value =>
      .bind_pure himplicit.of_field
  · next hnull hm =>
    refine .fault_get h (by decide) ?_ (.inr (.inl rfl))
    rintro (he | ⟨own, he⟩)
    · exact hnull he
    · exact hm own he

/-! ### Attributes -/

theorem attributeRecord_finds (h : document.Has p v) (hp : document.IsPlace p) :
    (attributeRecord p v).Finds document (p <+: ·) := by
  unfold attributeRecord
  split
  · next fields =>
    have hname := (tokens_finds h "name" (by decide)).field
    have hvalue := (tokens_finds h "value" (by decide)).field
    exact .map ((hname.both hvalue (by simp)).mono fun q => Position.Under.prefix)
  · next hm =>
    refine .fault (Fault.standsIn_of_has h hp ?_) (List.prefix_refl p)
    rintro ⟨fields, he⟩
    exact hm fields he

theorem attributeList_finds (h : document.Has p (.map fields)) :
    (attributeList (p.field "attributes") (fields.get "attributes")).Finds document
      (p.field "attributes" <+: ·) := by
  unfold attributeList
  split
  · exact .ok
  · next items hl =>
    have hlist := h.field (by decide) (Fields.get?_of_get hl (by simp))
    refine .map (Finds.mono (Finds.items fun i v hv => ?_) fun q => Position.UnderItems.prefix)
    exact attributeRecord_finds (hlist.item hv) (hlist.isPlace_item i)
  · next hnull hl =>
    refine .fault_get h (by decide) ?_ (.inr (.inl rfl))
    rintro (he | ⟨items, he⟩)
    · exact hnull he
    · exact hl items he

/-! ### Statements -/

/-- What is found in the statements of a list, where there is one. -/
def ListField.Finds (document : Value) (p : Position) (c : ListField (Checked (List Statement))) : Prop :=
  ∀ children, c = .list children → children.Finds document (p.UnderItems 0)

theorem elementChildren_finds (h : document.Has p (.map fields)) {c : ListField (Checked (List Statement))}
    (hm : c.Meets (fields.get "elements")) (hc : c.Finds document (p.field "elements")) :
    (elementChildren (p.field "elements") c).Finds document (p.field "elements" <+: ·) := by
  cases c with
  | missing => exact .ok
  | other =>
    refine .fault_get h (by decide) ?_ (.inr (.inl rfl))
    rintro (he | ⟨items, he⟩)
    · exact hm.1 he
    · exact hm.2 items he
  | list children => exact (hc children rfl).mono fun q => Position.UnderItems.prefix
  | endless => exact .fault_get h (by decide) (fun hne => hne hm) (.inr nofun)

theorem elementOf_finds (h : document.Has p (.map fields)) {children : Checked (List Statement)}
    (hc : children.Finds document (p.field "elements" <+: ·)) :
    (elementOf p fields children).Finds document (p <+: ·) := by
  unfold elementOf
  have hname := (tokens_finds h "name" (by decide)).field
  have hvalue := (tokens_finds h "value" (by decide)).field
  have hattributes := (attributeList_finds h).field
  have hself : (demand (boolField fields "self_close") .selfCloseNotBool (p.field "self_close")).Finds
      document _ := .field (.optional h (by decide) isSome_boolField fun _ => id)
  have hrepeat := (repeater_finds h).field
  have parts := hname.both (hvalue.both (hattributes.both (hc.field.both (hself.both hrepeat
    (by simp)) (by simp)) (by simp)) (by simp)) (by simp)
  exact .map (parts.mono fun q => Position.Under.prefix)

theorem groupOf_finds (h : document.Has p (.map fields)) {c : ListField (Checked (List Statement))}
    (hm : c.Meets (fields.get "elements")) (hc : c.Finds document (p.field "elements")) :
    (groupOf p fields c).Finds document (p <+: ·) := by
  have hfault (hl : ¬ (fields.get "elements").IsList) :
      (Checked.fault .groupElementsMissing (p.field "elements") :
        Checked (List Statement × Option Repeater)).Finds document (p <+: ·) :=
    .of_field (.fault_get h (by decide) hl (.inl rfl))
  cases c with
  | missing =>
    refine hfault ?_
    rintro ⟨items, he⟩
    rw [show fields.get "elements" = .null from hm] at he
    cases he
  | other => exact hfault fun ⟨items, he⟩ => hm.2 items he
  | endless => exact .of_field (.fault_get h (by decide) (fun hne => hne hm) (.inr nofun))
  | list children =>
    have hrepeat := (repeater_finds h).field
    have hchildren := ((hc children rfl).mono fun q => Position.UnderItems.prefix).field
    exact .map ((hrepeat.both hchildren (by simp)).mono fun q => Position.Under.prefix)

theorem refuses_of_kind? (h : kind? fields = none) : Refuses .unknownStatement (fields.get? "type") := by
  have he : ¬ Grammar.IsElementType fields := fun ht => by
    rw [(kind?_eq fields).1.mpr ht] at h
    cases h
  have hg : fields.get? "type" ≠ some (.string "group") := fun ht => by
    rw [(kind?_eq fields).2.mpr ht] at h
    cases h
  cases hv : fields.get? "type" with
  | none => exact absurd (.inl hv) he
  | some v =>
    rintro (rfl | rfl)
    · exact he (.inr hv)
    · exact hg hv

mutual

/-- **The faults of a statement** stand in it, each at a place of its own. -/
theorem statement_finds : ∀ (v : Value) {p : Position}, document.Has p v → document.IsPlace p →
    (statement p v).Finds document (p <+: ·)
  | .map fields, p, h, hp => by
    have hm := childrenField_meets fields (p.field "elements")
    have hc := childrenField_finds fields (h.plain.field (by decide)) (Value.at?_field h.at? "elements")
    rw [statement]
    dsimp only
    split
    · next hk =>
      exact .of_field (.fault_field h (by decide) (refuses_of_kind? hk))
    · exact elementOf_finds h (elementChildren_finds h hm hc)
    · exact .map (groupOf_finds h hm hc)
  | .null, p, h, hp | .bool _, p, h, hp | .int _, p, h, hp | .float _, p, h, hp | .string _, p, h, hp
  | .moment _, p, h, hp | .bytes _, p, h, hp | .list _, p, h, hp | .set _, p, h, hp
  | .pair _ _, p, h, hp => by
    refine .fault (Fault.standsIn_of_has h hp ?_) (List.prefix_refl p)
    rintro ⟨fields, he⟩
    cases he
  | .endless, p, h, hp => .fault (Fault.standsIn_of_has h hp fun hne => hne rfl) (List.prefix_refl p)

theorem childrenField_finds : ∀ (fields : Fields) {p : Position}, p.Plain →
    document.at? p = fields.get? "elements" → (childrenField p fields).Finds document p
  | [], p, hp, h => nofun
  | (key, value) :: rest, p, hp, h => by
    rw [Fields.get?_cons] at h
    rw [childrenField]
    by_cases hk : key = .string "elements"
    · rw [if_pos hk] at h ⊢
      exact children_finds value ⟨hp, h⟩
    · rw [if_neg hk] at h ⊢
      exact childrenField_finds rest hp h

theorem children_finds : ∀ (v : Value) {p : Position}, document.Has p v →
    (children p v).Finds document p
  | .list items, p, h => by
    intro children hc
    cases hc
    refine statements_finds items h.plain ⟨items, h⟩ fun i => ?_
    rw [Nat.zero_add]
    exact Value.at?_item h.at? i
  | .null, _, _ | .bool _, _, _ | .int _, _, _ | .float _, _, _ | .string _, _, _ | .moment _, _, _
  | .bytes _, _, _ | .map _, _, _ | .set _, _, _ | .pair _ _, _, _ | .endless, _, _ => nofun

theorem statements_finds : ∀ (vs : List Value) {p : Position} {k : Nat}, p.Plain →
    (∃ items, document.Has p (.list items)) → (∀ i, document.at? (p.item (k + i)) = vs[i]?) →
    (statements p k vs).Finds document (p.UnderItems k)
  | [], _, _, _, _, _ => .ok
  | v :: rest, p, k, hp, hl, h => by
    obtain ⟨items, hlist⟩ := hl
    rw [statements]
    have hfirst := statement_finds v ⟨hp.item k, h 0⟩ (hlist.isPlace_item k)
    refine hfirst.cons (statements_finds rest hp ⟨items, hlist⟩ fun i => ?_)
    rw [Nat.add_assoc, Nat.add_comm 1 i]
    exact h (i + 1)

end

theorem elements_finds (h : document.Has p (.map fields)) :
    (childrenField (p.field "elements") fields).Finds document (p.field "elements") :=
  childrenField_finds fields (h.plain.field (by decide)) (Value.at?_field h.at? "elements")

theorem tree_finds (h : document.Has p (.map fields)) : (tree p fields).Finds document (p <+: ·) :=
  .map (groupOf_finds h (childrenField_meets fields _) (elements_finds h))

end Decode

/-! ### Documents -/

namespace Document

open Checked Fault.Cause

variable (fields : Fields) (file : Option String)

theorem has_fields : (Value.map fields).Has [] (.map fields) := ⟨nofun, rfl⟩

theorem checkVersion_finds :
    (ofFields fields file).checkVersion.Finds (.map fields) (Position.field [] "schema_version" <+: ·) := by
  have hfault (hw : ¬ (fields.get "schema_version").IsWritten) :
      (Checked.fault .versionMissing [.field "schema_version"] : Checked Unit).Finds (.map fields)
        (Position.field [] "schema_version" <+: ·) :=
    .fault_get (has_fields fields) (by decide) hw (.inl rfl)
  unfold checkVersion
  split
  · next s hs =>
    split
    · next hb =>
      refine hfault ?_
      rw [show fields.get "schema_version" = .string s from hs, Value.isWritten_string, hb]
      exact Bool.noConfusion
    · exact .ok
  · next hs => exact hfault fun ⟨s, he, _⟩ => hs s he

theorem checkAbbreviation_finds :
    (ofFields fields file).checkAbbreviation.Finds (.map fields)
      (Position.field [] "abbreviation" <+: ·) := by
  unfold checkAbbreviation
  split
  · exact .ok
  · exact .ok
  · next hnull hs =>
    refine .fault_get (has_fields fields) (by decide) ?_ (.inr (.inl rfl))
    rintro (he | ⟨s, he⟩)
    · exact hnull he
    · exact hs s he

theorem checkTree_finds :
    (ofFields fields file).checkTree.Finds (.map fields) (Position.field [] "tree" <+: ·) := by
  unfold checkTree
  split
  · next root hr =>
    have hr : fields.get "tree" = .map root := hr
    exact Decode.tree_finds ((has_fields fields).field (by decide) (Fields.get?_of_get hr (by simp)))
  · next he =>
    have hnull : Value.null ≠ .endless := Value.noConfusion
    exact .fault_get (has_fields fields) (by decide) (fun hne => hne he) (.inr hnull)
  · next hm _ =>
    refine .fault_get (has_fields fields) (by decide) ?_ (.inl rfl)
    rintro ⟨root, he⟩
    exact hm root he

/-- **The faults of a document** stand in it, each at a place of its own. -/
theorem checked_finds : (ofFields fields file).checked.Finds (.map fields) fun _ => True := by
  have hversion := (checkVersion_finds fields file).field
  have habbreviation := (checkAbbreviation_finds fields file).field
  have htree := (checkTree_finds fields file).field
  exact .map ((hversion.both (habbreviation.both htree (by simp)) (by simp)).mono fun _ _ => trivial)

end Document

end Shorthand
