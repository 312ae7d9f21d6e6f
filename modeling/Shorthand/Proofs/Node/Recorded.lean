import Mathlib.Data.List.Forall2
import Mathlib.Data.Option.Basic
import Shorthand.Command.Run
import Shorthand.Node.Record

/-!
# Nodes from their records

The record of a node leaves out what the node does not have, and the list of a value mixes texts with records.
All the same nothing is lost, not even for a reader who does not see in which order the entries of a map were
written.

* `Value.Alike`: two values are equal, but for the order of the entries of their maps;
* `Value.Faithful`: a way of writing that can be read in one way only;
* `Node.faithful_toValue`: the record of a node is such a way of writing;
* `Node.forestValue_determines`: and so are the record of an expanded abbreviation and the file it is
  written to.
-/

namespace Shorthand

namespace Value

/-! ### Values up to the order of entries -/

/-- Two values are equal, but for the order in which the entries of their maps are written. -/
inductive Alike : Value → Value → Prop where
  | same (v : Value) : Alike v v
  | list {vs ws : List Value} (h : List.Forall₂ Alike vs ws) : Alike (.list vs) (.list ws)
  | map {fields others : Fields} (h : ∀ key : Key, Option.Rel Alike (fields.lookup key) (others.lookup key)) :
    Alike (.map fields) (.map others)

/-- Neither a list nor a map. -/
def IsScalar : Value → Prop
  | .list _ | .map _ => False
  | .null | .bool _ | .int _ | .float _ | .string _ | .moment _ | .bytes _ | .set _ | .pair _ _
  | .endless => True

variable {v w : Value}

theorem Alike.eq_of_isScalar (h : v.Alike w) (hw : w.IsScalar) : v = w := by
  cases h with
  | same => rfl
  | list => exact hw.elim
  | map => exact hw.elim

theorem Alike.eq_of_isScalar_left (h : v.Alike w) (hv : v.IsScalar) : v = w := by
  cases h with
  | same => rfl
  | list => exact hv.elim
  | map => exact hv.elim

theorem Alike.exists_list {ws : List Value} (h : v.Alike (.list ws)) :
    ∃ vs, v = .list vs ∧ List.Forall₂ Alike vs ws := by
  cases h with
  | same =>
    have hrefl : List.Forall₂ Alike ws ws := List.forall₂_same.mpr fun v _ => .same v
    exact ⟨ws, rfl, hrefl⟩
  | list h => exact ⟨_, rfl, h⟩

theorem Alike.exists_lists {ws ws' : List Value} (h : v.Alike (.list ws)) (h' : v.Alike (.list ws')) :
    ∃ vs, List.Forall₂ Alike vs ws ∧ List.Forall₂ Alike vs ws' := by
  obtain ⟨vs, rfl, hvs⟩ := h.exists_list
  obtain ⟨vs', heq, hvs'⟩ := h'.exists_list
  cases heq
  exact ⟨vs, hvs, hvs'⟩

theorem Alike.exists_map {others : Fields} (h : v.Alike (.map others)) :
    ∃ fields : Fields, v = .map fields ∧
      ∀ key : Key, Option.Rel Alike (fields.lookup key) (others.lookup key) := by
  cases h with
  | same =>
    refine ⟨others, rfl, ?_⟩
    intro key
    cases others.lookup key with
    | none => exact .none
    | some u => exact .some (.same u)
  | map h => exact ⟨_, rfl, h⟩

theorem lookup_record (fields : List (String × Value)) (name : String) :
    (fields.map fun (name, value) => (Key.string name, value)).lookup (.string name) = fields.lookup name := by
  induction fields with
  | nil => rfl
  | cons entry rest ih =>
    have hkey : (Key.string name == Key.string entry.1) = (name == entry.1) := by
      rw [Bool.eq_iff_iff, beq_iff_eq, beq_iff_eq, Key.string.injEq]
    rw [List.map_cons, List.lookup_cons, List.lookup_cons, ih, hkey]

section Record

variable {fields others : List (String × Value)}

/-- What a value holds under a name if it can be read as two records. -/
theorem Alike.exists_rel (ha : v.Alike (record fields)) (hb : v.Alike (record others)) (name : String) :
    ∃ u? : Option Value, Option.Rel Alike u? (fields.lookup name) ∧ Option.Rel Alike u? (others.lookup name) := by
  obtain ⟨entries, rfl, hfields⟩ := ha.exists_map
  obtain ⟨entries', heq, hothers⟩ := hb.exists_map
  cases heq
  refine ⟨entries.lookup (.string name), ?_, ?_⟩
  · rw [← lookup_record]
    exact hfields (.string name)
  · rw [← lookup_record]
    exact hothers (.string name)

theorem Alike.exists_entry {w' : Value} (ha : v.Alike (record fields)) (hb : v.Alike (record others))
    (name : String) (hfield : fields.lookup name = some w) (hother : others.lookup name = some w') :
    ∃ u : Value, u.Alike w ∧ u.Alike w' := by
  obtain ⟨u?, hrel, hrel'⟩ := ha.exists_rel hb name
  rw [hfield] at hrel
  rw [hother] at hrel'
  cases hrel with
  | some halike =>
    cases hrel' with
    | some halike' => exact ⟨_, halike, halike'⟩

end Record

/-! ### Ways of writing -/

/-- Whatever is written can be read in one way only, the order of the entries of maps left aside. -/
def Faithful {α : Type} (write : α → Value) : Prop :=
  ∀ ⦃v : Value⦄ ⦃a b : α⦄, v.Alike (write a) → v.Alike (write b) → a = b

theorem faithful_of_isScalar {α : Type} {write : α → Value} (hscalar : ∀ a, (write a).IsScalar)
    (hinjective : Function.Injective write) : Faithful write := by
  intro v a b ha hb
  have hva : v = write a := ha.eq_of_isScalar (hscalar a)
  have hvb : v = write b := hb.eq_of_isScalar (hscalar b)
  exact hinjective (hva.symm.trans hvb)

theorem faithful_string : Faithful Value.string :=
  faithful_of_isScalar (fun _ => trivial) fun _ _ => Value.string.inj

theorem faithful_int : Faithful Value.int :=
  faithful_of_isScalar (fun _ => trivial) fun _ _ => Value.int.inj

theorem faithful_bool : Faithful Value.bool :=
  faithful_of_isScalar (fun _ => trivial) fun _ _ => Value.bool.inj

namespace Faithful

variable {α : Type} {write : α → Value}

theorem forall₂ (hf : Faithful write) {vs : List Value} {as bs : List α}
    (ha : List.Forall₂ Alike vs (as.map write)) (hb : List.Forall₂ Alike vs (bs.map write)) : as = bs := by
  induction vs generalizing as bs with
  | nil =>
    have has : as = [] := List.map_eq_nil_iff.mp (List.forall₂_nil_left_iff.mp ha)
    have hbs : bs = [] := List.map_eq_nil_iff.mp (List.forall₂_nil_left_iff.mp hb)
    rw [has, hbs]
  | cons v vs ih =>
    cases as with
    | nil => cases ha
    | cons a as =>
      cases bs with
      | nil => cases hb
      | cons b bs =>
        rw [List.map_cons, List.forall₂_cons] at ha hb
        rw [hf ha.1 hb.1, ih ha.2 hb.2]

theorem list (hf : Faithful write) : Faithful fun as : List α => Value.list (as.map write) := by
  intro v as bs ha hb
  obtain ⟨vs, hvs, hvs'⟩ := ha.exists_lists hb
  exact hf.forall₂ hvs hvs'

/-- What may be null is written faithfully, if null stands for nothing else. -/
theorem orNull (hf : Faithful write) (hnull : ∀ a, write a ≠ .null) :
    Faithful fun a? : Option α => (a?.map write).getD .null := by
  have hne {v : Value} {a : α} (ha : v.Alike (write a)) : v ≠ .null := by
    rintro rfl
    exact hnull a (ha.eq_of_isScalar_left trivial).symm
  intro v a? b? ha hb
  cases a? with
  | none =>
    cases b? with
    | none => rfl
    | some b => exact absurd (ha.eq_of_isScalar trivial) (hne hb)
  | some a =>
    cases b? with
    | none => exact absurd (hb.eq_of_isScalar trivial) (hne ha)
    | some b => rw [hf ha hb]

section Record

variable {fields others : List (String × Value)}

/-- A field that may be left out of a record is the same in any two records that one value can be read as, if
it is written faithfully. -/
theorem field (hf : Faithful write) (ha : v.Alike (record fields)) (hb : v.Alike (record others)) (name : String)
    {a? b? : Option α} (hfield : fields.lookup name = a?.map write) (hother : others.lookup name = b?.map write) :
    a? = b? := by
  obtain ⟨u?, hrel, hrel'⟩ := ha.exists_rel hb name
  rw [hfield] at hrel
  rw [hother] at hrel'
  cases a? with
  | none =>
    cases hrel
    cases b? with
    | none => rfl
    | some b => cases hrel'
  | some a =>
    cases hrel with
    | some halike =>
      cases b? with
      | none => cases hrel'
      | some b =>
        cases hrel' with
        | some halike' => rw [hf halike halike']

theorem entry (hf : Faithful write) (ha : v.Alike (record fields)) (hb : v.Alike (record others)) (name : String)
    {a b : α} (hfield : fields.lookup name = some (write a)) (hother : others.lookup name = some (write b)) :
    a = b := by
  obtain ⟨u, halike, halike'⟩ := ha.exists_entry hb name hfield hother
  exact hf halike halike'

end Record

end Faithful

theorem faithful_ofString? : Faithful Value.ofString? := by
  have heq (s? : Option String) : Value.ofString? s? = (s?.map Value.string).getD .null := by
    cases s? with
    | none => rfl
    | some s => rfl
  intro v a? b? ha hb
  rw [heq] at ha hb
  exact faithful_string.orNull (fun s h => by cases h) ha hb

end Value

open Value

/-! ### Parts of nodes -/

attribute [ext] Repeater Node.Attribute Node

theorem ValueKind.text_inj {a b : ValueKind} (h : a.text = b.text) : a = b := by
  cases a <;> cases b <;> simp_all [ValueKind.text]

theorem Entry.faithful_toValue : Faithful Entry.toValue := by
  intro v a b ha hb
  cases a with
  | text s =>
    cases ha.eq_of_isScalar trivial
    cases b with
    | text t =>
      cases hb.eq_of_isScalar trivial
      rfl
    | field index name => cases hb.eq_of_isScalar_left trivial
  | field index name =>
    cases b with
    | text t =>
      cases hb.eq_of_isScalar trivial
      cases ha.eq_of_isScalar_left trivial
    | field index' name' =>
      have hindex : index = index' := faithful_int.entry ha hb "field" rfl rfl
      have hname : name = name' := faithful_string.entry ha hb "name" rfl rfl
      rw [hindex, hname]

theorem Entry.faithful_listValue : Faithful Entry.listValue := Entry.faithful_toValue.list

theorem Repeater.faithful_toValue : Faithful Repeater.toValue := by
  intro v a b ha hb
  have hcount : a.count = b.count := (faithful_int.orNull fun i h => by cases h).entry ha hb "count" rfl rfl
  have hvalue : a.value = b.value := faithful_int.entry ha hb "value" rfl rfl
  have himplicit : a.implicit = b.implicit := faithful_bool.entry ha hb "implicit" rfl rfl
  exact Repeater.ext hcount hvalue himplicit

namespace Node

theorem Attribute.faithful_toValue : Faithful Attribute.toValue := by
  intro v a b ha hb
  have hname : a.name = b.name := faithful_ofString?.entry ha hb "name" rfl rfl
  have hvalue : a.value = b.value :=
    (Entry.faithful_listValue.orNull fun es h => by cases h).entry ha hb "value" rfl rfl
  have hboolean : a.boolean = b.boolean := faithful_bool.entry ha hb "boolean" rfl rfl
  have himplied : a.implied = b.implied := faithful_bool.entry ha hb "implied" rfl rfl
  have hkind : a.kind = b.kind := ValueKind.text_inj (faithful_string.entry ha hb "value_type" rfl rfl)
  exact Attribute.ext hname hvalue hboolean himplied hkind

/-! ### Records of nodes -/

/-- What the record of a node holds under each name, with nothing where the field is left out. -/
def members (n : Node) : List (String × Option Value) :=
  [("name", n.name.map .string), ("value", n.value.map Entry.listValue),
    ("attributes", n.attributes.map fun as => .list (as.map Attribute.toValue)),
    ("repeat", n.repeater.map Repeater.toValue), ("self_closing", some (.bool n.selfClosing)),
    ("children", some (.list (toValues n.children)))]

def fields (n : Node) : List (String × Value) := n.members.flatMap fun (name, value) => field? name value

theorem lookup_field? (key name : String) (value : Option Value) :
    (field? name value).lookup key = if key = name then value else none := by
  cases value with
  | none => simp [field?]
  | some v =>
    by_cases h : key = name
    · simp [field?, h]
    · have hkey : (key == name) = false := beq_false_of_ne h
      simp [field?, h, List.lookup_cons, hkey]

section Members

variable {members : List (String × Option Value)} {name : String}

theorem lookup_flatMap_eq_none (h : name ∉ members.map (·.1)) :
    (members.flatMap fun (name, value) => field? name value).lookup name = none := by
  induction members with
  | nil => rfl
  | cons member rest ih =>
    rw [List.map_cons, List.mem_cons, not_or] at h
    rw [List.flatMap_cons, List.lookup_append, lookup_field?, if_neg h.1, ih h.2, Option.none_or]

theorem lookup_flatMap {value : Option Value} (h : (members.map (·.1)).Nodup)
    (hvalue : members.lookup name = some value) :
    (members.flatMap fun (name, value) => field? name value).lookup name = value := by
  induction members with
  | nil => cases hvalue
  | cons member rest ih =>
    rw [List.map_cons, List.nodup_cons] at h
    rw [List.flatMap_cons, List.lookup_append, lookup_field?]
    by_cases heq : name = member.1
    · subst heq
      rw [List.lookup_cons, beq_self_eq_true] at hvalue
      rw [if_pos rfl, lookup_flatMap_eq_none h.1, Option.or_none]
      exact Option.some.inj hvalue
    · rw [List.lookup_cons, beq_false_of_ne heq] at hvalue
      rw [if_neg heq, ih h.2 hvalue, Option.none_or]

end Members

theorem nodup_members (n : Node) : (n.members.map (·.1)).Nodup := by
  have hnames : n.members.map (·.1) = ["name", "value", "attributes", "repeat", "self_closing", "children"] := rfl
  rw [hnames]
  decide

theorem lookup_fields (n : Node) {name : String} {value : Option Value} (h : n.members.lookup name = some value) :
    n.fields.lookup name = value :=
  lookup_flatMap n.nodup_members h

theorem toValue_eq (n : Node) : n.toValue = .record n.fields := by
  obtain ⟨name, value, attributes, children, repeater, selfClosing⟩ := n
  rw [toValue, fields, members]
  simp only [List.flatMap_cons, List.flatMap_nil, List.append_assoc]
  rfl

/-- Two nodes that can be read from one value are equal, if this holds of their children. -/
theorem eq_of_alike_of_children {v : Value} {m n : Node} (hm : v.Alike m.toValue) (hn : v.Alike n.toValue)
    (hchildren : ∀ us, List.Forall₂ Alike us (toValues m.children) →
      List.Forall₂ Alike us (toValues n.children) → m.children = n.children) : m = n := by
  rw [toValue_eq] at hm hn
  have hname : m.name = n.name :=
    faithful_string.field hm hn "name" (lookup_fields m rfl) (lookup_fields n rfl)
  have hvalue : m.value = n.value :=
    Entry.faithful_listValue.field hm hn "value" (lookup_fields m rfl) (lookup_fields n rfl)
  have hattributes : m.attributes = n.attributes :=
    Attribute.faithful_toValue.list.field hm hn "attributes" (lookup_fields m rfl) (lookup_fields n rfl)
  have hrepeater : m.repeater = n.repeater :=
    Repeater.faithful_toValue.field hm hn "repeat" (lookup_fields m rfl) (lookup_fields n rfl)
  have hselfClosing : m.selfClosing = n.selfClosing :=
    faithful_bool.entry hm hn "self_closing" (lookup_fields m rfl) (lookup_fields n rfl)
  obtain ⟨u, hu, hu'⟩ := hm.exists_entry hn "children" (lookup_fields m rfl) (lookup_fields n rfl)
  obtain ⟨us, hus, hus'⟩ := hu.exists_lists hu'
  exact Node.ext hname hvalue hattributes (hchildren us hus hus') hrepeater hselfClosing

/-! ### Nodes -/

-- The recursion is over the first of the two trees.  The value that both are read from gives the second one
-- its shape.

mutual

theorem eq_of_alike : ∀ {v : Value} (m n : Node), v.Alike m.toValue → v.Alike n.toValue → m = n
  | _, ⟨_, _, _, children, _, _⟩, n, hm, hn => by
    refine eq_of_alike_of_children hm hn ?_
    intro us hus hus'
    exact eq_of_forall₂_alike children n.children hus hus'

theorem eq_of_forall₂_alike : ∀ {vs : List Value} (ms ns : List Node),
    List.Forall₂ Alike vs (toValues ms) → List.Forall₂ Alike vs (toValues ns) → ms = ns
  | [], [], [], _, _ => rfl
  | _ :: _, [], _, h, _ => by
    cases h
  | [], _ :: _, _, h, _ => by
    cases h
  | [], [], _ :: _, _, h => by
    cases h
  | _ :: _, _ :: _, [], _, h => by
    cases h
  | v :: vs, m :: ms, n :: ns, hm, hn => by
    rw [toValues, List.forall₂_cons] at hm hn
    rw [eq_of_alike m n hm.1 hn.1, eq_of_forall₂_alike ms ns hm.2 hn.2]

end

theorem faithful_toValue : Faithful toValue := fun _ => eq_of_alike

theorem faithful_forestValue : Faithful forestValue := by
  intro v ms ns hm hn
  obtain ⟨u, hu, hu'⟩ := hm.exists_entry hn "children" rfl rfl
  obtain ⟨us, hus, hus'⟩ := hu.exists_lists hu'
  exact eq_of_forall₂_alike ms ns hus hus'

/-! ### Files -/

/-- Nodes are written in a format to the end, and some way of reading gives back their record from it, but for
the order in which the entries of maps stand. -/
def ReadsBack [Library] (read : String → Option Value) (format : Format) (nodes : List Node) : Prop :=
  ∃ text, Run.written format nodes = (text, none) ∧ ∃ v ∈ read text, v.Alike (forestValue nodes)

/-- **The record of an expansion determines it.**  Trees of nodes whose records are equal but for the order of
entries are equal, and so are trees for which the same is written to a file, if what is written for them can
be read back. -/
theorem forestValue_determines [Library] (ms ns : List Node) :
    ((forestValue ms).Alike (forestValue ns) ↔ ms = ns) ∧
      ∀ (read : String → Option Value) (format : Format),
        ReadsBack read format ms → ReadsBack read format ns →
          Run.written format ms = Run.written format ns → ms = ns := by
  constructor
  · constructor
    · intro h
      exact faithful_forestValue (.same _) h
    · rintro rfl
      exact .same _
  · rintro read format ⟨text, htext, v, hv, hm⟩ ⟨text', htext', v', hv', hn⟩ hwritten
    obtain rfl : text = text' := congrArg Prod.fst (htext.symm.trans (hwritten.trans htext'))
    obtain rfl : v = v' := Option.mem_unique hv hv'
    exact faithful_forestValue hm hn

/-- A node without a value and a node with an empty value have different records, and different files. -/
theorem forestValue_determines_emptyValue :
    let read : String → Option Value := fun text => (Json.read text).toOption
    ¬ (forestValue [{}]).Alike (forestValue [{ value := some [] }]) ∧
      ReadsBack read .json [{}] ∧ ReadsBack read .json [{ value := some [] }] ∧
      Run.written .json [{}] ≠ Run.written .json [{ value := some [] }] := by
  intro read
  have hne : ([{}] : List Node) ≠ [{ value := some [] }] := by
    intro h
    cases h
  have hmissing : ReadsBack read .json [{}] := ⟨_, rfl, forestValue [{}], by rfl, .same _⟩
  have hempty : ReadsBack read .json [{ value := some [] }] :=
    ⟨_, rfl, forestValue [{ value := some [] }], by rfl, .same _⟩
  have hdetermines := forestValue_determines [{}] [{ value := some [] }]
  refine ⟨fun h => hne (hdetermines.1.mp h), hmissing, hempty, ?_⟩
  intro hwritten
  exact hne (hdetermines.2 read .json hmissing hempty hwritten)

end Node

end Shorthand
