import Shorthand.Proofs.Document.Below
import Shorthand.Proofs.Document.Reports

/-!
# Reports field by field

What is reported about a statement is what its fields give one by one, each of them for itself, but for a
group without a list of elements: there nothing is said of its repeat.

* `Decode.Part`, `Part.Valid`, `Part.faults`: the fields of a statement, what they allow, and the faults
  that they give;
* `Decode.faultsOf_perm`: the faults of a statement are those of its fields;
* `Part.Isolates`: a record that has one field of another one, and nothing but valid fields besides;
* `Document.reports_by_field`: when the reports about a statement are those of its single fields.
-/

namespace Shorthand

open Grammar Checked

namespace Decode

/-- A field of a statement. -/
inductive Part where
  | name
  | value
  | attributes
  | elements
  | selfClosing
  | repeater
  deriving DecidableEq, Repr

namespace Part

def all : List Part := [.name, .value, .attributes, .elements, .selfClosing, .repeater]

def key : Part → String
  | .name => "name"
  | .value => "value"
  | .attributes => "attributes"
  | .elements => "elements"
  | .selfClosing => "self_close"
  | .repeater => "repeat"

/-- What the grammar allows in a field.  In a field that groups do not have it allows anything there. -/
def Valid (kind : Kind) (fields : Fields) (part : Part) : Prop :=
  match kind, part with
  | _, .repeater => IsRepeat (fields.get "repeat")
  | .element, .name => IsTokens (fields.get "name")
  | .element, .value => IsTokens (fields.get "value")
  | .element, .attributes => IsAttributes (fields.get "attributes")
  | .element, .elements =>
    ∃ items, (fields.get "elements" = .list items ∨ fields.get "elements" = .null ∧ items = []) ∧
      ∀ v ∈ items, IsStatement v
  | .element, .selfClosing => fields.Optional "self_close" Value.IsBool
  | .group, .elements => ∃ items, fields.get "elements" = .list items ∧ ∀ v ∈ items, IsStatement v
  | .group, _ => True

/-- The elements of a group, of which there has to be a list. -/
def groupElements (p : Position) : ListField (Checked (List Statement)) → Checked (List Statement)
  | .list children => children
  | .endless => .fault .statementEndless p
  | _ => .fault .groupElementsMissing p

def faults (kind : Kind) (p : Position) (fields : Fields) (part : Part) : List Fault :=
  match kind, part with
  | _, .repeater => (Decode.repeater (p.field "repeat") (fields.get "repeat")).faults
  | .element, .name => (tokens (p.field "name") (fields.get "name")).faults
  | .element, .value => (tokens (p.field "value") (fields.get "value")).faults
  | .element, .attributes => (attributeList (p.field "attributes") (fields.get "attributes")).faults
  | .element, .elements =>
    (elementChildren (p.field "elements") (childrenField (p.field "elements") fields)).faults
  | .element, .selfClosing =>
    (demand (boolField fields "self_close") .selfCloseNotBool (p.field "self_close")).faults
  | .group, .elements => (groupElements (p.field "elements") (childrenField (p.field "elements") fields)).faults
  | .group, _ => []

variable {kind : Kind} {p : Position} {fields other : Fields} {part : Part}

theorem faults_eq_nil_iff_of_meets {α : Type} {c : Checked α} {P : Prop} {R : α → Prop} (h : c.Meets P R) :
    c.faults = [] ↔ P := by
  cases c with
  | ok x => exact iff_of_true rfl h.1
  | error fs => exact iff_of_false h.2 h.1

theorem groupElements_meets {c : ListField (Checked (List Statement))} (h : c.Meets (fields.get "elements")) :
    (groupElements p c).Meets
      (∃ items, fields.get "elements" = .list items ∧ ∀ v ∈ items, IsStatement v) Statement.LegalAll := by
  cases c with
  | missing =>
    refine .fault ?_
    rintro ⟨items, hl, -⟩
    rw [show fields.get "elements" = .null from h] at hl
    cases hl
  | other =>
    refine .fault ?_
    rintro ⟨items, hl, -⟩
    exact h.2 items hl
  | endless =>
    refine .fault ?_
    rintro ⟨items, hl, -⟩
    rw [show fields.get "elements" = .endless from h] at hl
    cases hl
  | list children =>
    obtain ⟨items, hi, hc⟩ := h
    refine Checked.Meets.congr hc ⟨fun hs => ⟨items, hi, hs⟩, ?_⟩ fun _ => id
    rintro ⟨items', hl, hs⟩
    rw [hi] at hl
    cases hl
    exact hs

theorem faults_eq_nil_iff (kind : Kind) (p : Position) (fields : Fields) (part : Part) :
    part.faults kind p fields = [] ↔ part.Valid kind fields := by
  have hchildren := childrenField_meets fields (p.field "elements")
  cases kind with
  | element =>
    cases part with
    | name => exact faults_eq_nil_iff_of_meets (tokens_meets _ _)
    | value => exact faults_eq_nil_iff_of_meets (tokens_meets _ _)
    | attributes => exact faults_eq_nil_iff_of_meets (attributeList_meets _ _)
    | elements => exact faults_eq_nil_iff_of_meets (elementChildren_meets _ hchildren)
    | selfClosing => exact faults_eq_nil_iff_of_meets (.demand isSome_boolField)
    | repeater => exact faults_eq_nil_iff_of_meets (repeater_meets _ _)
  | group =>
    cases part with
    | elements => exact faults_eq_nil_iff_of_meets (groupElements_meets hchildren)
    | repeater => exact faults_eq_nil_iff_of_meets (repeater_meets _ _)
    | name | value | attributes | selfClosing => exact iff_of_true rfl trivial

theorem faults_congr (kind : Kind) (p : Position) (h : fields.get? part.key = other.get? part.key) :
    part.faults kind p fields = part.faults kind p other := by
  have hget : fields.get part.key = other.get part.key := by rw [Fields.get, Fields.get, h]
  have hchildren (q : Position) (he : fields.get? "elements" = other.get? "elements") :
      childrenField q fields = childrenField q other := by rw [childrenField_eq, childrenField_eq, he]
  cases kind with
  | element =>
    cases part with
    | name => exact congrArg (fun v => (tokens (p.field "name") v).faults) hget
    | value => exact congrArg (fun v => (tokens (p.field "value") v).faults) hget
    | attributes => exact congrArg (fun v => (attributeList (p.field "attributes") v).faults) hget
    | repeater => exact congrArg (fun v => (Decode.repeater (p.field "repeat") v).faults) hget
    | elements => rw [faults, faults, hchildren _ h]
    | selfClosing =>
      have he : fields.get? "self_close" = other.get? "self_close" := h
      rw [faults, faults, boolField, boolField, he]
  | group =>
    cases part with
    | elements => rw [faults, faults, hchildren _ h]
    | repeater => exact congrArg (fun v => (Decode.repeater (p.field "repeat") v).faults) hget
    | name | value | attributes | selfClosing => rfl

theorem position_of_mem_faults (hp : p.Plain) {f : Fault} (h : f ∈ part.faults kind p fields) :
    p.field part.key <+: f.position ∧ f.position.Plain := by
  have hhas := (Value.map fields).has_nested hp
  have hm := childrenField_meets fields (p.field "elements")
  have hc := elements_finds hhas
  have found {α : Type} {c : Checked α} {document : Value} {q : Position}
      (hf : c.Finds document (q <+: ·)) (hmem : f ∈ c.faults) : q <+: f.position ∧ f.position.Plain :=
    ⟨hf.fills.within _ (List.mem_map_of_mem hmem), (hf.stands f hmem).plain⟩
  cases kind with
  | element =>
    cases part with
    | name => exact found (tokens_finds hhas "name" (by decide)) h
    | value => exact found (tokens_finds hhas "value" (by decide)) h
    | attributes => exact found (attributeList_finds hhas) h
    | elements => exact found (elementChildren_finds hhas hm hc) h
    | selfClosing => exact found (.optional hhas (by decide) isSome_boolField fun _ => id) h
    | repeater => exact found (repeater_finds hhas) h
  | group =>
    cases part with
    | repeater => exact found (repeater_finds hhas) h
    | elements =>
      rw [faults] at h
      cases hl : childrenField (p.field "elements") fields with
      | list children =>
        rw [hl] at h
        exact found ((hc children hl).mono fun q => Position.UnderItems.prefix) h
      | missing | other | endless =>
        rw [hl] at h
        rw [List.mem_singleton.mp h]
        exact ⟨List.prefix_refl _, hp.field (by decide)⟩
    | name | value | attributes | selfClosing => cases h

end Part

section Faults

variable (p : Position) {fields : Fields}

/-- The faults of a group without a list of elements are those of its elements. -/
theorem faultsOf_group (h : ¬ (fields.get "elements").IsList) :
    faultsOf .group p fields = Part.elements.faults .group p fields := by
  have hm := childrenField_meets fields (p.field "elements")
  unfold faultsOf Part.faults
  dsimp only
  cases hc : childrenField (p.field "elements") fields with
  | list children =>
    rw [hc] at hm
    obtain ⟨items, hi, -⟩ := hm
    exact absurd ⟨items, hi⟩ h
  | missing => rfl
  | other => rfl
  | endless => rfl

/-- A group in which nothing is found has a list of elements. -/
theorem isList_of_faultsOf_eq_nil (h : faultsOf .group p fields = []) : (fields.get "elements").IsList := by
  by_contra hl
  rw [faultsOf_group p hl] at h
  obtain ⟨items, hi, -⟩ := (Part.faults_eq_nil_iff .group p fields .elements).mp h
  exact hl ⟨items, hi⟩

/-- The faults of a group with a list of elements are those of its repeat and of its elements. -/
theorem faultsOf_group_of_isList (h : (fields.get "elements").IsList) :
    faultsOf .group p fields =
      Part.repeater.faults .group p fields ++ Part.elements.faults .group p fields := by
  have hm := childrenField_meets fields (p.field "elements")
  obtain ⟨items, hi⟩ := h
  unfold faultsOf Part.faults
  dsimp only
  cases hc : childrenField (p.field "elements") fields with
  | list children =>
    rw [groupOf, faults_map, faults_both]
    rfl
  | missing =>
    rw [hc] at hm
    rw [hi] at hm
    cases hm
  | other =>
    rw [hc] at hm
    exact absurd hi (hm.2 items)
  | endless =>
    rw [hc, hi] at hm
    cases hm

theorem faultsOf_element :
    faultsOf .element p fields = Part.all.flatMap (Part.faults .element p fields) := by
  simp [faultsOf, elementOf, Part.all, Part.faults, faults_map, faults_both]

/-- **The faults of a statement** are those that its fields give, but for a group without a list of
elements whose repeat is faulty too. -/
theorem faultsOf_perm (kind : Kind)
    (h : kind = .group → (fields.get "elements").IsList ∨ IsRepeat (fields.get "repeat")) :
    (faultsOf kind p fields).Perm (Part.all.flatMap (Part.faults kind p fields)) := by
  cases kind with
  | element => rw [faultsOf_element]
  | group =>
    have hall : Part.all.flatMap (Part.faults .group p fields) =
        Part.elements.faults .group p fields ++ Part.repeater.faults .group p fields := by
      simp [Part.all, Part.faults]
    rw [hall]
    by_cases hl : (fields.get "elements").IsList
    · rw [faultsOf_group_of_isList p hl]
      exact List.perm_append_comm
    · have hr : Part.repeater.faults .group p fields = [] :=
        (Part.faults_eq_nil_iff _ _ _ _).mpr ((h rfl).resolve_left hl)
      rw [faultsOf_group p hl, hr, List.append_nil]

end Faults

/-! ### Fields on their own -/

/-- A record of a kind has one field of another record, and all its other fields are valid. -/
structure Part.Isolates (kind : Kind) (is : List Nat) (record alone : Fields) (part : Part) : Prop where
  ofKind : kindAt? .group is alone = some kind
  entry : alone.get? part.key = record.get? part.key
  others : ∀ other, other ≠ part → other.Valid kind alone

section Isolates

variable {kind : Kind} {is : List Nat} {record alone : Fields} {part : Part}

/-- The faults of such a record are those of the one field. -/
theorem Part.Isolates.faultsOf_perm (h : part.Isolates kind is record alone) (p : Position) :
    (faultsOf kind p alone).Perm (part.faults kind p record) := by
  have hnil : ∀ other, other ≠ part → other.faults kind p alone = [] := fun other ho =>
    (Part.faults_eq_nil_iff _ _ _ _).mpr (h.others other ho)
  have hall : Part.all.flatMap (Part.faults kind p alone) = part.faults kind p alone := by
    cases part <;> simp [Part.all, hnil]
  rw [← Part.faults_congr kind p h.entry, ← hall]
  refine Decode.faultsOf_perm p kind fun hk => ?_
  by_cases hr : part = .repeater
  · have he : Part.elements.Valid kind alone := h.others .elements (by rw [hr]; decide)
    rw [hk] at he
    obtain ⟨items, hl, -⟩ := he
    exact .inl ⟨items, hl⟩
  · exact .inr (h.others .repeater (Ne.symm hr))

def Kind.text : Kind → String
  | .element => "element"
  | .group => "group"

/-- The least of such records. -/
def Part.isolated (kind : Kind) (record : Fields) (part : Part) : Fields :=
  (.string "type", .string kind.text) :: ((record.get? part.key).elim [] fun v => [(.string part.key, v)]) ++
    if part = .elements then [] else [(.string "elements", .list [])]

theorem Part.get?_isolated (kind : Kind) (record : Fields) (part other : Part) :
    (part.isolated kind record).get? other.key =
      if other = part then record.get? part.key
      else if other = .elements then some (.list []) else none := by
  have htype : Key.string "type" ≠ .string other.key := by cases other <;> decide
  rw [isolated, List.cons_append, Fields.get?_cons, if_neg htype]
  cases record.get? part.key with
  | none => cases part <;> cases other <;> rfl
  | some v => cases part <;> cases other <;> rfl

/-- A field that is missing is valid, the elements apart. -/
theorem Part.valid_of_get?_none (kind : Kind) (h : record.get? part.key = none) (hp : part ≠ .elements) :
    part.Valid kind record := by
  have hnull : record.get part.key = .null := Fields.get_of_get?_none h
  cases part with
  | elements => exact absurd rfl hp
  | repeater =>
    have hr : IsRepeat (record.get "repeat") := hnull ▸ IsRepeat.missing
    cases kind <;> exact hr
  | name =>
    cases kind with
    | element => exact show IsTokens (record.get "name") from hnull ▸ IsTokens.missing
    | group => trivial
  | value =>
    cases kind with
    | element => exact show IsTokens (record.get "value") from hnull ▸ IsTokens.missing
    | group => trivial
  | attributes =>
    cases kind with
    | element => exact show IsAttributes (record.get "attributes") from hnull ▸ IsAttributes.missing
    | group => trivial
  | selfClosing =>
    cases kind with
    | element =>
      intro v hv
      rw [show record.get? "self_close" = none from h] at hv
      cases hv
    | group => trivial

theorem Part.isolates_isolated (h : kindAt? .group is record = some kind) (part : Part) :
    part.Isolates kind is record (part.isolated kind record) where
  ofKind := by
    unfold kindAt? at h ⊢
    split at h
    · next hroot => rw [if_pos hroot, h]
    · next hroot =>
      rw [if_neg hroot]
      cases kind <;> rfl
  entry := by rw [get?_isolated, if_pos rfl]
  others other ho := by
    have hget := get?_isolated kind record part other
    rw [if_neg ho] at hget
    by_cases he : other = .elements
    · rw [if_pos he] at hget
      subst he
      have hlist := Fields.get_of_get?_some hget
      cases kind with
      | element => exact ⟨[], .inl hlist, List.forall_mem_nil _⟩
      | group => exact ⟨[], hlist, List.forall_mem_nil _⟩
    · rw [if_neg he] at hget
      exact valid_of_get?_none kind hget he

end Isolates

end Decode

/-! ### Reports -/

namespace Document

open Decode

/-- The reports about a document; there are none if it has a tree.  If the check breaks off, these are the
reports that there would be if it went on. -/
def reports (d : Document) : List Diagnostic :=
  match d.validate with
  | .ok _ => []
  | .error (.faulty reports) => reports
  | .error (.hindered _) => Diagnostic.sort (d.checked.faults.map (Fault.diagnostic d.file))

/-- The reports about what stands at or below a position. -/
def reportsBelow (d : Document) (p : Position) : List Diagnostic :=
  d.reports.filter fun r => r.position.any fun text => p <+: Position.ofText text

theorem reports_eq (d : Document) : d.reports = Diagnostic.sort (d.checked.faults.map (Fault.diagnostic d.file)) := by
  unfold reports
  cases hv : d.validate with
  | ok t =>
    obtain ⟨abbreviation, hc⟩ := d.validate_eq_ok.mp hv
    rw [hc]
    exact List.mergeSort_nil.symm
  | error rejection =>
    cases rejection with
    | faulty reports => exact error_of_validate hv
    | hindered cause => rfl

variable (fields : Fields) (file : Option String)

theorem reportsBelow_eq (p : Position) :
    (ofFields fields file).reportsBelow p =
      Diagnostic.sort (((ofFields fields file).checked.faults.filter (p <+: ·.position)).map
        (Fault.diagnostic file)) := by
  have hstands := (checked_finds fields file).stands
  have hfile : (ofFields fields file).file = file := rfl
  rw [reportsBelow, reports_eq, hfile, Diagnostic.filter_sort (nodup_texts_checked fields file), List.filter_map]
  congr 2
  refine List.filter_congr fun f hf => ?_
  simp [Fault.diagnostic, Position.ofText_text (hstands f hf).plain]

section Below

variable {fields record own : Fields} {file : Option String} {is : List Nat} {kind : Kind}
  {alone : Part → Fields}

/-- What is reported at or below a statement that is looked at: the faults of its record. -/
theorem reportsBelow_of_faults {k : Kind}
    (h : (ofFields (fields.withTreeStatement is own) file).checked.faults.filter
      (Tree.root.through is <+: ·.position) = faultsOf k (Tree.root.through is) own) :
    (ofFields (fields.withTreeStatement is own) file).reportsBelow (Tree.root.through is) =
        Diagnostic.sort ((faultsOf k (Tree.root.through is) own).map (Fault.diagnostic file)) ∧
      (Diagnostic.texts ((faultsOf k (Tree.root.through is) own).map (Fault.diagnostic file))).Nodup := by
  rw [reportsBelow_eq, h]
  refine ⟨rfl, ?_⟩
  rw [← h]
  exact ((List.filter_sublist.map _).map _).nodup (nodup_texts_checked _ file)

/-- What is reported there if one field is on its own: the faults of that field. -/
theorem reportsBelow_of_isolates {part : Part} (hi : part.Isolates kind is record own)
    (h : (ofFields (fields.withTreeStatement is own) file).checked.faults.filter
      (Tree.root.through is <+: ·.position) = faultsOf kind (Tree.root.through is) own) :
    (ofFields (fields.withTreeStatement is own) file).reportsBelow (Tree.root.through is) =
      Diagnostic.sort ((part.faults kind (Tree.root.through is) record).map (Fault.diagnostic file)) := by
  obtain ⟨hreported, hn⟩ := reportsBelow_of_faults h
  rw [hreported]
  exact (Diagnostic.sort_eq_of_perm hn ((hi.faultsOf_perm _).symm.map _)).symm

/-- What the fields of a statement give one by one, in order. -/
theorem perm_flatMap_sort (file : Option String) (kind : Kind) (p : Position) (record : Fields) :
    (Part.all.flatMap fun part =>
        Diagnostic.sort ((part.faults kind p record).map (Fault.diagnostic file))).Perm
      ((Part.all.flatMap (Part.faults kind p record)).map (Fault.diagnostic file)) := by
  rw [List.map_flatMap]
  exact List.Perm.flatMap_left _ fun part _ => Diagnostic.sort_perm _

/-- The reports of a statement are those of its fields just if none of these is hidden. -/
theorem sort_faultsOf_eq_iff {p : Position}
    (hn : (Diagnostic.texts ((faultsOf kind p record).map (Fault.diagnostic file))).Nodup) :
    Diagnostic.sort ((faultsOf kind p record).map (Fault.diagnostic file)) =
        Diagnostic.sort (Part.all.flatMap fun part =>
          Diagnostic.sort ((part.faults kind p record).map (Fault.diagnostic file))) ↔
      (kind = .group → (record.get "elements").IsList ∨ IsRepeat (record.get "repeat")) := by
  constructor
  · intro he hk
    subst hk
    rw [or_iff_not_imp_left]
    intro hl
    -- the faults of the elements are all there is, so that there is no room for any of the repeat
    have hlength := congrArg List.length he
    rw [(Diagnostic.sort_perm _).length_eq, (Diagnostic.sort_perm _).length_eq,
      (perm_flatMap_sort file .group p record).length_eq, List.length_map, List.length_map,
      faultsOf_group p hl] at hlength
    have hrepeat : Part.repeater.faults .group p record = [] := by
      simpa [Part.all, Part.faults] using hlength
    exact (Part.faults_eq_nil_iff .group p record .repeater).mp hrepeat
  · intro hs
    refine (Diagnostic.sort_eq_of_perm hn ?_).symm
    exact (perm_flatMap_sort file kind p record).trans ((faultsOf_perm p kind hs).symm.map _)

end Below

/-- **Reports field by field.**  Let an element or a group stand in a document, the root among them.  Each
of its fields can be put into a record of the kind all whose other fields are valid; let such records be
given, one for each field, and be put in the place of the statement.

What is reported then at or below the statement stands in the one field.  What is reported there of the
document itself is all of this together and nothing else, just if the statement is no group, or has a list
of elements, or a repeat that is valid, or nothing at all is reported there.  Of a group without a list of
elements nothing is reported but that, whatever its repeat is. -/
theorem reports_by_field {fields record : Fields} (file : Option String) {is : List Nat} {kind : Kind}
    (h : (Value.map fields).at? (Tree.root.through is) = some (.map record))
    (hk : kindAt? .group is record = some kind) :
    let p := Tree.root.through is
    let reported := (ofFields fields file).reportsBelow p
    let reportedOf (own : Fields) := (ofFields (fields.withTreeStatement is own) file).reportsBelow p
    (∀ part : Part, ∃ alone, part.Isolates kind is record alone) ∧
    ∀ alone : Part → Fields, (∀ part : Part, part.Isolates kind is record (alone part)) →
      (∀ part, ∀ r ∈ reportedOf (alone part), ∃ text ∈ r.position,
        p.field part.key <+: Position.ofText text) ∧
      (reported = Diagnostic.sort (Part.all.flatMap fun part => reportedOf (alone part)) ↔
        (kind = .group → (record.get "elements").IsList ∨ IsRepeat (record.get "repeat")) ∨ reported = []) ∧
      (kind = .group → ¬ (record.get "elements").IsList → reported = reportedOf (alone .elements)) := by
  intro p reported reportedOf
  refine ⟨fun part => ⟨_, part.isolates_isolated hk⟩, fun alone halone => ?_⟩
  have hself : reported = reportedOf record := by
    simp only [reported, reportedOf, Fields.withTreeStatement_self h]
  have hplain : p.Plain := Position.plain_through Tree.plain_root is
  -- either the statement is checked on its own, or it is not looked at at all
  rcases faults_below file h with hlooked | hnone
  · obtain ⟨hrecord, hn⟩ := reportsBelow_of_faults (hlooked kind record hk)
    have hreported : reported = Diagnostic.sort ((faultsOf kind p record).map (Fault.diagnostic file)) :=
      hself.trans hrecord
    have hpart (part : Part) : reportedOf (alone part) =
        Diagnostic.sort ((part.faults kind p record).map (Fault.diagnostic file)) :=
      reportsBelow_of_isolates (halone part) (hlooked kind (alone part) (halone part).ofKind)
    simp only [hpart]
    refine ⟨fun part r hr => ?_, ?_, fun hg hl => ?_⟩
    · obtain ⟨f, hf, rfl⟩ := List.mem_map.mp (Diagnostic.mem_sort.mp hr)
      obtain ⟨hbelow, hf⟩ := Part.position_of_mem_faults hplain hf
      exact ⟨f.position.text, rfl, by rwa [Position.ofText_text hf]⟩
    · rw [hreported, sort_faultsOf_eq_iff hn]
      refine ⟨.inl, fun hs => hs.elim id fun he hg => .inl ?_⟩
      subst hg
      have hnone := Diagnostic.sort_perm ((faultsOf .group p record).map (Fault.diagnostic file))
      rw [he] at hnone
      exact isList_of_faultsOf_eq_nil p (List.map_eq_nil_iff.mp hnone.nil_eq.symm)
    · subst hg
      rw [hreported, faultsOf_group p hl]
  · have hnil (own : Fields) : reportedOf own = [] := by
      simp only [reportedOf, reportsBelow_eq]
      rw [hnone own]
      exact List.mergeSort_nil
    have hreported : reported = [] := hself.trans (hnil record)
    refine ⟨fun part r hr => ?_, iff_of_true ?_ (.inr hreported), fun _ _ => ?_⟩
    · rw [hnil] at hr
      cases hr
    · simp only [hnil]
      rw [hreported]
      exact List.mergeSort_nil.symm
    · rw [hreported, hnil]

/-- A root that lacks its elements and counts below zero: the count is not reported, though it is as soon as
there are elements. -/
theorem reports_by_field_count :
    let record : Fields := [(.string "repeat", .record [("count", .int (-1))])]
    let fields : Fields := [(.string "schema_version", .string "0.1"), (.string "tree", .map record)]
    let elements : Fault := ⟨.groupElementsMissing, [.field "tree", .field "elements"]⟩
    let count : Fault := ⟨.countNegative (-1), [.field "tree", .field "repeat", .field "count"]⟩
    let reported := (ofFields fields none).reportsBelow Tree.root
    let reportedOf (part : Part) :=
      (ofFields (fields.withTreeStatement [] (part.isolated .group record)) none).reportsBelow Tree.root
    reported = [elements.diagnostic none] ∧ reportedOf .repeater = [count.diagnostic none] ∧
      reported ≠ Diagnostic.sort (Part.all.flatMap reportedOf) := by
  intro record fields elements count reported reportedOf
  have hl : ¬ (record.get "elements").IsList := fun ⟨items, hi⟩ => nomatch hi
  have hroot : (Value.map fields).at? (Tree.root.through []) = some (.map record) := rfl
  have hgroup : kindAt? .group [] record = some .group := rfl
  obtain ⟨-, hall⟩ := reports_by_field none hroot hgroup
  obtain ⟨-, hunion, hhidden⟩ := hall (Part.isolated .group record) fun part => part.isolates_isolated rfl
  have hone (own : Fields) (f : Fault) (hf : (ofFields own none).checked.faults = [f])
      (hp : Tree.root <+: f.position) :
      (ofFields own none).reportsBelow Tree.root = [f.diagnostic none] := by
    rw [reportsBelow_eq, hf, List.filter_singleton, decide_eq_true hp]
    exact Diagnostic.sort_singleton _
  have hreported : reported = [elements.diagnostic none] :=
    (hhidden rfl hl).trans (hone _ elements rfl (by decide))
  refine ⟨hreported, hone _ count rfl (by decide), fun he => ?_⟩
  rcases hunion.mp he with hs | hnil
  · rcases hs rfl with hlist | hrepeat
    · exact hl hlist
    · have hnone : [count] = [] := (Part.faults_eq_nil_iff .group Tree.root record .repeater).mpr hrepeat
      cases hnone
  · cases hreported.symm.trans hnil

end Document

end Shorthand
