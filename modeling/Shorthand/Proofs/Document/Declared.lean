import Mathlib.Data.List.TakeWhile
import Shorthand.Proofs.Diagnostic.Order
import Shorthand.Proofs.Document.Hindered
import Shorthand.Proofs.Document.Keys

/-!
# What a document declares

A document is made of three entries of the map that a file holds.  Nothing else in the map has a say in what
becomes of it, and the version is looked at in two places that fit together.

* `Document.IsSupported`: a version of the format that can be read;
* `Document.SameDeclared`: two maps declare the same document;
* `Document.outcome`: what loading and checking a map comes to;
* `Document.outcome_declared`: the outcome depends on what is declared, and how it does on the version.
-/

namespace Shorthand

namespace Document

open Grammar

/-! ### Versions -/

/-- A version that can be read: a zero, or a zero with a point and more behind it.  Blanks around it do not
count. -/
def IsSupported (version : String) : Prop :=
  Text.strip version = "0" ∨ ∃ rest, Text.strip version = "0." ++ rest

/-- What stands before the first point is a zero just if nothing is behind the zero but a point and more. -/
theorem takeWhile_eq_zero_iff (cs : List Char) :
    cs.takeWhile (fun c => decide (c ≠ '.')) = ['0'] ↔ cs = ['0'] ∨ ∃ rest, cs = '0' :: '.' :: rest := by
  cases cs with
  | nil => simp
  | cons c rest =>
    by_cases hc : c = '.'
    · subst hc
      simp
    · cases rest with
      | nil => simp [hc]
      | cons d more =>
        by_cases hd : d = '.'
        · simp [hc, hd]
        · simp [hc, hd]

theorem majorVersion_eq_iff (version : String) : majorVersion version = supportedMajor ↔ IsSupported version := by
  have hlist : majorVersion version = supportedMajor ↔
      (Text.strip version).toList.takeWhile (fun c => decide (c ≠ '.')) = ['0'] := by
    rw [majorVersion, supportedMajor, ← String.toList_inj, String.toList_ofList]
    rfl
  rw [hlist, takeWhile_eq_zero_iff, IsSupported]
  refine or_congr ?_ ?_
  · rw [← String.toList_inj]
    rfl
  · constructor
    · rintro ⟨rest, h⟩
      refine ⟨.ofList rest, ?_⟩
      rw [← String.toList_inj, h]
      simp
    · rintro ⟨rest, h⟩
      refine ⟨rest.toList, ?_⟩
      rw [h]
      simp

theorem unsupportedVersion?_eq_some {v : Value} {version : String} :
    unsupportedVersion? v = some version ↔
      v = .string version ∧ v.IsWritten ∧ ¬ IsSupported version := by
  constructor
  · intro h
    unfold unsupportedVersion? at h
    split at h
    · next s =>
      split at h
      · next hs =>
        cases h
        simp only [Bool.and_eq_true, Bool.not_eq_true', decide_eq_true_eq] at hs
        refine ⟨rfl, Value.isWritten_string.mpr hs.1, ?_⟩
        rw [← majorVersion_eq_iff]
        exact hs.2
      · cases h
    · cases h
  · rintro ⟨rfl, hw, hs⟩
    rw [← majorVersion_eq_iff] at hs
    rw [unsupportedVersion?, Value.isWritten_string.mp hw]
    simp [hs]

/-! ### What is declared -/

/-- Two maps declare the same document: their versions, abbreviations and trees are the same, though the
first map may give the elements of the tree without the map around them. -/
structure SameDeclared (fields others : Fields) : Prop where
  version : fields.get? "schema_version" = others.get? "schema_version"
  abbreviation : fields.get? "abbreviation" = others.get? "abbreviation"
  tree : fields.get? "tree" = others.get? "tree" ∨
    ∃ elements, fields.get? "tree" = some (.list elements) ∧
      others.get? "tree" = some (.record [("elements", .list elements)])

/-- A loaded document as one map, with its file among the entries. -/
def entries (d : Document) : Fields :=
  [(.string "schema_version", d.version), (.string "tree", d.tree)] ++
    (d.abbreviation.map fun v => (Key.string "abbreviation", v)).toList ++
    (d.file.map fun file => (Key.string "__file__", Value.string file)).toList

/-- The file that stands among the entries. -/
def fileOf : Value → Option String
  | .string file => some file
  | .null | .bool _ | .int _ | .float _ | .moment _ | .bytes _ | .list _ | .map _ | .set _ | .pair _ _
  | .endless => none

def ofEntries (fields : Fields) : Document := ofFields fields (fileOf (fields.get "__file__"))

theorem ofEntries_entries (d : Document) : ofEntries d.entries = d := by
  obtain ⟨version, tree, abbreviation, file⟩ := d
  cases abbreviation with
  | none => cases file <;> rfl
  | some v => cases file <;> rfl

/-- What becomes of the map of a file: why it cannot be loaded, or what the check of the loaded document comes
to, which is handed on as one map. -/
def outcome (file : String) (fields : Fields) : Except LoadFailure (Except Rejection Tree) :=
  (ofValue file (.map fields)).result.map fun d => (ofEntries d.entries).validate

/-- The document that a map declares, of whatever version it is. -/
def declared (file : String) (fields : Fields) : Document :=
  { ofFields fields (some file) with tree := wrapTree (fields.get "tree") }

theorem declared_eq {fields others : Fields} (h : SameDeclared fields others) (file : String) :
    declared file fields = declared file others := by
  have hversion : fields.get "schema_version" = others.get "schema_version" := by
    rw [Fields.get, Fields.get, h.version]
  have htree : wrapTree (fields.get "tree") = wrapTree (others.get "tree") := by
    rcases h.tree with heq | ⟨elements, hlist, hrecord⟩
    · rw [Fields.get, Fields.get, heq]
    · rw [Fields.get_of_get?_some hlist, Fields.get_of_get?_some hrecord]
      rfl
  unfold declared ofFields
  rw [hversion, h.abbreviation, htree]

variable {file : String} {fields : Fields}

theorem outcome_of_not_writable (h : ¬ fields.Writable) : outcome file fields = .error .longNumber := by
  unfold outcome ofValue
  dsimp only
  rw [unknownKeys?_eq_none.mpr h]
  rfl

theorem outcome_of_writable (h : fields.Writable) : outcome file fields =
    match unsupportedVersion? (fields.get "schema_version") with
    | some version => .error (.reported (.unsupportedVersion version))
    | none => .ok (declared file fields).validate := by
  have hsome : unknownKeys? names fields ≠ none := fun hnone => unknownKeys?_eq_none.mp hnone h
  unfold outcome ofValue
  dsimp only
  cases hu : unknownKeys? names fields with
  | none => exact absurd hu hsome
  | some unknown =>
    simp only [ofEntries_entries]
    unfold ofMap
    dsimp only [ofFields]
    cases unsupportedVersion? (fields.get "schema_version") with
    | some version => rfl
    | none => rfl

theorem file_of_validate {d : Document} {reports : List Diagnostic} (h : d.validate = .error (.faulty reports)) :
    ∀ report ∈ reports, report.file = d.file := by
  intro report hreport
  obtain ⟨faults, -, hr⟩ := d.validate_eq_error.mp h
  unfold Rejection.ofFaults at hr
  split at hr
  · cases hr
  · cases hr
    obtain ⟨fault, -, rfl⟩ := List.mem_map.mp (Diagnostic.mem_sort.mp hreport)
    rfl

theorem unsupportedVersion?_eq_none {v : Value} :
    unsupportedVersion? v = none ↔ ∀ version, v = .string version → v.IsWritten → IsSupported version := by
  rw [Option.eq_none_iff_forall_ne_some]
  refine forall_congr' fun version => ?_
  rw [ne_eq, unsupportedVersion?_eq_some, not_and, not_and, Classical.not_not]

theorem outcome_eq_error {failure : LoadFailure} : outcome file fields = .error failure ↔
    ¬ fields.Writable ∧ failure = .longNumber ∨
      fields.Writable ∧ ∃ version, fields.get "schema_version" = .string version ∧
        (fields.get "schema_version").IsWritten ∧ ¬ IsSupported version ∧
        failure = .reported (.unsupportedVersion version) := by
  by_cases hw : fields.Writable
  · rw [outcome_of_writable hw]
    cases hu : unsupportedVersion? (fields.get "schema_version") with
    | none =>
      simp only [hw, not_true_eq_false, false_and, false_or, true_and, reduceCtorEq, false_iff]
      rintro ⟨version, hversion, hwritten, hnot, -⟩
      exact hnot (unsupportedVersion?_eq_none.mp hu version hversion hwritten)
    | some version =>
      have hspec := unsupportedVersion?_eq_some.mp hu
      simp only [hw, not_true_eq_false, false_and, false_or, true_and, Except.error.injEq]
      constructor
      · rintro rfl
        exact ⟨version, hspec.1, hspec.2.1, hspec.2.2, rfl⟩
      · rintro ⟨other, hother, -, -, rfl⟩
        rw [hspec.1] at hother
        cases hother
        rfl
  · rw [outcome_of_not_writable hw]
    simp only [hw, not_false_eq_true, true_and, false_and, or_false, Except.error.injEq]
    exact eq_comm

/-- A map is checked if its keys can be written out and its version is none of those to come. -/
theorem outcome_eq_ok {validated : Except Rejection Tree} : outcome file fields = .ok validated ↔
    fields.Writable ∧ unsupportedVersion? (fields.get "schema_version") = none ∧
      (declared file fields).validate = validated := by
  by_cases hw : fields.Writable
  · rw [outcome_of_writable hw]
    cases unsupportedVersion? (fields.get "schema_version") with
    | some version => simp
    | none => simp [hw]
  · rw [outcome_of_not_writable hw]
    simp [hw]

/-- A map with a tree gives a version that can be read. -/
theorem isSupported_of_outcome {tree : Tree} (h : outcome file fields = .ok (.ok tree)) :
    ∃ version, fields.get "schema_version" = .string version ∧ IsSupported version := by
  obtain ⟨-, hu, hvalid⟩ := outcome_eq_ok.mp h
  have hwritten : (fields.get "schema_version").IsWritten := (wellFormed_of_validate hvalid).1.version
  obtain ⟨version, hversion, -⟩ := id hwritten
  exact ⟨version, hversion, unsupportedVersion?_eq_none.mp hu version hversion hwritten⟩

/-- **A document is what it declares.**  Of two maps whose keys can be written out and that declare the same
document both come to the same, whatever else is in them.  All that is reported names the file of the map.  A
tree goes with a version that can be read.  A map whose keys can be written out cannot be loaded just if its
version is text that is not blank and cannot be read, and this is what is reported then.

There are two ways in which nothing comes of a map.  One with a key that cannot be written out, whatever that
key is, cannot be loaded, and nothing is reported about it.  And the check of a map that is loaded breaks off
just if something in the tree that it declares hinders it, and for a reason that does. -/
theorem outcome_declared (file : String) (fields : Fields) :
    (∀ others : Fields, fields.Writable → others.Writable → SameDeclared fields others →
        outcome file fields = outcome file others) ∧
      (∀ reports, outcome file fields = .ok (.error (.faulty reports)) →
        ∀ report ∈ reports, report.file = some file) ∧
      (∀ fault, outcome file fields = .error (.reported fault) →
        (fault.diagnostic file).file = some file ∧ (fault.diagnostic file).code = "E_UNSUPPORTED_SCHEMA") ∧
      (∀ tree, outcome file fields = .ok (.ok tree) →
        ∃ version, fields.get "schema_version" = .string version ∧ IsSupported version) ∧
      (fields.Writable → ((∃ failure, outcome file fields = .error failure) ↔
        ∃ version, fields.get "schema_version" = .string version ∧
          (∃ c ∈ version.toList, Text.isBlank c = false) ∧ ¬ IsSupported version)) ∧
      (outcome file fields = .error .longNumber ↔ ¬ fields.Writable) ∧
      (∀ cause, outcome file fields = .ok (.error (.hindered cause)) →
        HindersTree cause (wrapTree (fields.get "tree"))) ∧
      ((∃ cause, outcome file fields = .ok (.error (.hindered cause))) ↔
        fields.Writable ∧
          (∀ version, fields.get "schema_version" = .string version →
            (∃ c ∈ version.toList, Text.isBlank c = false) → IsSupported version) ∧
          ∃ cause, HindersTree cause (wrapTree (fields.get "tree"))) := by
  obtain ⟨hcause, hhindered⟩ := (declared file fields).validate_hindered
  refine ⟨?_, ?_, ?_, fun tree => isSupported_of_outcome, ?_, ?_, ?_, ?_⟩
  · intro others hfields hothers h
    have hversion : fields.get "schema_version" = others.get "schema_version" := by
      rw [Fields.get, Fields.get, h.version]
    rw [outcome_of_writable hfields, outcome_of_writable hothers, hversion, declared_eq h]
  · intro reports h
    exact file_of_validate (outcome_eq_ok.mp h).2.2
  · intro fault h
    obtain ⟨-, hlong⟩ | ⟨-, version, -, -, -, hreported⟩ := outcome_eq_error.mp h
    · cases hlong
    · cases hreported
      exact ⟨rfl, rfl⟩
  · intro hw
    constructor
    · rintro ⟨failure, h⟩
      obtain ⟨hnot, -⟩ | ⟨-, version, hversion, hwritten, hnot, -⟩ := outcome_eq_error.mp h
      · exact absurd hw hnot
      · rw [hversion, Value.isWritten_string] at hwritten
        exact ⟨version, hversion, Text.isBlankText_eq_false.mp hwritten, hnot⟩
    · rintro ⟨version, hversion, hblank, hnot⟩
      have hwritten : (fields.get "schema_version").IsWritten := ⟨version, hversion, hblank⟩
      refine ⟨.reported (.unsupportedVersion version), outcome_eq_error.mpr (.inr ?_)⟩
      exact ⟨hw, version, hversion, hwritten, hnot, rfl⟩
  · constructor
    · intro h
      obtain ⟨hnot, -⟩ | ⟨-, version, -, -, -, hreported⟩ := outcome_eq_error.mp h
      · exact hnot
      · cases hreported
    · exact outcome_of_not_writable
  · intro cause h
    exact hcause cause (outcome_eq_ok.mp h).2.2
  -- a version that is blank or no text passes here, and is a fault of the check
  · have hsupported : unsupportedVersion? (fields.get "schema_version") = none ↔
        ∀ version, fields.get "schema_version" = .string version →
          (∃ c ∈ version.toList, Text.isBlank c = false) → IsSupported version := by
      rw [unsupportedVersion?_eq_none]
      refine forall_congr' fun version => imp_congr_right fun hversion => ?_
      rw [hversion, Value.isWritten_string, Text.isBlankText_eq_false]
    simp only [outcome_eq_ok, exists_and_left, hhindered, hsupported]
    rfl

/-- An entry for the file and an entry for a truth value change nothing, and neither does the map around the
elements of a tree.  An entry for a number with a digit more than can be written does. -/
theorem outcome_declared_entries :
    let fields : Fields := [(.string "schema_version", .string " 0.1 "), (.string "tree", .list [])]
    let others : Fields :=
      [(.string "__file__", .string "u.yaml"), (.bool true, .null),
        (.string "tree", .record [("elements", .list [])]), (.string "schema_version", .string " 0.1 ")]
    let tooLong : Fields := (.int (Number.power 10 Number.mostDigits : Nat), .null) :: fields
    outcome "t.yaml" fields = outcome "t.yaml" others ∧
      outcome "t.yaml" others = .ok (.ok { statements := [], repeater := none }) ∧
      SameDeclared tooLong fields ∧ outcome "t.yaml" tooLong = .error .longNumber := by
  intro fields others tooLong
  have hfields : fields.Writable := by
    simp [Fields.Writable, fields, Key.isWritable]
  have hothers : others.Writable := by
    simp [Fields.Writable, others, Key.isWritable]
  have hsame : SameDeclared fields others := ⟨rfl, rfl, .inr ⟨[], rfl, rfl⟩⟩
  have heq := (outcome_declared "t.yaml" fields).1 others hfields hothers hsame
  refine ⟨heq, ?_, ⟨rfl, rfl, .inl rfl⟩, ?_⟩
  · rw [← heq, outcome_of_writable hfields]
    rfl
  · refine (outcome_declared "t.yaml" tooLong).2.2.2.2.2.1.mpr (Fields.not_writable_iff.mpr ?_)
    refine ⟨_, .null, List.mem_cons_self, ?_⟩
    rw [isWritable, Int.natAbs_natCast, decide_eq_false_iff_not]
    exact Nat.lt_irrefl _

end Document

end Shorthand
