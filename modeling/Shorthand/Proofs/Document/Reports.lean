import Shorthand.Proofs.Diagnostic.Order
import Shorthand.Proofs.Document.Faults
import Shorthand.Proofs.Lint.Distinct

/-!
# Reports about a document

What validation and lint report is in the only order that it may have, and what validation reports leads
to what is wrong.

* `Document.error_of_validate`: the reports of a document are those of its faults;
* `Tree.canonical_lint`: the reports of lint are in order;
* `Document.reports_located`: reports are apart, in order, and located.
-/

namespace Shorthand

theorem Tree.canonical_lint (file : Option String) (known : Option (List String)) (t : Tree) :
    Diagnostic.Canonical (t.lint file known) :=
  Diagnostic.canonical_sort <| Diagnostic.nodup_texts (fun _ _ => rfl)
    (fun _ hf => Lint.plain_of_mem_findings known t hf) (Lint.nodup_findings known t)

namespace Document

variable (fields : Fields) (file : Option String)

/-- No two faults of a document are reported at the same position. -/
theorem nodup_texts_checked :
    (Diagnostic.texts ((ofFields fields file).checked.faults.map (Fault.diagnostic file))).Nodup :=
  have hfinds := checked_finds fields file
  Diagnostic.nodup_texts (fun _ _ => rfl) (fun f hf => (hfinds.stands f hf).plain) hfinds.fills.nodup

theorem error_of_validate {d : Document} {reports : List Diagnostic} (h : d.validate = .error (.faulty reports)) :
    reports = Diagnostic.sort (d.checked.faults.map (Fault.diagnostic d.file)) := by
  obtain ⟨faults, hf, hr⟩ := d.validate_eq_error.mp h
  unfold Rejection.ofFaults at hr
  split at hr
  · cases hr
  · cases hr
    rw [hf]
    rfl

/-- **Reports are located and in order.**  Let a document be refused.  No two of the reports about it have
the same position, each has to stand before those behind it, in the order of file, position and code, and
whatever the order in which they are found, they are sorted to this one.  Each is about the file and tells
of a rule of the format: all steps of its position but the last one lead to something in the document, into
which the last one may lead, and there is nothing there though the rule asks for it, or what the rule
forbids.

The reports of lint about any tree are apart and in order in the same way. -/
theorem reports_located :
    (∀ reports, (ofFields fields file).validate = .error (.faulty reports) →
      Diagnostic.Canonical reports ∧
      ∀ r ∈ reports, r.file = file ∧ ∃ cause : Fault.Cause, r.code = cause.code ∧ r.message = cause.message ∧
        ∃ text ∈ r.position, (Value.map fields).IsPlace (Position.ofText text) ∧
          cause.Refuses ((Value.map fields).at? (Position.ofText text))) ∧
    ∀ (t : Tree) (linted : Option String) (known : Option (List String)),
      Diagnostic.Canonical (t.lint linted known) := by
  refine ⟨fun reports h => ?_, fun t linted known => t.canonical_lint linted known⟩
  have hfinds := checked_finds fields file
  rw [error_of_validate h]
  refine ⟨Diagnostic.canonical_sort (nodup_texts_checked fields file), fun r hr => ?_⟩
  obtain ⟨f, hf, rfl⟩ := List.mem_map.mp (Diagnostic.mem_sort.mp hr)
  have hstands := hfinds.stands f hf
  refine ⟨rfl, f.cause, rfl, rfl, f.position.text, rfl, ?_⟩
  rw [Position.ofText_text hstands.plain]
  exact ⟨hstands.place, hstands.refused⟩

/-- A document with four faults, two of which are found in one statement. -/
theorem reports_located_four :
    let report (code message position : String) : Diagnostic :=
      { stage := .validate, code, message, file := some "t.yaml", position := some position }
    let fields : Fields :=
      [(.string "schema_version", .string " "), (.string "abbreviation", .int 5),
        (.string "tree", .record [("elements", .list [.record
          [("name", .list [.record [("type", .string "variable")]]),
            ("repeat", .record [("count", .int (-1))])]])])]
    let reports :=
      [report "E_INVALID_TYPE" "abbreviation must be a string" "abbreviation",
        report "E_REQUIRED_FIELD" "schema_version is required and must be a non-empty string"
          "schema_version",
        report "E_REQUIRED_FIELD" "variable name is required and must be a non-empty string"
          "tree.elements[0].name[0].name",
        report "E_INVALID_REPEAT_COUNT" "repeat.count must be >= 0, got -1" "tree.elements[0].repeat.count"]
    (ofFields fields (some "t.yaml")).validate = .error (.faulty reports) ∧ Diagnostic.Canonical reports ∧
      ∀ r ∈ reports, ∃ text ∈ r.position, (Value.map fields).IsPlace (Position.ofText text) := by
  intro report fields reports
  let found := [reports[1], reports[0], reports[2], reports[3]]
  have hw : isWritable (-1) = true := by decide +kernel
  have hv : (ofFields fields (some "t.yaml")).validate = .error (.faulty (Diagnostic.sort found)) := by
    refine (validate_eq_error _).mpr ⟨_, rfl, Rejection.ofFaults_eq_faulty ?_⟩
    simp [Fault.Cause.hindrance?, Hindrance.ofInt?, hw]
  obtain ⟨hc, hr⟩ := (reports_located fields (some "t.yaml")).1 _ hv
  have hfound : Diagnostic.sort found = reports := by
    have hperm : reports.Perm (Diagnostic.sort found) := (List.Perm.swap _ _ _).trans (Diagnostic.sort_perm _).symm
    rw [← hc.unordered reports hperm]
    exact List.mergeSort_of_pairwise (by decide)
  rw [hfound] at hv hc hr
  refine ⟨hv, hc, fun r hmem => ?_⟩
  obtain ⟨-, cause, -, -, text, htext, hplace, -⟩ := hr r hmem
  exact ⟨text, htext, hplace⟩

end Document

end Shorthand
