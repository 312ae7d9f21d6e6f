import Shorthand.Proofs.Command.Verdict

/-!
# The commands agree

Validation, lint and expansion agree about every document: they end alike and give the same reports, and
in JSON these are told as in text.

* `Outcome.Ends`, `Outcome.Breaks`, `Outcome.TellsInJson`: how a command ends, and what it tells;
* `Run.checks`, `Run.outcome_of_mem_checks`: the commands, each an outcome of the verdict;
* `Run.Stops`: the check of a document breaks off;
* `Command.run_agree`: what they agree about.
-/

namespace Shorthand

/-! ### Endings -/

namespace Outcome

/-- A command ends with a code and with reports, behind what has been logged. -/
structure Ends (o : Outcome) (code : Nat) (log : List LogLine) (reports : List Diagnostic) : Prop where
  ending : o.ending = .exit code
  notices : o.notices = log.map .logged ++ reports.map .reported

/-- A command breaks off, and reports nothing about it. -/
structure Breaks (o : Outcome) (cause : Crash) (log : List LogLine) : Prop where
  ending : o.ending = .crash cause
  notices : o.notices = log.map .logged

/-- What a check prints in JSON are the reports that it gives as text, with a code that says whether
there are any. -/
structure TellsInJson (text json : Outcome) (name : String) (log : List LogLine) : Prop where
  ending : json.ending = text.ending
  notices : json.notices = log.map .logged
  reports : ∀ code, text.ending = .exit code → ∃ (reports : List Diagnostic) (more : List (String × Value)),
    text.notices = log.map .logged ++ reports.map .reported ∧
    json.output = [Json.indented ⟨true, true⟩ (.record
      ([("tool", .string "abbr"), ("command", .string name), ("ok", .bool (code = 0)),
        ("error_count", .int reports.length), ("errors", .list (reports.map Diagnostic.record))] ++ more))] ∧
    (code = 0 ↔ reports.length = 0)

variable {store : Store} {o text json : Outcome} {code : Nat} {log : List LogLine}
  {reports : List Diagnostic} {name : String}

theorem Ends.after (h : o.Ends code [] reports) (log : List LogLine) : (o.after log).Ends code log reports :=
  ⟨h.ending, congrArg _ h.notices⟩

theorem Ends.code_eq (h : o.Ends code log reports) : o.code = code := by rw [Outcome.code, h.ending]

theorem ends_refused (hs : Diagnostic.sort reports = reports) :
    (refused store code reports).Ends code [] reports :=
  ⟨rfl, by rw [refused, hs]; rfl⟩

theorem TellsInJson.after (h : text.TellsInJson json name []) (log : List LogLine) :
    (text.after log).TellsInJson (json.after log) name log where
  ending := h.ending
  notices := by rw [Outcome.after, h.notices]; exact List.append_nil _
  reports := by
    intro code hc
    obtain ⟨reports, more, hn, ho, hz⟩ := h.reports code hc
    exact ⟨reports, more, congrArg _ hn, ho, hz⟩

theorem tellsInJson_found (more : List (String × Value)) (hc : code ≠ 0) (hne : reports ≠ [])
    (hs : Diagnostic.sort reports = reports) :
    (Run.found store .text name code reports more).TellsInJson (Run.found store .json name code reports more)
      name [] where
  ending := rfl
  notices := rfl
  reports := by
    intro other ho
    cases ho
    have hempty : reports.isEmpty = false := List.isEmpty_eq_false_iff.mpr hne
    refine ⟨reports, more, (ends_refused hs).notices, ?_, ?_⟩
    · have hok : decide (code = 0) = false := decide_eq_false hc
      rw [Run.found, ended, Run.jsonReport, hempty, hok]
    · exact ⟨fun h => absurd h hc, fun h => absurd (List.length_eq_zero_iff.mp h) hne⟩

theorem tellsInJson_done (lines : List String) (more : List (String × Value)) :
    (done store lines).TellsInJson (done store [Run.jsonReport name [] more]) name [] where
  ending := rfl
  notices := rfl
  reports := by
    intro other ho
    cases ho
    exact ⟨[], more, rfl, rfl, Iff.rfl⟩

end Outcome

/-! ### Agreement -/

namespace Run

variable [Library]

/-- The outcomes of the commands that check a document, in text. -/
def checks (store : Store) (file out format : String) (g : Given) : List Outcome :=
  [Command.run store (.validate file "text"), Command.run store (.lint file "text" none),
    Command.run store (.convert file out format g)]

/-- The check of a document breaks off: it is not loaded, or what is loaded hinders its validation. -/
def Stops (store : Store) (file : String) : Prop :=
  (∃ failure, (Document.load store file).result = .error failure) ∨
    ∃ d cause, (Document.load store file).result = .ok d ∧ d.validate = .error (.hindered cause)

section Checks

variable {store : Store} {file out name : String} {format : Format} {g : Given} {s : Settings}

theorem verdict_of_valid {d : Document} {tree : Tree} (h : (Document.load store file).result = .ok d)
    (hd : d.validate = .ok tree) : verdict store file = .valid d tree := by
  simp only [verdict, h, hd]

theorem verdict_of_faulty {d : Document} {reports : List Diagnostic}
    (h : (Document.load store file).result = .ok d) (hd : d.validate = .error (.faulty reports)) :
    verdict store file = .invalid reports := by
  simp only [verdict, h, hd]

theorem verdict_of_hindered {d : Document} {cause : Hindrance}
    (h : (Document.load store file).result = .ok d) (hd : d.validate = .error (.hindered cause)) :
    verdict store file = .crashed (.hindered cause) := by
  simp only [verdict, h, hd]

/-! #### Documents that are refused -/

section Refused

variable {o : Outcome} (hf : formats.lookup name = some format) (ho : o ∈ checks store file out name g)
include hf ho

/-- **A command that checks a document** acts on the verdict. -/
theorem outcome_of_mem_checks : ∃ next : Document → Tree → Outcome,
    o = ((verdict store file).outcome store (.refused store) next).after (Document.load store file).log := by
  unfold checks at ho
  rw [List.mem_cons, List.mem_cons, List.mem_singleton] at ho
  rcases ho with rfl | rfl | rfl
  · exact ⟨_, validate_eq store file .text⟩
  · exact ⟨_, lint_eq store file .text⟩
  · exact ⟨_, convert_eq store file hf out g⟩

theorem ends_of_unloaded {report : Diagnostic} (hv : verdict store file = .unloaded report) :
    o.Ends 1 (Document.load store file).log [report] := by
  obtain ⟨next, rfl⟩ := outcome_of_mem_checks hf ho
  rw [hv]
  exact (Outcome.ends_refused (Diagnostic.sort_singleton _)).after _

theorem breaks_of_crashed {cause : Crash} (hv : verdict store file = .crashed cause) :
    o.Breaks cause (Document.load store file).log := by
  obtain ⟨next, rfl⟩ := outcome_of_mem_checks hf ho
  rw [hv]
  exact ⟨rfl, List.append_nil _⟩

theorem ends_of_invalid {reports : List Diagnostic} (hv : verdict store file = .invalid reports) :
    o.Ends 2 (Document.load store file).log reports := by
  obtain ⟨next, rfl⟩ := outcome_of_mem_checks hf ho
  rw [hv]
  exact (Outcome.ends_refused (reports_of_invalid hv).2).after _

theorem ends_of_reported {fault : Document.LoadFault}
    (h : (Document.load store file).result = .error (.reported fault)) :
    o.Ends 1 (Document.load store file).log [fault.diagnostic (Path.ofText file).text] :=
  ends_of_unloaded hf ho (by rw [verdict, h])

end Refused

/-- A failure to load is reported, or the command breaks off. -/
theorem reported_or_crashed {failure : Document.LoadFailure}
    (h : (Document.load store file).result = .error failure) :
    (∃ fault, failure = .reported fault) ∨ ∃ cause, verdict store file = .crashed cause := by
  rw [verdict, h]
  cases failure with
  | reported fault => exact .inl ⟨fault, rfl⟩
  | unreachable fault => exact .inr ⟨_, rfl⟩
  | noValue cause => exact .inr ⟨_, rfl⟩
  | longNumber => exact .inr ⟨_, rfl⟩

/-! #### Documents that are valid -/

section Valid

variable {d : Document} {tree : Tree} (h : (Document.load store file).result = .ok d) (hd : d.validate = .ok tree)

omit [Library] in
theorem ends_linted (store : Store) (d : Document) (tree : Tree) :
    (linted store .text (standardLint d tree)).Ends (if standardLint d tree = [] then 0 else 2) []
      (standardLint d tree) := by
  have hs : Diagnostic.sort (standardLint d tree) = standardLint d tree := Diagnostic.sort_sort _
  cases hr : standardLint d tree with
  | nil => exact ⟨rfl, rfl⟩
  | cons report rest =>
    rw [hr] at hs
    exact Outcome.ends_refused hs

include h hd

theorem validate_of_valid :
    (Command.run store (.validate file "text")).Ends 0 (Document.load store file).log [] := by
  have he : Command.run store (.validate file "text") = _ := validate_eq store file .text
  rw [he, verdict_of_valid h hd]
  exact Outcome.Ends.after ⟨rfl, rfl⟩ _

theorem lint_of_valid :
    (Command.run store (.lint file "text" none)).Ends (if standardLint d tree = [] then 0 else 2)
      (Document.load store file).log (standardLint d tree) := by
  have he : Command.run store (.lint file "text" none) = _ := lint_eq store file .text
  rw [he, verdict_of_valid h hd]
  exact (ends_linted store d tree).after _

theorem convert_of_valid (hf : formats.lookup name = some format) (hg : g.load store none = .ok s) :
    Command.run store (.convert file out name g) =
      (expanded store (tree.attempt s.source) (saveNodes store out format)).after
        (Document.load store file).log := by
  have he : Command.run store (.convert file out name g) = _ := convert_eq store file hf out g
  rw [he, verdict_of_valid h hd]
  dsimp only [Verdict.outcome]
  rw [Outcome.withSettings_of_load hg]

end Valid

/-! #### Codes -/

/-- Validation and lint have the code of a fault in loading just if the check breaks off. -/
theorem code_one_iff {o : Outcome}
    (ho : o = Command.run store (.validate file "text") ∨ o = Command.run store (.lint file "text" none)) :
    o.code = 1 ↔ Stops store file := by
  have hmem : o ∈ checks store file "" "yaml" {} := by
    unfold checks
    rcases ho with rfl | rfl <;> simp
  cases hr : (Document.load store file).result with
  | error failure =>
    -- a failure that is not reported has this code as well
    refine iff_of_true ?_ (.inl ⟨failure, hr⟩)
    obtain ⟨fault, rfl⟩ | ⟨cause, hv⟩ := reported_or_crashed hr
    · exact (ends_of_reported rfl hmem hr).code_eq
    · rw [Outcome.code, (breaks_of_crashed rfl hmem hv).ending]
  | ok d =>
    have hstops : Stops store file ↔ ∃ cause, d.validate = .error (.hindered cause) := by
      simp [Stops, hr]
    rw [hstops]
    cases hd : d.validate with
    | ok tree =>
      refine iff_of_false ?_ ?_
      · rcases ho with rfl | rfl
        · rw [(validate_of_valid hr hd).code_eq]
          decide
        · rw [(lint_of_valid hr hd).code_eq]
          split <;> decide
      · rintro ⟨cause, h⟩
        cases h
    | error rejection =>
      cases rejection with
      | faulty reports =>
        refine iff_of_false ?_ ?_
        · rw [(ends_of_invalid rfl hmem (verdict_of_faulty hr hd)).code_eq]
          decide
        · rintro ⟨cause, h⟩
          cases h
      | hindered cause =>
        refine iff_of_true ?_ ⟨cause, rfl⟩
        rw [Outcome.code, (breaks_of_crashed rfl hmem (verdict_of_hindered hr hd)).ending]

variable (hf : formats.lookup name = some format)
include hf

/-- All commands report one thing and have the code of a fault in loading just if there is one. -/
theorem all_report_iff :
    (∃ report, ∀ o ∈ checks store file out name g, o.Ends 1 (Document.load store file).log [report]) ↔
      ∃ fault, (Document.load store file).result = .error (.reported fault) := by
  constructor
  · rintro ⟨report, h⟩
    have hmem : Command.run store (.validate file "text") ∈ checks store file out name g := List.mem_cons_self
    have hends := h _ hmem
    obtain ⟨failure, hr⟩ | ⟨d, cause, hr, hd⟩ := (code_one_iff (.inl rfl)).mp hends.code_eq
    · obtain ⟨fault, rfl⟩ | ⟨cause, hv⟩ := reported_or_crashed hr
      · exact ⟨fault, hr⟩
      · cases hends.ending.symm.trans (breaks_of_crashed hf hmem hv).ending
    · cases hends.ending.symm.trans (breaks_of_crashed hf hmem (verdict_of_hindered hr hd)).ending
  · rintro ⟨fault, h⟩
    exact ⟨_, fun o ho => ends_of_reported hf ho h⟩

/-- All commands have the code of faults in a document just if there are some: validation has not if the
document is valid. -/
theorem all_code_two_iff :
    (∀ o ∈ checks store file out name g, o.code = 2) ↔
      ∃ d reports, (Document.load store file).result = .ok d ∧ d.validate = .error (.faulty reports) := by
  constructor
  · intro h
    have htwo : (Command.run store (.validate file "text")).code = 2 := h _ List.mem_cons_self
    have hstops : ¬ Stops store file := fun hstops => by
      rw [(code_one_iff (.inl rfl)).mpr hstops] at htwo
      cases htwo
    cases hr : (Document.load store file).result with
    | error failure => exact absurd (.inl ⟨failure, hr⟩) hstops
    | ok d =>
      cases hd : d.validate with
      | ok tree =>
        rw [(validate_of_valid hr hd).code_eq] at htwo
        cases htwo
      | error rejection =>
        cases rejection with
        | faulty reports => exact ⟨d, reports, rfl, hd⟩
        | hindered cause => exact absurd (.inr ⟨d, cause, hr, hd⟩) hstops
  · rintro ⟨d, reports, hl, hd⟩ o ho
    exact (ends_of_invalid hf ho (verdict_of_faulty hl hd)).code_eq

end Checks

/-- What a check gives up with is told in JSON as in text, if what it finds otherwise is. -/
theorem tellsInJson_outcome {store : Store} {file name : String} (more : List (String × Value))
    {text json : Document → Tree → Outcome} (h : ∀ d tree, (text d tree).TellsInJson (json d tree) name [])
    (log : List LogLine) :
    (((verdict store file).outcome store (found store .text name · · more) text).after log).TellsInJson
      (((verdict store file).outcome store (found store .json name · · more) json).after log) name log := by
  refine Outcome.TellsInJson.after ?_ log
  cases hv : verdict store file with
  | unloaded report =>
    exact Outcome.tellsInJson_found more (by decide) (List.cons_ne_nil _ _) (Diagnostic.sort_singleton _)
  | crashed cause => exact ⟨rfl, rfl, nofun⟩
  | invalid reports =>
    obtain ⟨hne, hs⟩ := reports_of_invalid hv
    exact Outcome.tellsInJson_found more (by decide) hne hs
  | valid d tree => exact h d tree

omit [Library] in
theorem tellsInJson_linted (store : Store) (d : Document) (tree : Tree) :
    (linted store .text (standardLint d tree)).TellsInJson (linted store .json (standardLint d tree)) "lint" [] := by
  have hs : Diagnostic.sort (standardLint d tree) = standardLint d tree := Diagnostic.sort_sort _
  cases hr : standardLint d tree with
  | nil => exact Outcome.tellsInJson_done _ []
  | cons report rest =>
    rw [hr] at hs
    exact Outcome.tellsInJson_found [] (by decide) (List.cons_ne_nil _ _) hs

theorem validate_tellsInJson (store : Store) (file : String) :
    (Command.run store (.validate file "text")).TellsInJson (Command.run store (.validate file "json"))
      "validate" (Document.load store file).log := by
  have htext : Command.run store (.validate file "text") = _ := validate_eq store file .text
  have hjson : Command.run store (.validate file "json") = _ := validate_eq store file .json
  rw [htext, hjson]
  exact tellsInJson_outcome _ (fun d tree => Outcome.tellsInJson_done _ _) _

theorem lint_tellsInJson (store : Store) (file : String) :
    (Command.run store (.lint file "text" none)).TellsInJson (Command.run store (.lint file "json" none))
      "lint" (Document.load store file).log := by
  have htext : Command.run store (.lint file "text" none) = _ := lint_eq store file .text
  have hjson : Command.run store (.lint file "json" none) = _ := lint_eq store file .json
  rw [htext, hjson]
  exact tellsInJson_outcome _ (tellsInJson_linted store) _

end Run

open Run

section

variable [Library]

/-- **The commands agree** about every document, whatever reads and writes the formats, as long as the
other options are valid and a file can be put where the result goes.

Validation, lint and expansion all end with code 1 and with one and the same report just if loading has a
fault that is reported.  If loading fails without a report, or if something hinders the check of what is
loaded, then they all break off with the same cause, and report nothing.  In these cases alone the code of
validation or lint is 1.  If the document is loaded and is not valid, they all end with code 2 and with the
reports of validation, and all of them have this code in no other case.  And if it is valid, then validation
ends with code 0, and lint with 0 or 2 according to what it reports.  An expansion then ends with code 0 and
has put what is written of its nodes in the file, unless it breaks off or the writing does.  What has been
logged comes first each time.

In JSON, validation and lint tell the same reports in the same order, and say whether there are any by
the code, by the number of reports and in so many words.  Whatever the other options are, an expansion
that ends with a code other than 0 leaves the files and folders as they were, unless the writing itself
breaks off: then there is in the file what has been written by then. -/
theorem Command.run_agree {store : Store} {out name : String} {format : Format} {g : Given} {s : Settings}
    (hf : formats.lookup name = some format) (hout : store.IsWritable (Path.ofText out))
    (hg : g.load store none = .ok s) (file : String) :
    let loading := Document.load store file
    let validate (style : String) := Command.run store (.validate file style)
    let lint (style : String) := Command.run store (.lint file style none)
    let convert (name : String) (g : Given) := Command.run store (.convert file out name g)
    let all := [validate "text", lint "text", convert name g]
    ((∃ report, ∀ o ∈ all, o.Ends 1 loading.log [report]) ↔
        ∃ fault, loading.result = .error (.reported fault)) ∧
      (∀ fault, loading.result = .error (.reported fault) →
        ∀ o ∈ all, o.Ends 1 loading.log [fault.diagnostic (Path.ofText file).text]) ∧
      (∀ failure, loading.result = .error failure → (∀ fault, failure ≠ .reported fault) →
        ∃ cause, ∀ o ∈ all, o.Breaks cause loading.log) ∧
      (∀ d cause, loading.result = .ok d → d.validate = .error (.hindered cause) →
        ∀ o ∈ all, o.Breaks (.hindered cause) loading.log) ∧
      (∀ o, o = validate "text" ∨ o = lint "text" → (o.code = 1 ↔ Stops store file)) ∧
      (∀ d reports, loading.result = .ok d → d.validate = .error (.faulty reports) →
        ∀ o ∈ all, o.Ends 2 loading.log reports) ∧
      ((∀ o ∈ all, o.code = 2) ↔
        ∃ d reports, loading.result = .ok d ∧ d.validate = .error (.faulty reports)) ∧
      (∀ d tree, loading.result = .ok d → d.validate = .ok tree →
        (validate "text").Ends 0 loading.log [] ∧
          (lint "text").Ends (if standardLint d tree = [] then 0 else 2) loading.log (standardLint d tree) ∧
          Converts store out format (convert name g) (tree.attempt s.source).1 ∧
          (convert name g).notices =
            (loading.log ++ (tree.attempt s.source).2.events.map Event.line).map .logged) ∧
      (validate "text").TellsInJson (validate "json") "validate" loading.log ∧
      (lint "text").TellsInJson (lint "json") "lint" loading.log ∧
      ∀ name g, (convert name g).code ≠ 0 → (convert name g).store = store ∨
        ∃ text cause, Written store file name g (text, some cause) ∧
          store.Saved (Path.ofText out) text (convert name g).store := by
  intro loading validate lint convert all
  refine ⟨all_report_iff hf, fun fault h o ho => ends_of_reported hf ho h, ?_, ?_, fun o => code_one_iff, ?_,
    all_code_two_iff hf, ?_, validate_tellsInJson store file, lint_tellsInJson store file,
    fun name g h => convert_store hout file name g h⟩
  · intro failure h hn
    obtain ⟨fault, he⟩ | ⟨cause, hv⟩ := reported_or_crashed h
    · exact absurd he (hn fault)
    · exact ⟨cause, fun o ho => breaks_of_crashed hf ho hv⟩
  · intro d cause h hd o ho
    exact breaks_of_crashed hf ho (verdict_of_hindered h hd)
  · intro d reports h hd o ho
    exact ends_of_invalid hf ho (verdict_of_faulty h hd)
  · intro d tree h hd
    have hc : convert name g = _ := convert_of_valid h hd hf hg
    refine ⟨validate_of_valid h hd, lint_of_valid h hd, ?_, ?_⟩
    · rw [hc]
      exact converts_expanded hout format (tree.attempt s.source)
    · rw [hc]
      exact notices_expanded hout format (tree.attempt s.source) loading.log

end

/-- There is no file `a.yaml`: each command reports it, and lint does so in JSON as well.  A word in
`t.yaml` is no truth value: each command breaks off without a report. -/
theorem Command.run_agree_unknownWord :
    let store : Store := { items := [(["t.yaml"], .file "tree: !!bool x\n".toUTF8), ([], .folder)] }
    let g : Given := { texts := ["a"] }
    let report : Diagnostic :=
      { stage := .load, code := "E_FILE_NOT_FOUND", message := "file does not exist", file := some "a.yaml"
        position := none }
    formats.lookup "yaml" = some .yaml ∧ store.IsWritable (Path.ofText "o.yaml") ∧
      g.load store none = .ok { text := .items [some "a"], vars := Settings.standard.vars } ∧
      (∀ o ∈ checks store "a.yaml" "o.yaml" "yaml" g, o.Ends 1 [] [report]) ∧
      (Command.run store (.lint "a.yaml" "text" none)).TellsInJson
        (Command.run store (.lint "a.yaml" "json" none)) "lint" [] ∧
      (∃ cause, ∀ o ∈ checks store "t.yaml" "o.yaml" "yaml" g, o.Breaks cause []) ∧
      ¬ ∃ report, ∀ o ∈ checks store "t.yaml" "o.yaml" "yaml" g, o.Ends 1 [] [report] := by
  intro store g report
  have hf : formats.lookup "yaml" = some .yaml := rfl
  have hout : store.IsWritable (Path.ofText "o.yaml") := ⟨store, rfl, ["o.yaml"], rfl, nofun⟩
  have hg : g.load store none = .ok { text := .items [some "a"], vars := Settings.standard.vars } := rfl
  have hmissing : Document.load store "a.yaml" = { result := .error (.reported .notFound) } := rfl
  have hword : ∃ cause, (Document.load store "t.yaml").result = .error (.noValue cause) := by
    have h : (match (Document.load store "t.yaml").result with
      | .error (.noValue _) => true
      | _ => false) = true := by decide +kernel
    split at h
    · next cause heq => exact ⟨cause, heq⟩
    · cases h
  have hlog : (Document.load store "t.yaml").log = [] := by decide +kernel
  obtain ⟨-, hreported, -, -, -, -, -, -, -, hjson, -⟩ := Command.run_agree hf hout hg "a.yaml"
  obtain ⟨hsame, -, hbreaks, -⟩ := Command.run_agree hf hout hg "t.yaml"
  rw [hmissing] at hreported hjson
  rw [hlog] at hbreaks hsame
  obtain ⟨cause, hcause⟩ := hword
  refine ⟨hf, hout, hg, hreported .notFound rfl, hjson, hbreaks _ hcause nofun, fun h => ?_⟩
  obtain ⟨fault, hfault⟩ := hsame.mp h
  cases hcause.symm.trans hfault

end Shorthand
