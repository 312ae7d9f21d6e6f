import Shorthand.Command.Run
import Shorthand.Proofs.Diagnostic.Order
import Shorthand.Proofs.Document.Grammar

/-!
# The verdict on a document

The commands that check a document load it, validate it and read settings, each in its own way.  All of
them act on one verdict.

* `Run.verdict`: what a check of a document comes to;
* `Run.validate_eq`, `Run.lint_eq`, `Run.convert_eq`: the outcome of a command, as one of the verdict;
* `Store.IsWritable`: a file can be put at a path;
* `Run.Converts`: how an expansion ends that is written to a file;
* `Run.convert_store`: an expansion that fails leaves the files alone, unless the writing breaks off.
-/

namespace Shorthand

/-! ### Files that can be written -/

/-- A file can be put at a path, once the folders that lead to it are made. -/
def Store.IsWritable (s : Store) (p : Path) : Prop :=
  ∃ made, (if p.parent.isWorkingFolder then (s, .ok ()) else s.makeFolders p.parent) = (made, .ok ()) ∧
    ∃ location, made.locate p = .ok location ∧ ∀ item ∈ made.item? location, item ≠ .folder

/-- A text is put at a path, in folders that are made if need be. -/
def Store.Saved (s : Store) (p : Path) (text : String) (s' : Store) : Prop :=
  ∃ made, (if p.parent.isWorkingFolder then (s, .ok ()) else s.makeFolders p.parent) = (made, .ok ()) ∧
    ∃ location, made.locate p = .ok location ∧ s' = made.put location (.file text.toUTF8)

/-- What is written is put at the path, all of it or what there is when the writing breaks off. -/
theorem Run.save_of_isWritable {store : Store} {out : String} (h : store.IsWritable (Path.ofText out))
    (w : String × Option Hindrance) (line : String) :
    ∃ saved, store.Saved (Path.ofText out) w.1 saved ∧
      save store out w line = match w.2 with
        | none => .done saved [Text.withoutEscapes line]
        | some cause => .crashed saved (.hindered cause) := by
  obtain ⟨made, hmade, location, hl, hitem⟩ := h
  have hwrite : made.write (Path.ofText out) w.1 = .ok (made.put location (.file w.1.toUTF8)) := by
    rw [Store.write, hl]
    cases hi : made.item? location with
    | none => simp [bind, Except.bind, hi, pure, Except.pure]
    | some item =>
      cases item with
      | file bytes => simp [bind, Except.bind, hi, pure, Except.pure]
      | folder => exact absurd rfl (hitem .folder hi)
  refine ⟨made.put location (.file w.1.toUTF8), ⟨made, hmade, location, hl, rfl⟩, ?_⟩
  rw [save, hmade]
  dsimp only
  rw [hwrite]
  cases w.2 <;> rfl

/-! ### Settings -/

theorem mapError_eq_ok {ε ε' α : Type} {a : Except ε α} {f : ε → ε'} {x : α} :
    a.mapError f = .ok x ↔ a = .ok x := by
  cases a with
  | error e =>
    constructor
    · intro h
      cases h
    · intro h
      cases h
  | ok y =>
    constructor
    · intro h
      cases h
      rfl
    · intro h
      cases h
      rfl

theorem mapError_bind_eq_ok {ε ε' α β : Type} {a : Except ε α} {f : ε → ε'} {k : α → Except ε' β} {y : β} :
    (a.mapError f >>= k) = .ok y ↔ ∃ x, a = .ok x ∧ k x = .ok y := by
  cases a with
  | error e =>
    constructor
    · intro h
      cases h
    · rintro ⟨x, hx, -⟩
      cases hx
  | ok x =>
    constructor
    · intro h
      exact ⟨x, rfl, h⟩
    · rintro ⟨z, hz, h⟩
      cases hz
      exact h

section Settings

variable [Library]

/-- What it takes for settings to be made up: the text, the assignments and the file. -/
theorem Given.load_eq_ok {store : Store} {g : Given} {s : Settings} {file : Option String} :
    g.load store file = .ok s ↔ ∃ text, g.text store = .ok text ∧
      ∃ vars, Settings.assignments g.assignments = .ok vars ∧
        Settings.load store g.settings text vars = .ok s := by
  unfold Given.load
  simp only [mapError_bind_eq_ok, mapError_eq_ok]

/-- Settings are made up or not, whatever file faults are reported with. -/
theorem Given.load_file {store : Store} {g : Given} {s : Settings} {file : Option String}
    (h : g.load store file = .ok s) (other : Option String) : g.load store other = .ok s :=
  Given.load_eq_ok.mpr (Given.load_eq_ok.mp h)

theorem Outcome.withSettings_of_load {store : Store} {g : Given} {s : Settings} {file : Option String}
    (h : g.load store file = .ok s) (other : Option String) (next : Settings → Outcome) :
    Outcome.withSettings store other g next = next s := by
  rw [withSettings, Given.load_file h other]

def Settings.standard : Settings := ({} : Settings).withGiven .absent []

theorem Given.load_nothing (store : Store) (file : Option String) :
    ({} : Given).load store file = .ok Settings.standard := rfl

end Settings

/-! ### The verdict -/

/-- At least one fault is reported about a document that is refused, and the reports are in order. -/
theorem Document.reports_of_validate {d : Document} {reports : List Diagnostic}
    (h : d.validate = .error (.faulty reports)) : reports ≠ [] ∧ Diagnostic.sort reports = reports := by
  obtain ⟨faults, hc, hr⟩ := d.validate_eq_error.mp h
  have hm := d.checked_meets
  rw [hc] at hm
  unfold Rejection.ofFaults at hr
  split at hr
  · cases hr
  · cases hr
    exact ⟨Diagnostic.sort_ne_nil (List.map_eq_nil_iff.not.mpr hm.2), Diagnostic.sort_sort _⟩

namespace Run

variable [Library]

/-- What a check of a document comes to. -/
inductive Verdict where
  | unloaded (report : Diagnostic)
  | crashed (cause : Crash)
  | invalid (reports : List Diagnostic)
  | valid (d : Document) (tree : Tree)

/-- The verdict on the document in a file. -/
def verdict (store : Store) (file : String) : Verdict :=
  match (Document.load store file).result with
  | .error (.reported fault) => .unloaded (fault.diagnostic (Path.ofText file).text)
  | .error (.unreachable fault) => .crashed (.store fault)
  | .error (.noValue cause) => .crashed (.noValue cause)
  | .error .longNumber => .crashed (.hindered .longNumber)
  | .ok d =>
    match d.validate with
    | .ok tree => .valid d tree
    | .error (.faulty reports) => .invalid reports
    | .error (.hindered cause) => .crashed (.hindered cause)

/-- The outcome of a command that gives up unless the document is valid. -/
def Verdict.outcome (store : Store) (refuse : Nat → List Diagnostic → Outcome)
    (next : Document → Tree → Outcome) : Verdict → Outcome
  | .unloaded report => refuse 1 [report]
  | .crashed cause => .crashed store cause
  | .invalid reports => refuse 2 reports
  | .valid d tree => next d tree

section Verdict

variable {store : Store} {file : String}

theorem withTree_eq (next : Document → Tree → Outcome) :
    withTree store file next =
      ((verdict store file).outcome store (.refused store) next).after (Document.load store file).log := by
  unfold withTree withDocument verdict
  obtain ⟨result, log⟩ := Document.load store file
  cases result with
  | error failure => cases failure <;> rfl
  | ok d =>
    dsimp only
    cases d.validate with
    | error rejection => cases rejection <;> rfl
    | ok tree => rfl

/-- The faults of a document that is given up are those of its validation. -/
theorem reports_of_invalid {reports : List Diagnostic} (h : verdict store file = .invalid reports) :
    reports ≠ [] ∧ Diagnostic.sort reports = reports := by
  unfold verdict at h
  split at h
  · cases h
  · cases h
  · cases h
  · cases h
  · split at h
    · cases h
    · next hv =>
      cases h
      exact Document.reports_of_validate hv
    · cases h

end Verdict

/-! ### The commands -/

section Commands

variable (store : Store) (file : String)

def ReportStyle.format : ReportStyle → String
  | .text => "text"
  | .json => "json"

omit [Library] in
theorem withStyle_format (code : String) (style : ReportStyle) (next : ReportStyle → Outcome) :
    withStyle store code style.format next = next style := by
  cases style with
  | text => exact if_pos rfl
  | json => exact (if_neg (by decide)).trans (if_pos rfl)

def validated (style : ReportStyle) (tree : Tree) : Outcome :=
  match style with
  | .text => .done store [Text.withoutEscapes tree.summary]
  | .json => .done store [jsonReport "validate" [] [("summary", statsValue tree.stats)]]

def linted (style : ReportStyle) (reports : List Diagnostic) : Outcome :=
  match reports, style with
  | [], .text => .done store ["OK: lint passed"]
  | [], .json => .done store [jsonReport "lint" [] []]
  | report :: rest, _ => found store style "lint" 2 (report :: rest) []

theorem validate_eq (style : ReportStyle) :
    validate store file style.format =
      ((verdict store file).outcome store (found store style "validate" · · [("summary", .null)])
        fun _ tree => validated store style tree).after (Document.load store file).log := by
  rw [validate, withStyle_format]
  unfold withDocument verdict
  obtain ⟨result, log⟩ := Document.load store file
  cases result with
  | error failure => cases failure <;> rfl
  | ok d =>
    dsimp only
    cases d.validate with
    | error rejection => cases rejection <;> rfl
    | ok tree => cases style <;> rfl

def standardLint (d : Document) (tree : Tree) : List Diagnostic :=
  tree.lint d.file (some (Settings.standard.vars.map (·.1)))

theorem lint_eq (style : ReportStyle) :
    lint store file style.format none =
      ((verdict store file).outcome store (found store style "lint" · · [])
        fun d tree => linted store style (standardLint d tree)).after (Document.load store file).log := by
  rw [lint, withStyle_format]
  unfold withDocument verdict
  obtain ⟨result, log⟩ := Document.load store file
  cases result with
  | error failure => cases failure <;> rfl
  | ok d =>
    dsimp only
    rw [Outcome.withSettings_of_load (Given.load_nothing store none)]
    unfold lintReports
    cases hd : d.validate with
    | error rejection =>
      cases rejection with
      | hindered cause => rfl
      | faulty reports =>
        cases reports with
        -- lint would take no reports for a tree without doubts
        | nil => exact absurd rfl (Document.reports_of_validate hd).1
        | cons report rest => cases style <;> rfl
    | ok tree =>
      dsimp only [Verdict.outcome]
      unfold linted standardLint
      cases tree.lint d.file (some (Settings.standard.vars.map (·.1))) <;> cases style <;> rfl

theorem convert_eq {name : String} {format : Format} (hf : formats.lookup name = some format) (out : String)
    (g : Given) :
    convert store file out name g =
      ((verdict store file).outcome store (.refused store) fun d tree =>
        Outcome.withSettings store d.file g fun s =>
          expanded store (tree.attempt s.source) (saveNodes store out format)).after
        (Document.load store file).log := by
  rw [convert, hf]
  exact withTree_eq _

end Commands

/-! ### Expansions that are written -/

/-- How an expansion ends that is written to a file.  If it breaks off then nothing is written; else the file
holds what is written of the nodes, and the command breaks off if the writing does. -/
def Converts (store : Store) (out : String) (format : Format) (o : Outcome) :
    Except Hindrance (List Node) → Prop
  | .error cause => o.ending = .crash (.hindered cause) ∧ o.store = store
  | .ok nodes =>
    store.Saved (Path.ofText out) (written format nodes).1 o.store ∧
      o.ending = match (written format nodes).2 with
        | none => .exit 0
        | some cause => .crash (.hindered cause)

theorem converts_expanded {store : Store} {out : String} (hout : store.IsWritable (Path.ofText out))
    (format : Format) (q : Except Hindrance (List Node) × State) :
    Converts store out format (expanded store q (saveNodes store out format)) q.1 := by
  obtain ⟨made, state⟩ := q
  cases made with
  | error cause => exact ⟨rfl, rfl⟩
  | ok nodes =>
    obtain ⟨saved, hsaved, he⟩ := save_of_isWritable hout (written format nodes)
      ("OK: wrote " ++ toString nodes.length ++ " top-level nodes to " ++ out)
    unfold expanded Converts saveNodes
    dsimp only
    rw [he, Outcome.store_after, Outcome.ending_after]
    cases (written format nodes).2 with
    | none => exact ⟨hsaved, rfl⟩
    | some cause => exact ⟨hsaved, rfl⟩

theorem notices_expanded {store : Store} {out : String} (hout : store.IsWritable (Path.ofText out))
    (format : Format) (q : Except Hindrance (List Node) × State) (log : List LogLine) :
    ((expanded store q (saveNodes store out format)).after log).notices =
      (log ++ q.2.events.map Event.line).map .logged := by
  obtain ⟨made, state⟩ := q
  unfold expanded Outcome.after
  rw [List.map_append]
  cases made with
  | error cause => simp [Outcome.crashed]
  | ok nodes =>
    obtain ⟨saved, -, he⟩ := save_of_isWritable hout (written format nodes)
      ("OK: wrote " ++ toString nodes.length ++ " top-level nodes to " ++ out)
    unfold saveNodes
    dsimp only
    rw [he]
    cases (written format nodes).2 with
    | none => simp [Outcome.done, Outcome.ended]
    | some cause => simp [Outcome.crashed]

/-- The document in a file is valid, the settings are made up, and what is written of its nodes is `w`. -/
def Written (store : Store) (file name : String) (g : Given) (w : String × Option Hindrance) : Prop :=
  ∃ format d tree s nodes, formats.lookup name = some format ∧ verdict store file = .valid d tree ∧
    g.load store d.file = .ok s ∧ (tree.attempt s.source).1 = .ok nodes ∧ written format nodes = w

/-- An expansion that fails leaves the files alone if its result can be put in its place, unless the writing
itself breaks off. -/
theorem convert_store {store : Store} {out : String} (hout : store.IsWritable (Path.ofText out))
    (file name : String) (g : Given) (h : (convert store file out name g).code ≠ 0) :
    (convert store file out name g).store = store ∨
      ∃ text cause, Written store file name g (text, some cause) ∧
        store.Saved (Path.ofText out) text (convert store file out name g).store := by
  cases hf : formats.lookup name with
  | none =>
    rw [convert, hf]
    exact .inl rfl
  | some format =>
    rw [convert_eq store file hf] at h ⊢
    rw [Outcome.store_after]
    cases hv : verdict store file with
    | unloaded report => exact .inl rfl
    | crashed cause => exact .inl rfl
    | invalid reports => exact .inl rfl
    | valid d tree =>
      rw [hv] at h
      dsimp only [Verdict.outcome] at h ⊢
      unfold Outcome.withSettings at h ⊢
      cases hl : g.load store d.file with
      | error fault => cases fault <;> exact .inl rfl
      | ok s =>
        rw [hl] at h
        dsimp only at h ⊢
        -- from here on only the expansion and the writing can fail
        have hc := converts_expanded hout format (tree.attempt s.source)
        cases hnodes : (tree.attempt s.source).1 with
        | error cause =>
          rw [hnodes] at hc
          exact .inl hc.2
        | ok nodes =>
          rw [hnodes] at hc
          obtain ⟨hsaved, hending⟩ := hc
          cases hw : (written format nodes).2 with
          | none =>
            rw [hw] at hending
            rw [Outcome.code, Outcome.ending_after, hending] at h
            exact absurd rfl h
          | some cause =>
            exact .inr ⟨(written format nodes).1, cause,
              ⟨format, d, tree, s, nodes, hf, hv, hl, hnodes, Prod.ext rfl hw⟩, hsaved⟩

end Run

end Shorthand
