import Shorthand.Proofs.Command.Agreement

/-!
# Settings that cannot be made up

A command that needs settings takes them from a file of text, from assignments and from a settings file.
If one of these is not what it should be, the command ends: with a report, or without one.

* `Store.Unreadable`: what keeps a file from being read as text;
* `Given.Troubled`: what is the first thing in the way of the settings that are given;
* `Given.load_eq_error`: settings are made up just if nothing is in their way;
* `Given.Trouble.Escapes`: nothing is reported about it;
* `Command.AsksSettings`: a command comes to ask for settings;
* `Command.run_troubled`: how such a command ends.
-/

namespace Shorthand

/-! ### Files that cannot be read -/

namespace Store

/-- A file cannot be read as text: the path leads to nothing that could be found, or to a folder, or to
bytes that are not text. -/
inductive Unreadable (s : Store) (p : Path) : Fault → Prop where
  | unfound {fault} (h : s.find p = .error fault) : Unreadable s p fault
  | folder (h : s.find p = .ok .folder) : Unreadable s p .isFolder
  | bytes {bytes} (h : s.find p = .ok (.file bytes)) (hb : String.fromUTF8? bytes = none) :
    Unreadable s p .notText

theorem readText_eq (s : Store) (p : Path) : s.readText p =
    match s.find p with
    | .error fault => .error fault
    | .ok .folder => .error .isFolder
    | .ok (.file bytes) =>
      match String.fromUTF8? bytes with
      | some text => .ok (.ofList (Text.foldLineEnds text.toList))
      | none => .error .notText := by
  unfold readText readBytes
  cases s.find p with
  | error fault => rfl
  | ok item =>
    cases item with
    | folder => rfl
    | file bytes =>
      simp only [bind, Except.bind, pure, Except.pure]
      cases String.fromUTF8? bytes <;> rfl

theorem readText_eq_error {s : Store} {p : Path} {fault : Fault} :
    s.readText p = .error fault ↔ s.Unreadable p fault := by
  rw [readText_eq]
  constructor
  · intro h
    split at h
    · next hf => cases h; exact .unfound hf
    · next hf => cases h; exact .folder hf
    · next bytes hf =>
      split at h
      · cases h
      · next hb => cases h; exact .bytes hf hb
  · intro h
    cases h with
    | unfound h => rw [h]
    | folder h => rw [h]
    | bytes h hb => rw [h]; dsimp only; rw [hb]

end Store

/-- A file holds no settings: it cannot be read, it is not YAML, a scalar in it has no value, or what it
holds is not of the form of settings. -/
inductive Settings.Unloadable [Library] (store : Store) (name : String) : LoadFault → Prop where
  | unreadable {fault} (h : store.Unreadable (.ofText name) fault) : Unloadable store name (.unreadable fault)
  | malformed {text} (ht : store.readText (.ofText name) = .ok text)
    (h : Library.read .yaml text = .error .malformed) :
    Unloadable store name (.invalid (.malformed Format.Fault.malformed.message))
  | noValue {text cause} (ht : store.readText (.ofText name) = .ok text)
    (h : Library.read .yaml text = .error (.noValue cause)) : Unloadable store name (.noValue cause)
  | value {text v fault} (ht : store.readText (.ofText name) = .ok text)
    (hv : Library.read .yaml text = .ok v) (h : ofValue v = .error fault) : Unloadable store name fault

theorem Settings.loadFile_eq_error [Library] {store : Store} {name : String} {fault : LoadFault} :
    loadFile store name = .error fault ↔ Unloadable store name fault := by
  unfold loadFile
  constructor
  · intro h
    split at h
    · next e ht => cases h; exact .unreadable (Store.readText_eq_error.mp ht)
    · next text ht =>
      split at h
      · next hv => cases h; exact .malformed ht hv
      · next cause hv => cases h; exact .noValue ht hv
      · next v hv => exact .value ht hv h
  · intro h
    cases h with
    | unreadable h => rw [Store.readText_eq_error.mpr h]
    | malformed ht h => rw [ht]; dsimp only; rw [h]
    | noValue ht h => rw [ht]; dsimp only; rw [h]
    | value ht hv h => rw [ht]; dsimp only; rw [hv]; exact h

/-! ### Faults in steps -/

section Steps

variable {ε ε' α β : Type} {a : Except ε α} {f : ε → ε'} {k : α → Except ε' β} {fault : ε'}

theorem mapError_eq_error : a.mapError f = .error fault ↔ ∃ e, a = .error e ∧ f e = fault := by
  constructor
  · intro h
    cases a with
    | error e => cases h; exact ⟨e, rfl, rfl⟩
    | ok x => cases h
  · rintro ⟨e, rfl, rfl⟩
    rfl

theorem mapError_bind_eq_error : (a.mapError f >>= k) = .error fault ↔
    (∃ e, a = .error e ∧ f e = fault) ∨ ∃ x, a = .ok x ∧ k x = .error fault := by
  constructor
  · intro h
    cases a with
    | error e => cases h; exact .inl ⟨e, rfl, rfl⟩
    | ok x => exact .inr ⟨x, rfl, h⟩
  · rintro (⟨e, rfl, rfl⟩ | ⟨x, rfl, h⟩)
    · rfl
    · exact h

end Steps

/-! ### What is in the way of settings -/

namespace Given

/-- A file counts as given if its name is not empty. -/
def named? (name? : Option String) : Option String := name?.filter fun name => !name.isEmpty

theorem named?_of_ne {name : String} (h : name ≠ "") : named? (some name) = some name := by
  simp [named?, Option.filter, h]

theorem getD_of_named? {name? : Option String} {name : String} (h : named? name? = some name) :
    name?.getD "" = name := by
  rw [(Option.filter_eq_some_iff.mp h).1]
  rfl

/-- The text items cannot be read just if their file cannot. -/
theorem text_eq_error {store : Store} {g : Given} {fault : Store.Fault} :
    g.text store = .error fault ↔
      ∃ name, named? g.textFile = some name ∧ store.Unreadable (.ofText name) fault := by
  unfold text
  split
  · next hn => rw [hn]; exact iff_of_false nofun nofun
  · next hn => rw [hn]; exact iff_of_false nofun nofun
  · next name hne hn =>
    rw [hn, named?_of_ne hne]
    simp only [Option.some.injEq, exists_eq_left', ← Store.readText_eq_error]
    cases store.readText (.ofText name) with
    | error e => constructor <;> (intro h; cases h; rfl)
    | ok lines => exact iff_of_false nofun nofun

/-- Settings are not loaded just if their file does not hold any. -/
theorem settings_eq_error [Library] {store : Store} {name? : Option String} {text : TextSource} {vars : Variables}
    {fault : Settings.LoadFault} : Settings.load store name? text vars = .error fault ↔
      ∃ name, named? name? = some name ∧ Settings.Unloadable store name fault := by
  unfold Settings.load
  split
  · exact iff_of_false nofun nofun
  · exact iff_of_false nofun nofun
  · next name hne =>
    rw [named?_of_ne hne]
    simp only [Option.some.injEq, exists_eq_left', ← Settings.loadFile_eq_error]
    cases Settings.loadFile store name with
    | error e => rfl
    | ok base => exact iff_of_false nofun nofun

/-- The first thing in the way of the settings that are given. -/
inductive Trouble where
  | text (name : String) (fault : Store.Fault)
  | assignment (fault : Settings.Fault)
  | settings (name : String) (fault : Settings.LoadFault)

/-- What is in the way of the settings that are given: first the file of text, which cannot be read; then
an assignment, which is none; and then the settings file, which holds no settings. -/
inductive Troubled [Library] (store : Store) (g : Given) : Trouble → Prop where
  | text {name fault} (hn : named? g.textFile = some name) (h : store.Unreadable (.ofText name) fault) :
    Troubled store g (.text name fault)
  | assignment {text fault} (ht : g.text store = .ok text)
    (h : Settings.assignments g.assignments = .error fault) : Troubled store g (.assignment fault)
  | settings {text vars name fault} (ht : g.text store = .ok text)
    (ha : Settings.assignments g.assignments = .ok vars) (hn : named? g.settings = some name)
    (h : Settings.Unloadable store name fault) : Troubled store g (.settings name fault)

namespace Trouble

/-- Nothing is reported about a file that is there and cannot be read, about a scalar without a value and
about a number that is too long. -/
def Escapes : Trouble → Prop
  | .text _ fault => fault ≠ .notFound
  | .assignment _ => False
  | .settings _ (.unreadable fault) => fault ≠ .notFound
  | .settings _ (.noValue _) => True
  | .settings _ .longNumber => True
  | .settings _ (.invalid _) => False

def fault (file : Option String) : Trouble → Fault
  | .text name fault => textFault file name fault
  | .assignment fault => invalid file fault
  | .settings name fault => settingsFault file name fault

/-- A trouble that does not escape is reported as one of settings: with code 1 if a file is missing, and
else with code 2. -/
theorem fault_of_not_escapes {trouble : Trouble} (h : ¬ trouble.Escapes) (file : Option String) :
    ∃ code report, trouble.fault file = .refused code report ∧ report.stage = .config ∧ report.file = file ∧
      (code = 1 ∧ (report.code = "E_TEXT_FILE_NOT_FOUND" ∨ report.code = "E_CONFIG_FILE_NOT_FOUND") ∨
        code = 2 ∧ report.code = "E_CONFIG_INVALID") := by
  cases trouble with
  | text name fault =>
    obtain rfl : fault = .notFound := Decidable.not_not.mp h
    exact ⟨1, _, rfl, rfl, rfl, .inl ⟨rfl, .inl rfl⟩⟩
  | assignment fault => exact ⟨2, _, rfl, rfl, rfl, .inr ⟨rfl, rfl⟩⟩
  | settings name fault =>
    cases fault with
    | unreadable fault =>
      obtain rfl : fault = .notFound := Decidable.not_not.mp h
      exact ⟨1, _, rfl, rfl, rfl, .inl ⟨rfl, .inr rfl⟩⟩
    | noValue cause => exact absurd trivial h
    | longNumber => exact absurd trivial h
    | invalid fault => exact ⟨2, _, rfl, rfl, rfl, .inr ⟨rfl, rfl⟩⟩

theorem fault_of_escapes {trouble : Trouble} (h : trouble.Escapes) (file : Option String) :
    ∃ cause, trouble.fault file = .crashed cause := by
  cases trouble with
  | text name fault => cases fault <;> first | exact ⟨_, rfl⟩ | exact absurd rfl h
  | assignment fault => exact h.elim
  | settings name fault =>
    cases fault with
    | unreadable fault => cases fault <;> first | exact ⟨_, rfl⟩ | exact absurd rfl h
    | noValue cause => exact ⟨_, rfl⟩
    | longNumber => exact ⟨_, rfl⟩
    | invalid fault => exact h.elim

end Trouble

/-- **Settings are not made up just if something is in their way**, and what comes of it is the fault of
the first thing that is. -/
theorem load_eq_error [Library] {store : Store} {file : Option String} {g : Given} {fault : Fault} :
    g.load store file = .error fault ↔
      ∃ trouble, g.Troubled store trouble ∧ fault = trouble.fault file := by
  unfold load
  rw [mapError_bind_eq_error]
  simp only [mapError_bind_eq_error, mapError_eq_error, text_eq_error, settings_eq_error]
  constructor
  · rintro (⟨e, ⟨name, hn, h⟩, rfl⟩ | ⟨text, ht, ⟨e, h, rfl⟩ | ⟨vars, ha, e, ⟨name, hn, h⟩, rfl⟩⟩)
    · exact ⟨.text name e, .text hn h, by rw [getD_of_named? hn]; rfl⟩
    · exact ⟨.assignment e, .assignment ht h, rfl⟩
    · exact ⟨.settings name e, .settings ht ha hn h, by rw [getD_of_named? hn]; rfl⟩
  · rintro ⟨trouble, h, rfl⟩
    cases h with
    | @text name e hn h => exact .inl ⟨e, ⟨name, hn, h⟩, by rw [getD_of_named? hn]; rfl⟩
    | @assignment text e ht h => exact .inr ⟨text, ht, .inl ⟨e, h, rfl⟩⟩
    | @settings text vars name e ht ha hn h =>
      exact .inr ⟨text, ht, .inr ⟨vars, ha, e, ⟨name, hn, h⟩, by rw [getD_of_named? hn]; rfl⟩⟩

end Given

/-! ### Commands -/

section Commands

variable [Library]

/-- A command comes to ask for settings, with the file that their faults are reported with, what is given
for them, and what has been logged before.  The list of variables asks for them at once, lint as soon as
the document is loaded, and the expansions as soon as it is valid. -/
inductive Command.AsksSettings (store : Store) : Command → Option String → Given → List LogLine → Prop where
  | listVariables {settings} : AsksSettings store (.listVariables settings) none { settings } []
  | lint {file format settings d} (hf : format = "text" ∨ format = "json")
    (hl : (Document.load store file).result = .ok d) :
    AsksSettings store (.lint file format settings) d.file { settings } (Document.load store file).log
  | convert {file out name format g d tree} (hf : Run.formats.lookup name = some format)
    (hl : (Document.load store file).result = .ok d) (hd : d.validate = .ok tree) :
    AsksSettings store (.convert file out name g) d.file g (Document.load store file).log
  | draw {file g d tree} (hl : (Document.load store file).result = .ok d) (hd : d.validate = .ok tree) :
    AsksSettings store (.draw file g) d.file g (Document.load store file).log

namespace Run

variable {store : Store} {file : String} {d : Document} (hl : (Document.load store file).result = .ok d)
include hl

theorem withDocument_of_load (failed : Diagnostic → Outcome) (next : Document → Outcome) :
    withDocument store file failed next = (next d).after (Document.load store file).log := by
  unfold withDocument
  dsimp only
  rw [hl]

theorem withNodes_of_valid {tree : Tree} (hd : d.validate = .ok tree) (g : Given)
    (next : Document → List Node → Outcome) :
    withNodes store file g next =
      (Outcome.withSettings store d.file g fun s => expanded store (tree.attempt s.source) (next d)).after
        (Document.load store file).log := by
  rw [withNodes, withTree_eq, verdict_of_valid hl hd]
  rfl

end Run

/-- A command that asks for settings goes on with them. -/
theorem Command.AsksSettings.run_eq {store : Store} {c : Command} {file : Option String} {g : Given}
    {log : List LogLine} (h : c.AsksSettings store file g log) :
    ∃ next, c.run store = (Outcome.withSettings store file g next).after log := by
  cases h with
  | listVariables => exact ⟨_, (Outcome.after_nil _).symm⟩
  | @lint file format settings d hf hl =>
    obtain ⟨style, rfl⟩ : ∃ style : Run.ReportStyle, format = style.format :=
      hf.elim (⟨.text, ·⟩) (⟨.json, ·⟩)
    rw [run, Run.lint, Run.withStyle_format, Run.withDocument_of_load hl]
    exact ⟨_, rfl⟩
  | @convert file out name format g d tree hf hl hd =>
    rw [run, Run.convert, hf]
    dsimp only
    rw [Run.withNodes_of_valid hl hd]
    exact ⟨_, rfl⟩
  | draw hl hd =>
    rw [run, Run.draw, Run.withNodes_of_valid hl hd]
    exact ⟨_, rfl⟩

/-! ### Endings -/

section Endings

variable {store : Store} {file : Option String} {g : Given} (next : Settings → Outcome)

theorem Outcome.withSettings_refused {code : Nat} {report : Diagnostic}
    (h : g.load store file = .error (.refused code report)) :
    withSettings store file g next = .refused store code [report] := by
  rw [withSettings, h]

theorem Outcome.withSettings_crashed {cause : Crash} (h : g.load store file = .error (.crashed cause)) :
    withSettings store file g next = .crashed store cause := by
  rw [withSettings, h]

end Endings

/-- The file of a document that is there and cannot be read is reported. -/
theorem Document.loadFrom_of_unreadable {store : Store} {path : Path} {item : Item} {format : Format}
    {fault : Store.Fault} (hi : store.find path = .ok item) (hf : Format.ofSuffix? path.suffix = some format)
    (h : store.Unreadable path fault) :
    (loadFrom store path).result = .error (.reported (.unreadable fault)) := by
  unfold loadFrom readValue
  rw [hi, hf]
  dsimp only
  rw [Store.readText_eq_error.mpr h]

/-- **A command whose settings cannot be made up** ends at the first thing that is in their way, and goes
on just if there is none.  If a file is missing, if an assignment is none, or if what the settings file
holds is not YAML or not of the form of settings, there is one report, with code 1 for a missing file and
else with code 2.  But a file that is there and cannot be read, because it is a folder or because its
bytes are not text, makes the command break off without a report; and so do a scalar without a value and
a number that is too long.  Either way nothing is printed, and the files stay as they were.  The file of a
document that cannot be read, on the other hand, is always reported. -/
theorem Command.run_troubled {store : Store} {c : Command} {file : Option String} {g : Given}
    {log : List LogLine} (h : c.AsksSettings store file g log) :
    ((∃ s, g.load store file = .ok s) ↔ ∀ trouble, ¬ g.Troubled store trouble) ∧
    (∃ next : Settings → Outcome, c.run store = (Outcome.withSettings store file g next).after log ∧
      ∀ s, g.load store file = .ok s → c.run store = (next s).after log) ∧
    (∀ trouble, g.Troubled store trouble → ¬ trouble.Escapes → ∃ code report,
      (code = 1 ∧ (report.code = "E_TEXT_FILE_NOT_FOUND" ∨ report.code = "E_CONFIG_FILE_NOT_FOUND") ∨
        code = 2 ∧ report.code = "E_CONFIG_INVALID") ∧
      report.stage = .config ∧ report.file = file ∧ trouble.fault file = .refused code report ∧
      (c.run store).Ends code log [report] ∧ (c.run store).output = [] ∧ (c.run store).store = store) ∧
    (∀ trouble, g.Troubled store trouble → trouble.Escapes → ∃ cause, trouble.fault file = .crashed cause ∧
      (c.run store).Breaks cause log ∧ (c.run store).output = [] ∧ (c.run store).store = store) ∧
    ∀ path item format fault, store.find path = .ok item → Format.ofSuffix? path.suffix = some format →
      store.Unreadable path fault →
      (Document.loadFrom store path).result = .error (.reported (.unreadable fault)) := by
  obtain ⟨next, hrun⟩ := h.run_eq
  refine ⟨?_, ⟨next, hrun, fun s hs => ?_⟩, fun trouble ht hn => ?_, fun trouble ht he => ?_,
    fun path item format fault => Document.loadFrom_of_unreadable⟩
  · constructor
    · rintro ⟨s, hs⟩ trouble ht
      have he : g.load store file = .error (trouble.fault file) :=
        Given.load_eq_error.mpr ⟨trouble, ht, rfl⟩
      rw [hs] at he
      cases he
    · intro hn
      cases hl : g.load store file with
      | ok s => exact ⟨s, rfl⟩
      | error fault =>
        obtain ⟨trouble, ht, -⟩ := Given.load_eq_error.mp hl
        exact absurd ht (hn trouble)
  · rw [hrun, Outcome.withSettings_of_load hs]
  · obtain ⟨code, report, hf, hstage, hfile, hcode⟩ := Given.Trouble.fault_of_not_escapes hn file
    have hload : g.load store file = .error (.refused code report) :=
      Given.load_eq_error.mpr ⟨trouble, ht, hf.symm⟩
    refine ⟨code, report, hcode, hstage, hfile, hf, ?_⟩
    rw [hrun, Outcome.withSettings_refused next hload]
    exact ⟨(Outcome.ends_refused (Diagnostic.sort_singleton _)).after log, rfl, rfl⟩
  · obtain ⟨cause, hf⟩ := Given.Trouble.fault_of_escapes he file
    have hload : g.load store file = .error (.crashed cause) :=
      Given.load_eq_error.mpr ⟨trouble, ht, hf.symm⟩
    refine ⟨cause, hf, ?_⟩
    rw [hrun, Outcome.withSettings_crashed next hload]
    exact ⟨⟨rfl, List.append_nil _⟩, rfl, rfl⟩

end Commands

/-- The settings file `c.yaml` holds a byte that is not text: the list of variables breaks off without a
report.  There is no file `d.yaml`: this is reported. -/
theorem Command.run_troubled_bytes :
    let store : Store := { items := [(["c.yaml"], .file ⟨#[0xFF]⟩), ([], .folder)] }
    let bytes : Given := { settings := some "c.yaml" }
    let missing : Given := { settings := some "d.yaml" }
    let report : Diagnostic :=
      { stage := .config, code := "E_CONFIG_FILE_NOT_FOUND", message := "config file not found: d.yaml"
        file := none, position := some "config" }
    (Command.listVariables bytes.settings).AsksSettings store none bytes [] ∧
      bytes.Troubled store (.settings "c.yaml" (.unreadable .notText)) ∧
      (Given.Trouble.settings "c.yaml" (.unreadable .notText)).Escapes ∧
      ((Command.listVariables bytes.settings).run store).Breaks (.store .notText) [] ∧
      (Command.listVariables missing.settings).AsksSettings store none missing [] ∧
      missing.Troubled store (.settings "d.yaml" (.unreadable .notFound)) ∧
      ¬ (Given.Trouble.settings "d.yaml" (.unreadable .notFound)).Escapes ∧
      ((Command.listVariables missing.settings).run store).Ends 1 [] [report] := by
  intro store bytes missing report
  have hasks : ∀ g : Given, g = bytes ∨ g = missing →
      (Command.listVariables g.settings).AsksSettings store none g [] := by
    rintro g (rfl | rfl) <;> exact .listVariables
  have hbytes : bytes.Troubled store (.settings "c.yaml" (.unreadable .notText)) :=
    .settings rfl rfl rfl (.unreadable (.bytes rfl (by decide +kernel)))
  have hmissing : missing.Troubled store (.settings "d.yaml" (.unreadable .notFound)) :=
    .settings rfl rfl rfl (.unreadable (.unfound rfl))
  have hnot : ¬ (Given.Trouble.settings "d.yaml" (.unreadable .notFound)).Escapes := fun h => h rfl
  obtain ⟨-, -, -, hbreaks, -⟩ := Command.run_troubled (hasks bytes (.inl rfl))
  obtain ⟨-, -, hends, -, -⟩ := Command.run_troubled (hasks missing (.inr rfl))
  obtain ⟨cause, hcause, hb, -, -⟩ := hbreaks _ hbytes nofun
  obtain ⟨code, found, -, -, -, hfound, he, -, -⟩ := hends _ hmissing hnot
  cases hcause
  cases hfound
  exact ⟨hasks bytes (.inl rfl), hbytes, nofun, hb, hasks missing (.inr rfl), hmissing, hnot, he⟩

end Shorthand
