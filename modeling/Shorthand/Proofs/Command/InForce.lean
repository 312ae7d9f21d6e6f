import Shorthand.Proofs.Command.Kept
import Shorthand.Proofs.Command.Troubles
import Shorthand.Proofs.Settings.Assignments
import Shorthand.Proofs.Settings.Spelled

/-!
# Settings in force

The settings that a command works with are made up in layers.  What is given on the command line counts
before what the settings file says, and this before the variables that exist anyway.

* `Given.fileLines`, `Given.fileSettings`: what the files hold that are given;
* `Given.SparedBy`: a command does not write to any of them;
* `Given.text_of_fileLines`, `Settings.lookup_withGiven`: the text, and the variables of all layers;
* `Given.load_inForce`: the settings that are in force, and when there are none.
-/

namespace Shorthand

/-! ### Layers -/

/-- A variable has the value that is given for it, or else the one of the file, or else the one it has
anyway. -/
theorem Settings.lookup_withGiven {base : Settings} {vars : Variables} (hb : base.vars.Distinct)
    (hv : vars.Distinct) (text : TextSource) (name : String) :
    (base.withGiven text vars).vars.lookup name =
      (vars.lookup name).or ((base.vars.lookup name).or (Variables.builtIn.lookup name)) := by
  rw [withGiven, hv.lookup_override, hb.lookup_override]

theorem Variables.distinct_builtIn : Variables.builtIn.Distinct := by
  unfold Distinct
  decide

theorem Settings.distinct_withGiven (base : Settings) (text : TextSource) (vars : Variables) :
    (base.withGiven text vars).vars.Distinct :=
  (Variables.distinct_builtIn.override base.vars).override vars

theorem Settings.lookup_source (s : Settings) (name : String) :
    (s.source.vars.getD []).lookup name = (s.vars.lookup name).map some := by
  rw [source, Option.getD_some]
  induction s.vars with
  | nil => rfl
  | cons entry rest ih =>
    obtain ⟨n, v⟩ := entry
    rw [List.map_cons, List.lookup_cons, List.lookup_cons, ih]
    cases name == n <;> rfl

/-! ### Files that are given -/

namespace Given

def fileLines (store : Store) (g : Given) : Except Store.Fault (List String) :=
  match named? g.textFile with
  | none => .ok []
  | some name => (store.readText (.ofText name)).map Text.lines

/-- The settings of the settings file, if one is given. -/
def fileSettings [Library] (store : Store) (g : Given) : Except Settings.LoadFault Settings :=
  match named? g.settings with
  | none => .ok {}
  | some name => Settings.loadFile store name

/-- The text that is given: the items, and behind them the lines of the file; there is none if neither an item
nor a file is given. -/
def givenText (g : Given) (lines : List String) : TextSource :=
  if g.texts = [] ∧ named? g.textFile = none then .absent else .items ((g.texts ++ lines).map some)

variable {store : Store} {g : Given}

theorem text_of_unnamed (h : named? g.textFile = none) :
    g.text store = .ok (if g.texts.isEmpty then .absent else .items (g.texts.map some)) := by
  unfold text
  split
  · rfl
  · rfl
  · next name hne hfile =>
    rw [hfile, named?_of_ne hne] at h
    cases h

theorem text_of_named {name : String} (h : named? g.textFile = some name) :
    g.text store =
      (store.readText (.ofText name)).map fun text => .items ((g.texts ++ Text.lines text).map some) := by
  unfold text
  split
  · next hfile =>
    rw [hfile] at h
    cases h
  · next hfile =>
    rw [hfile] at h
    cases h
  · next other hne hfile =>
    rw [hfile, named?_of_ne hne] at h
    cases h
    cases store.readText (.ofText name) <;> rfl

/-- The text that is given is read just if its file is. -/
theorem text_of_fileLines {lines : List String} (h : g.fileLines store = .ok lines) :
    g.text store = .ok (g.givenText lines) := by
  unfold fileLines at h
  unfold givenText
  cases hn : named? g.textFile with
  | none =>
    rw [hn] at h
    cases h
    rw [text_of_unnamed hn]
    cases hitems : g.texts with
    | nil => rfl
    | cons item rest => simp
  | some name =>
    rw [hn] at h
    dsimp only at h
    rw [text_of_named hn]
    cases hread : store.readText (.ofText name) with
    | error fault =>
      rw [hread] at h
      cases h
    | ok text =>
      rw [hread] at h
      cases h
      simp [Except.map]

theorem distinct_of_fileSettings [Library] {base : Settings} (h : g.fileSettings store = .ok base) : base.vars.Distinct := by
  unfold fileSettings at h
  split at h
  · cases h
    exact Variables.distinct_nil
  · exact Settings.distinct_of_loadFile h

theorem load_of_fileSettings [Library] {base : Settings} (h : g.fileSettings store = .ok base) (text : TextSource)
    (vars : Variables) : Settings.load store g.settings text vars = .ok (base.withGiven text vars) := by
  unfold fileSettings at h
  unfold Settings.load
  split
  · next hfile =>
    rw [hfile] at h
    cases h
    rfl
  · next hfile =>
    rw [hfile] at h
    cases h
    rfl
  · next name hne hfile =>
    rw [hfile, named?_of_ne hne] at h
    dsimp only at h
    rw [h]
    rfl

/-- What settings come to, once the given files are read. -/
theorem load_of_files [Library] {lines : List String} {base : Settings} (hl : g.fileLines store = .ok lines)
    (hb : g.fileSettings store = .ok base) (file : Option String) :
    g.load store file =
      ((Settings.assignments g.assignments).map (base.withGiven (g.givenText lines))).mapError (invalid file) := by
  unfold load
  rw [text_of_fileLines hl]
  cases Settings.assignments g.assignments with
  | error fault => rfl
  | ok vars =>
    dsimp only [Except.mapError, Except.map, bind, Except.bind]
    rw [load_of_fileSettings hb]

/-! ### Files that stay -/

/-- A command writes to none of the files that are given. -/
def SparedBy [Library] (store : Store) (g : Given) (c : Command) : Prop :=
  ∀ name, named? g.textFile = some name ∨ named? g.settings = some name →
    ∀ target ∈ c.target?, ∀ location, store.locate (.ofText name) = .ok location →
      (c.run store).store.locate target ≠ .ok location

section Spared

variable [Library] {c : Command} (h : g.SparedBy store c)
include h

theorem SparedBy.fileLines {lines : List String} (hl : g.fileLines store = .ok lines) :
    g.fileLines (c.run store).store = .ok lines := by
  unfold Given.fileLines at hl ⊢
  cases hn : named? g.textFile with
  | none =>
    rw [hn] at hl
    exact hl
  | some name =>
    rw [hn] at hl
    dsimp only at hl ⊢
    cases hr : store.readText (.ofText name) with
    | error fault =>
      rw [hr] at hl
      cases hl
    | ok text =>
      rw [hr] at hl
      rw [(c.leaves_run store).readText hr (h name (.inl hn))]
      exact hl

theorem SparedBy.fileSettings {base : Settings} (hb : g.fileSettings store = .ok base) :
    g.fileSettings (c.run store).store = .ok base := by
  unfold Given.fileSettings Settings.loadFile at hb ⊢
  cases hn : named? g.settings with
  | none =>
    rw [hn] at hb
    exact hb
  | some name =>
    rw [hn] at hb
    dsimp only at hb ⊢
    cases hr : store.readText (.ofText name) with
    | error fault =>
      rw [hr] at hb
      cases hb
    | ok text =>
      rw [hr] at hb
      rw [(c.leaves_run store).readText hr (h name (.inr hn))]
      exact hb

end Spared

end Given

/-! ### Settings in force -/

open Settings

/-- **The settings that are in force.**  Let the given files be such that their lines and settings can be
read.  Items that are assignments make variables, and an item that is none is reported, the first one if
there are several; items that come later are set on top of those before them.

If all items are assignments, settings are made up.  A variable has the value of the last item of its
name, or else the one that the settings file has for it, or else the one that it has anyway, and there are
no other variables.  The text is that of the items and of the lines of the text file behind them, even if
there are none of either, as long as any item or a text file is given; and else it is the text of the
settings file.  An expansion gets this text and these variables.

After any command, what is there without being given is the same as before; and so are all the settings that
are in force, unless the command writes to a file that is given. -/
theorem Given.load_inForce [Library] {store : Store} {g : Given} {lines : List String} {base : Settings}
    (hl : g.fileLines store = .ok lines) (hb : g.fileSettings store = .ok base) (file : Option String) :
    ((∃ fault, Settings.assignments g.assignments = .error fault) ↔
        ∃ item ∈ g.assignments, IsNoAssignment item) ∧
      (∀ front item back, g.assignments = front ++ item :: back → (∀ other ∈ front, ¬ IsNoAssignment other) →
        IsNoAssignment item → g.load store file = .error (invalid file (.notAssignment item))) ∧
      (∀ xs ys, Settings.assignments (xs ++ ys) = (do
        let vars ← Settings.assignments xs
        let others ← Settings.assignments ys
        pure (vars.override others))) ∧
      ((∀ item ∈ g.assignments, ¬ IsNoAssignment item) → ∃ s, g.load store file = .ok s ∧ s.vars.Distinct ∧
        (∀ name value, AssignsLast g.assignments name value → s.vars.lookup name = some value) ∧
        (∀ name, (∀ value, ¬ AssignsLast g.assignments name value) →
          s.vars.lookup name = (base.vars.lookup name).or (Variables.builtIn.lookup name)) ∧
        s.text = (if g.texts = [] ∧ named? g.textFile = none then base.text
          else .items ((g.texts ++ lines).map some)) ∧
        s.source.text = s.text ∧
        ∀ name, (s.source.vars.getD []).lookup name = (s.vars.lookup name).map some) ∧
      (∀ c : Command, ({} : Given).load (c.run store).store file = .ok { vars := Variables.builtIn }) ∧
      ∀ c : Command, g.SparedBy store c → g.load (c.run store).store file = g.load store file := by
  refine ⟨assignments_eq_error_iff, ?_, assignments_append, ?_, fun c => Given.load_nothing _ _, ?_⟩
  · intro front item back hitems hfront hitem
    obtain ⟨entries, hentries⟩ := exists_assigns hfront
    have herror : Settings.assignments g.assignments = .error (.notAssignment item) := by
      rw [hitems]
      exact assignments_of_isNoAssignment hentries hitem back
    rw [load_of_files hl hb, herror]
    rfl
  · intro hitems
    obtain ⟨entries, hentries⟩ := exists_assigns hitems
    have hvars : Settings.assignments g.assignments = .ok (Variables.override [] entries) :=
      assignments_of_assigns hentries
    have hdistinct : Variables.Distinct (Variables.override [] entries) := Variables.distinct_nil.override entries
    -- the assignments lie over the file, and the file over what is there anyway
    have hlookup : ∀ name, (base.withGiven (g.givenText lines) (Variables.override [] entries)).vars.lookup name =
        (entries.reverse.lookup name).or ((base.vars.lookup name).or (Variables.builtIn.lookup name)) := by
      intro name
      rw [lookup_withGiven (distinct_of_fileSettings hb) hdistinct, Variables.lookup_override]
      simp
    refine ⟨base.withGiven (g.givenText lines) (Variables.override [] entries), ?_, distinct_withGiven _ _ _, ?_, ?_,
      ?_, rfl, lookup_source _⟩
    · rw [load_of_files hl hb, hvars]
      rfl
    · intro name value hlast
      have hsome := Variables.isLast_iff.mp ((isLast_iff_assignsLast hentries name value).mpr hlast)
      rw [hlookup, hsome]
      rfl
    · intro name hno
      have hnone : entries.reverse.lookup name = none := by
        cases hl : entries.reverse.lookup name with
        | none => rfl
        | some value =>
          have hlast : AssignsLast g.assignments name value :=
            (isLast_iff_assignsLast hentries name value).mp (Variables.isLast_iff.mpr hl)
          exact absurd hlast (hno value)
      rw [hlookup, hnone]
      rfl
    · unfold withGiven givenText
      by_cases hgiven : g.texts = [] ∧ named? g.textFile = none
      · simp [hgiven]
      · simp [hgiven]
  · intro c hspared
    rw [load_of_files (hspared.fileLines hl) (hspared.fileSettings hb), load_of_files hl hb]

/-- The language is given twice, in an assignment and in `c.yaml`, and the text file is empty. -/
theorem Given.load_inForce_layers :
    let store : Store :=
      { items := [(["c.yaml"], .file "text: a\nvariables: {lang: de, x: y}\n".toUTF8), (["t.txt"], .file "".toUTF8),
          ([], .folder)] }
    let g : Given := { textFile := some "t.txt", assignments := [" lang =a=b"], settings := some "c.yaml" }
    let base : Settings := { text := .whole "a", vars := [("lang", "de"), ("x", "y")] }
    g.fileLines store = .ok [] ∧ g.fileSettings store = .ok base ∧
      (∀ item ∈ g.assignments, ¬ IsNoAssignment item) ∧ AssignsLast g.assignments "lang" "a=b" ∧
      ∃ s, g.load store none = .ok s ∧ s.text = .items [] ∧ s.vars.lookup "lang" = some "a=b" ∧
        s.vars.lookup "x" = some "y" ∧ s.vars.lookup "locale" = some "en-US" := by
  intro store g base
  have hl : g.fileLines store = .ok [] := rfl
  have hb : g.fileSettings store = .ok base := by
    have h : (match g.fileSettings store with
      | .ok s => decide (s = base)
      | .error _ => false) = true := by decide +kernel
    split at h
    · next s hs => rw [hs, of_decide_eq_true h]
    · cases h
  have hassigns : Assigns " lang =a=b" ("lang", "a=b") :=
    @Assigns.item " lang " "a=b" (by decide) ⟨'l', by simp, by decide⟩
  have hitems : ∀ item ∈ g.assignments, ¬ IsNoAssignment item := by
    intro item hitem
    obtain rfl : item = " lang =a=b" := List.mem_singleton.mp hitem
    exact hassigns.not_isNoAssignment
  have hlast : AssignsLast g.assignments "lang" "a=b" := ⟨[], _, [], rfl, hassigns, nofun⟩
  have hother : ∀ name, name ≠ "lang" → ∀ value, ¬ AssignsLast g.assignments name value := by
    rintro name hne value ⟨front, item, back, hsplit, hitem, -⟩
    have hmem : item ∈ g.assignments := by
      rw [hsplit]
      simp
    obtain rfl : item = " lang =a=b" := List.mem_singleton.mp hmem
    exact hne (congrArg Prod.fst (hitem.unique hassigns))
  obtain ⟨-, -, -, hload, -⟩ := Given.load_inForce hl hb none
  obtain ⟨s, hs, -, hgiven, hnot, htext, -⟩ := hload hitems
  refine ⟨hl, hb, hitems, hlast, s, hs, htext, hgiven _ _ hlast, ?_, ?_⟩
  · rw [hnot _ (hother _ (by decide))]
    rfl
  · rw [hnot _ (hother _ (by decide))]
    rfl

end Shorthand
