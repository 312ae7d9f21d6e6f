import Mathlib.Data.List.Forall2
import Shorthand.Proofs.Document.Checked
import Shorthand.Proofs.Document.Keys
import Shorthand.Proofs.Settings.Override
import Shorthand.Settings.Load

/-!
# Settings as values spell them out

A file of settings holds a value.  Here is what settings it spells out, and what becomes of all the
values that spell out none.

* `Settings.SpellsText`, `Settings.SpellsVariable`: how a text and a variable are spelled out;
* `Settings.Spells`: a value spells out settings;
* `Settings.Passes`: a value spells out none, and passes for one that does;
* `Settings.HoldsLongNumber`: a number has to be written out that is too long for it;
* `Settings.ofValue_spelled`: which settings a value comes to, and what becomes of one that comes to none.
-/

namespace Shorthand

namespace Settings

/-! ### Spelling -/

/-- A text is spelled out by nothing, by a piece of text, or by a list of them. -/
inductive SpellsText : Value → TextSource → Prop where
  | absent : SpellsText .null .absent
  | whole (s : String) : SpellsText (.string s) (.whole s)
  | items (xs : List String) : SpellsText (.strings xs) (.items (xs.map some))

/-- The text of a variable is spelled out by itself, or by a number that can be written out; a truth value
is no number. -/
inductive SpellsVariableText : Value → String → Prop where
  | text (s : String) : SpellsVariableText (.string s) s
  | int {i : Int} (h : isWritable i = true) : SpellsVariableText (.int i) (toString i)
  | float (x : Number.Binary64) : SpellsVariableText (.float x) x.text

/-- An entry of a map spells out a variable: its key is text in which some character is not blank.  The
blanks around the name do not belong to it. -/
inductive SpellsVariable : Key × Value → String × String → Prop where
  | entry {name : String} {v : Value} {s : String} (hn : ∃ c ∈ name.toList, Text.isBlank c = false)
    (hv : SpellsVariableText v s) : SpellsVariable (.string name, v) (Text.strip name, s)

/-- Variables are spelled out by nothing, or by a map with an entry for each of them; of entries with one
name the last one counts. -/
inductive SpellsVariables : Value → Variables → Prop where
  | none : SpellsVariables .null []
  | map {fields : Fields} {entries : Variables} (h : List.Forall₂ SpellsVariable fields entries) :
    SpellsVariables (.map fields) (Variables.override [] entries)

/-- A value spells out settings: it is null, or a map with no keys but those of a text and of variables. -/
inductive Spells : Value → Settings → Prop where
  | nothing : Spells .null {}
  | map {fields : Fields} {text : TextSource} {vars : Variables} (hk : fields.Within names)
    (ht : SpellsText (fields.get "text") text) (hv : SpellsVariables (fields.get "variables") vars) :
    Spells (.map fields) { text, vars }

/-- A map whose variables are not a map passes for one without variables, as long as there is nothing in
what stands for them. -/
inductive Passes : Value → Settings → Prop where
  | blank {fields : Fields} {text : TextSource} (hk : fields.Within names)
    (ht : SpellsText (fields.get "text") text) (hb : (fields.get "variables").isBlank = true)
    (hn : fields.get "variables" ≠ .null) (hm : ∀ vars, fields.get "variables" ≠ .map vars) :
    Passes (.map fields) { text }

/-- A number that is too long has to be written out: in a message, as a key, or as the first thing in the
way of the variables. -/
inductive HoldsLongNumber : Value → Prop where
  | key {fields : Fields} {i : Int} {v : Value} (hk : (.int i, v) ∈ fields) (hi : isWritable i = false) :
    HoldsLongNumber (.map fields)
  | variable {fields front back : Fields} {text : TextSource} {entries : Variables} {name : String} {i : Int}
    (hk : fields.Within names) (ht : SpellsText (fields.get "text") text)
    (hv : fields.get "variables" = .map (front ++ (.string name, .int i) :: back))
    (hf : List.Forall₂ SpellsVariable front entries) (hn : ∃ c ∈ name.toList, Text.isBlank c = false)
    (hi : isWritable i = false) : HoldsLongNumber (.map fields)

/-! ### Texts -/

theorem texts?_eq_some {vs : List Value} {xs : List String} : texts? vs = some xs ↔ vs = xs.map .string := by
  induction vs generalizing xs with
  | nil =>
    cases xs with
    | nil => exact iff_of_true rfl rfl
    | cons x xs => exact iff_of_false nofun nofun
  | cons v vs ih =>
    cases v with
    | string s =>
      rw [texts?, Option.map_eq_some_iff]
      constructor
      · rintro ⟨ys, hys, rfl⟩
        rw [ih.mp hys]
        rfl
      · intro h
        cases xs with
        | nil => cases h
        | cons x xs =>
          rw [List.map_cons, List.cons.injEq] at h
          obtain ⟨hs, hvs⟩ := h
          cases hs
          exact ⟨xs, ih.mpr hvs, rfl⟩
    | null | bool | int | float | moment | bytes | list | map | set | pair | endless =>
      refine iff_of_false nofun fun h => ?_
      cases xs with
      | nil => cases h
      | cons x xs => cases h

theorem textOf_eq_ok {v : Value} {text : TextSource} : textOf v = .ok text ↔ SpellsText v text := by
  constructor
  · intro h
    unfold textOf at h
    split at h
    · cases h
      exact .absent
    · cases h
      exact .whole _
    · split at h
      · next items xs hxs =>
        cases h
        rw [texts?_eq_some.mp hxs]
        exact .items xs
      · cases h
    · cases h
  · intro h
    cases h with
    | absent => rfl
    | whole s => rfl
    | items xs =>
      rw [Value.strings, textOf, texts?_eq_some.mpr rfl]

/-! ### Variables -/

theorem variableName_eq_ok {key : Key} {name : String} :
    variableName key = .ok name ↔ key = .string name ∧ ∃ c ∈ name.toList, Text.isBlank c = false := by
  rw [← Text.isBlankText_eq_false]
  cases key with
  | string s =>
    rw [variableName]
    constructor
    · intro h
      split at h
      · cases h
      · next hs =>
        cases h
        exact ⟨rfl, Bool.eq_false_iff.mpr hs⟩
    · rintro ⟨hs, hn⟩
      cases hs
      rw [hn]
      rfl
  | null | bool | int | float | moment | bytes => exact iff_of_false nofun nofun

theorem variableText_eq_ok {name : String} {v : Value} {s : String} :
    variableText name v = .ok s ↔ SpellsVariableText v s := by
  constructor
  · intro h
    unfold variableText at h
    split at h
    · cases h
      exact .text _
    · split at h
      · next hi =>
        cases h
        exact .int hi
      · cases h
    · cases h
      exact .float _
    · cases h
  · intro h
    cases h with
    | text s => rfl
    | int hi => rw [variableText, if_pos hi]
    | float x => rfl

theorem variableText_error {name : String} {v : Value} {fault : LoadFault} (h : variableText name v = .error fault) :
    fault = .longNumber ∨ ∃ cause, fault = .invalid cause := by
  unfold variableText at h
  split at h
  · cases h
  · split at h
    · cases h
    · cases h
      exact .inl rfl
  · cases h
  · cases h
    exact .inr ⟨_, rfl⟩

theorem variableText_eq_longNumber {name : String} {v : Value} :
    variableText name v = .error .longNumber ↔ ∃ i, v = .int i ∧ isWritable i = false := by
  constructor
  · intro h
    unfold variableText at h
    split at h
    · cases h
    · split at h
      · cases h
      · next i hi => exact ⟨i, rfl, Bool.eq_false_iff.mpr hi⟩
    · cases h
    · cases h
  · rintro ⟨i, rfl, hi⟩
    rw [variableText, hi]
    rfl

/-- One entry in front of others: its name is looked at first, then its text, and then the others. -/
theorem variablesOf_cons (vars : Variables) (key : Key) (v : Value) (rest : Fields) :
    variablesOf vars ((key, v) :: rest) =
      match variableName key with
      | .error fault => .error (.invalid fault)
      | .ok name =>
        match variableText name v with
        | .error fault => .error fault
        | .ok text => variablesOf (vars.put (Text.strip name) text) rest := by
  rw [variablesOf]
  cases variableName key with
  | error fault => rfl
  | ok name =>
    cases h : variableText name v with
    | error fault => simp [Except.mapError, bind, Except.bind, h]
    | ok text => simp [Except.mapError, bind, Except.bind, h]

/-- Entries that spell out variables set these, and then the others are looked at. -/
theorem variablesOf_append {front : Fields} {entries : Variables} (h : List.Forall₂ SpellsVariable front entries)
    (vars : Variables) (rest : Fields) :
    variablesOf vars (front ++ rest) = variablesOf (vars.override entries) rest := by
  induction h generalizing vars with
  | nil => rfl
  | cons hentry _ ih =>
    cases hentry with
    | entry hn hv =>
      rw [List.cons_append, variablesOf_cons, variableName_eq_ok.mpr ⟨rfl, hn⟩]
      dsimp only
      rw [variableText_eq_ok.mpr hv]
      exact ih _

theorem variablesOf_of_spelled {fields : Fields} {entries : Variables}
    (h : List.Forall₂ SpellsVariable fields entries) (vars : Variables) :
    variablesOf vars fields = .ok (vars.override entries) := by
  have happend := variablesOf_append h vars []
  rw [List.append_nil] at happend
  rw [happend, variablesOf]

theorem variablesOf_of_longNumber {front : Fields} {entries : Variables} {name : String} {i : Int}
    (hf : List.Forall₂ SpellsVariable front entries) (hn : ∃ c ∈ name.toList, Text.isBlank c = false)
    (hi : isWritable i = false) (vars : Variables) (back : Fields) :
    variablesOf vars (front ++ (.string name, .int i) :: back) = .error .longNumber := by
  rw [variablesOf_append hf, variablesOf_cons, variableName_eq_ok.mpr ⟨rfl, hn⟩]
  dsimp only
  rw [variableText_eq_longNumber.mpr ⟨i, rfl, hi⟩]

/-- What becomes of the entries of a map: all of them spell out variables, or the first one that does not
has a number that is too long, or it is no variable at all. -/
theorem variablesOf_cases (vars : Variables) (fields : Fields) :
    (∃ entries, List.Forall₂ SpellsVariable fields entries) ∨
      (∃ front name i back entries, fields = front ++ (.string name, .int i) :: back ∧
        List.Forall₂ SpellsVariable front entries ∧ (∃ c ∈ name.toList, Text.isBlank c = false) ∧
        isWritable i = false) ∨
      ∃ fault, variablesOf vars fields = .error (.invalid fault) := by
  induction fields generalizing vars with
  | nil => exact .inl ⟨[], .nil⟩
  | cons entry rest ih =>
    obtain ⟨key, v⟩ := entry
    rw [variablesOf_cons]
    cases hname : variableName key with
    | error fault => exact .inr (.inr ⟨fault, rfl⟩)
    | ok name =>
      obtain ⟨rfl, hn⟩ := variableName_eq_ok.mp hname
      dsimp only
      cases htext : variableText name v with
      | error fault =>
        -- of the values that are none, only a number can be one that is too long
        rcases variableText_error htext with rfl | ⟨cause, rfl⟩
        · obtain ⟨i, rfl, hi⟩ := variableText_eq_longNumber.mp htext
          exact .inr (.inl ⟨[], name, i, rest, [], rfl, .nil, hn, hi⟩)
        · exact .inr (.inr ⟨cause, rfl⟩)
      | ok s =>
        have hentry : SpellsVariable (.string name, v) (Text.strip name, s) :=
          .entry hn (variableText_eq_ok.mp htext)
        rcases ih (vars.put (Text.strip name) s) with ⟨entries, h⟩ | hlong | hfault
        · exact .inl ⟨_, .cons hentry h⟩
        · obtain ⟨front, name', i, back, entries, rfl, h, hn', hi⟩ := hlong
          exact .inr (.inl ⟨_ :: front, name', i, back, _, rfl, .cons hentry h, hn', hi⟩)
        · exact .inr (.inr hfault)

/-! ### Values -/

section Values

variable {fields : Fields} {text : TextSource}

/-- What a map comes to once its keys are known and its text is read. -/
theorem ofValue_within (hk : fields.Within names) (ht : SpellsText (fields.get "text") text) :
    ofValue (.map fields) =
      match fields.get "variables" with
      | .map vars => (variablesOf [] vars).map fun vars => { text, vars }
      | v => if v.isBlank then .ok { text } else .error (.invalid .variablesNotMap) := by
  rw [ofValue, Document.unknownKeys?_eq_nil.mpr hk]
  dsimp only
  rw [textOf_eq_ok.mpr ht]
  cases fields.get "variables" with
  | map vars => rfl
  | null | bool | int | float | string | moment | bytes | list | set | pair | endless => rfl

theorem ofValue_of_spells {v : Value} {s : Settings} (h : Spells v s) : ofValue v = .ok s := by
  cases h with
  | nothing => rfl
  | @map fields text vars hk ht hv =>
    rw [ofValue_within hk ht]
    generalize fields.get "variables" = given at hv ⊢
    cases hv with
    | none => rfl
    | map hentries =>
      dsimp only
      rw [variablesOf_of_spelled hentries]
      rfl

theorem ofValue_of_passes {v : Value} {s : Settings} (h : Passes v s) : ofValue v = .ok s := by
  cases h with
  | @blank fields text hk ht hb hn hm =>
    rw [ofValue_within hk ht]
    generalize fields.get "variables" = given at hb hm ⊢
    cases given with
    | map vars => exact absurd rfl (hm vars)
    | null | bool | int | float | string | moment | bytes | list | set | pair | endless =>
      dsimp only
      rw [if_pos hb]

theorem ofValue_of_holdsLongNumber {v : Value} (h : HoldsLongNumber v) : ofValue v = .error .longNumber := by
  cases h with
  | @key fields i w hk hi =>
    have hnone : Document.unknownKeys? names fields = none :=
      Document.unknownKeys?_eq_none.mpr (Fields.not_writable_iff.mpr ⟨i, w, hk, hi⟩)
    rw [ofValue, hnone]
  | «variable» hk ht hv hf hn hi =>
    rw [ofValue_within hk ht, hv]
    dsimp only
    rw [variablesOf_of_longNumber hf hn hi]
    rfl

theorem ofValue_within_cases (hk : fields.Within names) (ht : SpellsText (fields.get "text") text) :
    (∃ s, Spells (.map fields) s ∨ Passes (.map fields) s) ∨ HoldsLongNumber (.map fields) ∨
      ∃ fault, ofValue (.map fields) = .error (.invalid fault) := by
  have hof := ofValue_within hk ht
  cases hg : fields.get "variables" with
  | null =>
    have hv : SpellsVariables (fields.get "variables") [] := by
      rw [hg]
      exact .none
    exact .inl ⟨_, .inl (.map hk ht hv)⟩
  | map vars =>
    rw [hg] at hof
    rcases variablesOf_cases [] vars with ⟨entries, h⟩ | hlong | ⟨fault, h⟩
    · have hv : SpellsVariables (fields.get "variables") (Variables.override [] entries) := by
        rw [hg]
        exact .map h
      exact .inl ⟨_, .inl (.map hk ht hv)⟩
    · obtain ⟨front, name, i, back, entries, rfl, h, hn, hi⟩ := hlong
      exact .inr (.inl (.variable hk ht hg h hn hi))
    · dsimp only at hof
      rw [h] at hof
      exact .inr (.inr ⟨fault, hof⟩)
  | bool | int | float | string | moment | bytes | list | set | pair | endless =>
    rw [hg] at hof
    dsimp only at hof
    split at hof
    · next hb =>
      refine .inl ⟨_, .inr (.blank hk ht (hg ▸ hb) ?_ ?_)⟩
      · rw [hg]
        intro h
        cases h
      · intro vars h
        rw [hg] at h
        cases h
    · exact .inr (.inr ⟨_, hof⟩)

/-- What becomes of a value: settings, a number that is too long, or a fault. -/
theorem ofValue_cases (v : Value) :
    (∃ s, Spells v s ∨ Passes v s) ∨ HoldsLongNumber v ∨ ∃ fault, ofValue v = .error (.invalid fault) := by
  cases v with
  | null => exact .inl ⟨{}, .inl .nothing⟩
  | map fields =>
    cases hu : Document.unknownKeys? names fields with
    | none =>
      obtain ⟨i, w, hk, hi⟩ := Fields.not_writable_iff.mp (Document.unknownKeys?_eq_none.mp hu)
      exact .inr (.inl (.key hk hi))
    | some unknown =>
      cases unknown with
      | cons key rest =>
        rw [ofValue, hu]
        exact .inr (.inr ⟨_, rfl⟩)
      | nil =>
        have hk : Fields.Within names fields := Document.unknownKeys?_eq_nil.mp hu
        cases htext : textOf (Fields.get fields "text") with
        | error fault =>
          rw [ofValue, hu]
          dsimp only
          rw [htext]
          exact .inr (.inr ⟨fault, rfl⟩)
        | ok text => exact ofValue_within_cases hk (textOf_eq_ok.mp htext)
  | bool | int | float | string | moment | bytes | list | set | pair | endless => exact .inr (.inr ⟨.notMap, rfl⟩)

theorem ofValue_eq_ok {v : Value} {s : Settings} : ofValue v = .ok s ↔ Spells v s ∨ Passes v s := by
  constructor
  · intro h
    rcases ofValue_cases v with ⟨t, hspells | hpasses⟩ | hlong | ⟨fault, hfault⟩
    · rw [ofValue_of_spells hspells] at h
      cases h
      exact .inl hspells
    · rw [ofValue_of_passes hpasses] at h
      cases h
      exact .inr hpasses
    · rw [ofValue_of_holdsLongNumber hlong] at h
      cases h
    · rw [hfault] at h
      cases h
  · rintro (h | h)
    · exact ofValue_of_spells h
    · exact ofValue_of_passes h

theorem ofValue_eq_longNumber {v : Value} : ofValue v = .error .longNumber ↔ HoldsLongNumber v := by
  constructor
  · intro h
    rcases ofValue_cases v with ⟨s, hs⟩ | hlong | ⟨fault, hfault⟩
    · rw [ofValue_eq_ok.mpr hs] at h
      cases h
    · exact hlong
    · rw [hfault] at h
      cases h
  · exact ofValue_of_holdsLongNumber

theorem ofValue_eq_invalid {v : Value} : (∃ fault, ofValue v = .error (.invalid fault)) ↔
    (∀ s, ¬ Spells v s ∧ ¬ Passes v s) ∧ ¬ HoldsLongNumber v := by
  constructor
  · rintro ⟨fault, h⟩
    refine ⟨fun s => ⟨fun hs => ?_, fun hs => ?_⟩, fun hlong => ?_⟩
    · rw [ofValue_of_spells hs] at h
      cases h
    · rw [ofValue_of_passes hs] at h
      cases h
    · rw [ofValue_of_holdsLongNumber hlong] at h
      cases h
  · rintro ⟨hs, hlong⟩
    rcases ofValue_cases v with ⟨s, h | h⟩ | h | h
    · exact absurd h (hs s).1
    · exact absurd h (hs s).2
    · exact absurd h hlong
    · exact h

end Values

/-! ### Variables that are loaded -/

theorem SpellsVariables.distinct {v : Value} {vars : Variables} (h : SpellsVariables v vars) : vars.Distinct := by
  cases h with
  | none => exact Variables.distinct_nil
  | map => exact Variables.distinct_nil.override _

theorem distinct_of_ofValue {v : Value} {s : Settings} (h : ofValue v = .ok s) : s.vars.Distinct := by
  rcases ofValue_eq_ok.mp h with hs | hs
  · cases hs with
    | nothing => exact Variables.distinct_nil
    | map hk ht hv => exact hv.distinct
  · cases hs
    exact Variables.distinct_nil

/-- The variables that a map spells out: of the entries with a name, the last one counts. -/
theorem variables_of_ofValue {fields vars : Fields} {s : Settings} (h : ofValue (.map fields) = .ok s)
    (hv : fields.get "variables" = .map vars) :
    ∃ entries, List.Forall₂ SpellsVariable vars entries ∧ s.vars = Variables.override [] entries := by
  rcases ofValue_eq_ok.mp h with hs | hs
  · cases hs with
    | map hk ht hvars =>
      rw [hv] at hvars
      cases hvars with
      | map hentries => exact ⟨_, hentries, rfl⟩
  · cases hs with
    | blank hk ht hb hn hm => exact absurd hv (hm vars)

theorem distinct_of_loadFile [Library] {store : Store} {file : String} {s : Settings} (h : loadFile store file = .ok s) :
    s.vars.Distinct := by
  unfold loadFile at h
  split at h
  · cases h
  · split at h
    · cases h
    · cases h
    · exact distinct_of_ofValue h

/-- **What settings a value spells out.**  A value comes to settings just if it spells them out, or passes for
one that does: instead of a map of variables there may be anything that is blank, such as an empty list or
a truth value.  A number that is too long to be written out, where one has to be, ends in a failure of its
own, and every other value is reported as one that is not valid.

The text is the one that is spelled out.  Each variable has the text of the last entry whose key, without
the blanks around it, is its name, and no other name has a value.  A file whose text is read as the value comes
to the same. -/
theorem ofValue_spelled [Library] (v : Value) :
    (∀ s, ofValue v = .ok s ↔ Spells v s ∨ Passes v s) ∧
      (ofValue v = .error .longNumber ↔ HoldsLongNumber v) ∧
      ((∃ fault, ofValue v = .error (.invalid fault)) ↔
        (∀ s, ¬ Spells v s ∧ ¬ Passes v s) ∧ ¬ HoldsLongNumber v) ∧
      (∀ (fields vars : Fields) (s : Settings), v = .map fields → fields.get "variables" = .map vars →
        ofValue v = .ok s → ∃ entries, List.Forall₂ SpellsVariable vars entries ∧ s.vars.Distinct ∧
          ∀ name value, s.vars.lookup name = some value ↔ Variables.IsLast entries name value) ∧
      ∀ (store : Store) (file text : String), store.readText (.ofText file) = .ok text →
        Library.read .yaml text = .ok v → loadFile store file = ofValue v := by
  refine ⟨fun s => ofValue_eq_ok, ofValue_eq_longNumber, ofValue_eq_invalid, ?_, ?_⟩
  · intro fields vars s hmap hvars hs
    subst hmap
    obtain ⟨entries, hentries, hoverride⟩ := variables_of_ofValue hs hvars
    refine ⟨entries, hentries, distinct_of_ofValue hs, ?_⟩
    intro name value
    have hlookup : s.vars.lookup name = entries.reverse.lookup name := by
      rw [hoverride, Variables.lookup_override]
      exact Option.or_none
    rw [hlookup, Variables.isLast_iff]
  · intro store file text ht hv
    unfold loadFile
    rw [ht]
    dsimp only
    rw [hv]

/-- An empty list of variables spells out no settings, and passes for some without variables.  A list that is
not empty does not. -/
theorem ofValue_spelled_emptyList :
    let fields (given : Value) : Fields := [(.string "variables", given)]
    (∀ s, ¬ Spells (.map (fields (.list []))) s) ∧ Passes (.map (fields (.list []))) {} ∧
      ofValue (.map (fields (.list []))) = .ok {} ∧
      ∃ fault, ofValue (.map (fields (.list [.string "a"]))) = .error (.invalid fault) := by
  intro fields
  have hvars (given : Value) : (fields given).get "variables" = given := rfl
  have hk (given : Value) : (fields given).Within names := by
    intro entry hentry
    obtain rfl : entry = (.string "variables", given) := List.mem_singleton.mp hentry
    exact ⟨"variables", by decide, rfl⟩
  have hpasses : Passes (.map (fields (.list []))) {} := by
    refine .blank (hk _) .absent ?_ ?_ ?_
    · rw [hvars]
      rfl
    · rw [hvars]
      intro h
      cases h
    · intro vars h
      rw [hvars] at h
      cases h
  refine ⟨?_, hpasses, ((ofValue_spelled _).1 {}).mpr (.inr hpasses), .variablesNotMap, ?_⟩
  · rintro s ⟨⟩
    next text vars hk ht hv =>
      rw [hvars] at hv
      cases hv
  · rw [ofValue_within (hk _) .absent]
    rfl

end Settings

end Shorthand
