import Shorthand.Settings

/-!
# Variables on top of others

What variables are once others have been set on top of them: which names there are, what value each
of them has, and that it does not matter in how many steps this was done.

* `Variables.Distinct`: each name stands there once;
* `Variables.IsLast`: the value of the last of some entries with a name;
* `Variables.lookup_override`: the last entry with a name counts, and else what was there before;
* `Variables.override_override`: entries are set one by one, or all at once when they have been put
  together.
-/

namespace Shorthand

namespace Variables

/-- Each name stands there once. -/
def Distinct (vars : Variables) : Prop := (vars.map (·.1)).Nodup

/-- A value is that of the last of some entries with a name. -/
def IsLast (entries : Variables) (name value : String) : Prop :=
  ∃ front back, entries = front ++ (name, value) :: back ∧ ∀ entry ∈ back, entry.1 ≠ name

variable {name value : String} {vars : Variables}

@[simp] theorem override_cons (base : Variables) (entry : String × String) (rest : Variables) :
    base.override (entry :: rest) = (base.put entry.1 entry.2).override rest := rfl

theorem override_append (base front back : Variables) :
    base.override (front ++ back) = (base.override front).override back := by
  simp [override, List.foldl_append]

/-! ### Names -/

theorem mem_names_put {n : String} :
    n ∈ (put name value vars).map (·.1) ↔ n = name ∨ n ∈ vars.map (·.1) := by
  induction vars with
  | nil => simp [put]
  | cons entry rest ih =>
    obtain ⟨m, w⟩ := entry
    by_cases hm : m = name
    · subst hm
      simp [put]
    · simp only [put, hm, if_false, List.map_cons, List.mem_cons, ih]
      exact or_left_comm

theorem Distinct.put (h : vars.Distinct) (name value : String) : Distinct (vars.put name value) := by
  induction vars with
  | nil => simp [Distinct, Variables.put]
  | cons entry rest ih =>
    obtain ⟨m, w⟩ := entry
    obtain ⟨hm, hrest⟩ := List.nodup_cons.mp h
    by_cases hn : m = name
    · subst hn
      simpa [Distinct, Variables.put] using h
    · have hput : Distinct (Variables.put name value rest) := ih hrest
      simp only [Distinct, Variables.put, hn, if_false, List.map_cons, List.nodup_cons]
      refine ⟨?_, hput⟩
      intro hmem
      rcases mem_names_put.mp hmem with heq | hmem
      · exact hn heq
      · exact hm hmem

theorem Distinct.override (h : vars.Distinct) (entries : Variables) : Distinct (vars.override entries) := by
  induction entries generalizing vars with
  | nil => exact h
  | cons entry rest ih => exact ih (h.put entry.1 entry.2)

/-! ### Values -/

theorem isLast_iff {entries : Variables} : entries.IsLast name value ↔ entries.reverse.lookup name = some value := by
  rw [List.lookup_eq_some_iff]
  constructor
  · rintro ⟨front, back, rfl, h⟩
    refine ⟨back.reverse, front.reverse, by simp, ?_⟩
    intro entry hentry
    have hne : entry.1 ≠ name := h entry (List.mem_reverse.mp hentry)
    simpa using hne.symm
  · rintro ⟨back, front, he, h⟩
    refine ⟨front.reverse, back.reverse, ?_, ?_⟩
    · rw [← List.reverse_reverse entries, he]
      simp
    · intro entry hentry
      have hne : (name == entry.1) = false := by simpa using h entry (List.mem_reverse.mp hentry)
      exact (beq_eq_false_iff_ne.mp hne).symm

/-- The last entry with a name counts, and the variables there were before if there is none. -/
theorem lookup_override (base entries : Variables) (name : String) :
    (base.override entries).lookup name = (entries.reverse.lookup name).or (base.lookup name) := by
  induction entries generalizing base with
  | nil => rfl
  | cons entry rest ih =>
    obtain ⟨n, w⟩ := entry
    rw [override_cons, ih, lookup_put, List.reverse_cons, List.lookup_append, Option.or_assoc]
    congr 1
    by_cases h : name = n
    · simp [h]
    · simp [List.lookup_cons, h, beq_eq_false_iff_ne.mpr h]

theorem Distinct.lookup_reverse (h : vars.Distinct) (name : String) :
    vars.reverse.lookup name = vars.lookup name := by
  induction vars with
  | nil => rfl
  | cons entry rest ih =>
    obtain ⟨m, w⟩ := entry
    obtain ⟨hm, hrest⟩ := List.nodup_cons.mp h
    rw [List.reverse_cons, List.lookup_append, ih hrest]
    by_cases hn : name = m
    · subst hn
      have hnone : rest.lookup name = none := by
        rw [List.lookup_eq_none_iff]
        intro entry hentry
        have hne : name ≠ entry.1 := fun heq => hm (List.mem_map.mpr ⟨entry, hentry, heq.symm⟩)
        simpa using hne
      simp [hnone]
    · simp [List.lookup_cons, beq_eq_false_iff_ne.mpr hn]

/-- Where the names of the upper variables are distinct, each of them counts before the lower ones. -/
theorem Distinct.lookup_override {others : Variables} (h : others.Distinct) (base : Variables) (name : String) :
    (base.override others).lookup name = (others.lookup name).or (base.lookup name) := by
  rw [Variables.lookup_override, h.lookup_reverse]

/-! ### Steps -/

theorem put_put (name value w : String) (vars : Variables) :
    put name value (put name w vars) = put name value vars := by
  induction vars with
  | nil => simp [put]
  | cons entry rest ih =>
    obtain ⟨m, u⟩ := entry
    by_cases hm : m = name
    · simp [put, hm]
    · simp [put, hm, ih]

/-- A name that is there keeps its place, so that another one may be set before or after it. -/
theorem put_comm {n : String} (hne : n ≠ name) (hmem : name ∈ vars.map (·.1)) (value w : String) :
    put name value (put n w vars) = put n w (put name value vars) := by
  induction vars with
  | nil => cases hmem
  | cons entry rest ih =>
    obtain ⟨m, u⟩ := entry
    by_cases hm : m = name
    · subst hm
      simp [put, Ne.symm hne]
    · have hrest : name ∈ rest.map (·.1) := by
        rcases List.mem_cons.mp hmem with heq | hrest
        · exact absurd heq.symm hm
        · exact hrest
      by_cases hn : m = n
      · subst hn
        simp [put, hm]
      · simp [put, hm, hn, ih hrest]

theorem put_override {rest : Variables} (hrest : name ∉ rest.map (·.1)) (hmem : name ∈ vars.map (·.1))
    (value : String) : put name value (vars.override rest) = (put name value vars).override rest := by
  induction rest generalizing vars with
  | nil => rfl
  | cons entry rest ih =>
    obtain ⟨n, w⟩ := entry
    have hne : n ≠ name := by
      rintro rfl
      exact hrest List.mem_cons_self
    have htail : name ∉ rest.map (·.1) := fun h => hrest (List.mem_cons_of_mem _ h)
    rw [override_cons, override_cons, ih htail (mem_names_put.mpr (.inr hmem)), put_comm hne hmem]

/-- A variable that is set in the upper variables is set in what they make. -/
theorem Distinct.override_put (h : vars.Distinct) (base : Variables) (name value : String) :
    base.override (vars.put name value) = (base.override vars).put name value := by
  induction vars generalizing base with
  | nil => rfl
  | cons entry rest ih =>
    obtain ⟨m, w⟩ := entry
    obtain ⟨hm, hrest⟩ := List.nodup_cons.mp h
    by_cases hn : m = name
    · subst hn
      have hmem : m ∈ (base.put m w).map (·.1) := mem_names_put.mpr (.inl rfl)
      simp only [Variables.put, if_true, override_cons]
      rw [put_override hm hmem, put_put]
    · simp only [Variables.put, hn, if_false, override_cons]
      exact ih hrest (base.put m w)

/-- **Entries may be put together first.**  Setting them one by one comes to the same as setting what
they make of other variables. -/
theorem Distinct.override_override (h : vars.Distinct) (base entries : Variables) :
    base.override (vars.override entries) = (base.override vars).override entries := by
  induction entries generalizing vars with
  | nil => rfl
  | cons entry rest ih =>
    rw [override_cons, override_cons, ih (h.put entry.1 entry.2), h.override_put]

theorem distinct_nil : Distinct [] := List.nodup_nil

end Variables

end Shorthand
