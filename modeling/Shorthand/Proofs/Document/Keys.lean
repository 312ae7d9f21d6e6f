import Shorthand.Document.Load

/-!
# Keys that are not known

The keys of a map among which only some names are known.  The others are told by their texts, as long as
all of them can be written out.

* `Fields.Writable`: the keys of a map can be written out;
* `Fields.Within`: a map has none but some known keys;
* `Document.unknownKeys?_eq_none`, `Document.unknownKeys?_eq_nil`: when they cannot be told, and when
  there are none of them.
-/

namespace Shorthand

theorem Key.isWritable_int (i : Int) : (Key.int i).isWritable = Shorthand.isWritable i := by
  rw [Key.isWritable]

namespace Fields

/-- Every key of a map can be written out. -/
def Writable (fields : Fields) : Prop := ∀ entry ∈ fields, entry.1.isWritable = true

def Within (known : List String) (fields : Fields) : Prop :=
  ∀ entry ∈ fields, ∃ name ∈ known, entry.1 = .string name

variable {fields : Fields} {known : List String}

theorem not_writable_iff :
    ¬ fields.Writable ↔ ∃ i v, (Key.int i, v) ∈ fields ∧ isWritable i = false := by
  constructor
  · intro h
    simp only [Writable, Classical.not_forall] at h
    obtain ⟨⟨key, v⟩, hentry, hkey⟩ := h
    cases key with
    | int i => exact ⟨i, v, hentry, Bool.eq_false_iff.mpr hkey⟩
    | null | bool | float | string | moment | bytes => exact absurd rfl hkey
  · rintro ⟨i, v, hentry, hi⟩ h
    have hw := h _ hentry
    rw [Key.isWritable_int, hi] at hw
    cases hw

end Fields

namespace Document

variable {fields : Fields} {known : List String}

/-- A key that is not known. -/
def IsUnknown (known : List String) (key : Key) : Prop := ∀ name ∈ known, key ≠ .string name

theorem mem_unknown {key : Key} :
    key ∈ (fields.map (·.1)).filter (fun key => !known.any fun name => key == .string name) ↔
      (∃ v, (key, v) ∈ fields) ∧ IsUnknown known key := by
  simp [IsUnknown]

/-- The unknown keys cannot be told just if some key cannot be written out. -/
theorem unknownKeys?_eq_none : unknownKeys? known fields = none ↔ ¬ fields.Writable := by
  rw [Fields.not_writable_iff]
  unfold unknownKeys?
  dsimp only
  constructor
  · intro h
    split at h
    · cases h
    · next hall =>
      simp only [List.all_eq_true, Classical.not_forall] at hall
      obtain ⟨key, hkey, hw⟩ := hall
      obtain ⟨⟨v, hentry⟩, -⟩ := mem_unknown.mp hkey
      cases key with
      | int i => exact ⟨i, v, hentry, Bool.eq_false_iff.mpr hw⟩
      | null | bool | float | string | moment | bytes => exact absurd rfl hw
  · rintro ⟨i, v, hentry, hi⟩
    have hunknown : IsUnknown known (.int i) := fun name _ => nofun
    refine if_neg ?_
    intro hall
    have hw := List.all_eq_true.mp hall _ (mem_unknown.mpr ⟨⟨v, hentry⟩, hunknown⟩)
    rw [Key.isWritable_int, hi] at hw
    cases hw

/-- There are no unknown keys just if every key is known. -/
theorem unknownKeys?_eq_nil : unknownKeys? known fields = some [] ↔ fields.Within known := by
  unfold unknownKeys?
  dsimp only
  constructor
  · intro h
    split at h
    · have hnil := congrArg List.length (Option.some.inj h)
      rw [List.length_mergeSort, List.length_map] at hnil
      intro entry hentry
      refine Classical.byContradiction fun hknown => ?_
      have hunknown : IsUnknown known entry.1 := fun name hname heq => hknown ⟨name, hname, heq⟩
      have hmem := mem_unknown.mpr ⟨⟨entry.2, hentry⟩, hunknown⟩
      rw [List.length_eq_zero_iff.mp hnil] at hmem
      cases hmem
    · cases h
  · intro h
    have hnil : (fields.map (·.1)).filter (fun key => !known.any fun name => key == .string name) = [] := by
      refine List.eq_nil_iff_forall_not_mem.mpr ?_
      intro key hkey
      obtain ⟨⟨v, hentry⟩, hunknown⟩ := mem_unknown.mp hkey
      obtain ⟨name, hname, heq⟩ := h _ hentry
      exact hunknown name hname heq
    rw [hnil, List.map_nil, List.mergeSort_nil]
    rfl

end Document

end Shorthand
