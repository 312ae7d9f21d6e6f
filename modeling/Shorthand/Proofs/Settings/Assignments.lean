import Mathlib.Data.List.Forall2
import Mathlib.Data.List.TakeDrop
import Mathlib.Data.List.TakeWhile
import Shorthand.Proofs.Document.Checked
import Shorthand.Proofs.Settings.Override

/-!
# Assignments

An item assigns a value to a name, or it is no assignment at all.  A list of items makes variables just if
each item is an assignment, and the last one of a name counts.

* `Settings.Assigns`, `Settings.IsNoAssignment`: what an item assigns, and what keeps it from assigning
  anything;
* `Settings.assignments_of_assigns`, `Settings.assignments_of_isNoAssignment`: what a list of items makes;
* `Settings.assignments_append`: later items are set on top of earlier ones;
* `Settings.AssignsLast`: the last item of a name, whose value is the one that the name has in the end.
-/

namespace Shorthand

namespace Settings

/-- An item assigns a value to a name.  The name is what stands before the first equals sign, without the
blanks around it, and something has to be left of it; the value is all that stands behind the sign. -/
inductive Assigns : String → String × String → Prop where
  | item {before value : String} (he : '=' ∉ before.toList)
    (hn : ∃ c ∈ before.toList, Text.isBlank c = false) :
    Assigns (before ++ "=" ++ value) (Text.strip before, value)

/-- An item is no assignment: there is no equals sign in it, or nothing but blanks before the first one. -/
inductive IsNoAssignment : String → Prop where
  | unmarked {item : String} (he : '=' ∉ item.toList) : IsNoAssignment item
  | unnamed {before value : String} (he : '=' ∉ before.toList) (hb : ∀ c ∈ before.toList, Text.isBlank c = true) :
    IsNoAssignment (before ++ "=" ++ value)

/-! ### Items -/

theorem decide_ne_equals {cs : List Char} (he : '=' ∉ cs) : ∀ c ∈ cs, decide (c ≠ '=') = true := by
  intro c hc
  refine decide_eq_true ?_
  rintro rfl
  exact he hc

theorem span_at_equals {before : String} (he : '=' ∉ before.toList) (value : String) :
    (before ++ "=" ++ value).toList.span (fun c => c ≠ '=') = (before.toList, '=' :: value.toList) := by
  have hlist : (before ++ "=" ++ value).toList = before.toList ++ '=' :: value.toList := by simp
  have hall := decide_ne_equals he
  rw [List.span_eq_takeWhile_dropWhile, hlist, List.takeWhile_append_of_pos hall,
    List.dropWhile_append_of_pos hall]
  simp

theorem span_without_equals {item : String} (he : '=' ∉ item.toList) :
    item.toList.span (fun c => c ≠ '=') = (item.toList, []) := by
  have hall := decide_ne_equals he
  rw [List.span_eq_takeWhile_dropWhile, List.takeWhile_eq_self_iff.mpr hall,
    List.dropWhile_eq_nil_iff.mpr hall]

theorem assignment_of_assigns {item : String} {entry : String × String} (h : Assigns item entry) :
    assignment item = .ok entry := by
  cases h with
  | @item before value he hn =>
    have hb : before.toList.all Text.isBlank = false := Text.isBlankText_eq_false.mpr hn
    unfold assignment
    rw [span_at_equals he]
    have hok : (if before.toList.all Text.isBlank then .error (.notAssignment (before ++ "=" ++ value))
        else .ok (.ofList (Text.stripList before.toList), .ofList value.toList)) =
        (.ok (Text.strip before, value) : Except Fault (String × String)) := by
      rw [hb, String.ofList_toList]
      rfl
    exact hok

theorem assignment_of_isNoAssignment {item : String} (h : IsNoAssignment item) :
    assignment item = .error (.notAssignment item) := by
  unfold assignment
  cases h with
  | unmarked he => rw [span_without_equals he]
  | @unnamed before value he hb =>
    rw [span_at_equals he]
    dsimp only
    rw [List.all_eq_true.mpr hb]
    rfl

/-- An item that holds an equals sign is cut at the first one. -/
theorem exists_first_equals {item : String} (h : '=' ∈ item.toList) :
    ∃ before value : String, item = before ++ "=" ++ value ∧ '=' ∉ before.toList := by
  obtain ⟨front, back, hitem, hfront⟩ := List.eq_append_cons_of_mem h
  refine ⟨.ofList front, .ofList back, ?_, by simpa using hfront⟩
  rw [← String.toList_inj]
  simpa using hitem

theorem assigns_or_isNoAssignment (item : String) : (∃ entry, Assigns item entry) ∨ IsNoAssignment item := by
  by_cases he : '=' ∈ item.toList
  · obtain ⟨before, value, rfl, hbefore⟩ := exists_first_equals he
    cases hb : Text.isBlankText before with
    | false => exact .inl ⟨_, .item hbefore (Text.isBlankText_eq_false.mp hb)⟩
    | true => exact .inr (.unnamed hbefore (List.all_eq_true.mp hb))
  · exact .inr (.unmarked he)

/-! ### Lists of items -/

/-- A step takes an item on top of the variables made so far. -/
def assign (vars : Variables) (item : String) : Except Fault Variables :=
  (assignment item).map fun (name, value) => vars.put name value

theorem foldlM_assign_append {front : List String} {entries : Variables} (h : List.Forall₂ Assigns front entries)
    (vars : Variables) (rest : List String) :
    (front ++ rest).foldlM assign vars = rest.foldlM assign (vars.override entries) := by
  induction h generalizing vars with
  | nil => rfl
  | @cons item entry front entries hentry _ ih =>
    have hstep : assign vars item = .ok (vars.put entry.1 entry.2) := by
      rw [assign, assignment_of_assigns hentry]
      rfl
    rw [List.cons_append, List.foldlM_cons, hstep]
    exact ih _

theorem assignments_of_assigns {items : List String} {entries : Variables} (h : List.Forall₂ Assigns items entries) :
    assignments items = .ok (Variables.override [] entries) := by
  have hfold := foldlM_assign_append h [] []
  rw [List.append_nil] at hfold
  exact hfold

/-- The first item that is no assignment is the one that is reported. -/
theorem assignments_of_isNoAssignment {front : List String} {entries : Variables} {item : String}
    (hf : List.Forall₂ Assigns front entries) (hi : IsNoAssignment item) (back : List String) :
    assignments (front ++ item :: back) = .error (.notAssignment item) := by
  have hstep : assign (Variables.override [] entries) item = .error (.notAssignment item) := by
    rw [assign, assignment_of_isNoAssignment hi]
    rfl
  have hfold := foldlM_assign_append hf [] (item :: back)
  rw [List.foldlM_cons, hstep] at hfold
  exact hfold

theorem items_cases (items : List String) :
    (∃ entries, List.Forall₂ Assigns items entries) ∨
      ∃ front item back entries, items = front ++ item :: back ∧ List.Forall₂ Assigns front entries ∧
        IsNoAssignment item := by
  induction items with
  | nil => exact .inl ⟨[], .nil⟩
  | cons item rest ih =>
    rcases assigns_or_isNoAssignment item with ⟨entry, hentry⟩ | hitem
    · rcases ih with ⟨entries, h⟩ | ⟨front, other, back, entries, rfl, h, hother⟩
      · exact .inl ⟨entry :: entries, .cons hentry h⟩
      · exact .inr ⟨item :: front, other, back, entry :: entries, rfl, .cons hentry h, hother⟩
    · exact .inr ⟨[], item, rest, [], rfl, .nil, hitem⟩

theorem exists_assigns {items : List String} (h : ∀ item ∈ items, ¬ IsNoAssignment item) :
    ∃ entries, List.Forall₂ Assigns items entries := by
  rcases items_cases items with hentries | ⟨front, item, back, entries, rfl, -, hitem⟩
  · exact hentries
  · exact absurd hitem (h item (by simp))

theorem Assigns.not_isNoAssignment {item : String} {entry : String × String} (h : Assigns item entry) :
    ¬ IsNoAssignment item := by
  intro hno
  have hok := assignment_of_assigns h
  rw [assignment_of_isNoAssignment hno] at hok
  cases hok

theorem not_isNoAssignment_of_mem {items : List String} {entries : Variables}
    (h : List.Forall₂ Assigns items entries) : ∀ item ∈ items, ¬ IsNoAssignment item := by
  induction h with
  | nil => exact nofun
  | cons hentry _ ih =>
    intro item hitem
    rcases List.mem_cons.mp hitem with rfl | hrest
    · exact hentry.not_isNoAssignment
    · exact ih item hrest

/-- Items make no variables just if one of them is no assignment. -/
theorem assignments_eq_error_iff {items : List String} :
    (∃ fault, assignments items = .error fault) ↔ ∃ item ∈ items, IsNoAssignment item := by
  rcases items_cases items with ⟨entries, h⟩ | ⟨front, item, back, entries, rfl, h, hitem⟩
  · rw [assignments_of_assigns h]
    refine iff_of_false nofun ?_
    rintro ⟨item, hitem, hno⟩
    exact not_isNoAssignment_of_mem h item hitem hno
  · rw [assignments_of_isNoAssignment h hitem]
    exact iff_of_true ⟨_, rfl⟩ ⟨item, by simp, hitem⟩

/-- **Later items are set on top of earlier ones.** -/
theorem assignments_append (xs ys : List String) :
    assignments (xs ++ ys) = (do
      let base ← assignments xs
      let others ← assignments ys
      pure (base.override others)) := by
  rcases items_cases xs with ⟨entries, hxs⟩ | ⟨front, item, back, entries, rfl, hxs, hitem⟩
  · rw [assignments_of_assigns hxs]
    rcases items_cases ys with ⟨others, hys⟩ | ⟨front, item, back, others, rfl, hys, hitem⟩
    · have hset : (Variables.override [] entries).override (Variables.override [] others) =
          (Variables.override [] entries).override others := Variables.distinct_nil.override_override _ _
      rw [assignments_of_assigns hys, assignments_of_assigns (List.rel_append hxs hys), Variables.override_append,
        ← hset]
      rfl
    · have hfront : List.Forall₂ Assigns (xs ++ front) (entries ++ others) := List.rel_append hxs hys
      rw [assignments_of_isNoAssignment hys hitem, ← List.append_assoc,
        assignments_of_isNoAssignment hfront hitem]
      rfl
  · rw [List.append_assoc, List.cons_append, assignments_of_isNoAssignment hxs hitem,
      assignments_of_isNoAssignment hxs hitem]
    rfl

/-! ### The last item of a name -/

/-- An item assigns a value to a name, and no item behind it assigns anything to this name. -/
def AssignsLast (items : List String) (name value : String) : Prop :=
  ∃ front item back, items = front ++ item :: back ∧ Assigns item (name, value) ∧
    ∀ other ∈ back, ∀ w, ¬ Assigns other (name, w)

theorem Assigns.unique {item : String} {entry other : String × String} (h : Assigns item entry)
    (ho : Assigns item other) : entry = other := by
  have hok := assignment_of_assigns h
  rw [assignment_of_assigns ho] at hok
  cases hok
  rfl

/-- The names of the entries are those to which the items assign something. -/
theorem ne_of_assigns {items : List String} {entries : Variables} (h : List.Forall₂ Assigns items entries)
    (name : String) : (∀ entry ∈ entries, entry.1 ≠ name) ↔ ∀ item ∈ items, ∀ w, ¬ Assigns item (name, w) := by
  induction h with
  | nil => exact iff_of_true nofun nofun
  | @cons item entry items entries hentry _ ih =>
    obtain ⟨n, v⟩ := entry
    rw [List.forall_mem_cons, List.forall_mem_cons, ih]
    refine and_congr_left' ?_
    constructor
    · intro hne w hw
      cases hentry.unique hw
      exact hne rfl
    · rintro hno rfl
      exact hno v hentry

theorem isLast_iff_assignsLast {items : List String} {entries : Variables}
    (h : List.Forall₂ Assigns items entries) (name value : String) :
    entries.IsLast name value ↔ AssignsLast items name value := by
  constructor
  · rintro ⟨front, back, rfl, hback⟩
    have hdrop := List.forall₂_drop_append items front ((name, value) :: back) h
    obtain ⟨item, rest, hitem, hrest, heq⟩ := List.forall₂_cons_right_iff.mp hdrop
    refine ⟨items.take front.length, item, rest, ?_, hitem, (ne_of_assigns hrest name).mp hback⟩
    rw [← heq, List.take_append_drop]
  · rintro ⟨front, item, back, rfl, hitem, hback⟩
    have hdrop := List.forall₂_drop_append entries front (item :: back) h.flip
    obtain ⟨entry, rest, hentry, hrest, heq⟩ := List.forall₂_cons_right_iff.mp hdrop
    obtain rfl : entry = (name, value) := hentry.unique hitem
    refine ⟨entries.take front.length, rest, ?_, (ne_of_assigns hrest.flip name).mpr hback⟩
    rw [← heq, List.take_append_drop]

end Settings

end Shorthand
