import Mathlib.Data.List.Nodup
import Shorthand.Diagnostic
import Shorthand.Proofs.Position.Reading

/-!
# The order of reports

Reports are ordered by the file, the position and the code.  The order is total, so that reports which
are in order are left as they are.

* `Diagnostic.precedes_trans`, `Diagnostic.precedes_total`: the order;
* `Diagnostic.sort_sort`: what is in order stays so;
* `Diagnostic.Canonical`, `Diagnostic.canonical_sort`: reports of different positions have but one order.
-/

namespace Shorthand

namespace Diagnostic

theorem compareKeys_eq : compareKeys =
    compareLex (compareOn (·.1)) (compareLex (compareOn (·.2.1)) (compareOn (·.2.2))) := rfl

instance : Std.TransCmp compareKeys := by
  rw [compareKeys_eq]
  infer_instance

theorem precedes_trans (a b c : Diagnostic) (hab : precedes a b) (hbc : precedes b c) : precedes a c := by
  unfold precedes at hab hbc ⊢
  exact Std.TransCmp.isLE_trans hab hbc

theorem precedes_total (a b : Diagnostic) : precedes a b || precedes b a := by
  have hswap : compareKeys b.sortKey a.sortKey = (compareKeys a.sortKey b.sortKey).swap :=
    Std.OrientedCmp.eq_swap
  rw [Bool.or_eq_true, precedes, precedes, hswap]
  cases compareKeys a.sortKey b.sortKey
  · exact .inl rfl
  · exact .inl rfl
  · exact .inr rfl

theorem pairwise_sort (ds : List Diagnostic) : (sort ds).Pairwise fun a b => precedes a b :=
  List.pairwise_mergeSort precedes_trans precedes_total ds

theorem mem_sort {d : Diagnostic} {ds : List Diagnostic} : d ∈ sort ds ↔ d ∈ ds := List.mem_mergeSort

/-- **Reports that are in order** are left as they are. -/
theorem sort_sort (ds : List Diagnostic) : sort (sort ds) = sort ds :=
  List.mergeSort_of_pairwise (pairwise_sort ds)

theorem sort_singleton (d : Diagnostic) : sort [d] = [d] := List.mergeSort_singleton d

theorem sort_perm (ds : List Diagnostic) : (sort ds).Perm ds := List.mergeSort_perm ds precedes

theorem sort_ne_nil {ds : List Diagnostic} (h : ds ≠ []) : sort ds ≠ [] := fun hs =>
  h (List.perm_nil.mp (hs ▸ (sort_perm ds).symm))

/-! ### Reports of different positions -/

/-- One report has to stand before the other. -/
def Before (a b : Diagnostic) : Prop := compareKeys a.sortKey b.sortKey = .lt

theorem not_before_of_before {a b : Diagnostic} (hab : a.Before b) : ¬ b.Before a := by
  intro hba
  have hswap : compareKeys b.sortKey a.sortKey = (compareKeys a.sortKey b.sortKey).swap :=
    Std.OrientedCmp.eq_swap
  rw [show compareKeys a.sortKey b.sortKey = .lt from hab] at hswap
  rw [show compareKeys b.sortKey a.sortKey = .lt from hba] at hswap
  cases hswap

theorem before_of_precedes {a b : Diagnostic} (h : precedes a b) (hne : a.position.getD "" ≠ b.position.getD "") :
    a.Before b := by
  unfold precedes at h
  unfold Before
  cases hc : compareKeys a.sortKey b.sortKey with
  | lt => rfl
  | eq =>
    obtain ⟨-, hc⟩ := Ordering.then_eq_eq.mp hc
    obtain ⟨hp, -⟩ := Ordering.then_eq_eq.mp hc
    exact absurd (Std.LawfulEqCmp.eq_of_compare hp) hne
  | gt =>
    rw [hc] at h
    cases h

/-- The texts of the positions of reports; a position that is not known has none. -/
def texts (ds : List Diagnostic) : List String := ds.map fun d => d.position.getD ""

section Texts

variable {ds es : List Diagnostic}

theorem increasing_sort (h : (texts ds).Nodup) : (sort ds).Pairwise Before := by
  have hs : (texts (sort ds)).Nodup := ((sort_perm ds).map _).nodup_iff.mpr h
  refine ((pairwise_sort ds).and (List.pairwise_map.mp hs)).imp ?_
  rintro a b ⟨hp, hne⟩
  exact before_of_precedes hp hne

/-- There is but one order that the same reports of different positions may have. -/
theorem eq_of_increasing (hd : ds.Pairwise Before) (he : es.Pairwise Before) (hp : ds.Perm es) : ds = es :=
  List.Perm.eq_of_pairwise (fun _ _ _ _ hab hba => absurd hba (not_before_of_before hab)) hd he hp

theorem sort_eq_of_perm (h : (texts ds).Nodup) (hp : es.Perm ds) : sort es = sort ds := by
  have hes : (texts es).Nodup := (hp.map _).nodup_iff.mpr h
  exact eq_of_increasing (increasing_sort hes) (increasing_sort h)
    ((sort_perm es).trans (hp.trans (sort_perm ds).symm))

theorem filter_sort (h : (texts ds).Nodup) (select : Diagnostic → Bool) :
    (sort ds).filter select = sort (ds.filter select) := by
  have hfilter : (texts (ds.filter select)).Nodup := (List.filter_sublist.map _).nodup h
  exact eq_of_increasing ((increasing_sort h).filter select) (increasing_sort hfilter)
    (((sort_perm ds).filter select).trans (sort_perm _).symm)

/-- Different positions with plain names have different texts. -/
theorem nodup_texts {α : Type} {xs : List α} {report : α → Diagnostic} {position : α → Position}
    (hr : ∀ x ∈ xs, (report x).position = some (position x).text) (hp : ∀ x ∈ xs, (position x).Plain)
    (hn : (xs.map position).Nodup) : (texts (xs.map report)).Nodup := by
  have htext : texts (xs.map report) = (xs.map position).map Position.text := by
    rw [texts, List.map_map, List.map_map]
    exact List.map_congr_left fun x hx => by simp [hr x hx]
  rw [htext]
  refine hn.map_on ?_
  intro p hmem q hmem' hpq
  obtain ⟨x, hx, rfl⟩ := List.mem_map.mp hmem
  obtain ⟨y, hy, rfl⟩ := List.mem_map.mp hmem'
  exact Position.text_inj (hp x hx) (hp y hy) hpq

end Texts

/-- Reports in the only order that they may have: no two of them have the same position, each has to stand
before those behind it, and sorting comes to this order from any other one. -/
structure Canonical (reports : List Diagnostic) : Prop where
  distinct : (reports.map (·.position)).Nodup
  increasing : reports.Pairwise Before
  unordered : ∀ ds : List Diagnostic, ds.Perm reports → sort ds = reports

/-- **Reports of different positions** are in order, whatever the order in which they were found. -/
theorem canonical_sort {ds : List Diagnostic} (h : (texts ds).Nodup) : Canonical (sort ds) where
  distinct := by
    refine List.Nodup.of_map (fun o : Option String => o.getD "") ?_
    rw [List.map_map]
    exact ((sort_perm ds).map _).nodup_iff.mpr h
  increasing := increasing_sort h
  unordered _ hp := sort_eq_of_perm h (hp.trans (sort_perm ds))

end Diagnostic

end Shorthand
