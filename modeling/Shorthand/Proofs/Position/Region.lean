import Shorthand.Proofs.Statement.Walk

/-!
# Regions of a document

Positions that are collected in a walk over a document are all different if each part of the walk keeps
to a region of its own.

* `Position.Under`, `Position.UnderItems`: what stands below some entries of a map, or below the items of
  a list from a place on;
* `Position.Fills region qs`: the positions `qs` are all different and stand in the region;
* `Fills.append`, `Fills.under_append`, `Fills.items`: the ways in which positions are put together;
* `Tree.fills_walk`: what belongs to the single statements of a tree is all different.
-/

namespace Shorthand

namespace Position

/-- What stands below the entries of a map that have certain names. -/
def Under (p : Position) (names : List String) (q : Position) : Prop := ∃ name ∈ names, p.field name <+: q

/-- What stands below the items of a list, from the place `k` on. -/
def UnderItems (p : Position) (k : Nat) (q : Position) : Prop := ∃ j, k ≤ j ∧ p.item j <+: q

variable {p q : Position} {names others : List String} {k : Nat}

theorem Under.prefix (h : p.Under names q) : p <+: q :=
  let ⟨_, _, hq⟩ := h
  prefix_of_field hq

theorem UnderItems.prefix (h : p.UnderItems k q) : p <+: q :=
  let ⟨_, _, hq⟩ := h
  prefix_of_item hq

theorem Under.disjoint (hd : names.Disjoint others) (h : p.Under names q) : ¬ p.Under others q := by
  rintro ⟨other, ho, hq'⟩
  obtain ⟨name, hn, hq⟩ := h
  rw [field_inj hq hq'] at hn
  exact hd hn ho

theorem Under.inside (hn : "elements" ∉ names) (h : p.Under names q) : p.Inside q := by
  obtain ⟨name, hname, hq⟩ := h
  refine inside_of_field ?_ hq
  rintro rfl
  exact hn hname

/-- What stands below an item does not stand below those behind it. -/
theorem UnderItems.not_of_item (hq : p.item k <+: q) : ¬ p.UnderItems (k + 1) q := by
  rintro ⟨j, hj, hjq⟩
  have hjk : j = k := item_inj hjq hq
  omega

/-! ### Filled regions -/

/-- Positions in a region, all of them different. -/
structure Fills (region : Position → Prop) (qs : List Position) : Prop where
  nodup : qs.Nodup
  within : ∀ q ∈ qs, region q

namespace Fills

variable {region other : Position → Prop} {qs rs : List Position}

theorem nil : Fills region [] := ⟨List.nodup_nil, nofun⟩

theorem singleton (h : region q) : Fills region [q] :=
  ⟨List.nodup_singleton q, fun r hr => by rwa [List.mem_singleton.mp hr]⟩

theorem mono (h : Fills region qs) (hr : ∀ q, region q → other q) : Fills other qs :=
  ⟨h.nodup, fun q hq => hr q (h.within q hq)⟩

theorem sublist (h : Fills region qs) (hs : rs.Sublist qs) : Fills region rs :=
  ⟨hs.nodup h.nodup, fun q hq => h.within q (hs.subset hq)⟩

theorem append (h : Fills region qs) (h' : Fills other rs) (hd : ∀ q, region q → ¬ other q) :
    Fills (fun q => region q ∨ other q) (qs ++ rs) := by
  refine ⟨List.nodup_append.mpr ⟨h.nodup, h'.nodup, ?_⟩, fun q hq => ?_⟩
  · rintro q hq _ hq' rfl
    exact hd q (h.within q hq) (h'.within q hq')
  · exact (List.mem_append.mp hq).imp (h.within q) (h'.within q)

theorem field {name : String} (h : Fills (p.field name <+: ·) qs) : Fills (p.Under [name]) qs :=
  h.mono fun _ hq => ⟨name, List.mem_singleton_self name, hq⟩

theorem under_append (h : Fills (p.Under names) qs) (h' : Fills (p.Under others) rs)
    (hd : names.Disjoint others) : Fills (p.Under (names ++ others)) (qs ++ rs) := by
  refine (h.append h' fun q => Under.disjoint hd).mono ?_
  rintro q (⟨name, hn, hq⟩ | ⟨name, hn, hq⟩)
  · exact ⟨name, List.mem_append_left _ hn, hq⟩
  · exact ⟨name, List.mem_append_right _ hn, hq⟩

theorem items_append (h : Fills (p.item k <+: ·) qs) (h' : Fills (p.UnderItems (k + 1)) rs) :
    Fills (p.UnderItems k) (qs ++ rs) := by
  refine (h.append h' fun q => UnderItems.not_of_item).mono ?_
  rintro q (hq | ⟨j, hj, hq⟩)
  · exact ⟨k, Nat.le_refl k, hq⟩
  · exact ⟨j, Nat.le_of_succ_le hj, hq⟩

theorem items_from {α β : Type} {xs : List α} {f : Nat → α → List β} {position : β → Position}
    (h : ∀ i x, xs[i]? = some x → Fills (p.item (k + i) <+: ·) ((f i x).map position)) :
    Fills (p.UnderItems k) ((xs.mapIdx f).flatten.map position) := by
  induction xs generalizing k f with
  | nil => exact nil
  | cons x xs ih =>
    rw [List.mapIdx_cons, List.flatten_cons, List.map_append]
    refine (h 0 x rfl).items_append (ih fun i y hy => ?_)
    rw [Nat.add_right_comm]
    exact h (i + 1) y hy

theorem items {α β : Type} {xs : List α} {f : Nat → α → List β} {position : β → Position}
    (h : ∀ i x, xs[i]? = some x → Fills (p.item i <+: ·) ((f i x).map position)) :
    Fills (p.UnderItems 0) ((xs.mapIdx f).flatten.map position) := by
  refine items_from fun i x hx => ?_
  rw [Nat.zero_add]
  exact h i x hx

end Fills

end Position

/-! ### The walk -/

section Walk

open Position

variable {own : Position → Statement → List Position}

/-- What belongs to a statement itself and to its children, if this is known of the children. -/
theorem Statement.fills_of_children (h : ∀ p s, Fills p.Inside (own p s)) {s : Statement} {p : Position}
    {qs : List Position} (hc : Fills ((p.field "elements").UnderItems 0) qs) : Fills (p <+: ·) (own p s ++ qs) := by
  refine ((h p s).append hc fun q hq hi => hq.2 hi.prefix).mono ?_
  rintro q (hq | hq)
  · exact hq.1
  · exact prefix_of_field hq.prefix

mutual

/-- What belongs to the single statements of a walk is all different. -/
theorem Statement.fills_walk (h : ∀ p s, Fills p.Inside (own p s)) : ∀ (s : Statement) (p : Position),
    Fills (p <+: ·) ((s.walk p).flatMap fun x => own x.1 x.2)
  | .element _ cs _, p | .group cs _, p => by
    rw [walk, List.flatMap_cons]
    exact fills_of_children h (fills_walkAll h cs (p.field "elements") 0)

theorem Statement.fills_walkAll (h : ∀ p s, Fills p.Inside (own p s)) : ∀ (ss : List Statement)
    (p : Position) (k : Nat), Fills (p.UnderItems k) ((Statement.walkAll p k ss).flatMap fun x => own x.1 x.2)
  | [], _, _ => .nil
  | s :: rest, p, k => by
    rw [walkAll, List.flatMap_append]
    exact (fills_walk h s (p.item k)).items_append (fills_walkAll h rest p (k + 1))

end

theorem Tree.fills_walk (h : ∀ p s, Fills p.Inside (own p s)) (t : Tree) :
    Fills ((Tree.root.field "elements").UnderItems 0) (t.walk.flatMap fun x => own x.1 x.2) :=
  Statement.fills_walkAll h t.statements _ 0

end Walk

end Shorthand
