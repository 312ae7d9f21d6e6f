import Shorthand.Proofs.Lint.Positions
import Shorthand.Proofs.Position.Region

/-!
# The findings of lint are apart

No two rules of lint find fault with one position: what a rule blames in a statement tells the rule, and
no two statements have anything in common.

* `Lint.placeIn_of_mem_statementFindings`: a finding stands where its rule says;
* `Lint.fills_statementFindings`: no two findings of a statement have one position;
* `Lint.nodup_findings`: nor do any two of a tree.
-/

namespace Shorthand

namespace Lint

open Position

/-! ### Places of rules -/

section Places

variable {known : Option (List String)} {p q : Position} {s : Statement} {f : Finding}

theorem exists_item_of_mem_references {tokens : Option (List Token)} {name : String}
    (h : (q, name) ∈ references p tokens) : ∃ i, q = p.item i := by
  obtain ⟨x, hx, he⟩ := List.mem_filterMap.mp h
  obtain ⟨i, hi, hm⟩ := List.mem_mapIdx.mp hx
  rw [← hm] at he
  obtain ⟨n, -, hn⟩ := Option.map_eq_some_iff.mp he
  cases hn
  exact ⟨i, rfl⟩

theorem isTokenIn_of_mem_statementReferences {name : String} (h : (q, name) ∈ statementReferences p s) :
    IsTokenIn p q := by
  cases s with
  | group cs r => cases h
  | element head cs r =>
    unfold statementReferences at h
    rw [List.mem_append, List.mem_append] at h
    rcases h with (h | h) | h
    · exact ⟨_, exists_item_of_mem_references h, .inl rfl⟩
    · exact ⟨_, exists_item_of_mem_references h, .inr (.inl rfl)⟩
    · obtain ⟨refs, hrefs, h⟩ := List.mem_flatten.mp h
      obtain ⟨i, hi, rfl⟩ := List.mem_mapIdx.mp hrefs
      rcases List.mem_append.mp h with h | h
      · exact ⟨_, exists_item_of_mem_references h, .inr (.inr ⟨i, .inl rfl⟩)⟩
      · exact ⟨_, exists_item_of_mem_references h, .inr (.inr ⟨i, .inr rfl⟩)⟩

theorem placeIn_of_mem_repeatFindings (h : f ∈ repeatFindings p s) :
    f.position = (p.field "repeat").field "count" := by
  unfold repeatFindings at h
  split at h
  · split at h
    · rw [List.mem_singleton.mp h]
    · cases h
  · cases h

theorem placeIn_of_mem_delimiterFindings (h : f ∈ delimiterFindings p s) :
    ∃ i, f.position = (attributeAt p i).field "value" := by
  obtain ⟨i, hi, hf⟩ := mem_delimiterFindings.mp h
  exact ⟨i, (of_mem_valueFindings hf).1⟩

theorem placeIn_of_mem_variableFindings {names : List String} (h : f ∈ variableFindings names p s) :
    IsTokenIn p f.position := by
  obtain ⟨⟨q, name⟩, hq, rfl⟩ := List.mem_map.mp h
  exact isTokenIn_of_mem_statementReferences (List.mem_of_mem_filter hq)

/-- A finding of a statement stands where its rule says. -/
theorem placeIn_of_mem_statementFindings (h : f ∈ statementFindings known p s) :
    f.rule.PlaceIn p f.position := by
  unfold statementFindings at h
  rw [List.mem_append, List.mem_append] at h
  rcases h with (h | h) | h
  · rw [rule_of_mem_repeatFindings h]
    exact placeIn_of_mem_repeatFindings h
  · obtain ⟨i, hi, hf⟩ := mem_delimiterFindings.mp h
    obtain ⟨hp, hr | hr⟩ := of_mem_valueFindings hf <;> rw [hr] <;> exact ⟨i, hp⟩
  · cases known with
    | none => cases h
    | some names =>
      have hin := placeIn_of_mem_variableFindings h
      obtain ⟨x, -, rfl⟩ := List.mem_map.mp h
      exact hin

theorem under_attributeAt (p : Position) (i : Nat) (name : String) :
    p.Under ["attributes"] ((attributeAt p i).field name) :=
  ⟨"attributes", List.mem_singleton_self _, (prefix_attributeAt p i).trans (List.prefix_append _ _)⟩

theorem IsTokenIn.under (h : IsTokenIn p q) : p.Under ["name", "value", "attributes"] q := by
  obtain ⟨list, ⟨i, rfl⟩, hl⟩ := h
  have hlist : list <+: list.item i := List.prefix_append _ _
  rcases hl with rfl | rfl | ⟨j, rfl | rfl⟩
  · exact ⟨"name", by simp, hlist⟩
  · exact ⟨"value", by simp, hlist⟩
  · obtain ⟨name, hn, hp⟩ := under_attributeAt p j "name"
    exact ⟨name, by simp_all, hp.trans hlist⟩
  · obtain ⟨name, hn, hp⟩ := under_attributeAt p j "value"
    exact ⟨name, by simp_all, hp.trans hlist⟩

/-- A token is an item of a list, and no entry of a map. -/
theorem IsTokenIn.ne_field (h : IsTokenIn p q) (r : Position) (name : String) : q ≠ r.field name := by
  obtain ⟨list, ⟨i, rfl⟩, -⟩ := h
  intro he
  have hlast := congrArg List.getLast? he
  simp [item, field] at hlast

end Places

/-! ### Findings of a statement -/

section Statements

variable (known : Option (List String)) (p : Position) (s : Statement)

theorem fills_repeatFindings :
    Fills (· = (p.field "repeat").field "count") ((repeatFindings p s).map (·.position)) := by
  refine ⟨?_, fun q hq => ?_⟩
  · unfold repeatFindings
    split
    · split
      · exact List.nodup_singleton _
      · exact List.nodup_nil
    · exact List.nodup_nil
  · obtain ⟨f, hf, rfl⟩ := List.mem_map.mp hq
    exact placeIn_of_mem_repeatFindings hf

theorem fills_valueFindings (a : Attribute) : Fills (p <+: ·) ((valueFindings p a).map (·.position)) := by
  dsimp only [valueFindings]
  split
  · exact .singleton (List.prefix_refl p)
  · split
    · exact .singleton (List.prefix_refl p)
    · exact .nil

theorem fills_delimiterFindings :
    Fills (fun q => ∃ i, q = (attributeAt p i).field "value") ((delimiterFindings p s).map (·.position)) := by
  have hall : Fills ((p.field "attributes").UnderItems 0) ((delimiterFindings p s).map (·.position)) :=
    .items fun i a _ => (fills_valueFindings _ a).mono fun q => prefix_of_field
  refine ⟨hall.nodup, fun q hq => ?_⟩
  obtain ⟨f, hf, rfl⟩ := List.mem_map.mp hq
  exact placeIn_of_mem_delimiterFindings hf

/-- What some of the items of a list give is collected item by item. -/
theorem filterMap_mapIdx {α β : Type} (g : Nat → α → Option β) (xs : List α) :
    (xs.mapIdx g).filterMap id = (xs.mapIdx fun i x => (g i x).toList).flatten := by
  induction xs generalizing g with
  | nil => rfl
  | cons x xs ih =>
    rw [List.mapIdx_cons, List.mapIdx_cons, List.flatten_cons, ← ih fun i => g (i + 1)]
    cases hg : g 0 x <;> simp

theorem fills_references (tokens : Option (List Token)) :
    Fills (p <+: ·) ((references p tokens).map (·.1)) := by
  unfold references
  rw [filterMap_mapIdx]
  refine Fills.mono (Fills.items fun i t _ => ?_) fun q => UnderItems.prefix
  cases t.referent? with
  | none => exact .nil
  | some name => exact .singleton (List.prefix_refl _)

theorem fills_attributeReferences (a : Attribute) :
    Fills (p <+: ·) ((attributeReferences p a).map (·.1)) := by
  unfold attributeReferences
  rw [List.map_append]
  have hname := (fills_references (p.field "name") a.name).field
  have hvalue := (fills_references (p.field "value") a.value).field
  exact (hname.under_append hvalue (by simp)).mono fun q => Under.prefix

theorem fills_statementReferences : Fills (IsTokenIn p) ((statementReferences p s).map (·.1)) := by
  refine ⟨?_, fun q hq => ?_⟩
  · cases s with
    | group cs r => exact List.nodup_nil
    | element head cs r =>
      have hname := (fills_references (p.field "name") head.name).field
      have hvalue := (fills_references (p.field "value") head.value).field
      have hlist : Fills ((p.field "attributes").UnderItems 0)
          (((head.attributes.getD []).mapIdx fun i a =>
            attributeReferences (attributeAt p i) a).flatten.map (·.1)) :=
        .items fun i a _ => fills_attributeReferences _ a
      have hattributes := (hlist.mono fun q => UnderItems.prefix).field
      unfold statementReferences
      rw [List.map_append, List.map_append]
      exact ((hname.under_append hvalue (by simp)).under_append hattributes (by simp)).nodup
  · obtain ⟨⟨q, name⟩, hx, rfl⟩ := List.mem_map.mp hq
    exact isTokenIn_of_mem_statementReferences hx

theorem fills_variableFindings (names : List String) :
    Fills (IsTokenIn p) ((variableFindings names p s).map (·.position)) := by
  unfold variableFindings
  rw [List.map_map]
  exact (fills_statementReferences p s).sublist (List.filter_sublist.map _)

/-- **The findings of a statement** stand in it, each at a place of its own, and none at its repeat. -/
theorem fills_statementFindings :
    Fills (fun q => p.Inside q ∧ q ≠ p.field "repeat") ((statementFindings known p s).map (·.position)) := by
  have hrepeat : p.Under ["repeat"] ((p.field "repeat").field "count") :=
    ⟨"repeat", List.mem_singleton_self _, List.prefix_append _ _⟩
  have hdelimiters := (fills_repeatFindings p s).append (fills_delimiterFindings p s) <| by
    rintro q rfl ⟨i, hq⟩
    exact hrepeat.disjoint (by simp) (hq ▸ under_attributeAt p i "value")
  unfold statementFindings
  rw [List.map_append, List.map_append]
  refine (hdelimiters.append (?references : Fills (IsTokenIn p) _) ?apart).mono ?inside
  case references =>
    cases known with
    | none => exact .nil
    | some names => exact fills_variableFindings p s names
  case apart =>
    rintro q (rfl | ⟨i, rfl⟩) hq
    · exact hq.ne_field _ _ rfl
    · exact hq.ne_field _ _ rfl
  case inside =>
    rintro q ((rfl | ⟨i, rfl⟩) | hq)
    · exact ⟨hrepeat.inside (by simp), (ne_of_field (List.prefix_refl _)).symm⟩
    · have hunder := under_attributeAt p i "value"
      refine ⟨hunder.inside (by simp), fun he => ?_⟩
      have hown : p.Under ["repeat"] (p.field "repeat") :=
        ⟨"repeat", List.mem_singleton_self _, List.prefix_refl _⟩
      exact hunder.disjoint (by simp) (he ▸ hown)
    · exact ⟨hq.under.inside (by simp), hq.ne_field p "repeat"⟩

end Statements

/-! ### Findings of a tree -/

/-- The places of a statement where rules find fault, that of an implicit repeat among them. -/
def ownPlaces (known : Option (List String)) (p : Position) (s : Statement) : List Position :=
  (statementFindings known p s).map (·.position) ++ if isImplicit s then [p.field "repeat"] else []

theorem fills_ownPlaces (known : Option (List String)) (p : Position) (s : Statement) :
    Fills p.Inside (ownPlaces known p s) := by
  have hrepeat : Fills (· = p.field "repeat") (if isImplicit s then [p.field "repeat"] else []) := by
    split
    · exact .singleton rfl
    · exact .nil
  refine ((fills_statementFindings known p s).append hrepeat fun q hq => hq.2).mono ?_
  rintro q (hq | rfl)
  · exact hq.1
  · exact inside_of_field (by decide) (List.prefix_refl _)

variable (known : Option (List String)) (t : Tree)

theorem map_position_implicitFindings (walk : List (Position × Statement)) :
    (implicitFindings walk).map (·.position) =
      (walk.flatMap fun x => if isImplicit x.2 then [x.1.field "repeat"] else []).tail := by
  have hsites : ∀ xs : List (Position × Statement),
      (xs.flatMap fun x => if isImplicit x.2 then [x.1.field "repeat"] else []) =
        ((xs.filter fun x => isImplicit x.2).map (·.1)).map (·.field "repeat") := by
    intro xs
    induction xs with
    | nil => rfl
    | cons x xs ih =>
      rw [List.flatMap_cons, List.filter_cons, ih]
      split <;> rfl
  rw [hsites]
  unfold implicitFindings
  split
  · next hw => rw [hw]; rfl
  · next first later hw =>
    rw [hw, List.map_cons, List.tail_cons, List.map_map]
    rfl

/-- **No two findings of a tree** have one position. -/
theorem nodup_findings : ((findings known t).map (·.position)).Nodup := by
  have hall : (t.walk.flatMap fun x => (statementFindings known x.1 x.2).map (·.position) ++
      if isImplicit x.2 then [x.1.field "repeat"] else []).Nodup :=
    (Tree.fills_walk (fills_ownPlaces known) t).nodup
  rw [← (List.flatMap_append_perm t.walk _ _).nodup_iff] at hall
  unfold findings
  rw [List.map_append, List.map_flatMap, map_position_implicitFindings]
  exact hall.sublist ((List.Sublist.refl _).append (List.tail_sublist _))

theorem plain_of_mem_findings {f : Finding} (h : f ∈ findings known t) : f.position.Plain := by
  rcases List.mem_append.mp h with h | h
  · obtain ⟨⟨p, s⟩, hx, hf⟩ := List.mem_flatMap.mp h
    exact Rule.plain_of_placeIn (Tree.plain_of_mem_walk hx) (placeIn_of_mem_statementFindings hf)
  · obtain ⟨p, s, hx, first, rfl, -⟩ := blames_implicitFindings h
    exact (Tree.plain_of_mem_walk hx).field (by decide)

end Lint

end Shorthand
