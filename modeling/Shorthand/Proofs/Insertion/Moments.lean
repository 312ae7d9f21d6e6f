import Shorthand.Proofs.Expansion.InRange

/-!
# When texts are inserted

Every text that an expansion inserts is that of a copy to which its run puts text, at the moment at which
the nodes of that copy are made.

* `bodyState_waits`: how the body of a copy finds the text;
* `Tree.exists_inserts`: the moment of an insertion.
-/

namespace Shorthand

open Expansion State Repeater Placement

/-- The body of the copy `i` finds the text as the copies before it have left it. -/
theorem bodyState_waits (src : Source) (r : Repeater) (s : Statement) (σ : State) (i : Nat) :
    (!(bodyState src r s σ i).inserted) = waitsAfter (!σ.inserted) (s.bodyReaches src) i := by
  have hloop : (loopState src r (s.body src) σ i).inserted = (σ.inserted || (decide (0 < i) && s.bodyReaches src)) := by
    induction i with
    | zero =>
      rw [loopState]
      simp [State.note]
    | succ i ih =>
      rw [loopState, copy_run]
      dsimp only
      rw [s.body_inserted, replaceTop_inserted, ih]
      cases σ.inserted <;> cases s.bodyReaches src <;> simp
  rw [bodyState, replaceTop_inserted, hloop, waitsAfter, Bool.not_or]

section Moments

variable {src : Source} {t : Tree} {p : Position} {k : Nat} {σ : State}

/-- The texts for the copies of a repeated statement are inserted at some moment if those of its body
are. -/
theorem Tree.Visits.exists_inserts_of_copies {s : Statement} {rest : List Statement} {r : Repeater}
    (hv : t.Visits src p k (s :: rest) σ) (hr : s.repeater = some r) {inner : Bool → List Placement}
    (hinner : ∀ i < r.turns src, ∀ x ∈ inner (!(bodyState src r s σ i).inserted),
      ∃ snapshot τ, t.Inserts src snapshot τ ∧ x.text = src.textAt snapshot.value) :
    ∀ x ∈ r.insertions src (s.bodyReaches src) (!σ.inserted) (s.bodyWidth src) inner,
      ∃ snapshot τ, t.Inserts src snapshot τ ∧ x.text = src.textAt snapshot.value := by
  intro x hx
  obtain ⟨i, hi, hx⟩ := List.mem_flatMap.mp hx
  have hi : i < r.turns src := List.mem_range.mp hi
  obtain ⟨y, hy, rfl⟩ := List.mem_map.mp hx
  obtain hy | hy := List.mem_append.mp hy
  · rw [← bodyState_waits] at hy
    exact hinner i hi y hy
  · unfold Repeater.ownInsertion at hy
    split at hy
    · next hc =>
      obtain ⟨hc, hpos⟩ := Bool.and_eq_true_iff.mp hc
      obtain ⟨himplicit, hwaits⟩ := Bool.and_eq_true_iff.mp hc
      obtain ⟨hσ, hreaches⟩ := Bool.and_eq_true_iff.mp hwaits
      have hreaches : s.bodyReaches src = false := by simpa using hreaches
      have hbody : (bodyState src r s σ i).inserted = false := by
        have h := bodyState_waits src r s σ i
        rw [hreaches, hσ] at h
        simpa [waitsAfter] using h
      -- the flag is not set behind the body, and the body has made nodes
      have hgets : GetsText src r s σ i := by
        refine ⟨himplicit, ?_, fun hnil => ?_⟩
        · rw [s.body_inserted, hbody, hreaches]
          rfl
        · have hlength := s.length_body src (r.turn i) (bodyState src r s σ i)
          have hpos : 0 < s.bodyWidth src := of_decide_eq_true hpos
          rw [hnil, List.length_nil] at hlength
          omega
      refine ⟨r.turn i, _, ⟨p, k, s, rest, σ, r, i, hv, hr, hi, hgets, rfl, rfl⟩, ?_⟩
      rw [List.mem_singleton.mp hy]
      rfl
    · cases hy

mutual

theorem Tree.Visits.exists_inserts : ∀ (s : Statement) {rest : List Statement} {p : Position} {k : Nat}
    {σ : State}, t.Visits src p k (s :: rest) σ → ∀ x ∈ s.insertions src (!σ.inserted),
      ∃ snapshot τ, t.Inserts src snapshot τ ∧ x.text = src.textAt snapshot.value
  | .element head cs none, rest, p, k, σ, hv, x, hx => by
    rw [Statement.insertions] at hx
    obtain ⟨y, hy, rfl⟩ := List.mem_map.mp hx
    exact exists_insertsAll cs (hv.once rfl) y hy
  | .element head cs (some r), rest, p, k, σ, hv, x, hx => by
    rw [Statement.insertions] at hx
    refine hv.exists_inserts_of_copies rfl (fun i hi x hx => ?_) x hx
    obtain ⟨y, hy, rfl⟩ := List.mem_map.mp hx
    exact exists_insertsAll cs (hv.copy rfl hi) y hy
  | .group cs none, rest, p, k, σ, hv, x, hx => by
    rw [Statement.insertions] at hx
    exact exists_insertsAll cs (hv.once rfl) x hx
  | .group cs (some r), rest, p, k, σ, hv, x, hx => by
    rw [Statement.insertions] at hx
    refine hv.exists_inserts_of_copies rfl (fun i hi x hx => ?_) x hx
    exact exists_insertsAll cs (hv.copy rfl hi) x hx

theorem Tree.Visits.exists_insertsAll : ∀ (ss : List Statement) {p : Position} {k : Nat} {σ : State},
    t.Visits src p k ss σ → ∀ x ∈ Statement.insertionsAll src (!σ.inserted) ss,
      ∃ snapshot τ, t.Inserts src snapshot τ ∧ x.text = src.textAt snapshot.value
  | [], _, _, _, _, _, hx => by cases hx
  | s :: rest, p, k, σ, hv, x, hx => by
    rw [Statement.insertionsAll] at hx
    obtain hx | hx := List.mem_append.mp hx
    · exact exists_inserts s hv x hx
    · obtain ⟨y, hy, rfl⟩ := List.mem_map.mp hx
      refine exists_insertsAll rest hv.next y ?_
      rw [s.expand_run, State.after_inserted, Bool.not_or]
      exact hy

end

end Moments

/-- **What is inserted is inserted in the run**: each text is that of a copy to which the expansion puts
its text at some moment. -/
theorem Tree.exists_inserts {src : Source} {t : Tree} {x : Placement} (h : x ∈ t.insertions src) :
    ∃ snapshot τ, t.Inserts src snapshot τ ∧ x.text = src.textAt snapshot.value :=
  Tree.Visits.exists_insertsAll t.statements .start x h

end Shorthand
