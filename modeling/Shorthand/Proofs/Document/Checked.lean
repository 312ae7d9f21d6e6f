import Shorthand.Document.Decode

/-!
# Checks and what they accept

A check gives a value or its faults.  Here is what it takes that these are the right ones, and how
checks that are put together come to do so.

* `Checked.Meets c accepts result`: the check gives a value just for what is accepted;
* `Meets.both`, `Meets.bind`, `Meets.items`: the ways in which checks are put together;
* `Decode.isSome_intField` and its like: the fields of a record.
-/

namespace Shorthand

namespace Checked

variable {α β : Type}

/-- A check does what it should: it gives a value, one as it should be, just for what is accepted, and
finds at least one fault with all the rest. -/
def Meets (c : Checked α) (accepts : Prop) (result : α → Prop) : Prop :=
  match c with
  | .ok x => accepts ∧ result x
  | .error fs => ¬ accepts ∧ fs ≠ []

namespace Meets

variable {P Q : Prop} {R : α → Prop} {S : β → Prop} {a : Checked α} {b : Checked β}

theorem fault {cause : Fault.Cause} {p : Position} (h : ¬ P) : (Checked.fault cause p).Meets P R :=
  ⟨h, List.cons_ne_nil _ _⟩

/-- What is accepted may be told in another way, and less may be said of the value. -/
theorem congr {R' : α → Prop} (h : a.Meets P R) (hp : P ↔ Q) (hr : ∀ x, R x → R' x) : a.Meets Q R' := by
  cases a with
  | ok x => exact ⟨hp.mp h.1, hr x h.2⟩
  | error fs => exact ⟨fun hq => h.1 (hp.mpr hq), h.2⟩

theorem map {f : α → β} (h : a.Meets P R) (hf : ∀ x, R x → S (f x)) :
    Checked.Meets (Except.map f a) P S := by
  cases a with
  | ok x => exact ⟨h.1, hf x h.2⟩
  | error fs => exact h

theorem both (ha : a.Meets P R) (hb : b.Meets Q S) :
    (Checked.both a b).Meets (P ∧ Q) fun x => R x.1 ∧ S x.2 := by
  cases a with
  | ok x =>
    cases b with
    | ok y => exact ⟨⟨ha.1, hb.1⟩, ha.2, hb.2⟩
    | error gs => exact ⟨fun h => hb.1 h.2, hb.2⟩
  | error fs =>
    cases b with
    | ok y => exact ⟨fun h => ha.1 h.1, ha.2⟩
    | error gs => exact ⟨fun h => ha.1 h.1, fun he => ha.2 (List.append_eq_nil_iff.mp he).1⟩

/-- A check that is made only if the one before it gave a value. -/
theorem bind {f : α → Checked β} (ha : a.Meets P R) (hf : ∀ x, R x → (f x).Meets Q S) :
    (a >>= f).Meets (P ∧ Q) S := by
  cases a with
  | ok x => exact (hf x ha.2).congr (iff_and_self.mpr fun _ => ha.1) fun _ => id
  | error fs => exact ⟨fun h => ha.1 h.1, ha.2⟩

theorem bind_pure {f : α → β} (ha : a.Meets P R) (hf : ∀ x, R x → S (f x)) :
    (a >>= fun x => pure (f x)).Meets P S := by
  cases a with
  | ok x => exact ⟨ha.1, hf x ha.2⟩
  | error fs => exact ha

theorem cons {as : Checked (List α)} {Rs : List α → Prop} (ha : a.Meets P R) (has : as.Meets Q Rs)
    {S : List α → Prop} (hs : ∀ x xs, R x → Rs xs → S (x :: xs)) :
    (Checked.cons a as).Meets (P ∧ Q) S :=
  (ha.both has).map fun x h => hs x.1 x.2 h.1 h.2

/-- A list of checks accepts a list if each of them accepts its item. -/
theorem items {check : Position → Value → Checked α} {accepts : Value → Prop}
    (h : ∀ q v, (check q v).Meets (accepts v) R) (p : Position) (vs : List Value) :
    (Checked.items check p vs).Meets (∀ v ∈ vs, accepts v) (∀ x ∈ ·, R x) := by
  have hf : ∀ f : Nat → Value → Checked α, (∀ i v, (f i v).Meets (accepts v) R) →
      (Checked.all (vs.mapIdx f)).Meets (∀ v ∈ vs, accepts v) (∀ x ∈ ·, R x) := by
    intro f hf
    induction vs generalizing f with
    | nil => exact ⟨nofun, nofun⟩
    | cons v vs ih =>
      rw [List.mapIdx_cons, Checked.all]
      have hrest := ih (fun i => f (i + 1)) fun i => hf (i + 1)
      refine ((hf 0 v).cons hrest fun x xs hx hxs => ?_).congr List.forall_mem_cons.symm fun _ => id
      exact List.forall_mem_cons.mpr ⟨hx, hxs⟩
  exact hf _ fun i => h (p.item i)

theorem demand {o : Option α} {cause : Fault.Cause} {p : Position} (h : o.isSome ↔ P) :
    (Decode.demand o cause p).Meets P (o = some ·) := by
  cases o with
  | none => exact fault fun hp => Bool.false_ne_true (h.mpr hp)
  | some x => exact ⟨h.mp rfl, rfl⟩

end Meets

/-! ### Values that are given -/

theorem both_eq_ok {a : Checked α} {b : Checked β} {x : α × β} :
    both a b = .ok x ↔ a = .ok x.1 ∧ b = .ok x.2 := by
  obtain ⟨x, y⟩ := x
  cases a <;> cases b <;> simp [both]

theorem map_eq_ok {f : α → β} {a : Checked α} {y : β} :
    Except.map f a = .ok y ↔ ∃ x, a = .ok x ∧ f x = y := by
  cases a <;> simp [Except.map]

theorem bind_eq_ok {a : Checked α} {f : α → Checked β} {y : β} :
    (a >>= f) = .ok y ↔ ∃ x, a = .ok x ∧ f x = .ok y := by
  cases a <;> simp [bind, Except.bind]

theorem cons_eq_ok {a : Checked α} {as : Checked (List α)} {ys : List α} :
    cons a as = .ok ys ↔ ∃ x xs, a = .ok x ∧ as = .ok xs ∧ ys = x :: xs := by
  rw [cons, map_eq_ok]
  constructor
  · rintro ⟨⟨x, xs⟩, h, rfl⟩
    obtain ⟨hx, hxs⟩ := both_eq_ok.mp h
    exact ⟨x, xs, hx, hxs, rfl⟩
  · rintro ⟨x, xs, hx, hxs, rfl⟩
    exact ⟨(x, xs), both_eq_ok.mpr ⟨hx, hxs⟩, rfl⟩

theorem demand_eq_ok {o : Option α} {cause : Fault.Cause} {p : Position} {x : α} :
    Decode.demand o cause p = .ok x ↔ o = some x := by
  cases o <;> simp [Decode.demand, fault]

/-- A list that is given has a value for each item, made from it at its place. -/
theorem items_eq_ok {check : Position → Value → Checked α} {p : Position} {vs : List Value}
    {xs : List α} (h : items check p vs = .ok xs) :
    xs.length = vs.length ∧
      ∀ (i : Nat) (x : α), xs[i]? = some x → ∃ v, vs[i]? = some v ∧ check (p.item i) v = .ok x := by
  have hf : ∀ (f : Nat → Value → Checked α) (xs : List α), all (vs.mapIdx f) = .ok xs →
      xs.length = vs.length ∧ ∀ (i : Nat) (x : α), xs[i]? = some x → ∃ v, vs[i]? = some v ∧ f i v = .ok x := by
    clear h
    induction vs with
    | nil =>
      intro f xs h
      cases h
      exact ⟨rfl, nofun⟩
    | cons v vs ih =>
      intro f xs h
      rw [List.mapIdx_cons, all] at h
      obtain ⟨x, xs, hx, hxs, rfl⟩ := cons_eq_ok.mp h
      obtain ⟨hl, hi⟩ := ih (fun i => f (i + 1)) xs hxs
      refine ⟨congrArg (· + 1) hl, fun i y hy => ?_⟩
      cases i with
      | zero =>
        cases hy
        exact ⟨v, rfl, hx⟩
      | succ i => exact hi i y hy
  exact hf _ xs h

/-! ### Faults that are found -/

theorem faults_both (a : Checked α) (b : Checked β) : (both a b).faults = a.faults ++ b.faults := by
  cases a <;> cases b <;> simp [both, faults]

theorem faults_map {f : α → β} (a : Checked α) : Checked.faults (Except.map f a) = a.faults := by
  cases a <;> rfl

theorem faults_cons (a : Checked α) (as : Checked (List α)) : (cons a as).faults = a.faults ++ as.faults := by
  rw [cons, faults_map, faults_both]

end Checked

/-! ### Fields -/

namespace Fields

variable (fields : Fields) (name : String) (kind : Value → Prop)

/-- An entry that need not be there, but that is of a kind if it is. -/
def Optional : Prop := ∀ v ∈ fields.get? name, kind v

/-- An entry that may be null or missing, and else is of a kind. -/
def Nullable : Prop := fields.get name = .null ∨ kind (fields.get name)

theorem get?_cons (key : Key) (v : Value) (rest : Fields) :
    Fields.get? ((key, v) :: rest) name = if key = .string name then some v else Fields.get? rest name := by
  unfold get?
  rw [List.lookup_cons]
  by_cases h : key = .string name
  · rw [if_pos h, h, beq_self_eq_true]
  · rw [if_neg h, beq_eq_false_iff_ne.mpr (Ne.symm h)]

theorem get_cons (key : Key) (v : Value) (rest : Fields) :
    Fields.get ((key, v) :: rest) name = if key = .string name then v else Fields.get rest name := by
  unfold get
  rw [get?_cons]
  split <;> rfl

end Fields

namespace Value

/-- An integer; a truth value is none. -/
def IsInt (v : Value) : Prop := ∃ i, v = .int i

def IsIntFrom (least : Int) (v : Value) : Prop := ∃ i, v = .int i ∧ least ≤ i

def IsBool (v : Value) : Prop := ∃ b, v = .bool b

def IsText (v : Value) : Prop := ∃ s, v = .string s

/-- Text in which some character is not blank. -/
def IsWritten (v : Value) : Prop := ∃ s, v = .string s ∧ ∃ c ∈ s.toList, Text.isBlank c = false

end Value

theorem Text.isBlankText_eq_false {s : String} :
    isBlankText s = false ↔ ∃ c ∈ s.toList, isBlank c = false := by
  simp [isBlankText]

theorem Value.isWritten_string {s : String} :
    (Value.string s).IsWritten ↔ Text.isBlankText s = false := by
  rw [Text.isBlankText_eq_false]
  constructor
  · rintro ⟨s', hs, hw⟩
    cases hs
    exact hw
  · intro hw
    exact ⟨s, rfl, hw⟩

namespace Decode

variable {fields : Fields} {name : String}

theorem isSome_intField {default : Int} :
    (intField fields name default).isSome ↔ fields.Optional name Value.IsInt := by
  unfold intField Fields.Optional Value.IsInt
  cases fields.get? name with
  | none => simp
  | some v => cases v <;> simp

theorem isSome_boolField : (boolField fields name).isSome ↔ fields.Optional name Value.IsBool := by
  unfold boolField Fields.Optional Value.IsBool
  cases fields.get? name with
  | none => simp
  | some v => cases v <;> simp

theorem isSome_fieldName : (fieldName fields).isSome ↔ fields.Optional "name" Value.IsText := by
  unfold fieldName Fields.Optional Value.IsText
  cases fields.get? "name" with
  | none => simp
  | some v => cases v <;> simp

theorem isSome_natField {default least : Nat} (hd : least ≤ default) :
    (natField fields name default least).isSome ↔ fields.Optional name (Value.IsIntFrom least) := by
  unfold natField intField Fields.Optional Value.IsIntFrom
  cases fields.get? name with
  | none => simp [hd]
  | some v => cases v <;> simp

theorem le_of_natField {default least n : Nat} (h : natField fields name default least = some n) :
    least ≤ n := by
  obtain ⟨i, -, hi⟩ := Option.bind_eq_some_iff.mp h
  split at hi
  · next hl =>
    cases hi
    omega
  · cases hi

theorem isSome_fieldIndex : (fieldIndex fields).isSome ↔ fields.Nullable "index" Value.IsInt := by
  unfold fieldIndex Fields.Nullable Value.IsInt
  cases fields.get "index" <;> simp

theorem isSome_opening? {v : Value} : (opening? v).isSome ↔ v.IsBool := by
  unfold opening? Value.IsBool
  cases v <;> simp

theorem isSome_context? {v : Value} :
    (context? v).isSome ↔ v = .string "attribute" ∨ v = .string "expression" ∨ v = .string "group" := by
  constructor
  · intro h
    unfold context? at h
    split at h
    · exact .inl rfl
    · exact .inr (.inl rfl)
    · exact .inr (.inr rfl)
    · cases h
  · rintro (rfl | rfl | rfl) <;> rfl

end Decode

end Shorthand
