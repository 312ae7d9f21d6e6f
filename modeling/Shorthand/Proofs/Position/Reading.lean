import Shorthand.Position
import Shorthand.Value

/-!
# Positions that are read

A report tells a position by its text.  Here is how the text is read, and what the position leads to in
a value.

* `Position.ofText`: the position that a text spells out;
* `Position.ofText_text`: a position with plain names is read from its text, so that no other one has
  the same text;
* `Value.at?`: what a position leads to.
-/

namespace Shorthand

namespace Position

/-- A name in which no step begins. -/
def IsPlain (name : String) : Prop := name ≠ "" ∧ '.' ∉ name.toList ∧ '[' ∉ name.toList

instance : DecidablePred IsPlain := fun name =>
  inferInstanceAs (Decidable (name ≠ "" ∧ '.' ∉ name.toList ∧ '[' ∉ name.toList))

/-- All names of a position are plain. -/
def Plain (p : Position) : Prop := ∀ name, .field name ∈ p → IsPlain name

section Plain

variable {p q : Position} {name : String}

theorem Plain.append (hp : p.Plain) (hq : q.Plain) : Plain (p ++ q) := by
  intro name hn
  rcases List.mem_append.mp hn with hn | hn
  · exact hp name hn
  · exact hq name hn

theorem Plain.field (hp : p.Plain) (hn : IsPlain name) : Plain (p.field name) := by
  refine hp.append fun other ho => ?_
  cases List.mem_singleton.mp ho
  exact hn

theorem Plain.item (hp : p.Plain) (i : Nat) : Plain (p.item i) := by
  refine hp.append fun other ho => ?_
  cases List.mem_singleton.mp ho

end Plain

/-! ### Reading -/

/-- One character more in front of what is read: of a word whose beginning is not found yet, and of the
steps behind it.  A point begins a name, and an opening bracket the digits of a place. -/
def readChar (c : Char) : List Char × Position → List Char × Position
  | (word, steps) =>
    if c = '.' then ([], .field (.ofList word) :: steps)
    else if c = '[' then ([], .item (Nat.ofDigitChars 10 word.dropLast 0) :: steps)
    else (c :: word, steps)

/-- The position that a text spells out, read from its end. -/
def ofText (s : String) : Position :=
  match s.toList.foldr readChar ([], []) with
  | ([], steps) => steps
  | (c :: word, steps) => .field (.ofList (c :: word)) :: steps

/-- Characters with which no step begins go to the word. -/
theorem foldr_readChar_word {cs : List Char} (hp : '.' ∉ cs) (hb : '[' ∉ cs) (word : List Char)
    (steps : Position) : cs.foldr readChar (word, steps) = (cs ++ word, steps) := by
  induction cs with
  | nil => rfl
  | cons c cs ih =>
    rw [List.mem_cons, not_or] at hp hb
    rw [List.foldr_cons, ih hp.2 hb.2, readChar, if_neg (Ne.symm hp.1), if_neg (Ne.symm hb.1)]
    rfl

theorem not_mem_toDigits {c : Char} (hc : c.isDigit = false) (n : Nat) : c ∉ Nat.toDigits 10 n := by
  intro h
  have hd : c.isDigit := Nat.isDigit_of_mem_toDigits (by decide) (by decide) h
  rw [hc] at hd
  cases hd

theorem foldr_readChar_stepText {step : Step} (h : Plain [step]) (steps : Position) :
    (stepText step).toList.foldr readChar ([], steps) = ([], step :: steps) := by
  cases step with
  | field name =>
    obtain ⟨-, hp, hb⟩ := h name List.mem_cons_self
    have hl : (stepText (.field name)).toList = '.' :: name.toList := by simp [stepText]
    rw [hl, List.foldr_cons, foldr_readChar_word hp hb, List.append_nil, readChar, if_pos rfl,
      String.ofList_toList]
  | item index =>
    have hl : (stepText (.item index)).toList = '[' :: (Nat.toDigits 10 index ++ [']']) := by
      simp [stepText]
    have hp : '.' ∉ Nat.toDigits 10 index ++ [']'] := by simp [not_mem_toDigits]
    have hb : '[' ∉ Nat.toDigits 10 index ++ [']'] := by simp [not_mem_toDigits]
    rw [hl, List.foldr_cons, foldr_readChar_word hp hb, List.append_nil, readChar,
      if_neg (by decide), if_pos rfl, List.dropLast_concat, Nat.ofDigitChars_ten_toDigits]

theorem foldr_readChar_join {p : Position} (h : p.Plain) :
    (String.join (p.map stepText)).toList.foldr readChar ([], []) = ([], p) := by
  induction p with
  | nil => rfl
  | cons step p ih =>
    have hstep : Plain [step] := fun name hn => h name (List.mem_cons.mpr (.inl (List.mem_singleton.mp hn)))
    have hp : Plain p := fun name hn => h name (List.mem_cons_of_mem _ hn)
    rw [List.map_cons, String.join_cons, String.toList_append, List.foldr_append, ih hp,
      foldr_readChar_stepText hstep]

/-- **A position is read from its text**, if its names are plain. -/
theorem ofText_text {p : Position} (h : p.Plain) : ofText p.text = p := by
  unfold ofText
  cases p with
  | nil => rfl
  | cons step rest =>
    cases step with
    | item index =>
      rw [text, foldr_readChar_join h]
    | field name =>
      obtain ⟨hne, hp, hb⟩ := h name List.mem_cons_self
      have hrest : Plain rest := fun other ho => h other (List.mem_cons_of_mem _ ho)
      have hread : (text (.field name :: rest)).toList.foldr readChar ([], []) = (name.toList, rest) := by
        rw [text, String.toList_append, List.foldr_append, foldr_readChar_join hrest,
          foldr_readChar_word hp hb, List.append_nil]
      rw [hread]
      cases hn : name.toList with
      | nil => exact absurd (String.toList_eq_nil_iff.mp hn) hne
      | cons c word =>
        dsimp only
        rw [← hn, String.ofList_toList]

theorem text_inj {p q : Position} (hp : p.Plain) (hq : q.Plain) (h : p.text = q.text) : p = q := by
  rw [← ofText_text hp, h, ofText_text hq]

example : ofText "tree.elements[12].name" = [.field "tree", .field "elements", .item 12, .field "name"] := by
  decide

end Position

/-! ### What stands at a position -/

namespace Value

/-- What stands one step below a value. -/
def step? : Step → Value → Option Value
  | .field name, .map fields => Fields.get? fields name
  | .item index, .list items => items[index]?
  | _, _ => none

def at? (v : Value) : Position → Option Value
  | [] => some v
  | step :: rest => (step? step v).bind (·.at? rest)

variable {v w : Value} {p : Position}

theorem at?_append (v : Value) (p q : Position) : v.at? (p ++ q) = (v.at? p).bind (·.at? q) := by
  induction p generalizing v with
  | nil => rfl
  | cons step p ih =>
    rw [List.cons_append, at?, at?, Option.bind_assoc]
    exact congrArg (Option.bind _) (funext ih)

theorem at?_singleton (step : Step) (v : Value) : v.at? [step] = step? step v := by
  rw [at?]
  cases step? step v <;> rfl

theorem at?_field {fields : Fields} (h : v.at? p = some (.map fields)) (name : String) :
    v.at? (p.field name) = fields.get? name := by
  rw [Position.field, at?_append, h]
  exact at?_singleton _ _

theorem at?_item {items : List Value} (h : v.at? p = some (.list items)) (i : Nat) :
    v.at? (p.item i) = items[i]? := by
  rw [Position.item, at?_append, h]
  exact at?_singleton _ _

end Value

theorem Fields.get?_of_get {fields : Fields} {name : String} {v : Value} (h : fields.get name = v)
    (hv : v ≠ .null) : fields.get? name = some v := by
  unfold Fields.get at h
  cases hg : Fields.get? fields name with
  | none => rw [hg] at h; exact absurd h.symm hv
  | some w => rw [hg] at h; exact congrArg some h

end Shorthand
