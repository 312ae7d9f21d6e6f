import Shorthand.Json.Writer
import Shorthand.Proofs.Show.Escaped

/-!
# String literals as markup

A string literal has no backslash at its end, and in front of each opening bracket an even number of them.

* `Json.escaped_cases`: the ways in which a character is written;
* `Json.even_trailing_of_bracket`: the backslashes before an opening bracket.
-/

namespace Shorthand.Json

open Markup (trailing)

/-! ### Characters -/

theorem hexDigits_plain {width n : Nat} : ∀ c ∈ Text.hexDigits width n, c ≠ '\\' ∧ c ≠ '[' := by
  have hdigit : ∀ d < 16, Nat.digitChar d ≠ '\\' ∧ Nat.digitChar d ≠ '[' := by decide
  induction width generalizing n with
  | zero => exact nofun
  | succ width ih =>
    intro c hc
    rw [Text.hexDigits] at hc
    obtain hc | hc := List.mem_append.mp hc
    · exact ih c hc
    · rw [List.mem_singleton.mp hc]
      exact hdigit _ (Nat.mod_lt n (by decide))

/-- An escape without backslashes at its end and without brackets. -/
structure Closed (cs : List Char) : Prop where
  trailing (n : Nat) : trailing n cs = 0
  notMem : '[' ∉ cs

theorem closed_pair {c : Char} (hslash : c ≠ '\\') (hopen : c ≠ '[') : Closed ['\\', c] where
  trailing n := by
    rw [← List.singleton_append, Markup.trailing_concat, if_neg hslash]
  notMem := by simp [hopen.symm]

theorem closed_unitEscape (n : Nat) : Closed (unitEscape n) where
  trailing k := by
    have hlast : unitEscape n = ('\\' :: 'u' :: Text.hexDigits 3 (n / 16)) ++ [Nat.digitChar (n % 16)] := rfl
    have hdigit : Nat.digitChar (n % 16) ∈ Text.hexDigits 4 n := List.mem_append_right _ (List.mem_singleton_self _)
    rw [hlast, Markup.trailing_concat, if_neg (hexDigits_plain _ hdigit).1]
  notMem := by
    intro hm
    simp only [unitEscape, List.mem_cons] at hm
    obtain h | h | h := hm
    · exact absurd h (by decide)
    · exact absurd h (by decide)
    · exact (hexDigits_plain _ h).2 rfl

theorem Closed.append {a b : List Char} (ha : Closed a) (hb : Closed b) : Closed (a ++ b) where
  trailing n := by rw [Markup.trailing_append, hb.trailing]
  notMem := by
    intro hm
    obtain hm | hm := List.mem_append.mp hm
    · exact ha.notMem hm
    · exact hb.notMem hm

theorem closed_wideEscape (n : Nat) : Closed (wideEscape n) := by
  unfold wideEscape
  split
  · exact closed_unitEscape n
  · exact (closed_unitEscape _).append (closed_unitEscape _)

/-- A character is written as it is, or as an escape; for a backslash this is another one in front. -/
theorem escaped_cases (ascii : Bool) (c : Char) :
    (escaped ascii c = [c] ∧ c ≠ '\\') ∨ escaped ascii c = ['\\', '\\'] ∨ Closed (escaped ascii c) := by
  unfold escaped
  by_cases hslash : c = '\\'
  · subst hslash
    exact .inr (.inl rfl)
  repeat' split
  all_goals first
    | exact .inr (.inr (closed_pair (by decide) (by decide)))
    | exact .inr (.inr (closed_unitEscape _))
    | exact .inr (.inr (closed_wideEscape _))
    | exact .inl ⟨rfl, hslash⟩

/-! ### String literals -/

section Literals

variable {ascii : Bool}

theorem even_trailing_escaped {n : Nat} (hn : n % 2 = 0) (c : Char) : trailing n (escaped ascii c) % 2 = 0 := by
  obtain ⟨he, hc⟩ | he | he := escaped_cases ascii c
  · rw [he, Markup.trailing_cons hc]
    rfl
  · rw [he, ← List.append_nil ['\\', '\\']]
    exact (congrArg (· % 2) (Markup.trailing_slashes n 2 [])).trans (by simpa [trailing] using hn)
  · rw [he.trailing]

/-- Where a bracket stands among characters as they are written, an even number of backslashes is in
front of it. -/
theorem even_trailing_flatMap {n : Nat} (hn : n % 2 = 0) {cs front tail : List Char}
    (h : cs.flatMap (escaped ascii) = front ++ '[' :: tail) : trailing n front % 2 = 0 := by
  induction cs generalizing n front with
  | nil => exact absurd h (by simp)
  | cons c cs ih =>
    have hc : trailing n (escaped ascii c) % 2 = 0 := even_trailing_escaped hn c
    rw [List.flatMap_cons] at h
    obtain ⟨rest, rfl, hrest⟩ | ⟨rest, heq, hrest⟩ := List.append_eq_append_iff.mp h
    · rw [Markup.trailing_append]
      exact ih hc hrest
    · cases rest with
      | nil =>
        rw [List.append_nil] at heq
        rw [← heq]
        exact hc
      | cons d rest =>
        -- the bracket is one of the characters that stand for `c`, and so it is `c`
        obtain ⟨rfl, -⟩ := List.cons.inj hrest
        have hmem : '[' ∈ escaped ascii c := by
          rw [heq]
          exact List.mem_append_right _ List.mem_cons_self
        obtain ⟨he, -⟩ | he | he := escaped_cases ascii c
        · rw [he] at heq
          cases front with
          | nil => exact hn
          | cons a front => exact absurd heq (by simp)
        · rw [he] at hmem
          exact absurd hmem (by decide)
        · exact absurd hmem he.notMem

theorem toList_stringText (s : String) :
    (stringText ascii s).toList = '"' :: s.toList.flatMap (escaped ascii) ++ ['"'] := String.toList_ofList

theorem trailing_stringText (s : String) : trailing 0 (stringText ascii s).toList = 0 := by
  rw [toList_stringText, Markup.trailing_concat, if_neg (by decide)]

/-- In front of a bracket an even number of backslashes stands, and behind it the closing quote. -/
theorem stringText_bracket {s : String} {front tail : List Char}
    (h : (stringText ascii s).toList = front ++ '[' :: tail) : '"' ∈ tail ∧ trailing 0 front % 2 = 0 := by
  rw [toList_stringText] at h
  obtain rfl | ⟨tail, c, rfl⟩ := tail.eq_nil_or_concat'
  · have hlast := (List.append_inj' h rfl).2
    exact absurd (List.cons.inj hlast).1 (by decide)
  · rw [← List.cons_append, ← List.append_assoc] at h
    obtain ⟨hinit, hlast⟩ := List.append_inj' h rfl
    refine ⟨List.mem_append_right _ (by rw [← hlast]; exact List.mem_singleton_self _), ?_⟩
    cases front with
    | nil => exact absurd (List.cons.inj hinit).1 (by decide)
    | cons d front =>
      obtain ⟨rfl, hchars⟩ := List.cons.inj hinit
      rw [Markup.trailing_cons (by decide)]
      exact even_trailing_flatMap rfl hchars

end Literals

end Shorthand.Json
