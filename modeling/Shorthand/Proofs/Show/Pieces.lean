import Shorthand.Show.Markup
import Mathlib.Data.List.Basic

/-!
# The pieces of markup

Where tags begin and end, and markup read piece by piece.

* `closesTag`, `opensTag`: a tag that is open at the end of a text, and a text that closes one;
* `body?_append_eq_none`: where no tag begins, none begins when more text follows, but for an open one that
  this text closes;
* `scan`: what the pieces of markup come to, with an equation for each way in which markup may go on;
* `scan_cases`: induction along the pieces.
-/

namespace Shorthand.Markup

/-! ### Tags -/

def isBracket (c : Char) : Bool := c = '[' || c = ']'

def isBody : List Char → Bool
  | [] => false
  | c :: rest => startsTag c && rest.all (!isBracket ·)

/-- Does a text close a tag that is open in front of it? -/
def closesTag (cs : List Char) : Bool := (upToClose? cs).isSome

def opensTag : List Char → Bool
  | [] => false
  | c :: rest => (c = '[' && isBody rest) || opensTag rest

theorem opensTag_append (cs : List Char) {w : List Char} (h : opensTag w = true) : opensTag (cs ++ w) = true := by
  induction cs with
  | nil => exact h
  | cons c cs ih => rw [List.cons_append, opensTag, ih, Bool.or_true]

theorem closesTag_cons (c : Char) (cs : List Char) :
    closesTag (c :: cs) = (c = ']' || (c ≠ '[' && closesTag cs)) := by
  unfold closesTag
  rw [upToClose?]
  by_cases hclose : c = ']'
  · simp [hclose]
  · by_cases hopen : c = '['
    · simp [hopen]
    · simp [hclose, hopen]

/-- What comes first closes a tag or rules it out, unless it has no bracket. -/
theorem closesTag_append (cs w : List Char) :
    closesTag (cs ++ w) = if cs.all (!isBracket ·) then closesTag w else closesTag cs := by
  induction cs with
  | nil => rfl
  | cons c cs ih =>
    rw [List.cons_append, closesTag_cons, closesTag_cons, ih, List.all_cons]
    by_cases hclose : c = ']'
    · simp [isBracket, hclose]
    · by_cases hopen : c = '['
      · simp [isBracket, hopen]
      · simp [isBracket, hclose, hopen]

theorem closesTag_append_of_eq_false {w : List Char} (h : closesTag w = false) (cs : List Char) :
    closesTag (cs ++ w) = closesTag cs := by
  have hw : closesTag (cs ++ w) = closesTag (cs ++ []) := by
    rw [closesTag_append, closesTag_append, h]
    rfl
  rw [hw, List.append_nil]

theorem upToClose?_append {inner : List Char} (h : inner.all (!isBracket ·)) (after : List Char) :
    upToClose? (inner ++ ']' :: after) = some inner := by
  induction inner with
  | nil => rfl
  | cons c inner ih =>
    rw [List.all_cons, Bool.and_eq_true] at h
    obtain ⟨hc, hinner⟩ := h
    have hclose : c ≠ ']' := by
      rintro rfl
      cases hc
    have hopen : c ≠ '[' := by
      rintro rfl
      cases hc
    rw [List.cons_append, upToClose?, if_neg hclose, if_neg hopen, ih hinner]
    rfl

theorem exists_of_upToClose? {cs inner : List Char} (h : upToClose? cs = some inner) :
    inner.all (!isBracket ·) ∧ ∃ after, cs = inner ++ ']' :: after := by
  induction cs generalizing inner with
  | nil => cases h
  | cons c cs ih =>
    rw [upToClose?] at h
    split at h
    · next hclose =>
      cases h
      exact ⟨rfl, cs, by rw [hclose]; rfl⟩
    · next hclose =>
      split at h
      · cases h
      · next hopen =>
        obtain ⟨rest, hrest, rfl⟩ := Option.map_eq_some_iff.mp h
        obtain ⟨hall, after, rfl⟩ := ih hrest
        refine ⟨?_, after, rfl⟩
        have hc : isBracket c = false := by simp [isBracket, hclose, hopen]
        rw [List.all_cons, hall, hc]
        rfl

theorem body?_append {body : List Char} (h : isBody body) (after : List Char) :
    body? (body ++ ']' :: after) = some body := by
  cases body with
  | nil => cases h
  | cons c rest =>
    rw [isBody, Bool.and_eq_true] at h
    rw [List.cons_append, body?, if_pos h.1, upToClose?_append h.2]
    rfl

theorem exists_of_body? {cs body : List Char} (h : body? cs = some body) :
    isBody body ∧ ∃ after, cs = body ++ ']' :: after := by
  cases cs with
  | nil => cases h
  | cons c cs =>
    rw [body?] at h
    split at h
    · next hc =>
      obtain ⟨rest, hrest, rfl⟩ := Option.map_eq_some_iff.mp h
      obtain ⟨hall, after, rfl⟩ := exists_of_upToClose? hrest
      refine ⟨?_, after, rfl⟩
      rw [isBody, hc, hall]
      rfl
    · cases h

theorem body?_cons_eq_none (c : Char) (cs : List Char) :
    body? (c :: cs) = none ↔ startsTag c = false ∨ closesTag cs = false := by
  rw [body?]
  unfold closesTag
  cases startsTag c with
  | false => simp
  | true => simp

/-- No tag begins here, also when more text follows, unless this is an open tag that the text closes. -/
theorem body?_append_eq_none {cs w : List Char} (hcs : body? cs = none) (hw : body? w = none)
    (h : isBody cs = true → closesTag w = false) : body? (cs ++ w) = none := by
  cases cs with
  | nil => exact hw
  | cons c cs =>
    rw [body?_cons_eq_none] at hcs
    rw [List.cons_append, body?_cons_eq_none, closesTag_append]
    obtain hc | hcs := hcs
    · exact .inl hc
    · cases hc : startsTag c with
      | false => exact .inl rfl
      | true =>
        refine .inr ?_
        split
        · next hall => exact h (by rw [isBody, hc, hall]; rfl)
        · exact hcs

/-! ### Reading piece by piece -/

/-- What the pieces of markup come to, after `n` backslashes. -/
def scan {α : Type} (f : Piece → List α) (n : Nat) (cs : List Char) : List α :=
  (piecesAfter [] n 0 cs).flatMap f

/-- Plain text comes to what its parts come to. -/
def Joins {α : Type} (f : Piece → List α) : Prop :=
  ∀ a b, f (.plain (a ++ b)) = f (.plain a) ++ f (.plain b)

theorem slashes_succ (n : Nat) (cs : List Char) : slashes (n + 1) ++ cs = slashes n ++ '\\' :: cs := by
  unfold slashes
  rw [List.replicate_succ', List.append_assoc]
  rfl

theorem reverse_slashes (n : Nat) : (slashes n).reverse = slashes n := List.reverse_replicate

theorem piecesAfter_skip (text : List Char) (n skip : Nat) (cs : List Char) :
    piecesAfter text n skip cs = piecesAfter text n 0 (cs.drop skip) := by
  induction cs generalizing skip with
  | nil =>
    rw [List.drop_nil]
    rfl
  | cons c cs ih =>
    cases skip with
    | zero => rfl
    | succ skip =>
      rw [piecesAfter, if_pos (Nat.succ_pos skip), List.drop_succ_cons]
      exact ih skip

section Scan

variable {α : Type} {f : Piece → List α} (hf : Joins f)

include hf

theorem Joins.nil : f (.plain []) = [] := by
  have h := hf [] []
  exact List.self_eq_append_right.mp h

theorem flatMap_plainPiece (text : List Char) : (plainPiece text).flatMap f = f (.plain text.reverse) := by
  cases text with
  | nil => exact hf.nil.symm
  | cons c text =>
    rw [plainPiece, List.isEmpty_cons, if_neg Bool.noConfusion]
    exact List.flatMap_singleton f _

theorem flatMap_piecesAfter (text : List Char) (n skip : Nat) (cs : List Char) :
    (piecesAfter text n skip cs).flatMap f =
      f (.plain text.reverse) ++ (piecesAfter [] n skip cs).flatMap f := by
  induction cs generalizing text n skip with
  | nil =>
    rw [piecesAfter, piecesAfter, flatMap_plainPiece hf, flatMap_plainPiece hf, List.reverse_append, hf,
      List.append_nil]
  | cons c cs ih =>
    -- where plain text is not over yet
    have hplain (plain : List Char) : (piecesAfter (plain ++ text) 0 0 cs).flatMap f =
        f (.plain text.reverse) ++ (piecesAfter (plain ++ []) 0 0 cs).flatMap f := by
      rw [ih (plain ++ text), ih (plain ++ []), List.reverse_append, hf, List.append_nil, List.append_assoc]
    simp only [piecesAfter]
    split
    · exact ih text n (skip - 1)
    · split
      · exact ih text (n + 1) 0
      · split
        · cases body? cs with
          | some body =>
            rw [List.flatMap_append, flatMap_plainPiece hf, List.flatMap_append]
            rfl
          | none => exact hplain ('[' :: slashes n)
        · exact hplain (c :: slashes n)

theorem scan_nil (n : Nat) : scan f n [] = f (.plain (slashes n)) := by
  rw [scan, piecesAfter, flatMap_plainPiece hf, List.append_nil, reverse_slashes]

theorem scan_char {c : Char} (hslash : c ≠ '\\') (hopen : c ≠ '[') (n : Nat) (cs : List Char) :
    scan f n (c :: cs) = f (.plain (slashes n ++ [c])) ++ scan f 0 cs := by
  rw [scan, piecesAfter, if_neg (Nat.lt_irrefl 0), if_neg hslash, if_neg hopen, flatMap_piecesAfter hf,
    List.append_nil, List.reverse_cons, reverse_slashes]
  rfl

theorem scan_bracket {cs : List Char} (h : body? cs = none) (n : Nat) :
    scan f n ('[' :: cs) = f (.plain (slashes n ++ ['['])) ++ scan f 0 cs := by
  rw [scan, piecesAfter, if_neg (Nat.lt_irrefl 0), if_neg (by decide), if_pos rfl, h]
  simp only
  rw [flatMap_piecesAfter hf, List.append_nil, List.reverse_cons, reverse_slashes]
  rfl

omit hf

theorem scan_slash (n : Nat) (cs : List Char) : scan f n ('\\' :: cs) = scan f (n + 1) cs := by
  rw [scan, piecesAfter, if_neg (Nat.lt_irrefl 0), if_pos rfl]
  rfl

theorem scan_slashes (n k : Nat) (cs : List Char) : scan f n (slashes k ++ cs) = scan f (n + k) cs := by
  induction k generalizing n with
  | zero => rfl
  | succ k ih =>
    have hk : slashes (k + 1) ++ cs = '\\' :: (slashes k ++ cs) := rfl
    rw [hk, scan_slash, ih, Nat.succ_add_eq_add_succ]

theorem scan_tag {body : List Char} (h : isBody body) (n : Nat) (after : List Char) :
    scan f n ('[' :: (body ++ ']' :: after)) = f (.tag n body) ++ scan f 0 after := by
  have hdrop : (body ++ ']' :: after).drop (body.length + 1) = after := by
    rw [List.drop_append]
    simp
  rw [scan, piecesAfter, if_neg (Nat.lt_irrefl 0), if_neg (by decide), if_pos rfl, body?_append h]
  simp only
  rw [piecesAfter_skip, hdrop]
  rfl

end Scan

/-- **Induction along the pieces of markup.** -/
theorem scan_cases {motive : Nat → List Char → Prop} (nil : ∀ n, motive n [])
    (slash : ∀ n cs, motive (n + 1) cs → motive n ('\\' :: cs))
    (char : ∀ n c cs, c ≠ '\\' → c ≠ '[' → motive 0 cs → motive n (c :: cs))
    (bracket : ∀ n cs, body? cs = none → motive 0 cs → motive n ('[' :: cs))
    (tag : ∀ n body after, isBody body → motive 0 after → motive n ('[' :: (body ++ ']' :: after)))
    (n : Nat) (cs : List Char) : motive n cs :=
  match cs with
  | [] => nil n
  | c :: cs => by
    by_cases hslash : c = '\\'
    · rw [hslash]
      exact slash n cs (scan_cases nil slash char bracket tag (n + 1) cs)
    · by_cases hopen : c = '['
      · rw [hopen]
        cases hbody : body? cs with
        | none => exact bracket n cs hbody (scan_cases nil slash char bracket tag 0 cs)
        | some body =>
          obtain ⟨hb, after, heq⟩ := exists_of_body? hbody
          have hlt : after.length < cs.length := by
            rw [heq, List.length_append, List.length_cons]
            omega
          rw [heq]
          exact tag n body after hb (scan_cases nil slash char bracket tag 0 after)
      · exact char n c cs hslash hopen (scan_cases nil slash char bracket tag 0 cs)
termination_by cs.length

end Shorthand.Markup
