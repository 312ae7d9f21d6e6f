import Shorthand.Proofs.Show.Pieces

/-!
# Escaped text as markup

What is read where escaped text is followed by other markup.

* `Sign`, `Piece.signs`: the characters and the tags that are found in markup;
* `trailing`, `stem`: a text falls into what stands before the backslashes at its end, and these;
* `scan_signs_escape`: escaped text is read as what it was, up to the backslashes at its end, if no tag that
  is open at its end is closed behind it;
* `exists_tag_across`: a tag that is open at its end is read as a tag if it is closed behind it.
-/

namespace Shorthand.Markup

/-! ### Backslashes at the end -/

/-- How many backslashes stand at the end of a text that follows `n` of them. -/
def trailing (n : Nat) : List Char → Nat
  | [] => n
  | c :: cs => if c = '\\' then trailing (n + 1) cs else trailing 0 cs

/-- Text that follows `n` backslashes, together with these, but without the backslashes at its end. -/
def stem (n : Nat) : List Char → List Char
  | [] => []
  | c :: cs => if c = '\\' then stem (n + 1) cs else slashes n ++ c :: stem 0 cs

theorem stem_append_trailing (n : Nat) (cs : List Char) :
    stem n cs ++ slashes (trailing n cs) = slashes n ++ cs := by
  induction cs generalizing n with
  | nil => exact (List.append_nil _).symm
  | cons c cs ih =>
    rw [stem, trailing]
    by_cases hc : c = '\\'
    · rw [if_pos hc, if_pos hc, ih, slashes_succ, hc]
    · rw [if_neg hc, if_neg hc, List.append_assoc, List.cons_append, ih]
      rfl

theorem stem_of_trailing_eq_zero {cs : List Char} (h : trailing 0 cs = 0) : stem 0 cs = cs := by
  have hsplit := stem_append_trailing 0 cs
  rw [h] at hsplit
  exact (List.append_nil _).symm.trans hsplit

theorem stem_cons {c : Char} (h : c ≠ '\\') (n : Nat) (cs : List Char) :
    stem n (c :: cs) = slashes n ++ c :: stem 0 cs := by
  rw [stem, if_neg h]

/-- What stands before another character is kept as it is. -/
theorem stem_append_cons {c : Char} (h : c ≠ '\\') (n : Nat) (cs w : List Char) :
    stem n (cs ++ c :: w) = slashes n ++ (cs ++ c :: stem 0 w) := by
  induction cs generalizing n with
  | nil => exact stem_cons h n w
  | cons d cs ih =>
    rw [List.cons_append, stem]
    by_cases hd : d = '\\'
    · rw [if_pos hd, ih, slashes_succ, hd]
      rfl
    · rw [if_neg hd, ih]
      rfl

theorem trailing_append (n : Nat) (cs w : List Char) : trailing n (cs ++ w) = trailing (trailing n cs) w := by
  induction cs generalizing n with
  | nil => rfl
  | cons c cs ih =>
    rw [List.cons_append, trailing, trailing]
    split
    · exact ih (n + 1)
    · exact ih 0

theorem trailing_cons {c : Char} (h : c ≠ '\\') (n : Nat) (cs : List Char) :
    trailing n (c :: cs) = trailing 0 cs := by
  rw [trailing, if_neg h]

theorem trailing_append_cons {c : Char} (h : c ≠ '\\') (n : Nat) (cs w : List Char) :
    trailing n (cs ++ c :: w) = trailing 0 w := by
  rw [trailing_append, trailing_cons h]

theorem trailing_slashes (n k : Nat) (cs : List Char) : trailing n (slashes k ++ cs) = trailing (n + k) cs := by
  induction k generalizing n with
  | zero => rfl
  | succ k ih =>
    have hk : slashes (k + 1) ++ cs = '\\' :: (slashes k ++ cs) := rfl
    rw [hk, trailing, if_pos rfl, ih, Nat.succ_add_eq_add_succ]

theorem trailing_concat (n : Nat) (cs : List Char) (c : Char) :
    trailing n (cs ++ [c]) = if c = '\\' then trailing n cs + 1 else 0 := by
  rw [trailing_append]
  rfl

/-- A backslash at the end is doubled where it is alone. -/
theorem closeSlash_eq (cs : List Char) :
    closeSlash cs = cs ++ slashes (if trailing 0 cs = 1 then 1 else 0) := by
  obtain rfl | ⟨front, c, rfl⟩ := cs.eq_nil_or_concat'
  · rfl
  by_cases hc : c = '\\'
  · obtain rfl | ⟨front, d, rfl⟩ := front.eq_nil_or_concat'
    · rw [hc]
      rfl
    rw [trailing_concat, if_pos hc, trailing_concat]
    by_cases hd : d = '\\'
    · rw [if_pos hd, if_neg (by omega), hc, hd]
      simp [closeSlash, slashes]
    · rw [if_neg hd, if_pos rfl, hc]
      simp [closeSlash, slashes, hd]
  · rw [trailing_concat, if_neg hc, if_neg Nat.zero_ne_one]
    simp [closeSlash, slashes, hc]

/-! ### Escaped text -/

theorem joins_escaped : Joins Piece.escaped := fun _ _ => rfl

section Escaped

variable (n : Nat) (cs : List Char)

theorem trailing_scan_escaped : trailing 0 (scan Piece.escaped n cs) = trailing n cs := by
  induction n, cs using scan_cases with
  | nil n =>
    rw [scan_nil joins_escaped, Piece.escaped, ← List.append_nil (slashes n), trailing_slashes, Nat.zero_add]
  | slash n cs ih => rw [scan_slash, ih, trailing, if_pos rfl]
  | char n c cs hslash hopen ih =>
    rw [scan_char joins_escaped hslash hopen, Piece.escaped, trailing_append, trailing_concat,
      if_neg hslash, ih, trailing_cons hslash]
  | bracket n cs h ih =>
    rw [scan_bracket joins_escaped h, Piece.escaped, trailing_append, trailing_concat, if_neg (by decide),
      ih, trailing_cons (by decide)]
  | tag n body after h ih =>
    have hbody : ('[' :: (body ++ ']' :: after)) = ('[' :: body ++ [']']) ++ after := by simp
    rw [scan_tag h, Piece.escaped, trailing_append, trailing_concat, hbody, trailing_append n, trailing_concat,
      if_neg (by decide), if_neg (by decide), ih]

theorem closesTag_slashes (k : Nat) (cs : List Char) : closesTag (slashes k ++ cs) = closesTag cs := by
  induction k with
  | zero => rfl
  | succ k ih =>
    have hk : slashes (k + 1) ++ cs = '\\' :: (slashes k ++ cs) := rfl
    rw [hk, closesTag_cons, ih]
    rfl

theorem closesTag_scan_escaped (w : List Char) :
    closesTag (scan Piece.escaped n cs ++ w) = closesTag (cs ++ w) := by
  induction n, cs using scan_cases with
  | nil n =>
    rw [scan_nil joins_escaped, Piece.escaped, closesTag_slashes]
    rfl
  | slash n cs ih =>
    rw [scan_slash, ih, List.cons_append, closesTag_cons]
    rfl
  | char n c cs hslash hopen ih =>
    rw [scan_char joins_escaped hslash hopen, Piece.escaped]
    simp only [List.append_assoc, List.cons_append, List.nil_append]
    rw [closesTag_slashes, closesTag_cons, closesTag_cons, ih]
  | bracket n cs h ih =>
    rw [scan_bracket joins_escaped h, Piece.escaped]
    simp only [List.append_assoc, List.cons_append, List.nil_append]
    rw [closesTag_slashes, closesTag_cons, closesTag_cons, ih]
  | tag n body after h ih =>
    rw [scan_tag h, Piece.escaped]
    simp only [List.append_assoc, List.cons_append, List.nil_append]
    rw [closesTag_slashes, closesTag_cons, closesTag_cons]
    rfl

end Escaped

theorem body?_scan_escaped {w : List Char} (n : Nat) (cs : List Char)
    (h : body? (slashes n ++ (cs ++ w)) = none) : body? (scan Piece.escaped n cs ++ w) = none := by
  induction n, cs using scan_cases with
  | nil n =>
    rw [scan_nil joins_escaped]
    exact h
  | slash n cs ih =>
    rw [scan_slash]
    refine ih ?_
    rw [slashes_succ]
    exact h
  | char n c cs hslash hopen ih =>
    rw [scan_char joins_escaped hslash hopen, Piece.escaped]
    simp only [List.append_assoc, List.cons_append, List.nil_append]
    cases n with
    | zero =>
      have hc : body? (c :: (cs ++ w)) = none := h
      have hgoal : body? (c :: (scan Piece.escaped 0 cs ++ w)) = none := by
        rw [body?_cons_eq_none] at hc ⊢
        rw [closesTag_scan_escaped]
        exact hc
      exact hgoal
    | succ n => rfl
  | bracket n cs hb ih =>
    rw [scan_bracket joins_escaped hb]
    cases n <;> rfl
  | tag n body after hb ih =>
    rw [scan_tag hb]
    rfl

/-! ### What is found in markup -/

/-- What a reader of markup meets: a character of plain text, or a tag. -/
inductive Sign where
  | char (c : Char)
  | tag (body : List Char)
  deriving DecidableEq, Repr

/-- A tag with an odd number of backslashes before it is plain text, and every two of them stand for one. -/
def Piece.signs : Piece → List Sign
  | .plain cs => cs.map .char
  | .tag n body =>
    (slashes (n / 2)).map .char ++
      if n % 2 = 1 then ('[' :: body ++ [']']).map .char else [.tag body]

theorem joins_signs : Joins Piece.signs := fun _ _ => List.map_append

theorem scan_signs_char {c : Char} (hslash : c ≠ '\\') (hopen : c ≠ '[') (cs : List Char) :
    scan Piece.signs 0 (c :: cs) = .char c :: scan Piece.signs 0 cs :=
  scan_char joins_signs hslash hopen 0 cs

/-- **Escaped text is read as what it was**, and the backslashes at its end are read together with what
follows, if a tag that is open at its end is not closed there. -/
theorem scan_signs_escaped {w : List Char} (n : Nat) (cs : List Char) (hw : body? w = none)
    (h : opensTag cs = true → closesTag w = false) :
    scan Piece.signs 0 (scan Piece.escaped n cs ++ w) =
      (stem n cs).map .char ++ scan Piece.signs (trailing n cs) w := by
  induction n, cs using scan_cases with
  | nil n =>
    rw [scan_nil joins_escaped, Piece.escaped, scan_slashes, Nat.zero_add]
    rfl
  | slash n cs ih =>
    rw [scan_slash, stem, if_pos rfl, trailing, if_pos rfl]
    exact ih h
  | char n c cs hslash hopen ih =>
    have hcs := ih fun ho => h (opensTag_append [c] ho)
    rw [scan_char joins_escaped hslash hopen, Piece.escaped, List.append_assoc, List.append_assoc, scan_slashes,
      Nat.zero_add, List.singleton_append, scan_char joins_signs hslash hopen, hcs, stem_cons hslash,
      trailing_cons hslash]
    simp [Piece.signs]
  | bracket n cs hb ih =>
    have hcs := ih fun ho => h (opensTag_append ['['] ho)
    have hplain : body? (cs ++ w) = none := by
      refine body?_append_eq_none hb hw fun ho => h ?_
      rw [opensTag, ho]
      rfl
    have hnone : body? (scan Piece.escaped 0 cs ++ w) = none := body?_scan_escaped 0 cs hplain
    rw [scan_bracket joins_escaped hb, Piece.escaped, List.append_assoc, List.append_assoc, scan_slashes,
      Nat.zero_add, List.singleton_append, scan_bracket joins_signs hnone, hcs, stem_cons (by decide),
      trailing_cons (by decide)]
    simp [Piece.signs]
  | tag n body after hb ih =>
    have hsplit : '[' :: (body ++ ']' :: after) = ('[' :: body ++ [']']) ++ after := by simp
    have hafter := ih fun ho => h (by rw [hsplit]; exact opensTag_append _ ho)
    -- the brackets of the tag come to stand behind an odd number of backslashes
    rw [scan_tag hb, Piece.escaped]
    simp only [List.append_assoc, List.cons_append, List.nil_append]
    rw [scan_slashes, Nat.zero_add, scan_tag hb, hafter, ← List.cons_append,
      stem_append_cons (by decide), trailing_append_cons (by decide)]
    simp [Piece.signs, Nat.mul_add_div]

theorem toList_escape (s : String) :
    (escape s).toList =
      scan Piece.escaped 0 s.toList ++ slashes (if trailing 0 s.toList = 1 then 1 else 0) := by
  rw [escape, String.toList_ofList, closeSlash_eq, ← trailing_scan_escaped 0 s.toList]
  rfl

/-- The backslashes that stand at the end of a text once it is escaped: one alone is doubled. -/
def endSlashes (s : String) : Nat :=
  if trailing 0 s.toList = 1 then 2 else trailing 0 s.toList

theorem scan_signs_escape {w : List Char} (s : String) (hw : body? w = none)
    (h : opensTag s.toList = true → closesTag w = false) :
    scan Piece.signs 0 ((escape s).toList ++ w) =
      (stem 0 s.toList).map .char ++ scan Piece.signs (endSlashes s) w := by
  rw [toList_escape, endSlashes, List.append_assoc]
  split
  · next hone =>
    have hclose : opensTag s.toList = true → closesTag (slashes 1 ++ w) = false := fun ho => by
      rw [closesTag_slashes]
      exact h ho
    rw [scan_signs_escaped 0 s.toList rfl hclose, hone, scan_slashes]
  · exact scan_signs_escaped 0 s.toList hw h

/-! ### A tag across -/

theorem isBody_append {cs inner : List Char} (h : isBody cs = true) (hinner : inner.all (!isBracket ·)) :
    isBody (cs ++ inner) = true := by
  cases cs with
  | nil => cases h
  | cons c cs =>
    rw [isBody, Bool.and_eq_true] at h
    rw [List.cons_append, isBody, List.all_append, h.1, h.2, hinner]
    rfl

theorem notMem_of_isBody {cs : List Char} (h : isBody cs = true) : '[' ∉ cs := by
  cases cs with
  | nil => exact List.not_mem_nil
  | cons c cs =>
    rw [isBody, Bool.and_eq_true, List.all_eq_true] at h
    intro hm
    obtain rfl | hm := List.mem_cons.mp hm
    · exact absurd h.1 (by decide)
    · exact absurd (h.2 _ hm) (by decide)

theorem body?_of_isBody {cs : List Char} (h : isBody cs = true) : body? cs = none := by
  cases cs with
  | nil => rfl
  | cons c cs =>
    rw [isBody, Bool.and_eq_true] at h
    have hclose := closesTag_append cs []
    rw [List.append_nil, if_pos h.2] at hclose
    exact (body?_cons_eq_none c cs).mpr (.inr hclose)

theorem exists_of_opensTag {cs : List Char} (h : opensTag cs = true) :
    ∃ front tail, cs = front ++ '[' :: tail ∧ isBody tail := by
  induction cs with
  | nil => cases h
  | cons c cs ih =>
    rw [opensTag, Bool.or_eq_true, Bool.and_eq_true, decide_eq_true_iff] at h
    obtain ⟨rfl, hbody⟩ | h := h
    · exact ⟨[], cs, rfl, hbody⟩
    · obtain ⟨front, tail, rfl, hbody⟩ := ih h
      exact ⟨c :: front, tail, rfl, hbody⟩

theorem scan_escaped_of_notMem (n : Nat) {cs : List Char} (h : '[' ∉ cs) :
    scan Piece.escaped n cs = slashes n ++ cs := by
  induction n, cs using scan_cases with
  | nil n =>
    rw [scan_nil joins_escaped, List.append_nil]
    rfl
  | slash n cs ih =>
    rw [scan_slash, ih fun hm => h (List.mem_cons_of_mem _ hm), slashes_succ]
  | char n c cs hslash hopen ih =>
    rw [scan_char joins_escaped hslash hopen, ih fun hm => h (List.mem_cons_of_mem _ hm), Piece.escaped,
      List.append_assoc]
    rfl
  | bracket n cs hb ih => exact absurd List.mem_cons_self h
  | tag n body after hb ih => exact absurd List.mem_cons_self h

theorem trailing_of_notMem {cs : List Char} (h : '\\' ∉ cs) : trailing 0 cs = 0 := by
  induction cs with
  | nil => rfl
  | cons c cs ih =>
    rw [trailing_cons (List.ne_of_not_mem_cons h).symm]
    exact ih (List.not_mem_of_not_mem_cons h)

/-- Text without backslashes and opening brackets needs no escaping. -/
theorem escape_eq_self {s : String} (h : ∀ c ∈ s.toList, c ≠ '\\' ∧ c ≠ '[') : escape s = s := by
  have htrailing : trailing 0 s.toList = 0 := trailing_of_notMem fun hm => (h _ hm).1 rfl
  refine String.toList_inj.mp ?_
  rw [toList_escape, htrailing, scan_escaped_of_notMem 0 fun hm => (h _ hm).2 rfl]
  exact List.append_nil _

theorem scan_escaped_open {tail : List Char} (h : isBody tail = true) (n : Nat) (front : List Char) :
    scan Piece.escaped n (front ++ '[' :: tail) = scan Piece.escaped n front ++ '[' :: tail := by
  have hnone : body? ('[' :: tail) = none := rfl
  induction n, front using scan_cases with
  | nil n =>
    rw [List.nil_append, scan_bracket joins_escaped (body?_of_isBody h),
      scan_escaped_of_notMem 0 (notMem_of_isBody h),
      scan_nil joins_escaped, Piece.escaped, Piece.escaped, List.append_assoc]
    rfl
  | slash n cs ih =>
    rw [List.cons_append, scan_slash, scan_slash, ih]
  | char n c cs hslash hopen ih =>
    rw [List.cons_append, scan_char joins_escaped hslash hopen, scan_char joins_escaped hslash hopen, ih,
      List.append_assoc]
  | bracket n cs hb ih =>
    have hcs : body? (cs ++ '[' :: tail) = none := body?_append_eq_none hb hnone fun _ => rfl
    rw [List.cons_append, scan_bracket joins_escaped hb, scan_bracket joins_escaped hcs, ih, List.append_assoc]
  | tag n body after hb ih =>
    have hsplit : '[' :: (body ++ ']' :: after) ++ '[' :: tail = '[' :: (body ++ ']' :: (after ++ '[' :: tail)) := by
      simp
    rw [hsplit, scan_tag hb, scan_tag hb, ih, List.append_assoc]

/-- **A tag that is open at the end of escaped text is closed behind it**: it is read as one tag, together
with all that stands between. -/
theorem exists_tag_across {cs w : List Char} (hcs : opensTag cs = true) (hw : closesTag w = true) :
    ∃ front tail inner after, cs = front ++ '[' :: tail ∧
      scan Piece.signs 0 (scan Piece.escaped 0 cs ++ w) =
        (stem 0 front).map .char ++ Piece.signs (.tag (trailing 0 front) (tail ++ inner)) ++
          scan Piece.signs 0 after := by
  obtain ⟨front, tail, rfl, htail⟩ := exists_of_opensTag hcs
  obtain ⟨inner, hinner⟩ := Option.isSome_iff_exists.mp hw
  obtain ⟨hall, after, rfl⟩ := exists_of_upToClose? hinner
  refine ⟨front, tail, inner, after, rfl, ?_⟩
  have hsplit : '[' :: tail ++ (inner ++ ']' :: after) = '[' :: (tail ++ inner ++ ']' :: after) := by simp
  rw [scan_escaped_open htail, List.append_assoc, hsplit, scan_signs_escaped 0 front rfl fun _ => rfl,
    scan_tag (isBody_append htail hall), List.append_assoc]

end Shorthand.Markup
