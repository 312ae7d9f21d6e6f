import Shorthand.Number.Padded
import Shorthand.Number.Spelled

/-!
# Padded integers are read back

An integer that is written with zeros in front is read as the same integer, whatever the width.

* `Number.Spells`: some characters spell out an integer, in digits and behind a sign if it is negative;
* `Number.Spells.unique`, `Number.Spells.int?_eq`: they spell out no other one, and it is the one that is
  read from them;
* `Number.length_padded`, `Number.spells_padded`, `Number.padded_inj`: length and meaning of what is
  written.
-/

namespace Shorthand.Number

/-! ### Digits -/

theorem digit?_of_isDigit {c : Char} (h : c.isDigit) : digit? c = some (c.toNat - '0'.toNat) := by
  have hc : ('0' ≤ c && c ≤ '9') = true := by
    simpa [Char.isDigit, Char.le_def] using h
  rw [digit?, if_pos hc]

/-- Behind a number that was read before, digits are read as the library reads them. -/
theorem foldl_eq_ofDigitChars {ds : List Char} (h : ∀ c ∈ ds, c.isDigit) (n : Nat) :
    ds.foldl (fun n c => n * 10 + (digit? c).getD 0) n = Nat.ofDigitChars 10 ds n := by
  induction ds generalizing n with
  | nil => rfl
  | cons c ds ih =>
    obtain ⟨hc, hd⟩ := List.forall_mem_cons.mp h
    rw [List.foldl_cons, ih hd, digit?_of_isDigit hc, Nat.mul_comm]
    rfl

theorem ofDigits_toDigits (n : Nat) : ofDigits 10 (Nat.toDigits 10 n) = n := by
  have hd : ∀ c ∈ Nat.toDigits 10 n, c.isDigit := fun c hc =>
    Nat.isDigit_of_mem_toDigits (by decide) (by decide) hc
  exact (foldl_eq_ofDigitChars hd 0).trans Nat.ofDigitChars_ten_toDigits

theorem ofDigits_padZeros (width : Nat) (ds : List Char) :
    ofDigits 10 (padZeros width ds) = ofDigits 10 ds := by
  have hz (k : Nat) : ofDigits 10 (.replicate k '0') = 0 := by
    induction k with
    | zero => rfl
    | succ k ih => rw [List.replicate_succ', ofDigits_concat, ih]; rfl
  unfold padZeros
  have hf := hz (width - ds.length)
  unfold ofDigits at hf ⊢
  rw [List.foldl_append, hf]

theorem length_padZeros (width : Nat) (ds : List Char) :
    (padZeros width ds).length = max width ds.length := by
  rw [padZeros, List.length_append, List.length_replicate]
  omega

theorem isDigit_of_mem_paddedNat {width n : Nat} {c : Char} (h : c ∈ paddedNat width n) : c.isDigit := by
  unfold paddedNat padZeros at h
  obtain h | h := List.mem_append.mp h
  · rw [List.eq_of_mem_replicate h]
    rfl
  · exact Nat.isDigit_of_mem_toDigits (by decide) (by decide) h

theorem paddedNat_ne_nil (width n : Nat) : paddedNat width n ≠ [] := by
  unfold paddedNat padZeros
  exact List.append_ne_nil_of_right_ne_nil _ Nat.toDigits_ne_nil

theorem ofDigits_paddedNat (width n : Nat) : ofDigits 10 (paddedNat width n) = n := by
  rw [paddedNat, ofDigits_padZeros, ofDigits_toDigits]

/-! ### What characters spell out -/

/-- Some characters spell out an integer: at least one decimal digit, behind a sign if it is negative. -/
inductive Spells : List Char → Int → Prop where
  | plain {ds} (hne : ds ≠ []) (hd : ∀ c ∈ ds, c.isDigit) : Spells ds (ofDigits 10 ds)
  | negative {ds} (hne : ds ≠ []) (hd : ∀ c ∈ ds, c.isDigit) : Spells ('-' :: ds) (-(ofDigits 10 ds : Int))

theorem signed_of_isDigit {ds : List Char} (hd : ∀ c ∈ ds, c.isDigit) : signed ds = (false, ds) := by
  unfold signed
  split
  · exact absurd (hd '-' List.mem_cons_self) (by decide)
  · exact absurd (hd '+' List.mem_cons_self) (by decide)
  · rfl

theorem Spells.signed_eq {cs : List Char} {n : Int} (h : Spells cs n) : ∃ negative ds,
    signed cs = (negative, ds) ∧ ds ≠ [] ∧ (∀ c ∈ ds, c.isDigit) ∧ withSign negative (ofDigits 10 ds) = n := by
  cases h with
  | plain hne hd => exact ⟨false, cs, signed_of_isDigit hd, hne, hd, rfl⟩
  | @negative ds hne hd => exact ⟨true, ds, rfl, hne, hd, rfl⟩

/-- **No characters spell out two integers.** -/
theorem Spells.unique {cs : List Char} {m n : Int} (hm : Spells cs m) (hn : Spells cs n) : m = n := by
  obtain ⟨negative, ds, hs, -, -, rfl⟩ := hm.signed_eq
  obtain ⟨negative', ds', hs', -, -, rfl⟩ := hn.signed_eq
  rw [hs] at hs'
  cases hs'
  rfl

/-- A digit and a sign stand for themselves, and are no space. -/
theorem plainChar_of_isDigit {c : Char} (h : c.isDigit ∨ c = '-') : plainChar c = c ∧ isSpace c = false := by
  have hn : 0x2D ≤ c.toNat ∧ c.toNat < 0x7F := by
    obtain h | rfl := h
    · have hc := Char.isDigit_iff_toNat.mp h
      simp only [Char.reduceToNat] at hc
      omega
    · decide
  have hs : c ≠ ' ' := by
    rintro rfl
    revert hn
    decide
  refine ⟨if_pos hn.2, ?_⟩
  rw [isSpace, Bool.or_eq_false_iff, decide_eq_false_iff_not, Bool.and_eq_false_iff,
    decide_eq_false_iff_not, decide_eq_false_iff_not]
  exact ⟨hs, .inr (by omega)⟩

theorem Spells.isDigit_or {cs : List Char} {n : Int} (h : Spells cs n) :
    ∀ c ∈ cs, c.isDigit ∨ c = '-' := by
  cases h with
  | plain hne hd => exact fun c hc => .inl (hd c hc)
  | negative hne hd => exact List.forall_mem_cons.mpr ⟨.inr rfl, fun c hc => .inl (hd c hc)⟩

/-- There is nothing around an integer that is spelled out. -/
theorem Spells.bare_eq {cs : List Char} {n : Int} (h : Spells cs n) : bare cs = cs := by
  have hp : ∀ c ∈ cs, plainChar c = c ∧ isSpace c = false := fun c hc =>
    plainChar_of_isDigit (h.isDigit_or c hc)
  have hd : ∀ ds : List Char, (∀ c ∈ ds, isSpace c = false) → ds.dropWhile isSpace = ds := by
    intro ds hs
    cases ds with
    | nil => rfl
    | cons c ds => rw [List.dropWhile_cons_of_neg (by simp [hs c List.mem_cons_self])]
  have hm : cs.map plainChar = cs :=
    (List.map_congr_left fun c hc => (hp c hc).1).trans (List.map_id cs)
  rw [bare, hm, hd cs fun c hc => (hp c hc).2, hd _ fun c hc => (hp c (List.mem_reverse.mp hc)).2,
    List.reverse_reverse]

theorem withoutMark_ten (cs : List Char) : withoutMark 10 cs = cs := by
  unfold withoutMark
  split
  · exact if_neg nofun
  · rfl

theorem whole?_of_isDigit {ds : List Char} (hne : ds ≠ []) (hd : ∀ c ∈ ds, c.isDigit)
    (hl : ds.length ≤ mostDigits) : whole? 10 ds = some (ofDigits 10 ds) := by
  have hall : ds.all (fun c => (digit? c).any (· < 10)) = true := by
    refine List.all_eq_true.mpr fun c hc => ?_
    have hn := Char.isDigit_iff_toNat.mp (hd c hc)
    simp only [Char.reduceToNat] at hn
    rw [digit?_of_isDigit (hd c hc), Option.any_some, decide_eq_true_eq]
    simp only [Char.reduceToNat]
    omega
  have hlong : ¬ mostDigits < ds.length := by omega
  simp [whole?, hne, hall, hlong]

/-- **What is spelled out is read**, if it is not too long. -/
theorem Spells.int?_eq {cs : List Char} {n : Int} (h : Spells cs n) (hl : cs.length ≤ mostDigits) :
    int? 10 cs = some n := by
  unfold int?
  rw [h.bare_eq]
  cases h with
  | plain hne hd =>
    simp only [signed_of_isDigit hd, withoutMark_ten, whole?_of_isDigit hne hd hl, Option.map_some]
    rfl
  | @negative ds hne hd =>
    have hlong : ds.length ≤ mostDigits := Nat.le_of_succ_le hl
    simp only [signed, withoutMark_ten, whole?_of_isDigit hne hd hlong, Option.map_some]
    rfl

/-! ### Padded integers -/

/-- **A padded integer spells out the integer**, of either sign. -/
theorem spells_padded (width : Nat) (n : Int) : Spells (padded width n).toList n := by
  cases n with
  | ofNat n =>
    have h := Spells.plain (paddedNat_ne_nil width n) fun c hc => isDigit_of_mem_paddedNat hc
    rw [ofDigits_paddedNat] at h
    simpa [padded] using h
  | negSucc n =>
    have h := Spells.negative (paddedNat_ne_nil (width - 1) (n + 1)) fun c hc => isDigit_of_mem_paddedNat hc
    rw [ofDigits_paddedNat] at h
    simpa [padded, Int.negSucc_eq] using h

/-- **A padded integer is as long as its width says**, or as its digits and its sign need. -/
theorem length_padded (width : Nat) (n : Int) :
    (padded width n).length = max width (padded 0 n).length := by
  cases n with
  | ofNat n => simp [padded, paddedNat, length_padZeros]
  | negSucc n =>
    have hpos : 0 < (Nat.toDigits 10 (n + 1)).length := Nat.length_toDigits_pos
    simp only [padded, paddedNat, String.length_ofList, List.length_cons, length_padZeros]
    omega

/-- Two integers that are written in the same way, of whatever widths, are the same. -/
theorem padded_inj {v w : Nat} {m n : Int} (h : padded v m = padded w n) : m = n := by
  have hm := spells_padded v m
  rw [h] at hm
  exact hm.unique (spells_padded w n)

/-- An integer as it is written is one that is padded to no width. -/
theorem toString_eq_padded (n : Int) : toString n = padded 0 n := by
  cases n with
  | ofNat n => simp [padded, paddedNat, padZeros, toString, Int.repr, Nat.repr]
  | negSucc n => simp [padded, paddedNat, padZeros, toString, Int.repr, Nat.repr]

end Shorthand.Number
