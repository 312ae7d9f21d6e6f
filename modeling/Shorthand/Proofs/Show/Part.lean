import Shorthand.Proofs.Show.Quoted
import Shorthand.Show.Label

/-!
# The parts of a label

A name is shown between two tags, and the value of an attribute behind its name.

* `Markup.tagsIn`, `Markup.textIn`: the tags that are found in markup, and the plain text around them;
* `Node.Part.scan_markup`: a part is read by itself, if a tag that is open at its end is not closed behind it;
* `Node.Part.exists_tag_of_opensTag`: what is found otherwise;
* `Node.weight_found`: parts that say what they are to say are those whose names end in one backslash or in
  none.
-/

namespace Shorthand

namespace Markup

def Sign.char? : Sign → Option Char
  | .char c => some c
  | .tag _ => none

def Sign.tag? : Sign → Option String
  | .char _ => none
  | .tag body => some (.ofList body)

def signs (s : String) : List Sign := (pieces s.toList).flatMap Piece.signs

def tagsIn (s : String) : List String := (signs s).filterMap Sign.tag?

def textIn (s : String) : String := .ofList ((signs s).filterMap Sign.char?)

theorem tags_map_char (cs : List Char) : (cs.map Sign.char).filterMap Sign.tag? = [] := by
  induction cs with
  | nil => rfl
  | cons c cs ih => exact ih

theorem text_map_char (cs : List Char) : (cs.map Sign.char).filterMap Sign.char? = cs := by
  induction cs with
  | nil => rfl
  | cons c cs ih => exact congrArg (c :: ·) ih

end Markup

open Markup

namespace Node

/-! ### Parts of a label -/

/-- The tags around the names of a label. -/
inductive Style where
  | bold
  | dim
  | cyan
  | magenta

def Style.tag : Style → String
  | .bold => "bold"
  | .dim => "dim"
  | .cyan => "cyan"
  | .magenta => "magenta"

/-- A name that is shown in a style, and the value that is shown behind it. -/
structure Part where
  style : Style
  name : String
  value : Option String := none

def literal (value : String) : String := Json.stringText true value

namespace Part

/-- What stands behind the name. -/
def equation (p : Part) : String := (p.value.map fun v => "=" ++ literal v).getD ""

def text (p : Part) : String := p.name ++ p.equation

def tags (p : Part) : List String := [p.style.tag, "/" ++ p.style.tag]

def markup (p : Part) : String :=
  tagged p.style.tag (escape p.name) ++ (p.value.map fun v => "=" ++ escape (literal v)).getD ""

end Part

/-! ### Tags and literals -/

theorem toList_tagged (tag text : String) (w : List Char) :
    (tagged tag text).toList ++ w =
      '[' :: (tag.toList ++ ']' :: (text.toList ++ '[' :: ('/' :: tag.toList ++ ']' :: w))) := by
  simp [tagged]

theorem toList_escape_literal (v : String) :
    (escape (literal v)).toList = scan Piece.escaped 0 (literal v).toList := by
  have htrailing : trailing 0 (literal v).toList = 0 := Json.trailing_stringText v
  rw [toList_escape, htrailing]
  exact List.append_nil _

theorem scan_literal {w : List Char} (v : String) (hw : body? w = none)
    (h : opensTag (literal v).toList = true → closesTag w = false) :
    scan Piece.signs 0 ((escape (literal v)).toList ++ w) =
      (literal v).toList.map .char ++ scan Piece.signs 0 w := by
  have htrailing : trailing 0 (literal v).toList = 0 := Json.trailing_stringText v
  rw [scan_signs_escape (literal v) hw h, stem_of_trailing_eq_zero htrailing, endSlashes, htrailing]
  rfl

/-! ### A part is read by itself -/

theorem Style.isBody_tag (s : Style) :
    isBody s.tag.toList = true ∧ isBody ('/' :: s.tag.toList) = true ∧ s.tag.toList.length ≤ 7 := by
  cases s <;> decide

namespace Part

variable (p : Part)

def found : List Sign :=
  [.tag p.style.tag.toList] ++ (stem 0 p.name.toList).map .char ++
    Piece.signs (.tag (endSlashes p.name) ('/' :: p.style.tag.toList)) ++ p.equation.toList.map .char

def written : List Sign :=
  [.tag p.style.tag.toList] ++ p.name.toList.map .char ++ [.tag ('/' :: p.style.tag.toList)] ++
    p.equation.toList.map .char

theorem scan_tagged (w : List Char) :
    scan Piece.signs 0 ((tagged p.style.tag (escape p.name)).toList ++ w) =
      [.tag p.style.tag.toList] ++ (stem 0 p.name.toList).map .char ++
        Piece.signs (.tag (endSlashes p.name) ('/' :: p.style.tag.toList)) ++ scan Piece.signs 0 w := by
  obtain ⟨htag, hclose, -⟩ := p.style.isBody_tag
  rw [toList_tagged, scan_tag htag, scan_signs_escape p.name rfl fun _ => rfl, scan_tag hclose]
  simp [Piece.signs, slashes]

theorem scan_equals (w : List Char) :
    scan Piece.signs 0 ("=".toList ++ w) = "=".toList.map .char ++ scan Piece.signs 0 w := by
  have hequals : "=".toList = ['='] := rfl
  rw [hequals]
  exact scan_signs_char (by decide) (by decide) w

/-- **A part is read by itself**, if a tag that is open at its end is not closed behind it. -/
theorem scan_markup {w : List Char} (hw : body? w = none)
    (h : ∀ v ∈ p.value, opensTag (literal v).toList = true → closesTag w = false) :
    scan Piece.signs 0 (p.markup.toList ++ w) = p.found ++ scan Piece.signs 0 w := by
  rw [markup, found, equation, String.toList_append, List.append_assoc, p.scan_tagged]
  cases hv : p.value with
  | none => simp
  | some v =>
    have hvalue := scan_literal v hw (h v hv)
    simp only [Option.map_some, Option.getD_some, String.toList_append, List.append_assoc, scan_equals, hvalue,
      List.map_append]

/-- A tag that is open at the end of a part is closed behind it: a tag is found that has a quote in it. -/
theorem exists_tag_of_opensTag {w : List Char} {v : String} (hv : p.value = some v)
    (hopen : opensTag (literal v).toList = true) (hclose : closesTag w = true) :
    ∃ body, Sign.tag body ∈ scan Piece.signs 0 (p.markup.toList ++ w) ∧ '"' ∈ body := by
  obtain ⟨front, tail, inner, after, hsplit, hscan⟩ := exists_tag_across hopen hclose
  obtain ⟨hquote, heven⟩ := Json.stringText_bracket hsplit
  refine ⟨tail ++ inner, ?_, List.mem_append_left _ hquote⟩
  rw [markup, String.toList_append, List.append_assoc, p.scan_tagged, hv]
  simp only [Option.map_some, Option.getD_some, String.toList_append, List.append_assoc, scan_equals]
  rw [toList_escape_literal, hscan]
  have htag : Sign.tag (tail ++ inner) ∈ Piece.signs (.tag (trailing 0 front) (tail ++ inner)) := by
    rw [Piece.signs, if_neg (by omega)]
    exact List.mem_append_right _ (List.mem_singleton_self _)
  simp [htag]

theorem map_char_name : p.name.toList.map Sign.char =
    (stem 0 p.name.toList).map .char ++ (slashes (trailing 0 p.name.toList)).map .char := by
  rw [← List.map_append, stem_append_trailing]
  rfl

/-- With one backslash at the end of the name, or none, a part says what it is to say. -/
theorem found_eq_written (h : trailing 0 p.name.toList < 2) : p.found = p.written := by
  rw [found, written, map_char_name, endSlashes]
  obtain hk | hk : trailing 0 p.name.toList = 0 ∨ trailing 0 p.name.toList = 1 := by omega
  · rw [hk]
    simp [Piece.signs, slashes]
  · rw [hk]
    simp [Piece.signs, slashes]

end Part

end Node

/-! ### A measure of what is found -/

/-- A measure of what is found in markup, in which a tag counts more than its text. -/
def Markup.weight (ss : List Sign) : Nat :=
  10 * (ss.filterMap Sign.tag?).length + (ss.filterMap Sign.char?).length

theorem Markup.weight_append (a b : List Sign) : weight (a ++ b) = weight a + weight b := by
  unfold weight
  rw [List.filterMap_append, List.filterMap_append, List.length_append, List.length_append]
  omega

theorem Markup.weight_map_char (cs : List Char) : weight (cs.map .char) = cs.length := by
  unfold weight
  rw [tags_map_char, text_map_char, List.length_nil, Nat.mul_zero, Nat.zero_add]

theorem Markup.weight_tag (body : List Char) : weight [.tag body] = 10 := rfl

namespace Node

/-- More than one backslash at the end of the name: some are lost, and the closing tag may be as well. -/
theorem Part.weight_found_lt (p : Part) (h : 2 ≤ trailing 0 p.name.toList) : weight p.found < weight p.written := by
  obtain ⟨-, -, hlength⟩ := p.style.isBody_tag
  have hclosing : weight (Piece.signs (.tag (endSlashes p.name) ('/' :: p.style.tag.toList))) <
      trailing 0 p.name.toList + 10 := by
    rw [endSlashes, if_neg (by omega), Piece.signs, weight_append, weight_map_char, slashes, List.length_replicate]
    split
    · rw [weight_map_char]
      simp only [List.length_append, List.length_cons, List.length_nil]
      omega
    · rw [weight_tag]
      omega
  rw [found, written, map_char_name]
  simp only [weight_append, weight_map_char, weight_tag, slashes, List.length_replicate]
  omega

/-- All parts say what they are to say, or less is found. -/
theorem weight_found (ps : List Part) :
    weight (ps.flatMap fun p => .char ' ' :: p.found) ≤ weight (ps.flatMap fun p => .char ' ' :: p.written) ∧
      (weight (ps.flatMap fun p => .char ' ' :: p.found) = weight (ps.flatMap fun p => .char ' ' :: p.written) →
        ∀ p ∈ ps, trailing 0 p.name.toList < 2) := by
  induction ps with
  | nil => exact ⟨Nat.le_refl _, fun _ => nofun⟩
  | cons p ps ih =>
    obtain ⟨hle, heq⟩ := ih
    have hcons (ss : List Sign) : weight (.char ' ' :: ss) = 1 + weight ss := weight_append [.char ' '] ss
    simp only [List.flatMap_cons, weight_append, hcons] at hle heq ⊢
    obtain hp | hp := Nat.lt_or_ge (trailing 0 p.name.toList) 2
    · rw [p.found_eq_written hp]
      refine ⟨by omega, fun h => List.forall_mem_cons.mpr ⟨hp, heq (by omega)⟩⟩
    · have hlt := p.weight_found_lt hp
      exact ⟨by omega, fun h => by omega⟩

end Node

end Shorthand
