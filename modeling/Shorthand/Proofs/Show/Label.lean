import Shorthand.Proofs.Show.Part

/-!
# What is read in a label

A label is read as the names and values of its node, between the tags that are written around the names,
but for two things: a name may end in more than one backslash, and a tag may be open at the end of the value
of the last attribute and be closed in the value of the node.

* `Node.parts`: the name of a node and those of its attributes;
* `Node.labelTags`, `Node.labelText`: what a label is to say;
* `Node.signs_label_eq`, `Node.exists_tag_label`: what is found in a label;
* `Node.label_says_iff`: when a label says what it is to say.
-/

namespace Shorthand

open Markup

namespace Node

/-! ### Names and values -/

def namePart (n : Node) : Part :=
  match n.name with
  | none => { style := .dim, name := "<text>" }
  | some name => if name.isEmpty then { style := .dim, name := "<text>" } else { style := .bold, name }

def Attribute.part (a : Attribute) : Part where
  style := .cyan
  name := (if a.implied then "!" else "") ++ a.name.getD ""
  value := if a.boolean then none else a.value.map Entry.displayAll

/-- The number of a copy. -/
def copyPart (r : Repeater) : Part := { style := .magenta, name := "#" ++ toString r.value }

def parts (n : Node) : List Part := n.namePart :: (n.attributes.getD []).map Attribute.part

def shownValue? (n : Node) : Option String :=
  match n.value with
  | none | some [] => none
  | some entries => some (Entry.displayAll entries)

def labelText (n : Node) : String :=
  " ".intercalate
    (n.parts.map Part.text ++ (n.shownValue?.map literal).toList ++
      (n.repeater.map fun r => (copyPart r).text).toList ++ if n.selfClosing then ["/"] else [])

def labelTags (n : Node) : List String := (n.parts ++ (n.repeater.map copyPart).toList).flatMap Part.tags

/-! ### Labels -/

def spaced (xs : List String) : List Char := xs.flatMap fun s => ' ' :: s.toList

theorem cons_toList_intercalate (x : String) (xs : List String) :
    ' ' :: (" ".intercalate (x :: xs)).toList = spaced (x :: xs) := by
  induction xs generalizing x with
  | nil => simp [spaced]
  | cons y xs ih =>
    have hy := ih y
    rw [String.intercalate_cons_cons, String.toList_append, String.toList_append]
    rw [spaced, List.flatMap_cons, ← spaced, ← hy]
    simp

theorem nameLabel_eq (n : Node) : n.nameLabel = n.namePart.markup := by
  have hdim : tagged "dim" "<text>" = ({ style := .dim, name := "<text>" } : Part).markup := by decide
  unfold nameLabel namePart
  cases n.name with
  | none => exact hdim
  | some name =>
    cases hname : name.isEmpty with
    | true =>
      simp only [hname, if_true]
      exact hdim
    | false =>
      simp only [hname, Bool.false_eq_true, if_false]
      exact String.append_empty.symm

theorem Attribute.label_eq (a : Attribute) : a.label = a.part.markup := by
  unfold Attribute.label Attribute.part Part.markup
  cases a.boolean <;> cases a.value <;> simp [literal, shownValue, Style.tag, String.append_assoc]

theorem plain_copyPart (r : Repeater) : ∀ c ∈ (copyPart r).name.toList, c ≠ '\\' ∧ c ≠ '[' := by
  have hnat (n : Nat) : ∀ c ∈ n.repr.toList, c ≠ '\\' ∧ c ≠ '[' := by
    intro c hc
    rw [Nat.toList_repr] at hc
    have hdigit := Nat.isDigit_of_mem_toDigits (by decide) (by decide) hc
    constructor
    · rintro rfl
      cases hdigit
    · rintro rfl
      cases hdigit
  have hint : ∀ c ∈ (toString r.value).toList, c ≠ '\\' ∧ c ≠ '[' := by
    cases r.value with
    | ofNat n => exact hnat n
    | negSucc n =>
      have hneg : (toString (Int.negSucc n)).toList = '-' :: (n + 1).repr.toList := String.toList_append
      rw [hneg]
      exact List.forall_mem_cons.mpr ⟨by decide, hnat (n + 1)⟩
  have hname : (copyPart r).name.toList = '#' :: (toString r.value).toList := String.toList_append
  rw [hname]
  exact List.forall_mem_cons.mpr ⟨by decide, hint⟩

def tailLabels (n : Node) : List String :=
  (n.repeater.map fun r => (copyPart r).markup).toList ++ if n.selfClosing then ["/"] else []

def valueMarkup (n : Node) : List String := (n.shownValue?.map fun v => escape (literal v)).toList

theorem valueLabels_eq (n : Node) : n.valueLabels = n.valueMarkup := by
  unfold valueLabels valueMarkup shownValue?
  match n.value with
  | none | some [] => rfl
  | some (_ :: _) => rfl

theorem markup_copyPart (r : Repeater) : (copyPart r).markup = tagged "magenta" ("#" ++ toString r.value) := by
  have hescape : escape (copyPart r).name = (copyPart r).name := escape_eq_self (plain_copyPart r)
  rw [Part.markup, hescape]
  exact String.append_empty

theorem copyLabels_eq (n : Node) : n.copyLabels = (n.repeater.map fun r => (copyPart r).markup).toList := by
  unfold copyLabels
  simp only [markup_copyPart]

theorem cons_toList_label (n : Node) :
    ' ' :: n.label.toList =
      spaced (n.parts.map Part.markup) ++ (spaced n.valueMarkup ++ spaced n.tailLabels) := by
  have hparts : n.nameLabel :: (n.attributes.getD []).map Attribute.label = n.parts.map Part.markup := by
    rw [parts, List.map_cons, nameLabel_eq, List.map_map]
    exact congrArg _ (List.map_congr_left fun a _ => a.label_eq)
  have hlabels : n.nameLabel :: (n.attributes.getD []).map Attribute.label ++ n.valueLabels ++ n.copyLabels ++
      (if n.selfClosing then ["/"] else []) = n.parts.map Part.markup ++ (n.valueMarkup ++ n.tailLabels) := by
    rw [hparts, valueLabels_eq, copyLabels_eq, tailLabels]
    simp only [List.append_assoc]
  rw [label, hlabels, parts, List.map_cons, List.cons_append, cons_toList_intercalate]
  simp [spaced]

theorem cons_toList_labelText (n : Node) :
    ' ' :: n.labelText.toList =
      spaced (n.parts.map Part.text) ++ (spaced (n.shownValue?.map literal).toList ++
        spaced ((n.repeater.map fun r => (copyPart r).text).toList ++ if n.selfClosing then ["/"] else [])) := by
  rw [labelText, parts, List.map_cons, List.cons_append, List.cons_append, List.cons_append,
    cons_toList_intercalate]
  simp [spaced]

/-! ### Labels are read part by part -/

theorem spaced_markup (p : Part) (xs : List String) :
    spaced (p.markup :: xs) = ' ' :: (p.markup.toList ++ spaced xs) := rfl

theorem closesTag_blank (w : List Char) : closesTag (' ' :: w) = closesTag w := by
  rw [closesTag_cons]
  rfl

/-- Behind a blank, and in front of a name, no tag begins, and none is closed. -/
theorem closesTag_markup (p : Part) (w : List Char) :
    body? (' ' :: (p.markup.toList ++ w)) = none ∧ closesTag (' ' :: (p.markup.toList ++ w)) = false := by
  refine ⟨rfl, ?_⟩
  rw [Part.markup, String.toList_append, List.append_assoc, toList_tagged, closesTag_blank, closesTag_cons]
  rfl

theorem scan_parts (ps : List Part) {w : List Char} (hw : body? w = none)
    (h : ∀ p ∈ ps.getLast?, ∀ v ∈ p.value, opensTag (literal v).toList = true → closesTag w = false) :
    scan Piece.signs 0 (spaced (ps.map Part.markup) ++ w) =
      (ps.flatMap fun p => .char ' ' :: p.found) ++ scan Piece.signs 0 w := by
  induction ps with
  | nil => rfl
  | cons p ps ih =>
    have hsplit : spaced ((p :: ps).map Part.markup) ++ w =
        ' ' :: (p.markup.toList ++ (spaced (ps.map Part.markup) ++ w)) := by
      rw [List.map_cons, spaced_markup, List.cons_append, List.append_assoc]
    rw [hsplit, scan_signs_char (by decide) (by decide), List.flatMap_cons]
    cases ps with
    | nil =>
      have hp := p.scan_markup hw (h p rfl)
      simp only [List.map_nil, spaced, List.flatMap_nil, List.nil_append] at hp ⊢
      rw [hp, List.append_nil]
      rfl
    | cons q qs =>
      have hq := closesTag_markup q (spaced (qs.map Part.markup) ++ w)
      rw [← List.append_assoc, ← List.cons_append, ← spaced_markup, ← List.map_cons] at hq
      rw [p.scan_markup hq.1 fun _ _ _ => hq.2, ih h, List.append_assoc]
      rfl

/-- What is found behind the values: the number of a copy, and a slash. -/
def tailSigns (n : Node) : List Sign :=
  ((n.repeater.map fun r => Sign.char ' ' :: (copyPart r).written).getD []) ++
    if n.selfClosing then [.char ' ', .char '/'] else []

theorem scan_tailLabels (n : Node) :
    body? (spaced n.tailLabels) = none ∧ closesTag (spaced n.tailLabels) = false ∧
      scan Piece.signs 0 (spaced n.tailLabels) = n.tailSigns := by
  have hslash : body? (spaced (if n.selfClosing then ["/"] else [])) = none ∧
      closesTag (spaced (if n.selfClosing then ["/"] else [])) = false ∧
      scan Piece.signs 0 (spaced (if n.selfClosing then ["/"] else [])) =
        if n.selfClosing then [.char ' ', .char '/'] else [] := by
    cases n.selfClosing <;> decide
  rw [tailLabels, tailSigns]
  cases n.repeater with
  | none => exact hslash
  | some r =>
    have hcopy := closesTag_markup (copyPart r) (spaced (if n.selfClosing then ["/"] else []))
    have htrailing : trailing 0 (copyPart r).name.toList = 0 :=
      trailing_of_notMem fun hm => (plain_copyPart r _ hm).1 rfl
    rw [Option.map_some, Option.toList_some, List.singleton_append, spaced_markup]
    refine ⟨hcopy.1, hcopy.2, ?_⟩
    rw [scan_signs_char (by decide) (by decide), (copyPart r).scan_markup hslash.1 nofun, hslash.2.2,
      (copyPart r).found_eq_written (by omega)]
    rfl

/-- What is found behind the names. -/
def behindSigns (n : Node) : List Sign :=
  (n.shownValue?.map fun v => Sign.char ' ' :: (literal v).toList.map .char).getD [] ++ n.tailSigns

theorem scan_behind (n : Node) :
    body? (spaced n.valueMarkup ++ spaced n.tailLabels) = none ∧
      closesTag (spaced n.valueMarkup ++ spaced n.tailLabels) =
        n.shownValue?.any (fun v => closesTag (literal v).toList) ∧
      scan Piece.signs 0 (spaced n.valueMarkup ++ spaced n.tailLabels) = n.behindSigns := by
  obtain ⟨hbody, hcloses, hscan⟩ := n.scan_tailLabels
  rw [valueMarkup, behindSigns]
  cases n.shownValue? with
  | none => exact ⟨hbody, hcloses, hscan⟩
  | some v =>
    have hspaced : spaced [escape (literal v)] ++ spaced n.tailLabels =
        ' ' :: ((escape (literal v)).toList ++ spaced n.tailLabels) := by simp [spaced]
    rw [Option.map_some, Option.toList_some, hspaced]
    refine ⟨rfl, ?_, ?_⟩
    · rw [closesTag_blank, toList_escape_literal, closesTag_scan_escaped, closesTag_append_of_eq_false hcloses,
        Option.any_some]
    · rw [scan_signs_char (by decide) (by decide), scan_literal v hbody fun _ => hcloses, hscan]
      rfl

/-- The characters and the tags that a label is to have, behind a blank. -/
def labelSigns (n : Node) : List Sign :=
  (n.parts.flatMap fun p => .char ' ' :: p.written) ++ n.behindSigns

theorem Part.tags_written (p : Part) : p.written.filterMap Sign.tag? = p.tags := by
  have hclose : String.ofList ('/' :: p.style.tag.toList) = "/" ++ p.style.tag := by
    refine String.toList_inj.mp ?_
    rw [String.toList_ofList, String.toList_append]
    rfl
  have htag : [Sign.tag p.style.tag.toList].filterMap Sign.tag? = [p.style.tag] :=
    congrArg (fun s => [s]) String.ofList_toList
  have hend : [Sign.tag ('/' :: p.style.tag.toList)].filterMap Sign.tag? = ["/" ++ p.style.tag] :=
    congrArg (fun s => [s]) hclose
  simp only [written, List.filterMap_append, tags_map_char, List.append_nil, htag, hend]
  rfl

theorem Part.text_written (p : Part) : p.written.filterMap Sign.char? = p.text.toList := by
  have htag (body : List Char) : [Sign.tag body].filterMap Sign.char? = [] := rfl
  simp only [written, List.filterMap_append, text_map_char, text, String.toList_append, htag, List.nil_append,
    List.append_nil]

theorem tags_labelSigns (n : Node) : n.labelSigns.filterMap Sign.tag? = n.labelTags := by
  have hparts (ps : List Part) :
      (ps.flatMap fun p => .char ' ' :: p.written).filterMap Sign.tag? = ps.flatMap Part.tags := by
    rw [List.filterMap_flatMap]
    exact List.flatMap_congr fun p _ => p.tags_written
  have hvalue : ((n.shownValue?.map fun v => Sign.char ' ' :: (literal v).toList.map .char).getD []).filterMap
      Sign.tag? = [] := by
    cases n.shownValue? with
    | none => rfl
    | some v => rw [Option.map_some, Option.getD_some, ← List.map_cons, tags_map_char]
  have hcopy : ((n.repeater.map fun r => Sign.char ' ' :: (copyPart r).written).getD []).filterMap Sign.tag? =
      (n.repeater.map copyPart).toList.flatMap Part.tags := by
    cases n.repeater with
    | none => rfl
    | some r => exact (copyPart r).tags_written.trans (List.append_nil _).symm
  have hslash : (if n.selfClosing then [.char ' ', .char '/'] else []).filterMap Sign.tag? = [] := by
    cases n.selfClosing <;> rfl
  rw [labelSigns, behindSigns, tailSigns, labelTags]
  simp only [List.filterMap_append, List.flatMap_append, hparts, hvalue, hcopy, hslash, List.append_nil,
    List.nil_append]

theorem text_labelSigns (n : Node) : n.labelSigns.filterMap Sign.char? = ' ' :: n.labelText.toList := by
  have hparts (ps : List Part) :
      (ps.flatMap fun p => .char ' ' :: p.written).filterMap Sign.char? = spaced (ps.map Part.text) := by
    rw [List.filterMap_flatMap, spaced, List.flatMap_map]
    exact List.flatMap_congr fun p _ => congrArg (' ' :: ·) p.text_written
  have hvalue : ((n.shownValue?.map fun v => Sign.char ' ' :: (literal v).toList.map .char).getD []).filterMap
      Sign.char? = spaced (n.shownValue?.map literal).toList := by
    cases n.shownValue? with
    | none => rfl
    | some v =>
      rw [Option.map_some, Option.getD_some, ← List.map_cons, text_map_char, Option.map_some, Option.toList_some,
        spaced, List.flatMap_singleton]
  have hcopy : ((n.repeater.map fun r => Sign.char ' ' :: (copyPart r).written).getD []).filterMap Sign.char? =
      spaced (n.repeater.map fun r => (copyPart r).text).toList := by
    cases n.repeater with
    | none => rfl
    | some r => exact congrArg (' ' :: ·) ((copyPart r).text_written.trans (List.append_nil _).symm)
  have hslash : (if n.selfClosing then [.char ' ', .char '/'] else []).filterMap Sign.char? =
      spaced (if n.selfClosing then ["/"] else []) := by
    cases n.selfClosing <;> rfl
  have hspaced (xs ys : List String) : spaced (xs ++ ys) = spaced xs ++ spaced ys := List.flatMap_append
  rw [cons_toList_labelText, labelSigns, behindSigns, tailSigns, hspaced]
  simp only [List.filterMap_append, hparts, hvalue, hcopy, hslash]

/-! ### When a label says what it is to say -/

theorem signs_label (n : Node) : Sign.char ' ' :: signs n.label =
    scan Piece.signs 0 (spaced (n.parts.map Part.markup) ++ (spaced n.valueMarkup ++ spaced n.tailLabels)) := by
  rw [← cons_toList_label, scan_signs_char (by decide) (by decide)]
  rfl

/-- If no tag is open where the value of the node closes one, the label is read part by part. -/
theorem signs_label_eq {n : Node}
    (h : ∀ p ∈ n.parts.getLast?, ∀ v ∈ p.value, ∀ w ∈ n.shownValue?,
      ¬ (opensTag (literal v).toList ∧ closesTag (literal w).toList)) :
    Sign.char ' ' :: signs n.label = (n.parts.flatMap fun p => .char ' ' :: p.found) ++ n.behindSigns := by
  obtain ⟨hbody, hcloses, hscan⟩ := n.scan_behind
  rw [signs_label, scan_parts n.parts hbody, hscan]
  intro p hp v hv hopen
  rw [hcloses]
  cases hw : n.shownValue? with
  | none => rfl
  | some w =>
    cases hclose : closesTag (literal w).toList with
    | false => rw [Option.any_some, hclose]
    | true => exact absurd ⟨hopen, hclose⟩ (h p hp v hv w hw)

/-- If one is, then a tag is found that is none of those that are written. -/
theorem exists_tag_label {n : Node} {p : Part} {v w : String} (hp : n.parts.getLast? = some p)
    (hv : p.value = some v) (hw : n.shownValue? = some w) (hopen : opensTag (literal v).toList = true)
    (hclose : closesTag (literal w).toList = true) : ∃ tag ∈ tagsIn n.label, '"' ∈ tag.toList := by
  obtain ⟨-, hcloses, -⟩ := n.scan_behind
  rw [hw, Option.any_some, hclose] at hcloses
  obtain ⟨init, hinit⟩ := List.getLast?_eq_some_iff.mp hp
  obtain ⟨hnone, hfree⟩ := closesTag_markup p (spaced n.valueMarkup ++ spaced n.tailLabels)
  obtain ⟨body, hbody, hquote⟩ := p.exists_tag_of_opensTag hv hopen hcloses
  have hmem : Sign.tag body ∈ Sign.char ' ' :: signs n.label := by
    have hsplit : spaced (n.parts.map Part.markup) ++ (spaced n.valueMarkup ++ spaced n.tailLabels) =
        spaced (init.map Part.markup) ++
          (' ' :: (p.markup.toList ++ (spaced n.valueMarkup ++ spaced n.tailLabels))) := by
      rw [hinit]
      simp [spaced]
    rw [signs_label, hsplit, scan_parts init hnone fun _ _ _ _ _ => hfree,
      scan_signs_char (by decide) (by decide)]
    exact List.mem_append_right _ (List.mem_cons_of_mem _ hbody)
  obtain hmem | hmem := List.mem_cons.mp hmem
  · cases hmem
  · refine ⟨.ofList body, List.mem_filterMap.mpr ⟨.tag body, hmem, rfl⟩, ?_⟩
    rw [String.toList_ofList]
    exact hquote

theorem notMem_of_mem_labelTags {n : Node} {tag : String} (h : tag ∈ n.labelTags) : '"' ∉ tag.toList := by
  obtain ⟨p, -, hp⟩ := List.mem_flatMap.mp h
  have htags : ∀ tag ∈ p.tags, '"' ∉ tag.toList := by
    unfold Part.tags
    cases p.style <;> decide
  exact htags tag hp

/-- **When a label says what it is to say.**  From a label its tags, and the names and values of its node,
are read character for character, just if no name ends in two backslashes, and the value of the node does
not close a tag that is open at the end of the value of the last attribute.  A value stands there as a
string literal, with its quotes. -/
theorem label_says_iff (n : Node) :
    (tagsIn n.label = n.labelTags ∧ textIn n.label = n.labelText) ↔
      (∀ p ∈ n.parts, trailing 0 p.name.toList < 2) ∧
        ∀ p ∈ n.parts.getLast?, ∀ v ∈ p.value, ∀ w ∈ n.shownValue?,
          ¬ (opensTag (literal v).toList ∧ closesTag (literal w).toList) := by
  have htags : tagsIn n.label = (Sign.char ' ' :: signs n.label).filterMap Sign.tag? :=
    (List.filterMap_cons_none rfl).symm
  have htext : textIn n.label = n.labelText ↔
      (Sign.char ' ' :: signs n.label).filterMap Sign.char? = ' ' :: n.labelText.toList := by
    rw [← String.toList_inj, textIn, String.toList_ofList]
    exact ⟨fun h => congrArg (' ' :: ·) h, fun h => (List.cons.inj h).2⟩
  rw [htags, htext, ← tags_labelSigns, ← text_labelSigns]
  constructor
  · rintro ⟨ht, hc⟩
    have hcross : ∀ p ∈ n.parts.getLast?, ∀ v ∈ p.value, ∀ w ∈ n.shownValue?,
        ¬ (opensTag (literal v).toList ∧ closesTag (literal w).toList) := by
      rintro p hp v hv w hw ⟨hopen, hclose⟩
      obtain ⟨tag, htag, hquote⟩ := exists_tag_label hp hv hw hopen hclose
      rw [htags, ht, tags_labelSigns] at htag
      exact notMem_of_mem_labelTags htag hquote
    -- where a name is not read back, what is found weighs less than what is to be there
    refine ⟨(weight_found n.parts).2 ?_, hcross⟩
    rw [signs_label_eq hcross] at ht hc
    have hweight : weight ((n.parts.flatMap fun p => .char ' ' :: p.found) ++ n.behindSigns) = weight n.labelSigns := by
      unfold weight
      rw [ht, hc]
    rw [labelSigns, weight_append, weight_append] at hweight
    exact Nat.add_right_cancel hweight
  · rintro ⟨hnames, hcross⟩
    have hfound : (n.parts.flatMap fun p => .char ' ' :: p.found) = n.parts.flatMap fun p => .char ' ' :: p.written :=
      List.flatMap_congr fun p hp => congrArg (.char ' ' :: ·) (p.found_eq_written (hnames p hp))
    rw [signs_label_eq hcross, hfound]
    exact ⟨rfl, rfl⟩

/-- A tag across two values, and a closing tag that is plain text. -/
example :
    let a : Attribute := { name := some "a", value := some [.text "[b"], boolean := false, implied := false, kind := .raw }
    tagsIn ({ name := some "p", attributes := some [a], value := some [.text "x]"] } : Node).label =
        ["bold", "/bold", "cyan", "/cyan", "b\" \"x"] ∧
      tagsIn ({ name := some "x\\\\\\" } : Node).label = ["bold"] := by
  decide

end Node

end Shorthand
