import Shorthand.Proofs.Document.Faults

/-!
# Faults below a statement

The faults that are found at or below a statement of a document are those of its record alone: they do not
depend on what stands around it, unless the statement is not looked at because one around it is of no
known kind.

* `Fields.withStatement`, `Fields.withTreeStatement`: a document with another record in the place of a
  statement;
* `Decode.faultsOf`: the faults of an element or of a group;
* `Document.faults_below`: what is found at or below a statement.
-/

namespace Shorthand

/-! ### Another record -/

namespace Fields

def modify (name : String) (f : Value → Value) : Fields → Fields
  | [] => []
  | (key, value) :: rest =>
    if key = .string name then (key, f value) :: rest else (key, value) :: modify name f rest

theorem get?_modify (name other : String) (f : Value → Value) (fields : Fields) :
    (modify name f fields).get? other =
      if other = name then (fields.get? other).map f else fields.get? other := by
  induction fields with
  | nil => split <;> rfl
  | cons entry rest ih =>
    obtain ⟨key, value⟩ := entry
    rw [modify]
    by_cases hk : key = .string name
    · rw [if_pos hk, get?_cons, get?_cons, hk]
      by_cases ho : other = name
      · rw [if_pos ho, if_pos (by rw [ho]), if_pos (by rw [ho])]
        rfl
      · have hne : Key.string name ≠ .string other := fun he => ho (Key.string.inj he).symm
        rw [if_neg ho, if_neg hne, if_neg hne]
    · rw [if_neg hk, get?_cons, get?_cons, ih]
      by_cases hko : key = .string other
      · have ho : other ≠ name := fun ho => hk (by rw [hko, ho])
        rw [if_pos hko, if_pos hko, if_neg ho]
      · rw [if_neg hko, if_neg hko]

theorem modify_self {name : String} {f : Value → Value} {fields : Fields}
    (h : ∀ v ∈ fields.get? name, f v = v) : modify name f fields = fields := by
  induction fields with
  | nil => rfl
  | cons entry rest ih =>
    obtain ⟨key, value⟩ := entry
    rw [get?_cons] at h
    rw [modify]
    by_cases hk : key = .string name
    · rw [if_pos hk] at h ⊢
      rw [h value rfl]
    · rw [if_neg hk] at h ⊢
      rw [ih h]

end Fields

def Value.mapFields (f : Fields → Fields) : Value → Value
  | .map fields => .map (f fields)
  | v => v

/-- The fields of a map that is an item of a list are changed. -/
def Value.mapItem (i : Nat) (f : Fields → Fields) : Value → Value
  | .list items => .list (items.modify i (Value.mapFields f))
  | v => v

/-- The record of a statement with another one in the place of the statement to which places lead. -/
def Fields.withStatement : Fields → List Nat → Fields → Fields
  | _, [], record => record
  | fields, i :: is, record =>
    fields.modify "elements" (Value.mapItem i fun child => withStatement child is record)

/-- A document with another record in the place of a statement. -/
def Fields.withTreeStatement (fields : Fields) (is : List Nat) (record : Fields) : Fields :=
  fields.modify "tree" (Value.mapFields fun root => root.withStatement is record)

section Places

variable {document : Value} {p : Position} {fields record : Fields} {i : Nat} {is : List Nat}

/-- Places lead from a map into the list of its elements, and to a map that is an item of it. -/
theorem Value.exists_child_of_through (hp : document.at? p = some (.map fields))
    (h : document.at? (p.through (i :: is)) = some (.map record)) :
    ∃ items child, fields.get? "elements" = some (.list items) ∧ items[i]? = some (.map child) ∧
      document.at? ((p.field "elements").item i) = some (.map child) := by
  obtain ⟨items, hl⟩ := exists_list_of_through h
  have hchild : ∃ child, document.at? ((p.field "elements").item i) = some (.map child) := by
    cases is with
    | nil => exact ⟨record, h⟩
    | cons j is => exact exists_map_of_through h
  obtain ⟨child, hc⟩ := hchild
  refine ⟨items, child, ?_, ?_, hc⟩
  · rw [← at?_field hp, hl]
  · rw [← at?_item hl, hc]

theorem Fields.withStatement_self (hp : document.at? p = some (.map fields))
    (h : document.at? (p.through is) = some (.map record)) : fields.withStatement is record = fields := by
  induction is generalizing p fields with
  | nil =>
    have h : document.at? p = some (.map record) := h
    rw [hp] at h
    cases h
    rfl
  | cons i is ih =>
    obtain ⟨items, child, hl, hi, hc⟩ := Value.exists_child_of_through hp h
    rw [withStatement]
    refine modify_self fun v hv => ?_
    rw [hl] at hv
    cases hv
    have hself : Value.mapFields (fun child => child.withStatement is record) (.map child) = .map child :=
      congrArg Value.map (ih hc h)
    refine congrArg Value.list (List.ext_getElem? fun j => ?_)
    by_cases hj : i = j
    · rw [← hj, List.getElem?_modify_eq, hi]
      exact congrArg some hself
    · rw [List.getElem?_modify_ne _ _ hj]

theorem Fields.withTreeStatement_self
    (h : (Value.map fields).at? (Tree.root.through is) = some (.map record)) :
    fields.withTreeStatement is record = fields := by
  unfold withTreeStatement
  refine modify_self fun v hv => ?_
  have hroot : (Value.map fields).at? Tree.root = some v := (Value.at?_singleton _ _).trans hv
  cases v with
  | map root => exact congrArg Value.map (withStatement_self hroot h)
  | _ => rfl

end Places

/-! ### Faults of a statement -/

def Value.nested (v : Value) : Position → Value
  | [] => v
  | .field name :: rest => .map [(.string name, v.nested rest)]
  | .item i :: rest => .list (List.replicate i .null ++ [v.nested rest])

theorem Value.at?_nested (v : Value) (p : Position) : (v.nested p).at? p = some v := by
  induction p with
  | nil => rfl
  | cons step rest ih =>
    rw [at?]
    cases step with
    | field name => simp [nested, step?, Fields.get?, ih]
    | item i => simp [nested, step?, ih]

theorem Value.has_nested (v : Value) {p : Position} (hp : p.Plain) : (v.nested p).Has p v :=
  ⟨hp, v.at?_nested p⟩

namespace Decode

open Checked

def faultsOf (kind : Kind) (p : Position) (fields : Fields) : List Fault :=
  let children := childrenField (p.field "elements") fields
  match kind with
  | .element => (elementOf p fields (elementChildren (p.field "elements") children)).faults
  | .group => (groupOf p fields children).faults

section Faults

variable {document v : Value} {p q r : Position} {fields : Fields} {items : List Value} {i k : Nat}
  {kind : Kind}

theorem childrenField_eq (p : Position) (fields : Fields) :
    childrenField p fields = (fields.get? "elements").elim .missing (children p) := by
  induction fields with
  | nil => rfl
  | cons entry rest ih =>
    obtain ⟨key, value⟩ := entry
    rw [childrenField, Fields.get?_cons, ih]
    split <;> rfl

theorem faults_statement (h : kind? fields = some kind) :
    (statement p (.map fields)).faults = faultsOf kind p fields := by
  rw [statement]
  dsimp only
  cases kind with
  | element => rw [h]; rfl
  | group => rw [h]; exact faults_map _

theorem prefix_of_mem_faultsOf (hp : p.Plain) {f : Fault} (h : f ∈ faultsOf kind p fields) :
    p <+: f.position := by
  have hhas := (Value.map fields).has_nested hp
  have hm := childrenField_meets fields (p.field "elements")
  have hc := elements_finds hhas
  cases kind with
  | element =>
    have hfinds := elementOf_finds hhas (elementChildren_finds hhas hm hc)
    exact hfinds.fills.within _ (List.mem_map_of_mem h)
  | group => exact (groupOf_finds hhas hm hc).fills.within _ (List.mem_map_of_mem h)

theorem filter_faultsOf_self (hp : p.Plain) :
    (faultsOf kind p fields).filter (p <+: ·.position) = faultsOf kind p fields :=
  List.filter_eq_self.mpr fun _ hf => decide_eq_true (prefix_of_mem_faultsOf hp hf)

/-- Nothing that is found in one entry of a record stands below another one. -/
theorem filter_faults_of_field {α : Type} {c : Checked α} {name other : String}
    (hc : c.Finds document (p.field name <+: ·)) (hn : name ≠ other) (hr : p.field other <+: r) :
    c.faults.filter (r <+: ·.position) = [] := by
  refine List.filter_eq_nil_iff.mpr fun f hf hrf => hn ?_
  have hname := hc.fills.within _ (List.mem_map_of_mem hf)
  exact Position.field_inj hname (hr.trans (of_decide_eq_true hrf))

/-- What is found below an item of a list of statements is found in this item. -/
theorem filter_statements {vs : List Value} (hl : document.Has q (.list items))
    (hvs : ∀ i, document.at? (q.item (k + i)) = vs[i]?) (hv : vs[i]? = some v) (hr : q.item (k + i) <+: r) :
    (statements q k vs).faults.filter (r <+: ·.position) =
      (statement (q.item (k + i)) v).faults.filter (r <+: ·.position) := by
  induction vs generalizing k i with
  | nil => cases hv
  | cons w rest ih =>
    have hrest : ∀ i, document.at? (q.item (k + 1 + i)) = rest[i]? := by
      intro i
      rw [Nat.add_assoc, Nat.add_comm 1 i]
      exact hvs (i + 1)
    rw [statements, faults_cons, List.filter_append]
    cases i with
    | zero =>
      cases hv
      have hnone : (statements q (k + 1) rest).faults.filter (r <+: ·.position) = [] := by
        refine List.filter_eq_nil_iff.mpr fun f hf hrf => ?_
        have hfinds := statements_finds rest hl.plain ⟨items, hl⟩ hrest
        exact Position.UnderItems.not_of_item (hr.trans (of_decide_eq_true hrf))
          (hfinds.fills.within _ (List.mem_map_of_mem hf))
      rw [hnone, List.append_nil]
      rfl
    | succ i =>
      have hnone : (statement (q.item k) w).faults.filter (r <+: ·.position) = [] := by
        refine List.filter_eq_nil_iff.mpr fun f hf hrf => ?_
        have hfinds := statement_finds w ⟨hl.plain.item k, hvs 0⟩ (hl.isPlace_item k)
        have hk := Position.item_inj (hr.trans (of_decide_eq_true hrf))
          (hfinds.fills.within _ (List.mem_map_of_mem hf))
        omega
      have hi : k + (i + 1) = k + 1 + i := by omega
      rw [hnone, List.nil_append, hi]
      exact ih hrest hv (hi ▸ hr)

/-- What is found below a child of a statement is found in this child. -/
theorem filter_faultsOf (hp : p.Plain) (hl : fields.get? "elements" = some (.list items))
    (hv : items[i]? = some v) (hr : (p.field "elements").item i <+: r) :
    (faultsOf kind p fields).filter (r <+: ·.position) =
      (statement ((p.field "elements").item i) v).faults.filter (r <+: ·.position) := by
  have hhas := (Value.map fields).has_nested hp
  have hlist := hhas.field (by decide) hl
  have hre : p.field "elements" <+: r := Position.prefix_of_item hr
  have hc : childrenField (p.field "elements") fields = .list (statements (p.field "elements") 0 items) := by
    rw [childrenField_eq, hl]
    rfl
  have hat : ∀ j, ((Value.map fields).nested p).at? ((p.field "elements").item (0 + j)) = items[j]? := by
    intro j
    rw [Nat.zero_add]
    exact Value.at?_item hlist.at? j
  have hstart : (p.field "elements").item (0 + i) <+: r := by rwa [Nat.zero_add]
  have hchildren := filter_statements hlist hat hv hstart
  rw [Nat.zero_add] at hchildren
  have hrepeat := filter_faults_of_field (repeater_finds hhas) (by decide) hre
  cases kind with
  | element =>
    have hname := filter_faults_of_field (tokens_finds hhas "name" (by decide)) (by decide) hre
    have hvalue := filter_faults_of_field (tokens_finds hhas "value" (by decide)) (by decide) hre
    have hattributes :=
      filter_faults_of_field (attributeList_finds hhas) (by decide) hre
    have hself : ((demand (boolField fields "self_close") .selfCloseNotBool
        (p.field "self_close")).faults.filter (r <+: ·.position)) = [] :=
      filter_faults_of_field (.optional hhas (by decide) isSome_boolField fun _ => id) (by decide) hre
    simp only [faultsOf, elementOf, hc, elementChildren, faults_map, faults_both, List.filter_append, hname,
      hvalue, hattributes, hself, hrepeat, hchildren, List.nil_append, List.append_nil]
  | group =>
    simp only [faultsOf, groupOf, hc, faults_map, faults_both, List.filter_append, hrepeat, hchildren,
      List.nil_append]

end Faults

/-! ### Statements that are looked at -/

/-- The kind of the statement to which places lead from one of a kind: that one itself, or one that says
so. -/
def kindAt? (kind : Kind) (is : List Nat) (fields : Fields) : Option Kind :=
  if is = [] then some kind else kind? fields

theorem kind?_withStatement (child record : Fields) (j : Nat) (is : List Nat) :
    kind? (child.withStatement (j :: is) record) = kind? child := by
  unfold kind?
  rw [Fields.withStatement, Fields.get?_modify, if_neg (by decide)]

theorem prefix_through (p : Position) (is : List Nat) : p <+: p.through is := by
  induction is generalizing p with
  | nil => exact List.prefix_refl p
  | cons i is ih => exact Position.prefix_of_field (Position.prefix_of_item (ih _))

/-- What is found at or below a statement to which places lead is what its own record gives, whatever that
is, or nothing, whatever it is: it is not looked at if one around it is of no known kind. -/
theorem filter_withStatement {document : Value} {p : Position} {fields record : Fields} {is : List Nat}
    (kind : Kind) (hp : document.Has p (.map fields))
    (h : document.at? (p.through is) = some (.map record)) :
    (∀ k own, kindAt? kind is own = some k →
      (faultsOf kind p (fields.withStatement is own)).filter (p.through is <+: ·.position) =
        faultsOf k (p.through is) own) ∨
    ∀ own, (faultsOf kind p (fields.withStatement is own)).filter (p.through is <+: ·.position) = [] := by
  induction is generalizing p fields kind with
  | nil =>
    refine .inl fun k own hk => ?_
    cases hk
    exact filter_faultsOf_self hp.plain
  | cons i is ih =>
    obtain ⟨items, child, hl, hi, hc⟩ := Value.exists_child_of_through hp.at? h
    have hchild : document.Has ((p.field "elements").item i) (.map child) :=
      ⟨(hp.plain.field (by decide)).item i, hc⟩
    -- what is found at or below the statement is found in the child on the way to it
    have hfilter (own : Fields) :
        (faultsOf kind p (fields.withStatement (i :: is) own)).filter
            (p.through (i :: is) <+: ·.position) =
          (statement ((p.field "elements").item i) (.map (Fields.withStatement child is own))).faults.filter
            (p.through (i :: is) <+: ·.position) := by
      have helements : (fields.withStatement (i :: is) own).get? "elements" =
          some (.list (items.modify i (Value.mapFields fun child => child.withStatement is own))) := by
        rw [Fields.withStatement, Fields.get?_modify, if_pos rfl, hl]
        rfl
      refine filter_faultsOf hp.plain helements ?_ (prefix_through _ is)
      rw [List.getElem?_modify_eq, hi]
      rfl
    cases is with
    | nil =>
      refine .inl fun k own hk => ?_
      have hk : kind? own = some k := hk
      rw [hfilter, Fields.withStatement, faults_statement hk]
      exact filter_faultsOf_self hchild.plain
    | cons j is =>
      cases hk : kind? child with
      | some k =>
        have hfaults (own : Fields) := faults_statement (p := (p.field "elements").item i)
          ((kind?_withStatement child own j is).trans hk)
        simp only [hfilter, hfaults]
        exact ih k hchild h
      | none =>
        -- a statement of no known kind is one fault, and nothing below it is looked at
        refine .inr fun own => ?_
        have hfault : statement ((p.field "elements").item i)
            (.map (Fields.withStatement child (j :: is) own)) =
              .fault .unknownStatement (((p.field "elements").item i).field "type") := by
          rw [statement]
          dsimp only
          rw [kind?_withStatement, hk]
        rw [hfilter, hfault]
        refine List.filter_eq_nil_iff.mpr fun f hf hr => ?_
        obtain rfl := List.mem_singleton.mp hf
        have hbelow := (prefix_through _ is).trans (of_decide_eq_true hr)
        exact absurd (Position.field_inj (Position.prefix_of_item hbelow) (List.prefix_refl _)) (by decide)

end Decode

/-! ### Documents -/

namespace Document

open Decode Checked

/-- **The faults at or below a statement** of a document are those of its own record, whatever that is, or
there are none, whatever it is. -/
theorem faults_below {fields record : Fields} {is : List Nat} (file : Option String)
    (h : (Value.map fields).at? (Tree.root.through is) = some (.map record)) :
    (∀ k own, kindAt? .group is own = some k →
      ((ofFields (fields.withTreeStatement is own) file).checked.faults).filter
          (Tree.root.through is <+: ·.position) = faultsOf k (Tree.root.through is) own) ∨
    ∀ own, ((ofFields (fields.withTreeStatement is own) file).checked.faults).filter
      (Tree.root.through is <+: ·.position) = [] := by
  obtain ⟨root, hroot⟩ : ∃ root, (Value.map fields).at? Tree.root = some (.map root) := by
    cases is with
    | nil => exact ⟨record, h⟩
    | cons i is => exact Value.exists_map_of_through h
  have hbelow : Position.field [] "tree" <+: Tree.root.through is := prefix_through Tree.root is
  have hfilter (own : Fields) :
      ((ofFields (fields.withTreeStatement is own) file).checked.faults).filter
          (Tree.root.through is <+: ·.position) =
        (faultsOf .group Tree.root (Fields.withStatement root is own)).filter
          (Tree.root.through is <+: ·.position) := by
    -- the version and the abbreviation have faults of their own, which stand elsewhere
    have hversion := filter_faults_of_field (checkVersion_finds (fields.withTreeStatement is own) file)
      (by decide) hbelow
    have habbreviation := filter_faults_of_field
      (checkAbbreviation_finds (fields.withTreeStatement is own) file) (by decide) hbelow
    have htree : (fields.withTreeStatement is own).get "tree" =
        .map (Fields.withStatement root is own) := by
      have hget : fields.get? "tree" = some (.map root) := (Value.at?_singleton _ _).symm.trans hroot
      rw [Fields.get, Fields.withTreeStatement, Fields.get?_modify, if_pos rfl, hget]
      rfl
    have hcheck : (ofFields (fields.withTreeStatement is own) file).checkTree =
        Decode.tree Tree.root (Fields.withStatement root is own) := by
      unfold checkTree
      rw [show (ofFields (fields.withTreeStatement is own) file).tree = _ from htree]
    rw [checked, faults_map, faults_both, faults_both, List.filter_append, List.filter_append, hversion,
      habbreviation, hcheck, Decode.tree, faults_map]
    rfl
  simp only [hfilter]
  exact filter_withStatement .group ⟨Tree.plain_root, hroot⟩ h

end Document

end Shorthand
