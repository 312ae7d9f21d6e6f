import Shorthand.Document
import Shorthand.Proofs.Document.Checked
import Shorthand.Proofs.Statement.Preorder

/-!
# Where the statements of a document stand

A tree is read from the tree of a document, statement by statement.  Here are the statements of the
data alone, as they follow each other in the document, and what each of them is read as.

* `Value.statements`, `Fields.belowRoot`: the statements of the data with their positions;
* `Value.mem_statements_iff`: they are what stands at places in lists of statements;
* `Decode.statement_eq_ok`, `Decode.tokens_eq_ok` and their like: what a value was that has been read;
* `Decode.statement_forall₂`: the walk over a statement goes through the statements of its data, each
  read from the one that stands where it is met.
-/

namespace Shorthand

/-! ### The statements of the data -/

mutual

/-- A statement of the data at a position, and those below it. -/
def Value.statements (p : Position) : Value → List (Position × Value)
  | .map fields => (p, .map fields) :: Fields.statements (p.field "elements") fields
  | v => [(p, v)]

/-- The statements in the field that is named for them. -/
def Fields.statements (p : Position) : Fields → List (Position × Value)
  | [] => []
  | (key, value) :: rest =>
    if key = .string "elements" then Value.listedStatements p value else Fields.statements p rest

def Value.listedStatements (p : Position) : Value → List (Position × Value)
  | .list items => Value.statementsFrom p 0 items
  | _ => []

/-- The statements of a list at a position, counted from `i`, and those below them. -/
def Value.statementsFrom (p : Position) (i : Nat) : List Value → List (Position × Value)
  | [] => []
  | v :: rest => Value.statements (p.item i) v ++ Value.statementsFrom p (i + 1) rest

end

def Fields.belowRoot (fields : Fields) : List (Position × Value) :=
  ((fields.get "tree").statements Tree.root).tail

section Statements

variable {document : Value}

/-! ### Where they stand -/

theorem Value.exists_map_of_at? {p : Position} {name : String} {w : Value}
    (h : document.at? (p.field name) = some w) : ∃ fields, document.at? p = some (.map fields) := by
  rw [Position.field, at?_append] at h
  obtain ⟨v, hv, hw⟩ := Option.bind_eq_some_iff.mp h
  rw [at?_singleton] at hw
  cases v with
  | map fields => exact ⟨fields, hv⟩
  | _ => cases hw

theorem Value.exists_list_of_at? {p : Position} {i : Nat} {w : Value}
    (h : document.at? (p.item i) = some w) : ∃ items, document.at? p = some (.list items) := by
  rw [Position.item, at?_append] at h
  obtain ⟨v, hv, hw⟩ := Option.bind_eq_some_iff.mp h
  rw [at?_singleton] at hw
  cases v with
  | list items => exact ⟨items, hv⟩
  | _ => cases hw

/-- Places lead from an item on if they lead to something: there is a list. -/
theorem Value.exists_list_of_through {p : Position} {i : Nat} {is : List Nat} {w : Value}
    (h : document.at? ((p.item i).through is) = some w) : ∃ items, document.at? p = some (.list items) := by
  induction is generalizing p i with
  | nil => exact exists_list_of_at? h
  | cons j is ih =>
    obtain ⟨items, hl⟩ := ih h
    obtain ⟨fields, hm⟩ := exists_map_of_at? hl
    exact exists_list_of_at? hm

theorem Value.exists_map_of_through {p : Position} {i : Nat} {is : List Nat} {w : Value}
    (h : document.at? (p.through (i :: is)) = some w) : ∃ fields, document.at? p = some (.map fields) := by
  obtain ⟨items, hl⟩ := exists_list_of_through h
  exact exists_map_of_at? hl

mutual

/-- **The statements of the data** at a position are what stands where places in lists of statements
lead from it. -/
theorem Value.mem_statements_iff : ∀ (v : Value) {p q : Position} {w : Value}, document.at? p = some v →
    ((q, w) ∈ v.statements p ↔ ∃ is, q = p.through is ∧ document.at? q = some w)
  | .map fields, p, q, w, h => by
    rw [Value.statements, List.mem_cons, Fields.mem_statements_iff fields (Value.at?_field h "elements")]
    constructor
    · rintro (hqw | ⟨i, is, hq, hw⟩)
      · cases hqw
        exact ⟨[], rfl, h⟩
      · exact ⟨i :: is, hq, hw⟩
    · rintro ⟨is, hq, hw⟩
      cases is with
      | nil =>
        have hqp : q = p := hq
        rw [hqp, h] at hw
        cases hw
        exact .inl (by rw [hqp])
      | cons i is => exact .inr ⟨i, is, hq, hw⟩
  | .null, p, q, w, h | .bool _, p, q, w, h | .int _, p, q, w, h | .float _, p, q, w, h
  | .string _, p, q, w, h | .moment _, p, q, w, h | .bytes _, p, q, w, h | .list _, p, q, w, h
  | .set _, p, q, w, h | .pair _ _, p, q, w, h | .endless, p, q, w, h => by
    rw [Value.statements, List.mem_singleton]
    · constructor
      · intro hqw
        cases hqw
        exact ⟨[], rfl, h⟩
      · rintro ⟨is, hq, hw⟩
        cases is with
        | nil =>
          have hqp : q = p := hq
          rw [hqp, h] at hw
          cases hw
          rw [hqp]
        | cons i is =>
          -- places lead nowhere from what is no map
          rw [hq] at hw
          obtain ⟨fields, hm⟩ := Value.exists_map_of_through hw
          rw [h] at hm
          cases hm
    · exact nofun

theorem Fields.mem_statements_iff : ∀ (fields : Fields) {p q : Position} {w : Value},
    document.at? p = fields.get? "elements" →
    ((q, w) ∈ fields.statements p ↔ ∃ i is, q = (p.item i).through is ∧ document.at? q = some w)
  | [], p, q, w, h => by
    constructor
    · intro hm
      cases hm
    · rintro ⟨i, is, rfl, hw⟩
      obtain ⟨items, hl⟩ := Value.exists_list_of_through hw
      rw [h] at hl
      cases hl
  | (key, value) :: rest, p, q, w, h => by
    rw [Fields.get?_cons] at h
    rw [Fields.statements]
    by_cases hk : key = .string "elements"
    · rw [if_pos hk] at h ⊢
      exact Value.mem_listedStatements_iff value h
    · rw [if_neg hk] at h ⊢
      exact Fields.mem_statements_iff rest h

theorem Value.mem_listedStatements_iff : ∀ (v : Value) {p q : Position} {w : Value},
    document.at? p = some v →
    ((q, w) ∈ v.listedStatements p ↔ ∃ i is, q = (p.item i).through is ∧ document.at? q = some w)
  | .list items, p, q, w, h => by
    have hi (i : Nat) : document.at? (p.item (0 + i)) = items[i]? := by
      rw [Nat.zero_add]
      exact Value.at?_item h i
    have hall := Value.mem_statementsFrom_iff (q := q) (w := w) items hi
    simp only [Nat.zero_add] at hall
    exact hall
  | .null, p, q, w, h | .bool _, p, q, w, h | .int _, p, q, w, h | .float _, p, q, w, h
  | .string _, p, q, w, h | .moment _, p, q, w, h | .bytes _, p, q, w, h | .map _, p, q, w, h
  | .set _, p, q, w, h | .pair _ _, p, q, w, h | .endless, p, q, w, h => by
    constructor
    · intro hm
      cases hm
    · rintro ⟨i, is, rfl, hw⟩
      obtain ⟨items, hl⟩ := Value.exists_list_of_through hw
      rw [h] at hl
      cases hl

theorem Value.mem_statementsFrom_iff : ∀ (vs : List Value) {p q : Position} {k : Nat} {w : Value},
    (∀ i, document.at? (p.item (k + i)) = vs[i]?) →
    ((q, w) ∈ Value.statementsFrom p k vs ↔
      ∃ i is, q = (p.item (k + i)).through is ∧ document.at? q = some w)
  | [], p, q, k, w, h => by
    constructor
    · intro hm
      cases hm
    · rintro ⟨i, is, rfl, hw⟩
      have hnone : document.at? (p.item (k + i)) = none := h i
      cases is with
      | nil =>
        rw [Position.through, List.foldl_nil, hnone] at hw
        cases hw
      | cons j is =>
        obtain ⟨fields, hm⟩ := Value.exists_map_of_through hw
        rw [hnone] at hm
        cases hm
  | v :: rest, p, q, k, w, h => by
    have hrest (i : Nat) : document.at? (p.item (k + 1 + i)) = rest[i]? := by
      rw [Nat.add_assoc, Nat.add_comm 1 i]
      exact h (i + 1)
    have hv : document.at? (p.item k) = some v := h 0
    rw [Value.statementsFrom, List.mem_append, Value.mem_statements_iff v hv,
      Value.mem_statementsFrom_iff rest hrest]
    constructor
    · rintro (⟨is, hq, hw⟩ | ⟨i, is, hq, hw⟩)
      · exact ⟨0, is, hq, hw⟩
      · exact ⟨i + 1, is, by rw [hq, Nat.add_assoc, Nat.add_comm 1 i], hw⟩
    · rintro ⟨i, is, hq, hw⟩
      cases i with
      | zero => exact .inl ⟨is, hq, hw⟩
      | succ i => exact .inr ⟨i, is, by rw [hq, Nat.add_assoc, Nat.add_comm 1 i], hw⟩

end

end Statements

/-! ### What was read -/

namespace Decode

variable {p : Position} {v : Value} {fields : Fields}

/-- The tokens of a list are read from its items; text is a single literal. -/
theorem tokens_eq_ok {ts : List Token} (h : tokens p v = .ok (some ts)) :
    (∃ s, v = .string s ∧ ts = [.literal s]) ∨
      ∃ items, v = .list items ∧ Checked.items token p items = .ok ts := by
  unfold tokens at h
  split at h
  · cases h
  · next s =>
    cases h
    exact .inl ⟨s, rfl, rfl⟩
  · next items =>
    obtain ⟨us, hi, hu⟩ := Checked.map_eq_ok.mp h
    cases hu
    exact .inr ⟨items, rfl, hi⟩
  · cases h

theorem count_eq_ok {i : Int} (h : count p fields = .ok (some i)) : fields.get? "count" = some (.int i) := by
  unfold count at h
  split at h
  · cases h
  · next j hj =>
    split at h
    · cases h
    · cases h
      exact Fields.get?_of_get hj (by simp)
  · cases h

theorem repeater_eq_ok {r : Repeater} (h : repeater p v = .ok (some r)) :
    ∃ fields : Fields, v = .map fields ∧ count p fields = .ok r.count ∧
      boolField fields "implicit" = some r.implicit := by
  unfold repeater at h
  split at h
  · cases h
  · next fields =>
    obtain ⟨c, hc, h⟩ := Checked.bind_eq_ok.mp h
    obtain ⟨x, -, h⟩ := Checked.bind_eq_ok.mp h
    obtain ⟨b, hb, h⟩ := Checked.bind_eq_ok.mp h
    cases h
    exact ⟨fields, rfl, hc, Checked.demand_eq_ok.mp hb⟩
  · cases h

/-- There is no repeater only where there is nothing to read it from. -/
theorem repeater_eq_ok_none (h : repeater p v = .ok none) : v = .null := by
  unfold repeater at h
  split at h
  · rfl
  · obtain ⟨c, -, h⟩ := Checked.bind_eq_ok.mp h
    obtain ⟨x, -, h⟩ := Checked.bind_eq_ok.mp h
    obtain ⟨b, -, h⟩ := Checked.bind_eq_ok.mp h
    cases h
  · cases h

theorem attributeRecord_eq_ok {a : Attribute} (h : attributeRecord p v = .ok a) :
    ∃ fields : Fields, v = .map fields ∧ tokens (p.field "name") (fields.get "name") = .ok a.name ∧
      tokens (p.field "value") (fields.get "value") = .ok a.value := by
  unfold attributeRecord at h
  split at h
  · next fields =>
    obtain ⟨x, hx, rfl⟩ := Checked.map_eq_ok.mp h
    obtain ⟨hn, hv⟩ := Checked.both_eq_ok.mp hx
    exact ⟨fields, rfl, hn, hv⟩
  · cases h

theorem attributeList_eq_ok {as : List Attribute} (h : attributeList p v = .ok (some as)) :
    ∃ items, v = .list items ∧ Checked.items attributeRecord p items = .ok as := by
  unfold attributeList at h
  split at h
  · cases h
  · next items =>
    obtain ⟨bs, hi, hb⟩ := Checked.map_eq_ok.mp h
    cases hb
    exact ⟨items, rfl, hi⟩
  · cases h

theorem attributeList_eq_ok_none (h : attributeList p v = .ok none) : v = .null := by
  unfold attributeList at h
  split at h
  · rfl
  · obtain ⟨bs, -, hb⟩ := Checked.map_eq_ok.mp h
    cases hb
  · cases h

/-- What a statement says of itself is read from the fields of its record. -/
def ReadsHead (p : Position) (fields : Fields) : Statement → Prop
  | .element head _ _ =>
    kind? fields = some .element ∧
      tokens (p.field "name") (fields.get "name") = .ok head.name ∧
      tokens (p.field "value") (fields.get "value") = .ok head.value ∧
      attributeList (p.field "attributes") (fields.get "attributes") = .ok head.attributes
  | .group _ _ => kind? fields = some .group

/-- A statement is read from the fields of a record: its head, its repeater and its children. -/
structure Reads (p : Position) (fields : Fields) (s : Statement) : Prop where
  head : ReadsHead p fields s
  repeater : Decode.repeater (p.field "repeat") (fields.get "repeat") = .ok s.repeater
  children : elementChildren (p.field "elements") (childrenField (p.field "elements") fields) =
    .ok s.children

theorem groupOf_eq_ok {c : ListField (Checked (List Statement))} {x : List Statement × Option Repeater}
    (h : groupOf p fields c = .ok x) :
    Decode.repeater (p.field "repeat") (fields.get "repeat") = .ok x.2 ∧ c = .list (.ok x.1) := by
  unfold groupOf at h
  split at h
  · next children =>
    obtain ⟨y, hy, rfl⟩ := Checked.map_eq_ok.mp h
    obtain ⟨hr, hc⟩ := Checked.both_eq_ok.mp hy
    exact ⟨hr, congrArg _ hc⟩
  · cases h
  · cases h

theorem elementOf_eq_ok {children : Checked (List Statement)} {s : Statement}
    (h : elementOf p fields children = .ok s) (hk : kind? fields = some .element) :
    ReadsHead p fields s ∧ Decode.repeater (p.field "repeat") (fields.get "repeat") = .ok s.repeater ∧
      children = .ok s.children := by
  unfold elementOf at h
  obtain ⟨⟨name, value, attributes, cs, self, r⟩, hx, rfl⟩ := Checked.map_eq_ok.mp h
  obtain ⟨hn, hx⟩ := Checked.both_eq_ok.mp hx
  obtain ⟨hv, hx⟩ := Checked.both_eq_ok.mp hx
  obtain ⟨ha, hx⟩ := Checked.both_eq_ok.mp hx
  obtain ⟨hc, hx⟩ := Checked.both_eq_ok.mp hx
  obtain ⟨-, hr⟩ := Checked.both_eq_ok.mp hx
  exact ⟨⟨hk, hn, hv, ha⟩, hr, hc⟩

theorem statement_eq_ok {s : Statement} (h : statement p v = .ok s) :
    ∃ fields : Fields, v = .map fields ∧ Reads p fields s := by
  cases v with
  | map fields =>
    rw [statement] at h
    dsimp only at h
    split at h
    · cases h
    · next hk =>
      obtain ⟨hh, hr, hc⟩ := elementOf_eq_ok h hk
      exact ⟨fields, rfl, hh, hr, hc⟩
    · next hk =>
      obtain ⟨x, hx, rfl⟩ := Checked.map_eq_ok.mp h
      obtain ⟨hr, hc⟩ := groupOf_eq_ok hx
      exact ⟨fields, rfl, hk, hr, by rw [hc]; rfl⟩
  | _ => cases h

/-! ### What the walk goes through -/

/-- A statement is met where the data stands from which it is read. -/
def ReadFrom (x : Position × Statement) (y : Position × Value) : Prop :=
  x.1 = y.1 ∧ statement y.1 y.2 = .ok x.2

mutual

/-- **The walk over a statement** goes through the statements of its data. -/
theorem statement_forall₂ : ∀ (v : Value) {p : Position} {s : Statement}, statement p v = .ok s →
    List.Forall₂ ReadFrom (s.walk p) (v.statements p)
  | .map fields, p, s, h => by
    obtain ⟨_, hm, hr⟩ := statement_eq_ok h
    cases hm
    rw [s.walk_eq, Value.statements]
    exact .cons ⟨rfl, h⟩ (childrenField_forall₂ fields hr.children)
  | .null, p, s, h | .bool _, p, s, h | .int _, p, s, h | .float _, p, s, h | .string _, p, s, h
  | .moment _, p, s, h | .bytes _, p, s, h | .list _, p, s, h | .set _, p, s, h | .pair _ _, p, s, h => by
    cases h

theorem childrenField_forall₂ : ∀ (fields : Fields) {p q : Position} {cs : List Statement},
    elementChildren q (childrenField p fields) = .ok cs →
    List.Forall₂ ReadFrom (Statement.walkAll p 0 cs) (fields.statements p)
  | [], p, q, cs, h => by
    cases h
    exact .nil
  | (key, value) :: rest, p, q, cs, h => by
    rw [childrenField] at h
    rw [Fields.statements]
    by_cases hk : key = .string "elements"
    · rw [if_pos hk] at h ⊢
      exact children_forall₂ value h
    · rw [if_neg hk] at h ⊢
      exact childrenField_forall₂ rest h

theorem children_forall₂ : ∀ (v : Value) {p q : Position} {cs : List Statement},
    elementChildren q (children p v) = .ok cs →
    List.Forall₂ ReadFrom (Statement.walkAll p 0 cs) (v.listedStatements p)
  | .list items, p, q, cs, h => statements_forall₂ items h
  | .null, p, q, cs, h => by
    cases h
    exact .nil
  | .bool _, p, q, cs, h | .int _, p, q, cs, h | .float _, p, q, cs, h | .string _, p, q, cs, h
  | .moment _, p, q, cs, h | .bytes _, p, q, cs, h | .map _, p, q, cs, h | .set _, p, q, cs, h
  | .pair _ _, p, q, cs, h | .endless, p, q, cs, h => by
    cases h

theorem statements_forall₂ : ∀ (vs : List Value) {p : Position} {i : Nat} {ss : List Statement},
    statements p i vs = .ok ss →
    List.Forall₂ ReadFrom (Statement.walkAll p i ss) (Value.statementsFrom p i vs)
  | [], p, i, ss, h => by
    cases h
    exact .nil
  | v :: rest, p, i, ss, h => by
    rw [statements] at h
    obtain ⟨s, ss, hs, hss, rfl⟩ := Checked.cons_eq_ok.mp h
    rw [Statement.walkAll, Value.statementsFrom]
    exact List.rel_append (statement_forall₂ v hs) (statements_forall₂ rest hss)

end

end Decode

/-! ### Documents -/

/-- If the items of two lists belong together in pairs, then each one has its partner. -/
theorem exists_of_forall₂ {α β : Type} {R : α → β → Prop} {xs : List α} {ys : List β}
    (h : List.Forall₂ R xs ys) {x : α} (hx : x ∈ xs) : ∃ y ∈ ys, R x y := by
  induction h with
  | nil => cases hx
  | cons hxy _ ih =>
    rcases List.mem_cons.mp hx with rfl | hx
    · exact ⟨_, List.mem_cons_self, hxy⟩
    · obtain ⟨y, hy, hr⟩ := ih hx
      exact ⟨y, List.mem_cons_of_mem _ hy, hr⟩

namespace Document

variable {fields : Fields} {file : Option String} {t : Tree}

theorem checkTree_of_validate {d : Document} (h : d.validate = .ok t) : d.checkTree = .ok t := by
  unfold validate at h
  split at h
  · next tree abbreviation hc =>
    cases h
    obtain ⟨⟨x, abbreviation', tree'⟩, hx, he⟩ := Checked.map_eq_ok.mp hc
    cases he
    obtain ⟨-, hx⟩ := Checked.both_eq_ok.mp hx
    exact (Checked.both_eq_ok.mp hx).2
  · cases h

/-- The root of a document that has a tree is a map, and the tree is read from its statements. -/
theorem root_of_validate (h : (ofFields fields file).validate = .ok t) :
    ∃ root : Fields, (Value.map fields).at? Tree.root = some (.map root) ∧
      fields.belowRoot = root.statements (Tree.root.field "elements") ∧
      List.Forall₂ Decode.ReadFrom t.walk fields.belowRoot := by
  have ht : (ofFields fields file).checkTree = .ok t := checkTree_of_validate h
  unfold checkTree at ht
  split at ht
  · next root hr =>
    have hr : fields.get "tree" = .map root := hr
    have hb : fields.belowRoot = Fields.statements (Tree.root.field "elements") root := by
      rw [Fields.belowRoot, hr, Value.statements, List.tail_cons]
    refine ⟨root, ?_, hb, ?_⟩
    · exact (Value.at?_singleton _ _).trans (Fields.get?_of_get hr (by simp))
    · obtain ⟨x, hx, rfl⟩ := Checked.map_eq_ok.mp ht
      obtain ⟨-, hc⟩ := Decode.groupOf_eq_ok hx
      rw [hb]
      exact Decode.childrenField_forall₂ (q := []) root (by rw [hc]; rfl)
  · cases ht
  · cases ht

/-- The statements below the root are what stands at places below it. -/
theorem mem_belowRoot_iff (h : (ofFields fields file).validate = .ok t) {p : Position} {v : Value} :
    (p, v) ∈ fields.belowRoot ↔
      ∃ is, is ≠ [] ∧ p = Tree.root.through is ∧ (Value.map fields).at? p = some v := by
  obtain ⟨root, hroot, hb, -⟩ := root_of_validate h
  rw [hb, Fields.mem_statements_iff root (Value.at?_field hroot "elements")]
  constructor
  · rintro ⟨i, is, hp, hv⟩
    exact ⟨i :: is, List.cons_ne_nil i is, hp, hv⟩
  · rintro ⟨is, hne, hp, hv⟩
    cases is with
    | nil => exact absurd rfl hne
    | cons i is => exact ⟨i, is, hp, hv⟩

/-- **A statement of the tree** is read from the record that stands where the walk meets it. -/
theorem read_of_mem_walk (h : (ofFields fields file).validate = .ok t) {p : Position} {s : Statement}
    (hs : (p, s) ∈ t.walk) : ∃ record : Fields, (Value.map fields).at? p = some (.map record) ∧
      Decode.statement p (.map record) = .ok s := by
  obtain ⟨root, -, -, hwalk⟩ := root_of_validate h
  obtain ⟨⟨q, v⟩, hv, hpq, hread⟩ := exists_of_forall₂ hwalk hs
  obtain rfl : p = q := hpq
  obtain ⟨is, -, -, hat⟩ := (mem_belowRoot_iff h).mp hv
  obtain ⟨record, rfl, -⟩ := Decode.statement_eq_ok hread
  exact ⟨record, hat, hread⟩

end Document

end Shorthand
