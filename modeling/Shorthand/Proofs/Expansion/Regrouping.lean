import Shorthand.Expansion.Unroll
import Shorthand.Proofs.Statement.Preorder

/-!
# Groups without a repeat

A group that is not repeated is nothing but its statements: it may be taken away, and one may be put
around neighbours, wherever they stand.

* `Statement.spliced`, `Statement.wrapped`: a group less and a group more in a list of statements;
* `Statement.editAll`, `Tree.splice`, `Tree.wrap`: the same at any depth of a tree;
* `Statement.expandAll_edit`: what does not change the expansion of a list does not do so at any depth;
* `Tree.run_regrouped`: groups without a repeat make no difference.
-/

namespace Shorthand

/-! ### Lists of statements -/

namespace Statement

/-- The statements of a list with those of the group at the place `k` in its stead, if that is a group
without a repeat. -/
def spliced : Nat → List Statement → List Statement
  | _, [] => []
  | 0, .group cs none :: rest => cs ++ rest
  | 0, s :: rest => s :: rest
  | k + 1, s :: rest => s :: spliced k rest

/-- The statements of a list, of which up to `n` from the place `k` on are put into a group of their own. -/
def wrapped (n : Nat) : Nat → List Statement → List Statement
  | 0, ss => .group (ss.take n) none :: ss.drop n
  | _ + 1, [] => []
  | k + 1, s :: rest => s :: wrapped n k rest

/-- A group without a repeat gives way to its statements. -/
theorem spliced_append (xs cs ys : List Statement) :
    spliced xs.length (xs ++ .group cs none :: ys) = xs ++ cs ++ ys := by
  induction xs with
  | nil => rfl
  | cons x xs ih => rw [List.length_cons, List.cons_append, spliced, ih]; rfl

theorem wrapped_append (xs ss ys : List Statement) :
    wrapped ss.length xs.length (xs ++ ss ++ ys) = xs ++ .group ss none :: ys := by
  induction xs with
  | nil => simp [wrapped]
  | cons x xs ih => rw [List.length_cons, List.cons_append, List.cons_append, wrapped, ih]; rfl

theorem spliced_wrapped (n k : Nat) (ss : List Statement) : spliced k (wrapped n k ss) = ss := by
  induction k generalizing ss with
  | zero => rw [wrapped, spliced, List.take_append_drop]
  | succ k ih =>
    cases ss with
    | nil => rfl
    | cons s rest => rw [wrapped, spliced, ih]

variable (src : Source)

theorem expandAll_append (xs ys : List Statement) :
    Statement.expandAll src (xs ++ ys) = (do
      let nodes ← Statement.expandAll src xs
      let others ← Statement.expandAll src ys
      pure (nodes ++ others)) := by
  induction xs with
  | nil => simp [expandAll]
  | cons x xs ih =>
    rw [List.cons_append, expandAll, expandAll, ih]
    simp only [bind_assoc, pure_bind, List.append_assoc]

theorem expandAll_group (cs rest : List Statement) :
    Statement.expandAll src (.group cs none :: rest) = Statement.expandAll src (cs ++ rest) := by
  rw [expandAll_append, expandAll, expand]

theorem expandAll_spliced (k : Nat) (ss : List Statement) :
    Statement.expandAll src (spliced k ss) = Statement.expandAll src ss := by
  fun_induction spliced k ss with
  | case1 => rfl
  | case2 cs rest => exact (expandAll_group src cs rest).symm
  | case3 => rfl
  | case4 k s rest ih => rw [expandAll, expandAll, ih]

theorem expandAll_wrapped (n k : Nat) (ss : List Statement) :
    Statement.expandAll src (wrapped n k ss) = Statement.expandAll src ss := by
  rw [← expandAll_spliced src k (wrapped n k ss), spliced_wrapped]

end Statement

/-! ### At any depth -/

namespace Statement

def withChildren (cs : List Statement) : Statement → Statement
  | .element head _ r => .element head cs r
  | .group _ r => .group cs r

/-- The list to which places lead, each of them down to the children of a statement. -/
def listAt? : List Nat → List Statement → Option (List Statement)
  | [], ss => some ss
  | i :: is, ss => ss[i]?.bind fun s => listAt? is s.children

/-- The statements with a change to the list to which places lead. -/
def editAll (change : List Statement → List Statement) : List Nat → List Statement → List Statement
  | [], ss => change ss
  | i :: is, ss => ss.modify i fun s => s.withChildren (editAll change is s.children)

theorem children_withChildren (cs : List Statement) (s : Statement) : (s.withChildren cs).children = cs := by
  cases s <;> rfl

theorem listAt?_editAll (change : List Statement → List Statement) (is : List Nat) (ss : List Statement) :
    listAt? is (editAll change is ss) = (listAt? is ss).map change := by
  induction is generalizing ss with
  | nil => rfl
  | cons i is ih =>
    rw [editAll, listAt?, listAt?, List.getElem?_modify_eq]
    cases ss[i]? with
    | none => rfl
    | some s => exact (congrArg (listAt? is) (children_withChildren _ s)).trans (ih s.children)

/-- The last place leads to one of the statements of the list to which the others lead. -/
theorem descendant?_concat (k : Nat) (is : List Nat) (s : Statement) :
    s.descendant? (is ++ [k]) = (listAt? is s.children).bind (·[k]?) := by
  induction is generalizing s with
  | nil => exact Option.bind_fun_some (s.children[k]?)
  | cons i is ih =>
    rw [List.cons_append, descendant?, listAt?, Option.bind_assoc]
    exact congrArg _ (funext ih)

variable (src : Source)

/-- Of a statement no more is expanded than its children. -/
theorem expand_withChildren {cs : List Statement} {s : Statement}
    (h : Statement.expandAll src cs = Statement.expandAll src s.children) :
    (s.withChildren cs).expand src = s.expand src := by
  match s with
  | .element head _ none | .element head _ (some r) | .group _ none | .group _ (some r) =>
    rw [children] at h
    rw [withChildren, expand, expand, h]

theorem expandAll_modify {change : Statement → Statement} (h : ∀ s, (change s).expand src = s.expand src)
    (i : Nat) (ss : List Statement) : Statement.expandAll src (ss.modify i change) = Statement.expandAll src ss := by
  induction ss generalizing i with
  | nil => rw [List.modify_nil]
  | cons s rest ih =>
    cases i with
    | zero => rw [List.modify_zero_cons, expandAll, expandAll, h]
    | succ i => rw [List.modify_succ_cons, expandAll, expandAll, ih]

/-- **A change that makes no difference to a list** makes none at any depth. -/
theorem expandAll_edit {change : List Statement → List Statement}
    (h : ∀ ss, Statement.expandAll src (change ss) = Statement.expandAll src ss) (is : List Nat)
    (ss : List Statement) : Statement.expandAll src (editAll change is ss) = Statement.expandAll src ss := by
  induction is generalizing ss with
  | nil => exact h ss
  | cons i is ih => exact expandAll_modify src (fun s => expand_withChildren src (ih s.children)) i ss

end Statement

namespace Tree

variable (t : Tree) (is : List Nat)

/-- The list of statements to which places lead from the root. -/
def siblings? : Option (List Statement) := Statement.listAt? is t.statements

/-- A tree with a change to the list to which places lead. -/
def edit (change : List Statement → List Statement) : Tree :=
  { t with statements := Statement.editAll change is t.statements }

/-- A tree with the statements of the group at the place `k` in its stead, if that is a group without a
repeat. -/
def splice (k : Nat) : Tree := t.edit is (Statement.spliced k)

/-- A tree with a group around up to `n` statements from the place `k` on. -/
def wrap (k n : Nat) : Tree := t.edit is (Statement.wrapped n k)

theorem statement?_concat (k : Nat) : t.statement? (is ++ [k]) = (t.siblings? is).bind (·[k]?) := by
  unfold siblings?
  cases is with
  | nil => exact Option.bind_fun_some (t.statements[k]?)
  | cons i is =>
    rw [List.cons_append, statement?, Statement.listAt?, Option.bind_assoc]
    exact congrArg _ (funext (Statement.descendant?_concat k is))

/-- Every statement of the walk is one of a list to which places lead. -/
theorem mem_walk_iff_siblings {t : Tree} {p : Position} {s : Statement} :
    (p, s) ∈ t.walk ↔
      ∃ is k, p = root.through (is ++ [k]) ∧ (t.siblings? is).bind (·[k]?) = some s := by
  rw [mem_walk_iff]
  constructor
  · rintro ⟨is, hp, hs⟩
    obtain rfl | ⟨is, k, rfl⟩ := is.eq_nil_or_concat'
    · cases hs
    · exact ⟨is, k, hp, by rw [← statement?_concat, hs]⟩
  · rintro ⟨is, k, hp, hs⟩
    exact ⟨is ++ [k], hp, by rw [statement?_concat, hs]⟩

theorem siblings?_edit (change : List Statement → List Statement) :
    (t.edit is change).siblings? is = (t.siblings? is).map change :=
  Statement.listAt?_editAll change is t.statements

theorem run_edit {src : Source} {change : List Statement → List Statement}
    (h : ∀ ss, Statement.expandAll src (change ss) = Statement.expandAll src ss) :
    (t.edit is change).run src = t.run src := by
  unfold run edit
  rw [Statement.expandAll_edit src h]

/-- **Groups without a repeat are transparent.**  Let places lead to a list of statements, at any depth of
a tree and inside of any repeats.  If a group of that list which is not repeated gives way to its
statements, then the expansion has the same nodes, the same log and the same state at its end, for all
texts and variables; and so it has if neighbours in that list are put into such a group.  Places lead to
the list of every statement of the tree. -/
theorem run_regrouped (is : List Nat) (k n : Nat) :
    (∀ src, (t.splice is k).run src = t.run src ∧ (t.wrap is k n).run src = t.run src) ∧
    (t.splice is k).siblings? is = (t.siblings? is).map (Statement.spliced k) ∧
    (t.wrap is k n).siblings? is = (t.siblings? is).map (Statement.wrapped n k) ∧
    (∀ xs cs ys, Statement.spliced xs.length (xs ++ .group cs none :: ys) = xs ++ cs ++ ys) ∧
    (∀ xs ss ys, Statement.wrapped ss.length xs.length (xs ++ ss ++ ys) = xs ++ .group ss none :: ys) ∧
    ∀ p s, (p, s) ∈ t.walk ↔
      ∃ is k, p = root.through (is ++ [k]) ∧ (t.siblings? is).bind (·[k]?) = some s := by
  refine ⟨fun src => ⟨?_, ?_⟩, t.siblings?_edit is _, t.siblings?_edit is _, Statement.spliced_append,
    Statement.wrapped_append, fun p s => mem_walk_iff_siblings⟩
  · exact t.run_edit is (Statement.expandAll_spliced src k)
  · exact t.run_edit is (Statement.expandAll_wrapped src n k)

/-- The text of an implicit copy goes into the last node of a group that ends it. -/
example :
    let named (name : String) : Element := { name := some [.literal name] }
    let last : Statement := .group [.element (named "a") [] none, .element (named "b") [] none] none
    let t : Tree := { statements := [.element (named "li") [last] (some { implicit := true })] }
    let flat : Tree := { statements :=
      [.element (named "li") [.element (named "a") [] none, .element (named "b") [] none]
        (some { implicit := true })] }
    t.splice [0] 0 = flat ∧ flat.wrap [0] 0 2 = t ∧
      t.expand { text := .items [some "x"] } =
        [{ name := some "li", children := [{ name := some "a" }, { name := some "b", value := some [.text "x"] }],
           repeater := some { implicit := true } }] :=
  ⟨rfl, rfl, rfl⟩

end Tree

end Shorthand
