import Shorthand.Yaml.Cursor

/-!
# Faults at a depth

What the parts of a document come to.  Of several faults the one with the fewest lists and maps
around it counts, and of those the first.
-/

namespace Shorthand.Yaml

/-- What a part of a document comes to, or its fault with the number of lists and maps around it. -/
abbrev Built (α : Type) := Except (Nat × Refusal) α

namespace Built

def ofExcept (x : Except Refusal α) : Built α := x.mapError fun fault => (0, fault)

def malformed : Built α := .error (0, .malformed)

def inside (x : Built α) : Built α := x.mapError fun (depth, fault) => (depth + 1, fault)

def both (x : Built α) (y : Built β) : Built (α × β) :=
  match x, y with
  | .ok a, .ok b => .ok (a, b)
  | .error e, .ok _ => .error e
  | .ok _, .error e => .error e
  | .error e, .error f => .error (if f.1 < e.1 then f else e)

def cons (x : Built α) (xs : Built (List α)) : Built (List α) := (x.both xs).map fun (a, as) => a :: as

def all : List (Built α) → Built (List α)
  | [] => .ok []
  | x :: rest => x.cons (all rest)

def append (xs ys : Built (List α)) : Built (List α) := (xs.both ys).map fun (as, bs) => as ++ bs

end Built

end Shorthand.Yaml
