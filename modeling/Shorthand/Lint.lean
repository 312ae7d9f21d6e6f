import Shorthand.Diagnostic
import Shorthand.Statement.Walk

/-!
# Lint

Trees that are well formed, but whose expansion is probably not what was meant: repeats of zero,
values that are not closed, variables that nobody knows, and implicit repeaters that come too late
to receive text.
-/

namespace Shorthand

namespace Lint

/-- What is doubtful about a tree. -/
inductive Rule where
  | emptyRepeat
  | unmatchedQuote
  | unmatchedExpression
  | unknownVariable (name : String)
  | laterImplicit (first : Position)
  deriving DecidableEq, Repr

namespace Rule

def code : Rule → String
  | .emptyRepeat => "L_EMPTY_REPEAT"
  | .unmatchedQuote => "L_UNMATCHED_QUOTE"
  | .unmatchedExpression => "L_UNMATCHED_EXPRESSION"
  | .unknownVariable _ => "L_UNKNOWN_VARIABLE"
  | .laterImplicit _ => "L_MULTIPLE_IMPLICIT_REPEAT"

def message : Rule → String
  | .emptyRepeat => "repeat count 0 produces a single copy"
  | .unmatchedQuote => "quoted value has no closing quote"
  | .unmatchedExpression => "expression value has no closing bracket"
  | .unknownVariable name => "unknown variable: " ++ name ++ " (rendered as its name)"
  | .laterImplicit first => "only one implicit repeater receives text; also found at " ++ first.text

end Rule

/-- A rule and the position where it applies. -/
structure Finding where
  rule : Rule
  position : Position
  deriving DecidableEq, Repr

def Finding.diagnostic (file : Option String) (f : Finding) : Diagnostic :=
  { stage := .lint
    code := f.rule.code
    message := f.rule.message
    file
    position := some f.position.text }

/-! ### Repeats -/

def isImplicit (s : Statement) : Bool := s.repeater.any (·.implicit)

/-- A stated count of zero. -/
def repeatFindings (p : Position) (s : Statement) : List Finding :=
  match s.repeater with
  | some r =>
    if !r.implicit && r.count = some 0 then [⟨.emptyRepeat, (p.field "repeat").field "count"⟩] else []
  | none => []

/-! ### Values of attributes -/

/-- The value starts with a quote, and no other quote ends it. -/
def lacksQuote (tokens : List Token) : Bool :=
  tokens.head?.any Token.isQuote && !(tokens.tail.getLast?.any Token.isQuote)

/-- The value starts with an expression bracket, and no other token closes it. -/
def lacksBracket (tokens : List Token) : Bool :=
  tokens.head?.any (·.isBracket (some .expression) (some true)) &&
    !(tokens.tail.getLast?.any (·.isBracket (some .expression) (some false)))

def valueFindings (p : Position) (a : Attribute) : List Finding :=
  let tokens := a.value.getD []
  if lacksQuote tokens then [⟨.unmatchedQuote, p⟩]
  else if lacksBracket tokens then [⟨.unmatchedExpression, p⟩]
  else []

/-- The position of an attribute of the statement at `p`. -/
def attributeAt (p : Position) (i : Nat) : Position := (p.field "attributes").item i

def delimiterFindings (p : Position) (s : Statement) : List Finding :=
  (s.attributes.mapIdx fun i a => valueFindings ((attributeAt p i).field "value") a).flatten

/-! ### Variables -/

def references (p : Position) (tokens : Option (List Token)) : List (Position × String) :=
  ((tokens.getD []).mapIdx fun i t => t.referent?.map fun name => (p.item i, name)).filterMap id

def attributeReferences (p : Position) (a : Attribute) : List (Position × String) :=
  references (p.field "name") a.name ++ references (p.field "value") a.value

def statementReferences (p : Position) : Statement → List (Position × String)
  | .element head _ _ =>
    references (p.field "name") head.name ++ references (p.field "value") head.value ++
      ((head.attributes.getD []).mapIdx fun i a => attributeReferences (attributeAt p i) a).flatten
  | .group _ _ => []

def variableFindings (known : List String) (p : Position) (s : Statement) : List Finding :=
  ((statementReferences p s).filter fun (_, name) => !known.contains name).map fun (q, name) =>
    ⟨.unknownVariable name, q⟩

/-! ### Trees -/

def statementFindings (known : Option (List String)) (p : Position) (s : Statement) : List Finding :=
  repeatFindings p s ++ delimiterFindings p s ++
    match known with
    | some names => variableFindings names p s
    | none => []

/-- The implicit repeaters after the first one, in the order of the walk. -/
def implicitFindings (walk : List (Position × Statement)) : List Finding :=
  match (walk.filter fun (_, s) => isImplicit s).map (·.1) with
  | [] => []
  | first :: later => later.map fun p => ⟨.laterImplicit first, p.field "repeat"⟩

/-- All that is doubtful about a tree.  Variables are looked into only where their names are given. -/
def findings (known : Option (List String)) (t : Tree) : List Finding :=
  (t.walk.flatMap fun (p, s) => statementFindings known p s) ++ implicitFindings t.walk

end Lint

def Tree.lint (file : Option String) (known : Option (List String)) (t : Tree) : List Diagnostic :=
  Diagnostic.sort ((Lint.findings known t).map (Lint.Finding.diagnostic file))

end Shorthand
