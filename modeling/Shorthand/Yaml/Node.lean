import Shorthand.Yaml.Implicit
import Shorthand.Yaml.Layout

/-!
# Nodes of YAML

The nodes of a document, each with its tag.  A node that has a name stands in a table, and its name
stands in its place as well as wherever an alias repeats it, even inside the node itself.
-/

namespace Shorthand.Yaml

/-- A node of a document, or the name of one. -/
inductive Node where
  | scalar (tag : Tag) (text : String)
  | sequence (tag : Tag) (items : List Node)
  | mapping (tag : Tag) (entries : List (Node × Node))
  | named (name : String)
  deriving Repr, Inhabited

/-- A document: its node, and the nodes that have names, in the order in which they end. -/
structure Content where
  root : Node
  named : List (String × Node) := []
  deriving Repr

/-- Names that stand for nodes, the last one first; a name has no node as long as its node is not
complete. -/
abbrev Anchors := List (String × Option Node)

/-- Handles of tags and what they stand for. -/
abbrev Handles := List (String × String)

def defaultHandles : Handles := [("!", "!"), ("!!", Tag.family)]

namespace Node

/-- An empty scalar. -/
def nothing : Node := .scalar .null ""

/-- What stands in front of a node. -/
structure Properties where
  anchor : Option String := none
  tag : Option String := none

/-- The fault of tokens that cannot stand where they do. -/
def unexpected : List Token → Except Refusal α
  | .broken cause :: _ => .error (.noValue cause)
  | _ => .error .malformed

def tagName? (handles : Handles) (handle : Option String) (suffix : String) : Option String :=
  match handle with
  | none => some suffix
  | some h => (handles.lookup h).map (· ++ suffix)

def properties (handles : Handles) : List Token → Except Refusal (Properties × List Token)
  | .anchor name :: .tag handle suffix :: rest | .tag handle suffix :: .anchor name :: rest =>
    match tagName? handles handle suffix with
    | some tag => .ok ({ anchor := some name, tag := some tag }, rest)
    | none => .error .malformed
  | .anchor name :: rest => .ok ({ anchor := some name }, rest)
  | .tag handle suffix :: rest =>
    match tagName? handles handle suffix with
    | some tag => .ok ({ tag := some tag }, rest)
    | none => unexpected rest
  | tokens => .ok ({}, tokens)

/-- The tag of a scalar: an untagged one is text unless it is plain. -/
def scalarTag (tag : Option String) (plain : Bool) (text : String) : Tag :=
  match tag with
  | none => if plain then Implicit.tag text else .text
  | some "!" => Implicit.tag text
  | some name => .ofName name

def collectionTag (tag : Option String) (usual : Tag) : Tag :=
  match tag with
  | none | some "!" => usual
  | some name => .ofName name

/-- A name is given to the node that starts with some tokens.  No name is given twice. -/
def announce (anchors : Anchors) (name : Option String) (tokens : List Token) : Except Refusal Anchors :=
  match name with
  | none => .ok anchors
  | some n => if anchors.any fun (m, _) => m == n then unexpected tokens else .ok ((n, none) :: anchors)

/-- A node is complete.  If it has a name, the name stands for it from now on. -/
def define (anchors : Anchors) (name : Option String) (node : Node) : Node × Anchors :=
  match name with
  | none => (node, anchors)
  | some n => (.named n, (n, some node) :: anchors.filter fun (m, _) => m ≠ n)

/-- An alias repeats a node that has started before it. -/
def reuse (anchors : Anchors) (name : String) : Except Refusal Node :=
  if anchors.any fun (m, _) => m == name then .ok (.named name) else .error .malformed

def content (root : Node) (anchors : Anchors) : Content :=
  { root, named := anchors.reverse.filterMap fun (name, node?) => node?.map fun node => (name, node) }

/-! ### Where a node may be left out -/

def endsItem : Token → Bool
  | .blockEntry | .blockEnd => true
  | _ => false

def endsBareItem : Token → Bool
  | .blockEntry | .key | .value | .blockEnd => true
  | _ => false

def endsEntry : Token → Bool
  | .key | .value | .blockEnd => true
  | _ => false

def endsFlowKey : Token → Bool
  | .value | .flowEntry | .flowMappingEnd | .flowSequenceEnd => true
  | _ => false

def endsFlowValue : Token → Bool
  | .flowEntry | .flowMappingEnd | .flowSequenceEnd => true
  | _ => false

def isBroken : Token → Bool
  | .broken _ => true
  | _ => false

def ahead (p : Token → Bool) (tokens : List Token) : Bool := tokens.head?.any p

/-! ### Nodes -/

abbrev Read (α : Type) := α × List Token × Anchors

/-- What the place of a node allows: lists and maps without brackets, and lists that are not
indented. -/
structure Place where
  block : Bool
  bare : Bool

def blockPlace : Place := ⟨true, false⟩
def entryPlace : Place := ⟨true, true⟩
def flowPlace : Place := ⟨false, false⟩

/-- What stands behind the comma before an item or before the end of a collection.  The first item
has none. -/
def afterComma (closing : Token) (first : Bool) (tokens : List Token) : Except Refusal (List Token) :=
  if first || ahead (· == closing) tokens then .ok tokens
  else
    match tokens with
    | .flowEntry :: rest => .ok rest
    | _ => unexpected tokens

/-- A node of which there are only its properties. -/
def emptyNode (p : Properties) (anchors : Anchors) (tokens : List Token) : Except Refusal (Read Node) :=
  if (p.anchor.isNone && p.tag.isNone) || ahead isBroken tokens then unexpected tokens
  else .ok (.scalar (scalarTag p.tag true "") "", tokens, anchors)

mutual

/-- A node.  `fuel` bounds the depth of the calls. -/
def parse : (fuel : Nat) → Handles → Place → Anchors → List Token → Except Refusal (Read Node)
  | 0, _, _, _, _ => .error .malformed
  | _ + 1, _, _, anchors, .reuse name :: rest => do pure (← reuse anchors name, rest, anchors)
  | fuel + 1, handles, place, anchors, tokens => do
    let (p, body) ← properties handles tokens
    let anchors ← announce anchors p.anchor body
    let (node, rest, anchors) ← parseBody fuel handles place p anchors body
    let (node, anchors) := define anchors p.anchor node
    pure (node, rest, anchors)

/-- A node behind its properties.  A node that has some may be empty. -/
def parseBody : (fuel : Nat) → Handles → Place → Properties → Anchors → List Token →
    Except Refusal (Read Node)
  | 0, _, _, _, _, _ => .error .malformed
  | fuel + 1, handles, place, p, anchors, tokens =>
    match tokens with
    | .scalar text plain :: rest => .ok (.scalar (scalarTag p.tag plain text) text, rest, anchors)
    | .flowSequenceStart :: rest => do
      let (items, rest, anchors) ← parseFlowItems fuel handles anchors true rest
      pure (.sequence (collectionTag p.tag .list) items, rest, anchors)
    | .flowMappingStart :: rest => do
      let (entries, rest, anchors) ← parseFlowEntries fuel handles anchors true rest
      pure (.mapping (collectionTag p.tag .map) entries, rest, anchors)
    | .blockEntry :: _ =>
      if place.bare then do
        let (items, rest, anchors) ← parseBareItems fuel handles anchors tokens
        pure (.sequence (collectionTag p.tag .list) items, rest, anchors)
      else emptyNode p anchors tokens
    | .blockSequenceStart :: rest =>
      if place.block then do
        let (items, rest, anchors) ← parseItems fuel handles anchors rest
        pure (.sequence (collectionTag p.tag .list) items, rest, anchors)
      else emptyNode p anchors tokens
    | .blockMappingStart :: rest =>
      if place.block then do
        let (entries, rest, anchors) ← parseEntries fuel handles anchors rest
        pure (.mapping (collectionTag p.tag .map) entries, rest, anchors)
      else emptyNode p anchors tokens
    | _ => emptyNode p anchors tokens

def parseOptional : (fuel : Nat) → Handles → Place → (omitted : Token → Bool) → Anchors → List Token →
    Except Refusal (Read Node)
  | 0, _, _, _, _, _ => .error .malformed
  | fuel + 1, handles, place, omitted, anchors, tokens =>
    if ahead omitted tokens then .ok (nothing, tokens, anchors) else parse fuel handles place anchors tokens

def parseItems : (fuel : Nat) → Handles → Anchors → List Token → Except Refusal (Read (List Node))
  | fuel + 1, handles, anchors, .blockEntry :: rest => do
    let (node, rest, anchors) ← parseOptional fuel handles blockPlace endsItem anchors rest
    let (items, rest, anchors) ← parseItems fuel handles anchors rest
    pure (node :: items, rest, anchors)
  | _ + 1, _, anchors, .blockEnd :: rest => .ok ([], rest, anchors)
  | _, _, _, tokens => unexpected tokens

def parseBareItems : (fuel : Nat) → Handles → Anchors → List Token → Except Refusal (Read (List Node))
  | 0, _, _, _ => .error .malformed
  | fuel + 1, handles, anchors, .blockEntry :: rest => do
    let (node, rest, anchors) ← parseOptional fuel handles blockPlace endsBareItem anchors rest
    let (items, rest, anchors) ← parseBareItems fuel handles anchors rest
    pure (node :: items, rest, anchors)
  | _ + 1, _, anchors, tokens => .ok ([], tokens, anchors)

/-- The value behind a key. -/
def parseValue : (fuel : Nat) → Handles → Place → (omitted : Token → Bool) → Anchors → List Token →
    Except Refusal (Read Node)
  | 0, _, _, _, _, _ => .error .malformed
  | fuel + 1, handles, place, omitted, anchors, .value :: rest =>
    parseOptional fuel handles place omitted anchors rest
  | _ + 1, _, _, _, anchors, tokens => .ok (nothing, tokens, anchors)

def parseEntries : (fuel : Nat) → Handles → Anchors → List Token → Except Refusal (Read (List (Node × Node)))
  | fuel + 1, handles, anchors, .key :: rest => do
    let (key, rest, anchors) ← parseOptional fuel handles entryPlace endsEntry anchors rest
    let (value, rest, anchors) ← parseValue fuel handles entryPlace endsEntry anchors rest
    let (entries, rest, anchors) ← parseEntries fuel handles anchors rest
    pure ((key, value) :: entries, rest, anchors)
  | _ + 1, _, anchors, .blockEnd :: rest => .ok ([], rest, anchors)
  | _, _, _, tokens => unexpected tokens

def parseFlowItems : (fuel : Nat) → Handles → Anchors → (first : Bool) → List Token →
    Except Refusal (Read (List Node))
  | 0, _, _, _, _ => .error .malformed
  | fuel + 1, handles, anchors, first, tokens =>
    match afterComma .flowSequenceEnd first tokens with
    | .error e => .error e
    | .ok (.flowSequenceEnd :: rest) => .ok ([], rest, anchors)
    | .ok rest => do
      let (node, rest, anchors) ← parseFlowItem fuel handles anchors rest
      let (items, rest, anchors) ← parseFlowItems fuel handles anchors false rest
      pure (node :: items, rest, anchors)

/-- An item of a list in brackets.  An item that has a value is a map of its own. -/
def parseFlowItem : (fuel : Nat) → Handles → Anchors → List Token → Except Refusal (Read Node)
  | 0, _, _, _ => .error .malformed
  | fuel + 1, handles, anchors, .key :: rest => do
    let (key, rest, anchors) ← parseOptional fuel handles flowPlace endsFlowKey anchors rest
    let (value, rest, anchors) ← parseValue fuel handles flowPlace endsFlowValue anchors rest
    pure (.mapping .map [(key, value)], rest, anchors)
  | fuel + 1, handles, anchors, tokens => parse fuel handles flowPlace anchors tokens

def parseFlowEntries : (fuel : Nat) → Handles → Anchors → (first : Bool) → List Token →
    Except Refusal (Read (List (Node × Node)))
  | 0, _, _, _, _ => .error .malformed
  | fuel + 1, handles, anchors, first, tokens =>
    match afterComma .flowMappingEnd first tokens with
    | .error e => .error e
    | .ok (.flowMappingEnd :: rest) => .ok ([], rest, anchors)
    | .ok rest => do
      let (entry, rest, anchors) ← parseFlowEntry fuel handles anchors rest
      let (entries, rest, anchors) ← parseFlowEntries fuel handles anchors false rest
      pure (entry :: entries, rest, anchors)

/-- An entry of a map in brackets.  What is not marked as a key has no value. -/
def parseFlowEntry : (fuel : Nat) → Handles → Anchors → List Token → Except Refusal (Read (Node × Node))
  | 0, _, _, _ => .error .malformed
  | fuel + 1, handles, anchors, .key :: rest => do
    let (key, rest, anchors) ← parseOptional fuel handles flowPlace endsFlowKey anchors rest
    let (value, rest, anchors) ← parseValue fuel handles flowPlace endsFlowValue anchors rest
    pure ((key, value), rest, anchors)
  | fuel + 1, handles, anchors, tokens => do
    let (key, rest, anchors) ← parse fuel handles flowPlace anchors tokens
    pure ((key, nothing), rest, anchors)

end

/-- The node at the start of some tokens.  No token is looked at by more than eight calls that are
inside of each other. -/
def parseFirst (handles : Handles) (tokens : List Token) : Except Refusal (Read Node) :=
  parse (8 * (tokens.length + 1)) handles blockPlace [] tokens

/-! ### Documents -/

/-- The handles that the directives in front of a document define, and the tokens behind them. -/
def directives (version : Bool) (handles : Handles) : List Token → Except Refusal (Handles × List Token)
  | .version major :: rest =>
    if version || major ≠ 1 then .error .malformed else directives true handles rest
  | .handle name start :: rest =>
    if handles.any fun (n, _) => n == name then .error .malformed
    else directives version ((name, start) :: handles) rest
  | .directive :: rest => directives version handles rest
  | tokens => .ok (handles ++ defaultHandles, tokens)

def isDirective : Token → Bool
  | .version _ | .handle _ _ | .directive => true
  | _ => false

def endsDocument (tokens : List Token) : Bool :=
  tokens.isEmpty || ahead (fun t => isDirective t || t == .documentStart || t == .documentEnd) tokens

/-- Behind a document nothing follows but marks of its end. -/
def finish (tokens : List Token) : Except Refusal Unit :=
  match tokens.dropWhile (· == .documentEnd) with
  | [] => .ok ()
  | rest => unexpected (rest.dropWhile isDirective)

def explicit (tokens : List Token) : Except Refusal (Option Content) :=
  match tokens.dropWhile (· == .documentEnd) with
  | [] => .ok none
  | tokens => do
    let (handles, rest) ← directives false [] tokens
    match rest with
    | .documentStart :: rest =>
      if endsDocument rest then do finish rest; pure (some { root := nothing })
      else do
        let (node, rest, anchors) ← parseFirst handles rest
        finish rest
        pure (some (content node anchors))
    | rest => unexpected rest

/-- The content of a text that holds one document at most. -/
def ofTokens? (tokens : List Token) : Except Refusal (Option Content) :=
  if tokens.isEmpty || ahead (fun t => isDirective t || t == .documentStart) tokens then explicit tokens
  else do
    let (node, rest, anchors) ← parseFirst defaultHandles tokens
    finish rest
    pure (some (content node anchors))

end Node

end Shorthand.Yaml
