import Shorthand.Moment
import Shorthand.Number.Digits

/-!
# Kinds of plain scalars

What a plain scalar is taken for: each kind of value has spellings of its own, and everything else
is text.
-/

namespace Shorthand.Yaml

/-- What a node holds. -/
inductive Tag where
  | null
  | bool
  | int
  | float
  | moment
  | text
  | bytes
  | list
  | pairs
  | map
  | set
  | merge
  | default
  | other (name : String)
  deriving DecidableEq, Repr

namespace Tag

/-- The start of the names of the kinds that are known everywhere. -/
def family : String := "tag:yaml.org,2002:"

def ofName (name : String) : Tag :=
  let kinds : List (String × Tag) :=
    [("null", .null), ("bool", .bool), ("int", .int), ("float", .float), ("timestamp", .moment),
     ("str", .text), ("binary", .bytes), ("seq", .list), ("pairs", .pairs), ("omap", .pairs),
     ("map", .map), ("set", .set), ("merge", .merge), ("value", .default)]
  ((kinds.map fun (short, t) => (family ++ short, t)).lookup name).getD (.other name)

def isCollection : Tag → Bool
  | .list | .pairs | .map | .set => true
  | _ => false

end Tag

namespace Implicit

def nullWords : List String := ["", "~", "null", "Null", "NULL"]

def trueWords : List String := ["yes", "Yes", "YES", "true", "True", "TRUE", "on", "On", "ON"]

def falseWords : List String := ["no", "No", "NO", "false", "False", "FALSE", "off", "Off", "OFF"]

/-! ### Numbers -/

def isSign (c : Char) : Bool := c = '+' || c = '-'

def unsigned : List Char → List Char
  | [] => []
  | c :: rest => if isSign c then rest else c :: rest

def isDigitOrLine (c : Char) : Bool := c.isDigit || c = '_'

/-- Characters of a kind, of which there is at least one. -/
def areSome (p : Char → Bool) (cs : List Char) : Bool := !cs.isEmpty && cs.all p

def colonParts (cs : List Char) : List (List Char) :=
  cs.foldr
    (fun c parts =>
      match parts with
      | [] => [[c]]
      | part :: rest => if c = ':' then [] :: part :: rest else (c :: part) :: rest)
    [[]]

/-- A number below sixty in at most two digits. -/
def isSixtieth : List Char → Bool
  | [d] => d.isDigit
  | [t, d] => '0' ≤ t && t ≤ '5' && d.isDigit
  | _ => false

def areSixtieths (parts : List (List Char)) : Bool := !parts.isEmpty && parts.all isSixtieth

def isInt (cs : List Char) : Bool :=
  match unsigned cs with
  | ['0'] => true
  | '0' :: 'b' :: rest => areSome (fun c => c = '0' || c = '1' || c = '_') rest
  | '0' :: 'x' :: rest =>
    areSome (fun c => c.isDigit || ('a' ≤ c && c ≤ 'f') || ('A' ≤ c && c ≤ 'F') || c = '_') rest
  | '0' :: rest => rest.all fun c => ('0' ≤ c && c ≤ '7') || c = '_'
  | c :: rest =>
    c.isDigit &&
      match colonParts rest with
      | [digits] => digits.all isDigitOrLine
      | digits :: parts => digits.all isDigitOrLine && areSixtieths parts
      | [] => false
  | [] => false

def isExponent : List Char → Bool
  | [] => true
  | e :: sign :: digits => (e = 'e' || e = 'E') && isSign sign && areSome Char.isDigit digits
  | _ => false

/-- Digits up to a point, the digits behind it, and an exponent. -/
def isDecimal (cs : List Char) : Bool :=
  let whole := cs.takeWhile isDigitOrLine
  match cs.dropWhile isDigitOrLine with
  | '.' :: rest =>
    isExponent (rest.dropWhile isDigitOrLine) &&
      match whole with
      | [] => false
      | c :: _ => c.isDigit
  | _ => false

def isFraction : List Char → Bool
  | '.' :: c :: rest => c.isDigit && isExponent (rest.dropWhile isDigitOrLine)
  | _ => false

/-- Numbers in base sixty, the last of which has a point. -/
def isSexagesimal (cs : List Char) : Bool :=
  match colonParts (cs.takeWhile fun c => c ≠ '.'), cs.dropWhile fun c => c ≠ '.' with
  | (c :: digits) :: parts, '.' :: rest =>
    c.isDigit && digits.all isDigitOrLine && areSixtieths parts && rest.all isDigitOrLine
  | _, _ => false

def infinityWords : List String := [".inf", ".Inf", ".INF"]

def nanWords : List String := [".nan", ".NaN", ".NAN"]

def isFloat (cs : List Char) : Bool :=
  isDecimal (unsigned cs) || isFraction cs || isSexagesimal (unsigned cs) ||
    infinityWords.contains (.ofList (unsigned cs)) || nanWords.contains (.ofList cs)

/-! ### Dates -/

/-- A number in a range of lengths, and what follows it. -/
def digits? (least most : Nat) (cs : List Char) : Option (Nat × List Char) :=
  let digits := (cs.take most).takeWhile Char.isDigit
  if digits.length < least then none
  else
    some (Number.ofDigits 10 digits, cs.drop digits.length)

def mark? (c : Char) : List Char → Option (List Char)
  | [] => none
  | d :: rest => if d = c then some rest else none

def isBlank (c : Char) : Bool := c = ' ' || c = '\t'

/-- The distance to universal time at the end of a scalar, in minutes. -/
def offset? (cs : List Char) : Option (Option Int) :=
  match cs.dropWhile isBlank with
  | [] => if cs.isEmpty then some none else none
  | ['Z'] => some (some 0)
  | c :: rest =>
    if !isSign c then none
    else do
      let (hours, rest) ← digits? 1 2 rest
      let minutes ←
        match rest with
        | [] => some 0
        | ':' :: rest =>
          match digits? 2 2 rest with
          | some (m, []) => some m
          | _ => none
        | _ => none
      let size : Int := hours * 60 + minutes
      pure (some (if c = '-' then -size else size))

def microseconds (digits : List Char) : Nat :=
  Number.ofDigits 10 ((digits ++ List.replicate 6 '0').take 6)

def clock? (cs : List Char) : Option Clock := do
  let (hour, cs) ← digits? 1 2 cs
  let (minute, cs) ← digits? 2 2 (← mark? ':' cs)
  let (second, cs) ← digits? 2 2 (← mark? ':' cs)
  let fraction := match cs with
    | '.' :: rest => rest.takeWhile Char.isDigit
    | _ => []
  let cs := match cs with
    | '.' :: rest => rest.dropWhile Char.isDigit
    | cs => cs
  pure { hour, minute, second, microsecond := microseconds fraction, offset := ← offset? cs }

/-- A date, or a date and a time.  The numbers need not name a day that exists. -/
def moment? (text : List Char) : Option Moment := do
  let (year, cs) ← digits? 4 4 text
  let (month, cs) ← digits? 1 2 (← mark? '-' cs)
  let (day, rest) ← digits? 1 2 (← mark? '-' cs)
  match rest with
  | [] => some { year, month, day, clock := none }
  | c :: rest' =>
    let time := if c = 'T' || c = 't' then rest' else rest.dropWhile isBlank
    if c = 'T' || c = 't' || isBlank c then
      some { year, month, day, clock := some (← clock? time) }
    else none

/-- Is a scalar taken for a date?  A date without a time has all its digits then. -/
def isMoment (cs : List Char) : Bool :=
  match moment? cs with
  | none => false
  | some m => m.clock.isSome || cs.length = 10

/-! ### Kinds -/

def withoutLineEnd (cs : List Char) : List Char := if cs.getLast? = some '\n' then cs.dropLast else cs

/-- What a plain scalar is taken for.  A line feed at its end does not count, unless there is nothing
else. -/
def tag (text : String) : Tag :=
  let cs := if text = "\n" then ['\n'] else withoutLineEnd text.toList
  let word : String := .ofList cs
  if trueWords.contains word || falseWords.contains word then .bool
  else if isFloat cs then .float
  else if isInt cs then .int
  else if word = "<<" then .merge
  else if nullWords.contains word then .null
  else if isMoment cs then .moment
  else if word = "=" then .default
  else .text

end Implicit

end Shorthand.Yaml
