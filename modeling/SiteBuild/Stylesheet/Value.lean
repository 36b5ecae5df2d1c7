import SiteBuild.Stylesheet.Color
import SiteBuild.Stylesheet.Quantity
import SiteBuild.Text.Match

/-!
Values of properties. A value that is what the property asks for has one spelling, which is as short
as it gets; any other value keeps its words.
-/
namespace SiteBuild.Stylesheet

/-- What a property asks for. -/
inductive Kind
  | integer
  | number
  /-- A number, or as many hundredths. -/
  | share
  /-- A length, a share of one, or one of some words. -/
  | size (words : List String)
  /-- A number, or what a size may be. -/
  | measure (words : List String)
  | keyword (words : List String)
  | weight
  | color
  /-- Words of a background, of which there may be none. -/
  | background
  /-- Words that are sizes, colors or anything else. -/
  | mixture
  | anything

/-- The words of a text between single blanks. A blank within parentheses is part of a word. -/
def splitWords (depth : Nat) (word : List Char) : List Char → List (List Char)
  | [] => [word.reverse]
  | c :: s =>
    if c = ' ' && depth = 0 then word.reverse :: splitWords 0 [] s
    else
      splitWords (if c = '(' then depth + 1 else if c = ')' then depth - 1 else depth) (c :: word) s

def joinWords (words : List (List Char)) : List Char := List.intercalate [' '] words

/-- Words that are values of every property. -/
def wideWords : List String := ["inherit", "initial", "unset", "revert", "revert-layer"]

def isOneOf (words : List String) (s : List Char) : Bool := words.any fun w => w.toList = s

def isCall (s : List Char) : Bool := s.contains '(' && s.getLast? = some ')'

/-- Whether what stands there is only known where the value is used. -/
def isDeferred (s : List Char) : Bool :=
  isOneOf wideWords s ||
    ["var(", "env("].any fun w => (Text.leftmost? (Text.after? w.toList) s).isSome

def isQuoting (s : List Char) : Bool := s.contains '\x22' || s.contains '\x27'

def shortenNumber (s : List Char) : List Char := ((Quantity.read? s).map Quantity.write).getD s

def shortenNumbers (s : List Char) : List Char :=
  if isQuoting s then s else joinWords ((splitWords 0 [] s).map shortenNumber)

def readNumber? (s : List Char) : Option (List Char) := do
  let q ← Quantity.read? s
  if q.unit.isEmpty then return q.write else none

/-- A length needs a unit, unless it is none at all. -/
def readSize? (s : List Char) : Option (List Char) := do
  let q ← Quantity.read? s
  if q.isZero && q.unit ≠ ['%'] then return ['0']
  else if q.unit.isEmpty then none
  else return q.write

def readShare? (s : List Char) : Option (List Char) := do
  let q ← Quantity.read? s
  if q.unit.isEmpty then return q.write
  else if q.unit = ['%'] then return q.share.write
  else none

def readColor? (s : List Char) : Option (List Char) :=
  if s = "currentcolor".toList then some "currentColor".toList
  else (Color.read? s).map Color.write

namespace Kind

/-- The spelling of a word that is what is asked for. -/
def readWord? : Kind → List Char → Option (List Char)
  | .integer, s => do
    let q ← Quantity.read? s
    if q.isInteger then return q.write else none
  | .number, s => readNumber? s
  | .share, s => readShare? s
  | .size words, s => if isOneOf words s || isCall s then some s else readSize? s
  | .measure words, s =>
    if isOneOf words s || isCall s then some s else readNumber? s <|> readSize? s
  | .keyword words, s => if isOneOf words s then some s else none
  | .weight, s => if isOneOf ["normal", "bold", "bolder", "lighter"] s then some s else readNumber? s
  | .color, s => if isCall s then some s else readColor? s
  | .background, s | .mixture, s => readColor? s <|> readSize? s <|> some (shortenNumber s)
  | .anything, s => some (shortenNumber s)

/-- Whether a value may have several words, in any letters. -/
def isLoose : Kind → Bool
  | .background | .mixture | .anything => true
  | _ => false

/-- Some values have a number that is shorter than their name. -/
def spell (tight : Bool) : Kind → List Char → List Char
  | .weight, s =>
    if tight && s = "normal".toList then "400".toList
    else if tight && s = "bold".toList then "700".toList
    else s
  | .background, s =>
    if isOneOf ["none", "#0000"] s then (if tight then "0 0" else "none").toList else s
  | _, s => s

def read? (tight : Bool) (k : Kind) (s : List Char) : Option (List Char) :=
  if isDeferred (s.map Char.toLower) then none
  else if k.isLoose then
    if isQuoting s then some s
    else ((splitWords 0 [] s).mapM k.readWord?).map fun words => k.spell tight (joinWords words)
  else (k.readWord? (s.map Char.toLower)).map (k.spell tight)

end Kind

end SiteBuild.Stylesheet
