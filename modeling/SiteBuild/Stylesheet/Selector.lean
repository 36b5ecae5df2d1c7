import SiteBuild.Text.Match

/-!
Selectors, read one character at a time and written with no more blanks than they need.
-/
namespace SiteBuild.Stylesheet

/-- Blanks of stylesheets. -/
def isGap (c : Char) : Bool := c = ' ' || c = '\t' || c = '\n' || c = '\r' || c = '\x0c'

/-- Whether a name may start with the character. A hyphen has to stand in front of such a character, or
of another hyphen. -/
def isNameStart (c : Char) : Bool :=
  c.isAlpha || c = '_' || c = '-' || c = '\\' || '\u0080' ≤ c

def isNameChar (c : Char) : Bool := isNameStart c || c.isDigit

/-- A text without blanks at its ends. -/
def trimGaps (s : List Char) : List Char :=
  ((s.dropWhile isGap).reverse.dropWhile isGap).reverse

/-- Where the reader of a selector stands. -/
inductive Place
  /-- Where a part has to start. -/
  | start
  /-- Within or behind a part. -/
  | part
  /-- Behind the part that stands for any element. -/
  | any
  /-- Behind a mark that needs a name. -/
  | mark
  /-- Behind a hyphen that starts a name. -/
  | hyphen
  /-- Behind a backslash, which makes any character part of a name. -/
  | escape
  /-- Behind a colon, which may be one of two. -/
  | colon
  | attribute (text : List Char)
  | arguments (depth : Nat)
  | gap
  deriving DecidableEq, Repr

/-- What has been read: the finished selectors and the open one, all in reverse. -/
structure SelectorReading where
  place : Place
  done : List (List Char)
  text : List Char

/-- The value of an attribute, without quotes. An unquoted value is a name. -/
def attributeValue? (s : List Char) : Option (List Char) :=
  match s with
  | '\x22' :: s => if s.getLast? = some '\x22' then some s.dropLast else none
  | '\x27' :: s => if s.getLast? = some '\x27' then some s.dropLast else none
  | c :: _ => if isNameStart c && s.all isNameChar then some s else none
  | [] => none

/-- Quotes are left out of a `tight` text where the value is a name. -/
def writeAttributeValue (tight : Bool) (s : List Char) : List Char :=
  if tight && s.head?.any isNameStart && s.all isNameChar && s.head? ≠ some '-' then s
  else '\x22' :: s ++ ['\x22']

/-- What stands in brackets: the name of an attribute, or the name, a sign and a value. -/
def attribute? (tight : Bool) (s : List Char) : Option (List Char) :=
  let s := trimGaps s
  let name := s.takeWhile isNameChar
  let rest := (s.dropWhile isNameChar).dropWhile isGap
  let sign := rest.takeWhile fun c => c ≠ '=' && !isGap c && c ≠ '\x22'
  if !name.head?.any isNameStart then none
  else if rest.isEmpty then some name
  else if ["", "~", "|", "^", "$", "*"].any fun w => w.toList = sign then do
    let rest ← Text.after? ['='] (rest.drop sign.length)
    let value ← attributeValue? (rest.dropWhile isGap)
    return name ++ sign ++ '=' :: writeAttributeValue tight value
  else none

namespace SelectorReading

def push (r : SelectorReading) (place : Place) (c : Char) : SelectorReading :=
  { r with place, text := c :: r.text }

def isCombinator (c : Char) : Bool := c = '>' || c = '+' || c = '~'

/-- `tight` leaves out the blanks around a combinator. -/
def combine (tight : Bool) (r : SelectorReading) (c : Char) : SelectorReading :=
  { r with place := .start, text := (if tight then [c] else [' ', c, ' ']) ++ r.text }

def separate (r : SelectorReading) : SelectorReading :=
  ⟨.start, r.text.reverse :: r.done, []⟩

/-- A character of a name, which may be its first. -/
def pushName (r : SelectorReading) (c : Char) (first : Bool) : SelectorReading :=
  r.push (if c = '\\' then .escape else if first && c = '-' then .hyphen else .part) c

/-- The first character of a part. -/
def open? (r : SelectorReading) (c : Char) : Option SelectorReading :=
  if c = '.' || c = '#' then some (r.push .mark c)
  else if c = ':' then some (r.push .colon c)
  else if c = '[' then some (r.push (.attribute []) c)
  else if c = '*' then some (r.push .any c)
  else if c = '&' then some (r.push .part c)
  else if isNameStart c then some (r.pushName c true)
  else none

/-- The first character of a name. -/
def name? (r : SelectorReading) (c : Char) : Option SelectorReading :=
  if isNameStart c then some (r.pushName c true) else none

/-- A character behind a part. -/
def behind? (tight : Bool) (r : SelectorReading) (c : Char) : Option SelectorReading :=
  if isGap c then some { r with place := .gap }
  else if isCombinator c then some (r.combine tight c)
  else if c = ',' then some r.separate
  else none

def step? (tight : Bool) (r : SelectorReading) (c : Char) : Option SelectorReading :=
  match r.place with
  | .start => if isGap c then some r else r.open? c
  | .part =>
    r.behind? tight c <|>
      if c = '(' then some (r.push (.arguments 0) c)
      else if isNameChar c then some (r.pushName c false)
      else if c = '*' || c = '&' then none
      else r.open? c
  | .any =>
    -- Nothing is said by it where another part follows.
    r.behind? tight c <|>
      if isNameStart c || c = '*' || c = '&' then none
      else { r with text := r.text.tail }.open? c
  | .mark => r.name? c
  | .hyphen => if isNameStart c then some (r.pushName c false) else none
  | .escape => some (r.push .part c)
  | .colon => if c = ':' then some (r.push .mark c) else r.name? c
  | .attribute text =>
    if c = ']' then
      (attribute? tight text.reverse).map fun t =>
        { r with place := .part, text := ']' :: t.reverse ++ r.text }
    else some { r with place := .attribute (c :: text) }
  | .arguments depth =>
    if c = '(' then some (r.push (.arguments (depth + 1)) c)
    else if c = ')' then
      some (r.push (match depth with | 0 => .part | depth + 1 => .arguments depth) c)
    else some (r.push (.arguments depth) c)
  | .gap =>
    if isGap c then some r
    else if isCombinator c then some (r.combine tight c)
    else if c = ',' then some r.separate
    else { r with text := ' ' :: r.text }.open? c

end SelectorReading

/-- Elements that are no parts of a page, which one colon may mark. -/
def oldElements : List String := ["before", "after", "first-line", "first-letter"]

/-- Writes old pseudo-elements with one colon. -/
def dropColons : List Char → List Char
  | ':' :: ':' :: s =>
    if oldElements.any fun w =>
      ((Text.after? w.toList s).map fun r => !r.head?.any isNameChar).getD false
    then ':' :: dropColons s
    else ':' :: ':' :: dropColons s
  | c :: s => c :: dropColons s
  | [] => []

/-- The selectors of a rule, if all of them can be read. -/
def readSelectors? (tight : Bool) (s : List Char) : Option (List (List Char)) := do
  let r ← s.foldlM (SelectorReading.step? tight) ⟨.start, [], []⟩
  match r.place with
  | .part | .any | .gap => return (r.separate.done.map dropColons).reverse
  | _ => none

end SiteBuild.Stylesheet
