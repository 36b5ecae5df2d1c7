import SiteBuild.Script.Token
import SiteBuild.Text.Digit
import SiteBuild.Text.Letter

/-!
Tokens that are read one character at a time: texts in quotes, pieces of templates, regular
expressions, numbers and names. What a reader makes of a character depends on its place alone, and it
goes on while there is a step.
-/
namespace SiteBuild.Script

def isLineBreak (c : Char) : Bool := c = '\n' || c = '\r' || c = '\u2028' || c = '\u2029'

/-- Takes characters while there is a step: the last place, and how many characters were taken. -/
def munch (step : σ → Char → Option σ) : σ → Nat → List Char → σ × Nat
  | p, n, [] => (p, n)
  | p, n, c :: s =>
    match step p c with
    | some p => munch step p (n + 1) s
    | none => (p, n)

/-- What the last place gives, and how many characters were taken. -/
def readTo (step : σ → Char → Option σ) (give : σ → Option α) (p : σ) (n : Nat) (s : List Char) :
    Option (α × Nat) :=
  let r := munch step p n s
  (give r.1).map (·, r.2)

/-- Where the reader of what stands behind a backslash is. -/
inductive EscapePlace
  | start
  /-- That many digits have to follow one more. -/
  | hex (more value : Nat)
  /-- Behind the letter `u`. -/
  | unicode
  /-- Between braces, with the value of the digits if there are any yet. -/
  | braced (value : Option Nat)
  deriving DecidableEq, Repr

inductive EscapeStep
  | more (p : EscapePlace)
  /-- The character was the last one. -/
  | done (value : Nat)
  /-- The character cannot stand there. -/
  | fail

def EscapePlace.step (p : EscapePlace) (c : Char) : EscapeStep :=
  match p with
  | .start =>
    if c = 'x' then .more (.hex 1 0) else if c = 'u' then .more .unicode else .done c.toNat
  | .hex more value =>
    match Text.hexDigit? c, more with
    | some d, 0 => .done (16 * value + d)
    | some d, more + 1 => .more (.hex more (16 * value + d))
    | none, _ => .fail
  | .unicode =>
    if c = '\x7b' then .more (.braced none)
    else match Text.hexDigit? c with
      | some d => .more (.hex 2 d)
      | none => .fail
  | .braced value =>
    if c = '\x7d' then
      match value with
      | some v => if v ≤ 0x10ffff then .done v else .fail
      | none => .fail
    else match Text.hexDigit? c with
      | some d => .more (.braced (some (16 * value.getD 0 + d)))
      | none => .fail

/-- Where the reader of a text in quotes is. -/
inductive QuotePlace
  | text
  | escape (p : EscapePlace)
  /-- Behind a backslash and the first half of a line's end. -/
  | lineEnd
  | closed
  deriving DecidableEq, Repr

namespace QuotePlace

/-- A character of a text in quotes. No line ends in it but behind a backslash. -/
def textStep (quote c : Char) : Option QuotePlace :=
  if c = '\\' then some (.escape .start)
  else if c = quote then some .closed
  else if c = '\n' || c = '\r' then none
  else some .text

def step (quote : Char) (p : QuotePlace) (c : Char) : Option QuotePlace :=
  match p with
  | .text => textStep quote c
  | .escape p =>
    if p = .start && c = '\r' then some .lineEnd
    else match p.step c with
      | .more p => some (.escape p)
      | .done _ => some .text
      | .fail => none
  | .lineEnd => if c = '\n' then some .text else textStep quote c
  | .closed => none

def token? : QuotePlace → Option Token
  | .closed => some .string
  | _ => none

end QuotePlace

/-- Where the reader of a template is; `reads` says whether all escapes so far can be read. -/
inductive TemplatePlace
  | text (reads : Bool)
  | dollar (reads : Bool)
  | escape (p : EscapePlace) (reads : Bool)
  /-- Behind a backslash and a zero, which no digit may follow. -/
  | zero (reads : Bool)
  | closed (continues reads : Bool)
  deriving DecidableEq, Repr

namespace TemplatePlace

def textStep (reads : Bool) (c : Char) : TemplatePlace :=
  if c = '\x60' then .closed false reads
  else if c = '$' then .dollar reads
  else if c = '\\' then .escape .start reads
  else .text reads

/-- An escape that cannot be read ends in front of the character that it cannot hold. -/
def step (p : TemplatePlace) (c : Char) : Option TemplatePlace :=
  match p with
  | .text reads => some (textStep reads c)
  | .dollar reads => some (if c = '\x7b' then .closed true reads else textStep reads c)
  | .escape p reads =>
    if p = .start && c = '0' then some (.zero reads)
    else if p = .start && c.isDigit then some (.text false)
    else match p.step c with
      | .more p => some (.escape p reads)
      | .done _ => some (.text reads)
      | .fail => some (textStep false c)
  | .zero reads => some (if c.isDigit then .text false else textStep reads c)
  | .closed _ _ => none

def token? : TemplatePlace → Option Token
  | .closed continues reads => some (.template continues reads)
  | _ => none

end TemplatePlace

/-- Where the reader of a regular expression is; within a class no slash closes it. -/
inductive RegexPlace
  | body (inClass : Bool)
  | escape (inClass : Bool)
  /-- Behind the closing slash, with the letters that were read. -/
  | flags (w : List Char)
  deriving DecidableEq, Repr

namespace RegexPlace

def step (p : RegexPlace) (c : Char) : Option RegexPlace :=
  match p with
  | .body inClass =>
    if isLineBreak c then none
    else if c = '\\' then some (.escape inClass)
    else if c = '/' && !inClass then some (.flags [])
    else some (.body (c = '[' || (inClass && c ≠ ']')))
  | .escape inClass => if isLineBreak c then none else some (.body inClass)
  | .flags w => if Text.isIdentifierPart c then some (.flags (c :: w)) else none

/-- Whether letters are flags of one regular expression. -/
def areFlags (w : List Char) : Bool :=
  w.all ("dgimsuvy".toList.contains ·) && w.eraseDups.length = w.length &&
    !(w.contains 'u' && w.contains 'v')

def token? : RegexPlace → Option Token
  | .flags w => if areFlags w then some .regex else none
  | _ => none

end RegexPlace

def isBinaryDigit (c : Char) : Bool := c = '0' || c = '1'

def isOctalDigit (c : Char) : Bool := '0' ≤ c && c ≤ '7'

/-- The base of a number that a letter behind a zero names. -/
inductive Radix
  | binary
  | octal
  | hex
  deriving DecidableEq, Repr

def Radix.ofLetter? (c : Char) : Option Radix :=
  if c = 'x' || c = 'X' then some .hex
  else if c = 'o' || c = 'O' then some .octal
  else if c = 'b' || c = 'B' then some .binary
  else none

/-- Runs of digits within a number. -/
inductive DigitRun
  | whole
  | fraction
  | exponent
  | based (r : Radix)
  deriving DecidableEq, Repr

def DigitRun.isDigit : DigitRun → Char → Bool
  | .based .binary, c => isBinaryDigit c
  | .based .octal, c => isOctalDigit c
  | .based .hex, c => Text.isHexDigit c
  | _, c => c.isDigit

/-- Where the reader of a number is. -/
inductive NumberPlace
  /-- Behind a zero that the number begins with. -/
  | zero
  | digits (r : DigitRun)
  /-- In front of a digit that has to follow: behind a low line, a letter or a sign. -/
  | owing (r : DigitRun)
  /-- Behind a zero and further digits, which are octal unless one of them is too large. -/
  | octal (fits : Bool)
  /-- Behind a point. -/
  | point
  /-- Behind the letter of an exponent. -/
  | power
  /-- Behind the letter that makes an integer of any size. -/
  | big
  /-- In front of a name or a digit, which may not follow a number at once. -/
  | spoiled
  deriving DecidableEq, Repr

namespace NumberPlace

/-- The place behind the first character of a number. -/
def start (c : Char) : NumberPlace :=
  if c = '.' then .point else if c = '0' then .zero else .digits .whole

/-- What may follow a number. -/
def endStep (c : Char) : Option NumberPlace :=
  if Text.isIdentifierStart c || c.isDigit || c = '\\' then some .spoiled else none

def isPower (c : Char) : Bool := c = 'e' || c = 'E'

/-- A point or an exponent behind digits in base ten. -/
def tailStep (c : Char) : Option NumberPlace :=
  if c = '.' then some .point else if isPower c then some .power else endStep c

/-- What may follow a run of digits. -/
def runStep (r : DigitRun) (c : Char) : Option NumberPlace :=
  if c = '_' then some (.owing r)
  else match r with
    | .whole => if c = 'n' then some .big else tailStep c
    | .based _ => if c = 'n' then some .big else endStep c
    | .fraction => if isPower c then some .power else endStep c
    | .exponent => endStep c

def step (p : NumberPlace) (c : Char) : Option NumberPlace :=
  match p with
  | .zero =>
    match Radix.ofLetter? c with
    | some r => some (.owing (.based r))
    | none =>
      if c.isDigit then some (.octal (isOctalDigit c))
      else if c = 'n' then some .big
      else tailStep c
  | .digits r => if r.isDigit c then some (.digits r) else runStep r c
  | .owing r => if r.isDigit c then some (.digits r) else none
  | .octal fits =>
    if c.isDigit then some (.octal (fits && isOctalDigit c))
    else if fits then endStep c
    else tailStep c
  | .point =>
    if c.isDigit then some (.digits .fraction)
    else if isPower c then some .power
    else endStep c
  | .power =>
    if c = '+' || c = '-' then some (.owing .exponent)
    else if c.isDigit then some (.digits .exponent)
    else none
  | .big => endStep c
  | .spoiled => none

def token? : NumberPlace → Option Token
  | .zero | .digits _ | .octal _ | .point | .big => some .number
  | _ => none

end NumberPlace

/-- A name as it is spelled. -/
structure Spelling where
  /-- The characters that it stands for. -/
  word : List Char
  escaped : Bool
  deriving DecidableEq, Repr

namespace Spelling

def token (w : Spelling) : Token :=
  let word := String.ofList w.word
  if w.escaped then .escapedName word
  else if keywords.contains word then .keyword word
  else .name word

end Spelling

/-- Where the reader of a name is. -/
inductive NamePlace
  | plain
  | backslash
  | escape (p : EscapePlace)
  deriving DecidableEq, Repr

/-- A name that is being read, its last character first. -/
structure NameReader where
  place : NamePlace
  reversed : List Char
  escaped : Bool
  deriving DecidableEq, Repr

namespace NameReader

def start : NameReader := ⟨.plain, [], false⟩

/-- One more character of the name, which an escape stands for. -/
def spell (v : Nat) (r : NameReader) : Option NameReader :=
  if Text.isIdentifierPart (Char.ofNat v) then some ⟨.plain, Char.ofNat v :: r.reversed, true⟩ else none

def step (r : NameReader) (c : Char) : Option NameReader :=
  match r.place with
  | .plain =>
    if Text.isIdentifierPart c then some { r with reversed := c :: r.reversed }
    else if c = '\\' then some { r with place := .backslash }
    else none
  | .backslash => if c = 'u' then some { r with place := .escape .unicode } else none
  | .escape p =>
    match p.step c with
    | .more p => some { r with place := .escape p }
    | .done v => r.spell v
    | .fail => none

def spelling? (r : NameReader) : Option Spelling :=
  if r.place = .plain && r.reversed.getLast?.any Text.isIdentifierStart then
    some ⟨r.reversed.reverse, r.escaped⟩
  else none

def token? (r : NameReader) : Option Token := r.spelling?.map Spelling.token

/-- A name behind the mark that makes it private. -/
def privateToken? (r : NameReader) : Option Token :=
  r.spelling?.map fun w => .privateName (String.ofList w.word)

end NameReader

end SiteBuild.Script
