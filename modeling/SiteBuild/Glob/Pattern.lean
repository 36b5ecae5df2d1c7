/-!
Patterns over slash paths: `*` and `?` stay within one segment, `**` stands for whole segments, and
classes and groups of alternatives may be nested in any order.
-/
namespace SiteBuild.Glob

inductive Token
  | literal (c : Char)
  | anyOne
  | star
  /-- `**/` at the start: any segments, or none. -/
  | leading
  /-- `/**` at the end: everything below. -/
  | trailing
  /-- `/**/` between segments: any segments, or none. -/
  | between
  | oneOf (negated : Bool) (ranges : List (Char × Char))
  | alternatives (branches : List (List Token))

abbrev Pattern := List Token

inductive Cause
  | unclosedClass
  | invalidRange (low high : Char)
  | unopenedGroup
  | unclosedGroup
  | danglingEscape
  deriving DecidableEq, Repr

namespace Cause

def message : Cause → String
  | .unclosedClass => "unclosed character class; missing ']'"
  | .invalidRange low high =>
    "invalid range; '" ++ String.singleton low ++ "' > '" ++ String.singleton high ++ "'"
  | .unopenedGroup =>
    "unopened alternate group; missing '\x7b' (maybe escape '\x7d' with '[\x7d]'?)"
  | .unclosedGroup =>
    "unclosed alternate group; missing '\x7d' (maybe escape '\x7b' with '[\x7b]'?)"
  | .danglingEscape => "dangling '\\'"

end Cause

/-- A pattern that cannot be read, and why. -/
structure Fault where
  pattern : String
  cause : Cause
  deriving DecidableEq, Repr

def Fault.message (f : Fault) : String :=
  "error parsing glob '" ++ f.pattern ++ "': " ++ f.cause.message

/-- A class being read: its ranges with the last one in front. -/
structure OpenClass where
  negated : Bool
  ranges : List (Char × Char)
  /-- Set behind a dash that may join the last character to the next. -/
  dash : Bool

/-- A group being read: what stands before it, and its branches so far, both in reverse. -/
structure OpenGroup where
  before : List Token
  branches : List (List Token)

/-- What has been read: the tokens of the innermost branch in reverse, and the open groups. -/
structure Reading where
  tokens : List Token
  groups : List OpenGroup

namespace Reading

def push (r : Reading) (t : Token) : Reading := { r with tokens := t :: r.tokens }

def openGroup (r : Reading) : Reading := ⟨[], ⟨r.tokens, []⟩ :: r.groups⟩

/-- Outside a group a comma stands for itself. -/
def comma (r : Reading) : Reading :=
  match r.groups with
  | [] => r.push (.literal ',')
  | g :: gs => ⟨[], { g with branches := r.tokens.reverse :: g.branches } :: gs⟩

def closeGroup (r : Reading) : Except Cause Reading :=
  match r.groups with
  | [] => .error .unopenedGroup
  | g :: gs => .ok ⟨.alternatives (r.tokens.reverse :: g.branches).reverse :: g.before, gs⟩

/-- Puts `t` for the slash in front of a `**`; a `**` right behind another adds nothing. -/
def deepen (r : Reading) (t : Token) : Reading :=
  match r.tokens with
  | .leading :: _ => r
  | .trailing :: _ => r
  | _ :: ts => { r with tokens := t :: ts }
  | [] => r

def finish (r : Reading) : Except Cause Pattern :=
  match r.groups with
  | [] => .ok r.tokens.reverse
  | _ :: _ => .error .unclosedGroup

end Reading

namespace OpenClass

def token (k : OpenClass) : Token :=
  .oneOf k.negated (if k.dash then ('-', '-') :: k.ranges else k.ranges).reverse

/-- The class with one more character, which may close a range. -/
def extend (k : OpenClass) (c : Char) : Except Cause OpenClass :=
  match k.dash, k.ranges with
  | true, (low, _) :: rs =>
    if c < low then .error (.invalidRange low c)
    else .ok { k with ranges := (low, c) :: rs, dash := false }
  | _, rs => .ok { k with ranges := (c, c) :: rs, dash := false }

end OpenClass

/-- Where the reader stands; `before` is the character in front. -/
inductive Place
  | outside (before : Option Char)
  | escaped
  | afterStar (before : Option Char)
  | afterStars (before : Option Char)
  | classStart
  | inClass (k : OpenClass)

/-- What `**` means between `before` and `next`, and whether it takes a slash behind it along. -/
def Reading.stars (r : Reading) (before next : Option Char) : Reading × Bool :=
  let two := ((r.push .star).push .star, false)
  if r.tokens.isEmpty then
    if next = none || next = some '/' then (r.push .leading, true) else two
  else if before = some '/' ||
      (!r.groups.isEmpty && (before = some ',' || before = some '{')) then
    if next = some '/' then (r.deepen .between, true)
    else if next = none || (!r.groups.isEmpty && (next = some ',' || next = some '}')) then
      (r.deepen .trailing, false)
    else two
  else two

def stepOutside (before : Option Char) (r : Reading) (c : Char) : Except Cause (Place × Reading) :=
  match c with
  | '?' => .ok (.outside (some c), r.push .anyOne)
  | '*' => .ok (.afterStar before, r)
  | '[' => .ok (.classStart, r)
  | '{' => .ok (.outside (some c), r.openGroup)
  | '}' => r.closeGroup.map fun r => (.outside (some c), r)
  | ',' => .ok (.outside (some c), r.comma)
  | '\\' => .ok (.escaped, r)
  | c => .ok (.outside (some c), r.push (.literal c))

def stepInClass (k : OpenClass) (r : Reading) (c : Char) : Except Cause (Place × Reading) :=
  if c = ']' && !k.ranges.isEmpty then .ok (.outside (some c), r.push k.token)
  else if c = '-' && !k.ranges.isEmpty && !k.dash then .ok (.inClass { k with dash := true }, r)
  else (k.extend c).map fun k => (.inClass k, r)

def step : Place × Reading → Char → Except Cause (Place × Reading)
  | (.outside before, r), c => stepOutside before r c
  | (.escaped, r), c => .ok (.outside (some c), r.push (.literal c))
  | (.afterStar before, r), c =>
    if c = '*' then .ok (.afterStars before, r) else stepOutside (some '*') (r.push .star) c
  | (.afterStars before, r), c =>
    match r.stars before (some c) with
    | (r, true) => .ok (.outside (some c), r)
    | (r, false) => stepOutside (some '*') r c
  | (.classStart, r), c =>
    if c = '!' || c = '^' then .ok (.inClass ⟨true, [], false⟩, r)
    else stepInClass ⟨false, [], false⟩ r c
  | (.inClass k, r), c => stepInClass k r c

/-- What the end of the text leaves of a reading. -/
def finish : Place × Reading → Except Cause Pattern
  | (.outside _, r) => r.finish
  | (.escaped, _) => .error .danglingEscape
  | (.afterStar _, r) => (r.push .star).finish
  | (.afterStars before, r) => (r.stars before none).1.finish
  | (.classStart, _) => .error .unclosedClass
  | (.inClass _, _) => .error .unclosedClass

def read (text : List Char) : Except Cause Pattern :=
  text.foldlM step (.outside none, ⟨[], []⟩) >>= finish

def Pattern.parse (text : String) : Except Fault Pattern :=
  match read text.toList with
  | .ok p => .ok p
  | .error cause => .error ⟨text, cause⟩

end SiteBuild.Glob
