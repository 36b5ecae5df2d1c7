import SiteBuild.Event
import SiteBuild.Text.Blank

/-!
Which lines a log lets through. A filter is a list of directives between commas, each with a detail
for the lines of some origins: those whose names start in some way. The longest such name decides.
-/
namespace SiteBuild

namespace Event

/-- The name that an event's lines go by. -/
def origin : Event → String
  | .patternRead _ _ | .patternsRead _ => "globset"
  | .importsFound _ _ | .importFound _ _ _ => "css_inline_optimizer::cli::commands"
  | _ => "css_inline_optimizer::utils::logging"

end Event

structure Directive where
  /-- What the names of origins start with. -/
  name : List Char
  /-- What a line has to hold. -/
  fields : List (List Char)
  detail : Nat
  deriving DecidableEq, Repr

namespace Directive

/-- A detail as a number or as a word. -/
def detail? (s : List Char) : Option Nat :=
  let digits := if s.head? = some '+' then s.drop 1 else s
  if !digits.isEmpty && digits.all Char.isDigit then
    some (Text.decimalValue digits) |>.filter (· ≤ 5)
  else
    match String.ofList (s.map Char.toLower) with
    | "off" => some 0
    | "error" => some 1
    | "warn" => some 2
    | "info" => some 3
    | "debug" => some 4
    | "trace" => some 5
    | _ => none

/-- A directive while it is read. One that asks for a span, or for the value of a field, speaks of no
line. -/
structure Draft where
  name : List Char
  detail : Nat
  spans : Bool
  fields : List (List Char)
  deriving DecidableEq, Repr

/-- Where the reader of a directive stands; what it reads goes from a place on. -/
inductive Place
  | start
  | name (first : Nat)
  | span (first : Nat)
  | field (first : Nat)
  | fields
  | level
  | detail (first : Nat)
  deriving DecidableEq, Repr

def isNameStart (c : Char) : Bool :=
  c.isAlphanum || c = '-' || c = ':' || c = '_' || Text.isWordChar c

/-- One character of a directive, the one at place `i`. -/
def step (s : List Char) : Place × Draft → Nat → Char → Option (Place × Draft)
  | (.start, d), i, c =>
    if c = '[' then some (.span (i + 1), d)
    else if isNameStart c then some (.name i, d)
    else none
  | (.name n, d), i, c =>
    let named := { d with name := (s.take i).drop n }
    if c = '=' then some (.detail (i + 1), named)
    else if c = '[' then some (.span (i + 1), named)
    else some (.name n, d)
  | (.span n, d), i, c =>
    if c = ']' then some (.level, { d with spans := true })
    else if c = '{' then some (.field (i + 1), { d with spans := n < i })
    else some (.span n, d)
  | (.field n, d), i, c =>
    if c = '}' then
      if n < i then some (.fields, { d with fields := (s.take i).drop n :: d.fields }) else none
    else some (.field n, d)
  | (.fields, d), _, c => if c = ']' then some (.level, d) else none
  | (.level, d), i, c => if c = '=' then some (.detail (i + 1), d) else none
  | (.detail n, d), _, _ => some (.detail n, d)

/-- What the end of a directive leaves of it. A name without a detail asks for every line. -/
def finish (s : List Char) : Place × Draft → Option Draft
  | (.name n, d) =>
    match detail? (s.drop n) with
    | some detail => some { d with detail }
    | none => some { d with name := s.drop n }
  | (.detail n, d) =>
    if (s.drop n).isEmpty then some d
    else (detail? (s.drop n)).map fun detail => { d with detail }
  | (.level, d) => some d
  | _ => none

/-- A directive is read up to its last blanks, with places counted behind the first ones. -/
def draft? (s : List Char) : Option Draft :=
  ((Text.trim s).zipIdx.foldlM (fun p (c, i) => step s p i c) (.start, ⟨[], 5, false, []⟩)).bind
    (finish s)

def ofDraft? (d : Draft) : Option Directive :=
  if d.spans || d.fields.any (·.contains '=') then none else some ⟨d.name, d.fields, d.detail⟩

/-- Whether the directive speaks of the lines of an origin. -/
def speaksOf (origin : String) (d : Directive) : Bool :=
  d.name.isPrefixOf origin.toList && d.fields.all (· = "message".toList)

/-- The more telling of two directives; of two alike the later. -/
def prefer : Option Directive → Directive → Option Directive
  | none, d => some d
  | some d, d' =>
    if d'.name.length < d.name.length then some d
    else if d'.name.length = d.name.length && d'.fields.length < d.fields.length then some d
    else some d'

end Directive

/-- The directives that decide which lines are shown. -/
abbrev Filter := List Directive

namespace Filter

/-- What this program tells of itself. -/
def standard (verbose : Bool) : Filter :=
  [⟨"css_inline_optimizer".toList, [], if verbose then 4 else 3⟩]

/-- A filter as it is written. One that says nothing lets errors through. -/
def parse? (s : String) : Option Filter :=
  (((s.toList.splitOn ',').filter (!·.isEmpty)).mapM Directive.draft?).map fun ds =>
    if ds.isEmpty then [⟨[], [], 1⟩] else ds.filterMap Directive.ofDraft?

/-- A filter that can be read wins over the wish for more lines. -/
def ofSetting (setting : Option String) (verbose : Bool) : Filter :=
  (setting.bind parse?).getD (standard verbose)

/-- The detail of the lines of an origin. -/
def detail (f : Filter) (origin : String) : Nat :=
  (((f.filter (·.speaksOf origin)).foldl Directive.prefer none).map Directive.detail).getD 0

end Filter

namespace Event

/-- The lines of an event that a log holds. -/
def shown (f : Filter) (nanos : Nat) (e : Event) : List (Level × String) :=
  ((e.lines nanos).filter fun l => l.1.detail ≤ f.detail e.origin).map fun l =>
    (l.1, Text.shown l.2)

end Event

end SiteBuild
