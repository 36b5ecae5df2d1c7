import SiteBuild.Stylesheet.Property
import SiteBuild.Stylesheet.Selector

/-!
Declarations of a rule: how they are read, and in which order they are written once they are arranged.
Declarations that are important come last.
-/
namespace SiteBuild.Stylesheet

structure Declaration where
  name : String
  value : List Char
  important : Bool
  deriving DecidableEq, Repr

/-- What blanks come to in a value. -/
inductive Gap
  | none
  | pending
  /-- Behind a comma, where blanks are left out. -/
  | closed
  deriving DecidableEq, Repr

/-- Runs of blanks become one blank. One stands behind each comma, or none if the text is `tight`. -/
def collapse (tight : Bool) (quote : Option Char) (gap : Gap) : List Char → List Char
  | [] => []
  | c :: s =>
    match quote with
    | some q => c :: collapse tight (if c = q then none else some q) .none s
    | none =>
      if isGap c then collapse tight none (if gap = .closed then .closed else .pending) s
      else if c = ',' then
        (if tight then [','] else [',', ' ']) ++ collapse tight none .closed s
      else
        (if gap = .pending then [' '] else []) ++
          c :: collapse tight (if c = '\x22' || c = '\x27' then some c else none) .none s

/-- The text in front of the mark of importance, and the text behind it. -/
def splitMark (quote : Option Char) (depth : Nat) (front : List Char) :
    List Char → List Char × Option (List Char)
  | [] => (front.reverse, none)
  | c :: s =>
    match quote with
    | some q => splitMark (if c = q then none else some q) depth (c :: front) s
    | none =>
      if c = '!' && depth = 0 then (front.reverse, some s)
      else
        splitMark (if c = '\x22' || c = '\x27' then some c else none)
          (if c = '(' then depth + 1 else if c = ')' then depth - 1 else depth) (c :: front) s

/-- The shortest spelling of a value that is what the property asks for. -/
def readValue? (tight : Bool) (name : String) (value : List Char) : Option (List Char) :=
  let shorthands := families.flatten.filterMap fun
    | .shorthand s => if s.name = name then some s else none
    | .one .. => none
  match shorthands with
  | s :: _ => do
    let words ← s.spread? (splitWords 0 [] value)
    let words ← (s.parts.zip words).mapM fun (part, word) => do (← kind? part).read? tight word
    return joinWords (s.gather words)
  | [] => (kind? name).bind (Kind.read? tight · value)

namespace Declaration

/-- Whether a text may be the name of a property. -/
def isName (s : List Char) : Bool := s.head?.any isNameStart && s.all isNameChar

/-- Names that are known are written in lower case. -/
def spellName (s : List Char) : String :=
  let known := String.ofList (s.map Char.toLower)
  if (kind? known).isSome then known else String.ofList s

/-- The words of a value. Of blanks alone, one is left in a `tight` text. -/
def spellValue (tight : Bool) (name : String) (s : List Char) : List Char :=
  let value := collapse tight none .none (trimGaps s)
  if value.isEmpty then (if tight && !s.isEmpty then [' '] else [])
  else (readValue? tight name value).getD (shortenNumbers value)

def read? (tight : Bool) (s : List Char) : Option Declaration := do
  let name := trimGaps (s.takeWhile (· ≠ ':'))
  guard (s.contains ':' && isName name)
  let name := spellName name
  let (value, mark) := splitMark none 0 [] ((s.dropWhile (· ≠ ':')).drop 1)
  guard (mark.all fun m => (trimGaps m).map Char.toLower = "important".toList)
  return ⟨name, spellValue tight name value, mark.isSome⟩

def write (tight : Bool) (d : Declaration) : List Char :=
  d.name.toList ++ (if tight then ":" else ": ").toList ++ d.value ++
    if d.important then (if tight then "!important" else " !important").toList else []

/-- Those that are important come last. -/
def inOrder (ds : List Declaration) : List Declaration :=
  ds.filter (!·.important) ++ ds.filter (·.important)

end Declaration

/-- Declarations on the way to their places. -/
structure Arrangement where
  /-- Those that have their place, in reverse. -/
  placed : List Declaration
  /-- Those that stand behind all others, with no name twice. -/
  held : List Declaration
  deriving Repr

namespace Arrangement

def put (a : Arrangement) (d : Declaration) : Arrangement := { a with placed := d :: a.placed }

/-- Takes the place of the declaration of the same name. -/
def replace (a : Arrangement) (d : Declaration) : Arrangement :=
  if a.placed.any (·.name = d.name) then
    { a with placed := a.placed.map fun d' => if d'.name = d.name then d else d' }
  else a.put d

def hold (a : Arrangement) (parts : List String) (ds : List Declaration) : Arrangement :=
  { a with
    held := a.held.filter (fun d => !parts.contains d.name && !ds.any (·.name = d.name)) ++ ds }

def find? (a : Arrangement) (name : String) : Option Declaration := a.held.find? (·.name = name)

/-- What is written of a member of a family. -/
def member (a : Arrangement) : Member → List Declaration
  | .one name _ => (a.find? name).toList
  | .shorthand s =>
    let ds := s.parts.filterMap a.find?
    match ds with
    | d :: _ =>
      if ds.length = s.parts.length then
        [⟨s.name, joinWords (s.gather (ds.map Declaration.value)), d.important⟩]
      else ds
    | [] => []

/-- Gives the held members of a family their places. -/
def release (a : Arrangement) (f : Family) : Arrangement where
  placed := (f.flatMap a.member).reverse ++ a.placed
  held := a.held.filter fun d => !f.any fun m => m.names.contains d.name

def holdMember (a : Arrangement) (d : Declaration) : Member → Arrangement
  | .one _ parts => a.hold parts [d]
  | .shorthand s =>
    if d.name = s.name then
      match s.spread? (splitWords 0 [] d.value) with
      | some words =>
        a.hold [] ((s.parts.zip words).map fun (part, word) => ⟨part, word, d.important⟩)
      | none => a
    else a.hold [] [d]

/-- Adds a declaration. If its value is not what the property asks for, it stays where it is, and so
does what was set of its family before. -/
def add (a : Arrangement) (d : Declaration) : Arrangement :=
  match family? d.name with
  | some f =>
    match (readValue? true d.name d.value).bind fun _ => f.find? (·.names.contains d.name) with
    | some m => a.holdMember d m
    | none => (a.release f).put d
  | none =>
    if fixedNames.contains d.name || d.name.startsWith "--" then a.replace d else a.put d

def toList (a : Arrangement) : List Declaration := (families.foldl release a).placed.reverse

end Arrangement

/-- Arranges declarations of one importance. -/
def arrangeAlike (ds : List Declaration) : List Declaration :=
  (ds.foldl Arrangement.add ⟨[], []⟩).toList

def arrange (ds : List Declaration) : List Declaration :=
  arrangeAlike (ds.filter (!·.important)) ++ arrangeAlike (ds.filter (·.important))

end SiteBuild.Stylesheet
