import SiteBuild.Script.Reading
import SiteBuild.Text.Bytes

/-!
Modules: a text cut at its dependencies, the imports and re-exports that name a source. The cut loses
nothing, so that places are counted in the text that a module was read from.
-/
namespace SiteBuild.Script

inductive Item
  | statement (pieces : List Piece)
  | dependency (clause : List Piece) (source : Lexeme) (tail : List Piece)

namespace Item

/-- An import or a re-export: its clause, its source in quotes, its attributes and its end. -/
def readDependency? (s : List Char) : Option (Item × List Char) := do
  let clause ← read [.dependency] .value s
  let (quoted, r) ← next .operand clause.rest
  if quoted.token = .string then
    let tail ← read [.attributes, .ending] .value r
    return (.dependency clause.pieces quoted tail.pieces, tail.rest)
  else none

def read? (s : List Char) : Option (Item × List Char) :=
  (readDependency? s).or ((read [.item] .value s).map fun d => (.statement d.pieces, d.rest))

/-- The items of a text, and the gap behind the last one. -/
def readAll? (s : List Char) : Option (List Item × List Char) :=
  match next .operand s with
  | none => none
  | some (l, _) =>
    if l.token = .finish then some ([], s)
    else match read? s with
      | none => none
      | some (i, r) =>
        if r.length < s.length then (readAll? r).map fun (is, gap) => (i :: is, gap) else none
  termination_by s.length

end Item

/-- An import or a re-export, from its keyword to its end. -/
structure Dependency where
  keyword : List Char
  clause : List Char
  /-- The source with its quotes. -/
  quoted : List Char
  /-- The attributes, and a semicolon where one follows. -/
  tail : List Char
  deriving DecidableEq, Repr

namespace Dependency

def source (d : Dependency) : List Char := d.keyword ++ d.clause ++ d.quoted ++ d.tail

/-- The source as it is spelled between its quotes. -/
def specifier (d : Dependency) : List Char := d.quoted.tail.dropLast

def isImport (d : Dependency) : Bool := d.keyword = "import".toList

end Dependency

/-- A text with its dependencies, each with the code up to the next one. -/
structure Module where
  head : List Char
  parts : List (Dependency × List Char)
  deriving DecidableEq, Repr

/-- Where a part of a text stands, counted in bytes. -/
structure Span where
  start : Nat
  stop : Nat
  deriving DecidableEq, Repr

namespace Module

def source (m : Module) : List Char := m.head ++ m.parts.flatMap fun p => p.1.source ++ p.2

def addFront (s : List Char) (m : Module) : Module := { m with head := s ++ m.head }

/-- The module with one more item in front. What stands before a keyword belongs to no dependency. -/
def addItem (i : Item) (m : Module) : Module :=
  match i with
  | .statement ps => m.addFront (Script.source ps)
  | .dependency (.lexeme l :: clause) quoted tail =>
    ⟨l.gap, (⟨l.text, Script.source clause ++ quoted.gap, quoted.text, Script.source tail⟩, m.head) ::
      m.parts⟩
  | .dependency clause quoted tail =>
    m.addFront (Script.source clause ++ quoted.source ++ Script.source tail)

def ofItems (is : List Item) (gap : List Char) : Module := is.foldr addItem ⟨gap, []⟩

/-- The line in front of a module that names its interpreter. -/
def interpreterLine (s : List Char) : List Char :=
  match s with
  | '#' :: '!' :: _ => s.takeWhile fun c => !isLineBreak c
  | '\ufeff' :: '#' :: '!' :: _ => s.takeWhile fun c => !isLineBreak c
  | _ => []

def read? (s : List Char) : Option Module :=
  let line := interpreterLine s
  (Item.readAll? (s.drop line.length)).map fun (is, gap) => (ofItems is gap).addFront line

/-- The dependencies with the byte that each starts at. -/
def located (m : Module) : List (Nat × Dependency) := go (Text.byteLength m.head) m.parts
where
  go (start : Nat) : List (Dependency × List Char) → List (Nat × Dependency)
    | [] => []
    | (d, code) :: parts => (start, d) :: go (start + Text.byteLength d.source + Text.byteLength code) parts

def imports (m : Module) : List Dependency := (m.parts.map Prod.fst).filter Dependency.isImport

end Module

namespace Dependency

def span (start : Nat) (d : Dependency) : Span := ⟨start, start + Text.byteLength d.source⟩

/-- Where the source stands without its quotes. -/
def specifierSpan (start : Nat) (d : Dependency) : Span :=
  let start := start + Text.byteLength (d.keyword ++ d.clause)
  ⟨start + 1, start + Text.byteLength d.quoted - 1⟩

end Dependency

end SiteBuild.Script
