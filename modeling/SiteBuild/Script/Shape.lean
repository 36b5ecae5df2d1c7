import SiteBuild.Script.Token

/-!
Shapes: what the text behind an expression may still take it for. Places to assign to, patterns that
take a value apart and the parameters of an arrow are all read as expressions first.
-/
namespace SiteBuild.Script

structure Shape where
  /-- It is a name or a member. -/
  place : Bool
  /-- It is a place or a pattern of places. -/
  assigns : Bool
  /-- It is a name or a pattern of names. -/
  binds : Bool
  /-- It is one of these with a value behind it, for where none arrives. -/
  preset : Bool
  /-- It holds a name with such a value in braces, as nothing but a pattern may. -/
  pending : Bool
  deriving DecidableEq, Repr

namespace Shape

def value : Shape := ⟨false, false, false, false, false⟩

def name : Shape := ⟨true, true, true, false, false⟩

def member : Shape := ⟨true, true, false, false, false⟩

/-- Brackets or braces with nothing between them. -/
def list : Shape := ⟨false, true, true, false, false⟩

/-- A shape with a value assigned to it. -/
def assigned (s : Shape) : Shape := { s with place := false, preset := true, pending := false }

/-- A name in braces with a value assigned to it. -/
def presetName : Shape := ⟨false, true, true, true, true⟩

/-- A shape in parentheses. -/
def grouped (s : Shape) : Shape := ⟨s.place, s.place, false, false, s.pending⟩

/-- A list with an entry that no pattern holds. -/
def spoiled (s : Shape) : Shape := { value with pending := s.pending }

/-- A list with one more entry. -/
def add (s entry : Shape) : Shape :=
  ⟨false, s.assigns && entry.assigns, s.binds && entry.binds, false, s.pending || entry.pending⟩

/-- A list with an entry that takes the rest of a value. -/
def addRest (s entry : Shape) : Shape := s.add (if entry.preset then entry.spoiled else entry)

/-- A list with an entry that takes the rest of the members, which no pattern takes apart. -/
def addNamedRest (s entry : Shape) : Shape := s.add (if entry.place then entry else entry.spoiled)

/-- Whether a value may arrive at it from elsewhere than behind it. -/
def receives (s : Shape) : Bool := s.assigns && !s.preset

end Shape

end SiteBuild.Script
