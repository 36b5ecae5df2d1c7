/-!
Numbers of stylesheets and the units behind them, without the zeros that say nothing.
-/
namespace SiteBuild.Stylesheet

structure Quantity where
  negative : Bool
  /-- Whether there is a point. A number with one is not whole. -/
  pointed : Bool
  /-- The digits, without zeros at their outer ends. -/
  whole : List Char
  fraction : List Char
  /-- The letters behind the number, or a percent sign. -/
  unit : List Char
  deriving DecidableEq, Repr

namespace Quantity

def trimZeros (s : List Char) : List Char := s.dropWhile (· = '0')

def trimZerosEnd (s : List Char) : List Char := (trimZeros s.reverse).reverse

/-- The point and the digits behind it, and the rest. -/
def readFraction : List Char → Option (List Char) × List Char
  | '.' :: s =>
    if s.head?.any Char.isDigit then (some (s.takeWhile Char.isDigit), s.dropWhile Char.isDigit)
    else (none, '.' :: s)
  | s => (none, s)

def read? (s : List Char) : Option Quantity :=
  let digits := if s.head? = some '+' || s.head? = some '-' then s.tail else s
  let whole := digits.takeWhile Char.isDigit
  let (fraction, unit) := readFraction (digits.dropWhile Char.isDigit)
  if whole.isEmpty && fraction.isNone then none
  else if unit = ['%'] || unit.all Char.isAlpha then
    some ⟨s.head? = some '-', fraction.isSome, trimZeros whole,
      trimZerosEnd (fraction.getD []), unit.map Char.toLower⟩
  else none

def isZero (q : Quantity) : Bool := q.whole.isEmpty && q.fraction.isEmpty

def isInteger (q : Quantity) : Bool := !q.pointed && q.unit.isEmpty

/-- The shortest spelling. A zero stands in front of the point only if nothing stands behind it. -/
def write (q : Quantity) : List Char :=
  (if q.negative then ['-'] else []) ++ (if q.isZero then ['0'] else q.whole) ++
    (if q.fraction.isEmpty then [] else '.' :: q.fraction) ++ q.unit

/-- The share of one that a number of hundredths is. -/
def share (q : Quantity) : Quantity :=
  let digits := List.replicate (2 - q.whole.length) '0' ++ q.whole
  let count := digits.length - 2
  ⟨q.negative, true, digits.take count, trimZerosEnd (digits.drop count ++ q.fraction), []⟩

end Quantity

end SiteBuild.Stylesheet
