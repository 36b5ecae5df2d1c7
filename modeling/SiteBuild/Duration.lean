/-!
The text of a span of time: the largest unit that the span reaches, with two places.
-/
namespace SiteBuild.Duration

/-- A quotient rounded to nearest; a half goes to the even neighbour. -/
def roundDiv (n d : Nat) : Nat :=
  let q := n / d
  let r := 2 * (n % d)
  if d < r ∨ (r = d ∧ q % 2 = 1) then q + 1 else q

/-- The unit is chosen before rounding, so that 999,999 ns is 1000 µs. -/
def unit (nanos : Nat) : Nat × String :=
  if 1000000000 ≤ nanos then (1000000000, "s")
  else if 1000000 ≤ nanos then (1000000, "ms")
  else if 1000 ≤ nanos then (1000, "µs")
  else (1, "ns")

def text (nanos : Nat) : String :=
  let (size, name) := unit nanos
  let hundredths := roundDiv (nanos * 100) size
  let places := toString (hundredths % 100)
  let places := if hundredths % 100 < 10 then "0" ++ places else places
  toString (hundredths / 100) ++ "." ++ places ++ name

end SiteBuild.Duration
