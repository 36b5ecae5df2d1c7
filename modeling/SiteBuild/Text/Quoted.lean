import SiteBuild.Text.Digit

/-!
Texts between quotes, and texts for a screen: characters that show nothing are written as escapes.
-/
namespace SiteBuild.Text

/-- The digits of a number in base sixteen. -/
def hexDigits (n : Nat) : List Char := Nat.toDigits 16 n

/-- A character between quotes. -/
def quotedChar (c : Char) : List Char :=
  if c = '\x22' || c = '\\' then ['\\', c]
  else if c = '\n' then ['\\', 'n']
  else if c = '\r' then ['\\', 'r']
  else if c = '\t' then ['\\', 't']
  else if c = '\x00' then ['\\', '0']
  else if c < ' ' || ('\x7f' ≤ c && c ≤ '\u009f') then "\\u\x7b".toList ++ hexDigits c.toNat ++ ['}']
  else [c]

def quoted (s : String) : String :=
  "\"" ++ String.ofList (s.toList.flatMap quotedChar) ++ "\""

/-- A character that a screen would take for an order is written as its code. -/
def shownChar (c : Char) : List Char :=
  if ['\x07', '\x08', '\x0c', '\x1b', '\x7f'].contains c then
    ['\\', 'x', hexDigit (c.toNat / 16), hexDigit (c.toNat % 16)]
  else if '\u0080' ≤ c && c ≤ '\u009f' then "\\u\x7b".toList ++ hexDigits c.toNat ++ ['}']
  else [c]

def shown (s : String) : String := String.ofList (s.toList.flatMap shownChar)

theorem flatMap_eq_self {f : Char → List Char} {s : List Char} (h : ∀ c ∈ s, f c = [c]) :
    s.flatMap f = s := by
  induction s with
  | nil => rfl
  | cons c s ih => simp_all

/-- A text without such characters is shown as it is. -/
theorem shown_eq_self {s : String} (h : ∀ c ∈ s.toList, shownChar c = [c]) : shown s = s := by
  simp [shown, flatMap_eq_self h]

end SiteBuild.Text
