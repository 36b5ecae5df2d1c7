import SiteBuild.Text.Digit

/-!
JSON values, and their compact text.
-/
namespace SiteBuild

inductive Json
  | null
  | bool (b : Bool)
  /-- A number as it is spelled. -/
  | number (literal : String)
  | text (s : String)
  /-- A text with half of a surrogate pair, which no string can hold. -/
  | broken
  | array (items : List Json)
  /-- The members in their order; a name may be broken, and may be given twice. -/
  | object (members : List (Option String × Json))

namespace Json

/-- How a character is written between quotes. -/
def escape (c : Char) : List Char :=
  if c = '\x22' then ['\\', '\x22']
  else if c = '\\' then ['\\', '\\']
  else if c = '\n' then ['\\', 'n']
  else if c = '\r' then ['\\', 'r']
  else if c = '\t' then ['\\', 't']
  else if c = '\x08' then ['\\', 'b']
  else if c = '\x0c' then ['\\', 'f']
  else if c < ' ' then
    ['\\', 'u', '0', '0', Text.hexDigit (c.toNat / 16), Text.hexDigit (c.toNat % 16)]
  else [c]

def quote (s : String) : List Char := '\x22' :: s.toList.flatMap escape ++ ['\x22']

mutual

def write : Json → List Char
  | .null => "null".toList
  | .bool true => "true".toList
  | .bool false => "false".toList
  | .number literal => literal.toList
  | .text s => quote s
  | .broken => quote ""
  | .array [] => "[]".toList
  | .array (v :: vs) => '[' :: v.write ++ writeItems vs
  | .object [] => "\x7b\x7d".toList
  | .object ((name, v) :: ms) => '{' :: quote (name.getD "") ++ ':' :: v.write ++ writeMembers ms

def writeItems : List Json → List Char
  | [] => [']']
  | v :: vs => ',' :: v.write ++ writeItems vs

def writeMembers : List (Option String × Json) → List Char
  | [] => ['}']
  | (name, v) :: ms => ',' :: quote (name.getD "") ++ ':' :: v.write ++ writeMembers ms

end

def toText (v : Json) : String := String.ofList v.write

end Json

end SiteBuild
