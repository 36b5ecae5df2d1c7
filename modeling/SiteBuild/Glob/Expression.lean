import SiteBuild.Glob.Pattern
import SiteBuild.Text.Digit

/-!
Patterns as regular expressions over bytes.
-/
namespace SiteBuild.Glob

/-- Characters that mean something of their own in an expression. -/
def isOperator (c : Char) : Bool := "\\.+*?()|[]\x7b\x7d^$#&-~".toList.contains c

/-- A character that stands for itself. -/
def expressionOfChar (c : Char) : List Char :=
  if isOperator c then ['\\', c]
  else if c.toNat < 128 then [c]
  else (String.singleton c).toUTF8.toList.flatMap fun b =>
    ['\\', 'x', Text.hexDigit (b.toNat / 16), Text.hexDigit (b.toNat % 16)]

def expressionOfRange (r : Char × Char) : List Char :=
  if r.1 = r.2 then expressionOfChar r.1
  else expressionOfChar r.1 ++ '-' :: expressionOfChar r.2

mutual

def Token.expression : Token → List Char
  | .literal c => expressionOfChar c
  | .anyOne => "[^/]".toList
  | .star => "[^/]*".toList
  | .leading => "(?:/?|.*/)".toList
  | .trailing => "/.*".toList
  | .between => "(?:/|/.*/)".toList
  | .oneOf negated ranges =>
    '[' :: (if negated then ['^'] else []) ++ ranges.flatMap expressionOfRange ++ [']']
  | .alternatives branches =>
    match (branchExpressions branches).filter (!·.isEmpty) with
    | [] => []
    | es => "(?:".toList ++ List.intercalate ['|'] es ++ [')']

def tokensExpression : List Token → List Char
  | [] => []
  | t :: ts => t.expression ++ tokensExpression ts

def branchExpressions : List (List Token) → List (List Char)
  | [] => []
  | b :: bs => tokensExpression b :: branchExpressions bs

end

def Pattern.expression : Pattern → String
  | [.leading] => "(?-u)^.*$"
  | p => "(?-u)^" ++ String.ofList (tokensExpression p) ++ "$"

end SiteBuild.Glob
