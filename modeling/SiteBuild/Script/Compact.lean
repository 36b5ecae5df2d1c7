import SiteBuild.Script.Module

/-!
Scripts without what they can do without: blanks, line ends and comments, statements that do nothing,
and longer spellings of what has a shorter one. Expressions that follow each other are one statement.
-/
namespace SiteBuild.Script

/-- The spelling of a text between other quotes, if it means the same there. -/
def requote (quote : Char) (text : List Char) : List Char :=
  let body := text.tail.dropLast
  if body.any fun c => c = quote || c = '\\' || c = '$' then text else quote :: body ++ [quote]

def trimZeros (s : List Char) : List Char := (s.reverse.dropWhile (· = '0')).reverse

/-- A decimal number with no zero in front of its point or behind its last digit. Three zeros or more
at the end of a whole number are counted. -/
def shortenNumber (s : List Char) : List Char :=
  let whole := s.takeWhile Char.isDigit
  match s.dropWhile Char.isDigit with
  | [] =>
    let digits := trimZeros s
    if s.head? = some '0' || s.length < digits.length + 3 then s
    else digits ++ 'e' :: (toString (s.length - digits.length)).toList
  | '.' :: fraction =>
    if fraction.isEmpty || !fraction.all Char.isDigit || trimZeros fraction = [] then s
    else (if whole = ['0'] then [] else whole) ++ '.' :: trimZeros fraction
  | _ => s

namespace Piece

def token : Piece → Token
  | .ending => .semicolon
  | .lexeme l => l.token

/-- Whether a name that stands between two tokens says how something is called. -/
def isLabel (before after : Token) : Bool :=
  before = .dot || before = .optionalDot || before = .name "as" || after = .openParen ||
    after = .name "as" || (after = .colon && (before = .openBrace || before = .comma))

/-- Whether an operand that stands in front of a token has to be in one piece. -/
def isClosed (after : Token) : Bool :=
  after = .closeParen || after = .comma || after = .closeBracket || after = .semicolon

/-- The spelling of a piece between two tokens. Sources of modules stand between double quotes, other
texts between accents. -/
def compact (quote : Char) (before after : Token) : Piece → List Char
  | .ending => [';']
  | .lexeme l =>
    match l.token with
    | .string => if after = .colon then l.text else requote quote l.text
    | .number => shortenNumber l.text
    | .keyword "true" =>
      if isLabel before after || after = .dot then l.text else ['!', '0']
    | .keyword "false" =>
      if isLabel before after || after = .dot then l.text else ['!', '1']
    | .name "undefined" =>
      if (before = .openParen || before = .comma || before = .openBracket || before = .assign) &&
        isClosed after
      then "void 0".toList else l.text
    | _ => l.text

def compactAll (quote : Char) (before : Token) : List Piece → List (List Char)
  | [] => []
  | p :: ps =>
    p.compact quote before ((ps.head?.map token).getD .finish) :: compactAll quote p.token ps

end Piece

/-- Words that start a statement that is no expression. -/
def statementWords : List String :=
  ["break", "class", "const", "continue", "debugger", "do", "export", "for", "function", "if",
    "return", "switch", "throw", "try", "var", "while", "with"]

/-- Whether tokens start a statement that is no expression. -/
def startsStatement : List Token → Bool
  | .keyword s :: _ => statementWords.contains s
  | .name "let" :: t :: _ => t.startsKey || t = .openBrace
  | .name "async" :: .keyword "function" :: _ => true
  | .name _ :: .colon :: _ => true
  | .openBrace :: _ | .semicolon :: _ | .at :: _ | [] => true
  | _ => false

def isLiteral : Token → Bool
  | .number | .string | .keyword "true" | .keyword "false" | .keyword "null" => true
  | _ => false

namespace Item

def tokens : Item → List Token
  | .statement ps => ps.map Piece.token
  | .dependency clause quoted tail => (clause ++ .lexeme quoted :: tail).map Piece.token

/-- The spellings of a statement, with texts between the given quotes. -/
def texts (quote : Char) : Item → List (List Char)
  | .statement ps => Piece.compactAll quote .finish ps
  | .dependency clause quoted tail =>
    Piece.compactAll '\x22' .finish (clause ++ .lexeme quoted :: tail)

def isExpression : Item → Bool
  | .statement ps => !startsStatement (ps.map Piece.token)
  | .dependency .. => false

/-- A text in front of all statements tells how the script is to be read. -/
def isDirective (i : Item) : Bool := i.tokens = [.string, .semicolon]

/-- The name that a statement gives to something, if it does nothing else. -/
def givenName? (i : Item) : Option String :=
  match i.tokens with
  | [.keyword "const", .name s, .assign, t, .semicolon] => if isLiteral t then some s else none
  | [.keyword "var", .name s, .assign, t, .semicolon] => if isLiteral t then some s else none
  | [.name "let", .name s, .assign, t, .semicolon] => if isLiteral t then some s else none
  | .keyword "function" :: .name s :: .openParen :: _ => some s
  | _ => none

/-- Whether nothing comes of a statement among tokens. A name that is given is used nowhere else. -/
def isIdle (all : List Token) (i : Item) : Bool :=
  match i.tokens with
  | [.semicolon] | [.keyword "debugger", .semicolon] => true
  | [t, .semicolon] => isLiteral t
  | _ => i.givenName?.any fun s => all.count (.name s) = 1

/-- The spellings of statements. A comma joins expressions. -/
def sequence : List Item → List (List Char)
  | [] => []
  | i :: is =>
    let texts := i.texts '\x60'
    (if i.isExpression && is.head?.any isExpression then texts.dropLast ++ [[',']] else texts) ++
      sequence is

def compactAll (is : List Item) : List (List Char) :=
  let all := is.flatMap tokens
  (is.takeWhile isDirective).flatMap (texts '\x22') ++
    sequence ((is.dropWhile isDirective).filter (!isIdle all ·))

end Item

/-- Whether two spellings would run into each other. -/
def needGap (a b : List Char) : Bool :=
  match a.getLast?, b.head? with
  | some x, some y =>
    (Text.isIdentifierPart x && (Text.isIdentifierPart y || y = '\\' || y = '#')) ||
      (x = y && (x = '+' || x = '-' || x = '/'))
  | _, _ => false

/-- Spellings put behind each other. A semicolon in front of a closing brace is left out. -/
def joinTexts (before : List Char) : List (List Char) → List Char
  | [] => []
  | t :: ts =>
    if t = [';'] && ts.head? = some ['}'] then joinTexts t ts
    else (if needGap before t then [' '] else []) ++ t ++ joinTexts t ts

def compact? (s : String) : Option String :=
  let text := s.toList
  let line := Module.interpreterLine text
  (Item.readAll? (text.drop line.length)).map fun (is, _) =>
    String.ofList (line ++ (if line.isEmpty then [] else ['\n']) ++
      joinTexts [] (Item.compactAll is))

end SiteBuild.Script
