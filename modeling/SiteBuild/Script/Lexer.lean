import SiteBuild.Script.Munch
import SiteBuild.Text.Blank
import SiteBuild.Text.Match

/-!
Reading one token of a script. Every reader counts the characters that it takes, so that a text is
cut at its tokens and nothing of it is lost. What stands in front of a token, blanks and comments, is
its gap. A slash and a closing brace are read as the place asks.
-/
namespace SiteBuild.Script

/-- Blanks between tokens; the byte order mark and the blank without a width are among them. -/
def isGap (c : Char) : Bool := Text.isBlank c || c = '\ufeff' || c = '\u200b'

/-- Where the reader of a gap stands. -/
inductive GapPlace
  | plain
  | lineComment
  /-- At the star that opens a comment. -/
  | opening
  | comment
  /-- At the slash that closes a comment. -/
  | closing

/-- The place behind one more character of a gap, given the one behind it, and whether a line ends
there. -/
def gapStep (p : GapPlace) (c : Char) (behind : Option Char) : Option (GapPlace × Bool) :=
  match p with
  | .plain =>
    if c = '/' && behind = some '/' then some (.lineComment, false)
    else if c = '/' && behind = some '*' then some (.opening, false)
    else if isGap c then some (.plain, isLineBreak c)
    else none
  | .lineComment => some (if isLineBreak c then (.plain, true) else (.lineComment, false))
  | .opening => some (.comment, false)
  | .comment =>
    some (if c = '*' && behind = some '/' then (.closing, false) else (.comment, isLineBreak c))
  | .closing => some (.plain, false)

/-- The length of a gap, and whether a line ends in it. A comment has to be closed. -/
def gapLength (p : GapPlace) (n : Nat) (broken : Bool) : List Char → Option (Nat × Bool)
  | [] =>
    match p with
    | .plain | .lineComment => some (n, broken)
    | _ => none
  | c :: s =>
    match gapStep p c s.head? with
    | some (p, b) => gapLength p (n + 1) (broken || b) s
    | none => some (n, broken)

/-- What a slash or a closing brace stands for. -/
inductive Goal
  /-- A slash opens a regular expression. -/
  | operand
  /-- A slash divides. -/
  | operator
  /-- A brace goes on with a template. -/
  | template
  deriving DecidableEq, Repr

/-- Whether a text begins with a mark. In front of a digit a question mark and a dot are two marks. -/
def startsWith (s : List Char) (m : String × Token) : Bool :=
  m.1.toList.isPrefixOf s && !(m.2 = .optionalDot && (s.drop 2).head?.any Char.isDigit)

/-- A mark at the head of a text, and its length. -/
def readMark (s : List Char) : Option (Token × Nat) :=
  (marks.find? (startsWith s)).map fun m => (m.2, m.1.length)

/-- One token at the head of a text, given its first character, and its length. -/
def readToken (goal : Goal) (c : Char) (s : List Char) : Option (Token × Nat) :=
  if c = '\x27' || c = '\x22' then readTo (QuotePlace.step c) QuotePlace.token? .text 1 s
  else if c = '\x60' || (c = '\x7d' && goal = .template) then
    readTo TemplatePlace.step TemplatePlace.token? (.text true) 1 s
  else if c.isDigit || (c = '.' && s.head?.any Char.isDigit) then
    readTo NumberPlace.step NumberPlace.token? (.start c) 1 s
  else if c = '/' && goal = .operand then
    readTo RegexPlace.step RegexPlace.token? (.body false) 1 s
  else if c = '#' then readTo NameReader.step NameReader.privateToken? .start 1 s
  else if Text.isIdentifierStart c || c = '\\' then
    readTo NameReader.step NameReader.token? .start 0 (c :: s)
  else readMark (c :: s)

/-- A token with the gap in front of it and its spelling. -/
structure Lexeme where
  gap : List Char
  /-- Whether a line ends in the gap. -/
  broken : Bool
  token : Token
  text : List Char
  deriving DecidableEq, Repr

def Lexeme.source (l : Lexeme) : List Char := l.gap ++ l.text

/-- The token behind a gap, and the rest of the text. At the end of the text it has no spelling. -/
def nextBehind (goal : Goal) (gap : List Char) (broken : Bool) : List Char → Option (Lexeme × List Char)
  | [] => some (⟨gap, broken, .finish, []⟩, [])
  | c :: s =>
    (readToken goal c s).map fun (token, n) =>
      (⟨gap, broken, token, c :: s.take (n - 1)⟩, s.drop (n - 1))

/-- The next token of a text, and the rest behind it. -/
def next (goal : Goal) (s : List Char) : Option (Lexeme × List Char) :=
  (gapLength .plain 0 false s).bind fun (n, broken) => nextBehind goal (s.take n) broken (s.drop n)

/-- Whether a line ends in front of the next token. -/
def lineEnds (s : List Char) : Bool := (gapLength .plain 0 false s).any Prod.snd

end SiteBuild.Script
