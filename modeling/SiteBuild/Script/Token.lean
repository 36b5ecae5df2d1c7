/-!
Tokens of scripts. A token says what the grammar may ask of it; which operator, number or text stood
there is left to its spelling.
-/
namespace SiteBuild.Script

/-- What an operator between two operands has to be told from. -/
inductive Rank
  | power
  /-- Operators that bind at least as tight as a comparison. -/
  | tight
  /-- Equality, and operators on bits. -/
  | loose
  /-- `&&` and `||`. -/
  | logic
  /-- `??`, which does not mix with `&&` and `||`. -/
  | default
  deriving DecidableEq, Repr

inductive Token
  | name (s : String)
  /-- A name that holds an escape, which keeps it from being a keyword. -/
  | escapedName (s : String)
  | keyword (s : String)
  | privateName (s : String)
  | number
  | string
  | regex
  /-- A piece of a template, which may end in front of a value to be put in. One that does not read
  as a text is left to a function that takes it apart. -/
  | template (continues reads : Bool)
  | openParen
  | closeParen
  | openBracket
  | closeBracket
  | openBrace
  | closeBrace
  | dot
  | optionalDot
  | ellipsis
  | comma
  | semicolon
  | colon
  | question
  | arrow
  | at
  | assign
  /-- An assignment that computes, such as `+=`. -/
  | update
  | star
  /-- Plus or minus. -/
  | sign
  /-- An operator in front of one operand only. -/
  | not
  /-- `++` or `--`. -/
  | step
  /-- An operator between two operands only. -/
  | binary (r : Rank)
  | finish
  deriving DecidableEq, Repr

/-- Words that are never names. -/
def keywords : List String :=
  ["break", "case", "catch", "class", "const", "continue", "debugger", "default", "delete", "do",
    "else", "enum", "export", "extends", "false", "finally", "for", "function", "if", "import",
    "in", "instanceof", "new", "null", "return", "super", "switch", "this", "throw", "true", "try",
    "typeof", "var", "void", "while", "with"]

/-- The marks, those that begin with another one in front of it. -/
def marks : List (String × Token) :=
  [(">>>=", .update), ("...", .ellipsis), ("===", .binary .loose), ("!==", .binary .loose),
    ("**=", .update), ("<<=", .update), (">>=", .update), (">>>", .binary .tight), ("&&=", .update),
    ("||=", .update), ("??=", .update), ("=>", .arrow), ("==", .binary .loose),
    ("!=", .binary .loose), ("<=", .binary .tight), (">=", .binary .tight), ("&&", .binary .logic),
    ("||", .binary .logic), ("??", .binary .default), ("?.", .optionalDot), ("++", .step),
    ("--", .step), ("+=", .update), ("-=", .update), ("*=", .update), ("/=", .update),
    ("%=", .update), ("&=", .update), ("|=", .update), ("^=", .update), ("<<", .binary .tight),
    (">>", .binary .tight), ("**", .binary .power), ("\x7b", .openBrace), ("\x7d", .closeBrace),
    ("(", .openParen), (")", .closeParen), ("[", .openBracket), ("]", .closeBracket), (".", .dot),
    (";", .semicolon), (",", .comma), ("<", .binary .tight), (">", .binary .tight), ("+", .sign),
    ("-", .sign), ("*", .star), ("/", .binary .tight), ("%", .binary .tight), ("&", .binary .loose),
    ("|", .binary .loose), ("^", .binary .loose), ("!", .not), ("~", .not), ("?", .question),
    (":", .colon), ("=", .assign), ("@", .at)]

namespace Token

/-- Whether an expression may start with the token. -/
def startsOperand : Token → Bool
  | .keyword s => s ≠ "in" && s ≠ "instanceof"
  | .name _ | .escapedName _ | .privateName _ | .number | .string | .regex | .template _ _ => true
  | .openParen | .openBracket | .openBrace | .at | .sign | .not | .step => true
  | _ => false

/-- Whether the name of a member may start with the token. -/
def startsKey : Token → Bool
  | .keyword _ | .name _ | .escapedName _ | .privateName _ | .number | .string => true
  | .openBracket => true
  | _ => false

end Token

end SiteBuild.Script
