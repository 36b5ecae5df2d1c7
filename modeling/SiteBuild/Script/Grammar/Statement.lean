import SiteBuild.Script.Grammar.Declaration

/-!
Statements. A statement without a semicolon ends where a line, a block or the text ends.
-/
namespace SiteBuild.Script

def moveEnding (broken : Bool) : Token → Move
  | .semicolon => .take []
  | .closeBrace | .finish => .leave .value
  | _ => if broken then .leave .value else .fail

/-- The move of an expectation that ends a statement. -/
def Move.ended (m : Move) (broken : Bool) (t : Token) : Move :=
  (m.followedBy [.ending]).orElse fun _ => moveEnding broken t

def moveStatementOperand (scope : Scope) (t : Token) : Move :=
  (moveOperand (.expression scope) t).followedBy [.ending]

/-- A value in parentheses. -/
def condition (scope : Scope) : List Expectation :=
  [.mark .openParen, .operand (.expression scope), .mark .closeParen]

def block (scope : Scope) : List Expectation := [.mark .openBrace, .statements scope]

/-- A statement that begins with a word. -/
def moveWordStatement (scope : Scope) (s : String) : Move :=
  match s with
  | "var" => .take [.declarator (.mutables scope none)]
  | "const" => .take [.declarator (.constants scope none)]
  | "function" => .take [.function (.declaration false scope)]
  | "class" => .take [.classHead true scope]
  | "if" => .take (condition scope ++ [.statement scope, .otherwise scope])
  | "for" => .take [.loop scope]
  | "while" => .take (condition scope ++ [.statement scope])
  | "with" => .take (condition scope ++ [.statement scope])
  | "do" =>
    .take (.statement scope :: .mark (.keyword "while") :: condition scope ++ [.optionalSemicolon])
  | "return" => if scope.returns then .take [.optionalValue scope, .ending] else .fail
  | "throw" => .take [.sameLineValue scope, .ending]
  | "break" => .take [.optionalLabel scope, .ending]
  | "continue" => .take [.optionalLabel scope, .ending]
  | "switch" => .take (condition scope ++ [.mark .openBrace, .cases false scope])
  | "try" => .take (block scope ++ [.handler scope])
  | "debugger" => .take [.ending]
  | "import" => .take [.importStart scope]
  | "export" => .take [.exportStart]
  | s => moveStatementOperand scope (.keyword s)

/-- Statements of both kinds; the `body` of another statement declares nothing. -/
def moveNamedStatement (body : Bool) (scope : Scope) (s : String) : Move :=
  if s = "let" then .take [.letStart body scope]
  else if s = "async" then .take [.asyncStart body scope]
  else if s = "await" && scope.awaits && !body then .take [.awaitStart scope]
  else if s = "using" && !body then .take [.usingStart scope]
  else if isNameIn scope s then .take [.labelled scope]
  else moveStatementOperand scope (.name s)

def moveStatement (body : Bool) (scope : Scope) (t : Token) : Move :=
  if t = .openBrace then .take [.statements scope]
  else if t = .semicolon then .take []
  else if t = .at && !body then .take [.operand (.decorator scope), .decorated true scope]
  else match t with
    | .keyword s => moveWordStatement scope s
    | .name s => moveNamedStatement body scope s
    | .escapedName _ => if t.isNameIn scope then .take [.labelled scope] else .fail
    | t => moveStatementOperand scope t

/-- The statement under a condition, a loop or a label. -/
def moveBody (scope : Scope) (t : Token) : Move :=
  if t = .keyword "const" || t = .keyword "class" then .fail
  else if t = .keyword "function" then .take [.function (.body scope)]
  else moveStatement true scope t

/-- Statements up to a closing brace. -/
def moveStatements (scope : Scope) : Token → Move
  | .closeBrace => .take []
  | t => (moveStatement false scope t).followedBy [.statements scope]

def moveCases (inside : Bool) (scope : Scope) : Token → Move
  | .closeBrace => .take []
  | .keyword "case" => .take [.operand (.expression scope), .mark .colon, .cases true scope]
  | .keyword "default" => .take [.mark .colon, .cases true scope]
  | t => if inside then (moveStatement false scope t).followedBy [.cases true scope] else .fail

/-- An expression statement behind the name that it begins with. -/
def moveNameRest (scope : Scope) (broken : Bool) (t : Token) : Move :=
  (moveRest (.expression scope) .name broken t).ended broken t

/-- Behind a name at the start of a statement. -/
def moveLabelled (scope : Scope) (broken : Bool) (t : Token) : Move :=
  if t = .colon then .take [.statement scope] else moveNameRest scope broken t

/-- Behind `async` at the start of a statement. -/
def moveAsyncStart (body : Bool) (scope : Scope) (broken : Bool) (t : Token) : Move :=
  if t = .colon then .take [.statement scope]
  else if t = .keyword "function" && !broken then
    if body then .fail else .take [.function (.declaration true scope)]
  else (moveAsync (.expression scope) broken t).ended broken t

/-- The values that a loop goes through, and its body. -/
def moveLoopKind (h : LoopHead) (s : Shape) (t : Token) : Move :=
  if t = .name "of" then
    if s.receives then
      .take [.operand (.assignment h.scope), .mark .closeParen, .statement h.scope]
    else .fail
  else if h.awaits || s.pending then .fail
  else if t = .semicolon then .take [.loopTest h.scope]
  else if t = .keyword "in" && s.receives then
    .take [.operand (.expression h.scope), .mark .closeParen, .statement h.scope]
  else .fail

/-- Behind an initial value: a further name, or the end of the declaration. -/
def moveDeclarators (d : Declaration) (broken : Bool) (t : Token) : Move :=
  if t = .comma then .take [.declarator d]
  else match d.loop with
    | none => moveEnding broken t
    | some h =>
      if (t = .semicolon && d.owing) || (t = .keyword "in" && d.disposed) then .fail
      else moveLoopKind h .name t

/-- Behind a name or a pattern that is declared. -/
def moveDeclared (d : Declaration) (required broken : Bool) (t : Token) : Move :=
  if t = .assign then
    .take [.operand { Level.assignment d.scope with ins := d.loop.isNone }, .declarators d]
  else if required && d.loop.isNone then .fail
  else moveDeclarators { d with owing := d.owing || required } broken t

/-- A pattern has nothing to take apart without an initial value. -/
def moveDeclarator (d : Declaration) (t : Token) : Move :=
  let pattern := t = .openBracket || t = .openBrace
  (if d.disposed then moveBindingName d.scope t else moveBinding d.scope t).followedBy
    [.declared d (d.constant || pattern)]

/-- Behind `let` at the start of a statement: a declaration, unless it is used as a name. -/
def moveLetStart (body : Bool) (scope : Scope) (broken : Bool) (t : Token) : Move :=
  if t = .assign || t = .update || t = .dot || t = .openParen || (t.rank? true).isSome then
    moveNameRest scope broken t
  else if t = .semicolon || (body && t ≠ .openBracket) then moveEnding broken t
  else if body then .fail
  else moveDeclarator (.mutables scope none) t

/-- Behind `using` at the start of a statement. -/
def moveUsingStart (scope : Scope) (broken : Bool) (t : Token) : Move :=
  if t.isNameIn scope && !broken then moveDeclarator (.disposables scope none) t
  else moveLabelled scope broken t

/-- Behind `await` at the start of a statement. -/
def moveAwaitStart (scope : Scope) (broken : Bool) (t : Token) : Move :=
  if t = .name "using" && !broken then .take [.awaitUsing scope]
  else (moveOperand ((Level.expression scope).behind .unary) t).followedBy [.ending]

def moveAwaitUsing (scope : Scope) (broken : Bool) (t : Token) : Move :=
  if t.isNameIn scope && !broken then moveDeclarator (.disposables scope none) t
  else (moveRest ((Level.expression scope).behind .unary) .name broken t).ended broken t

def moveOptionalValue (scope : Scope) (broken : Bool) (t : Token) : Move :=
  if t.startsOperand && !broken then moveOperand (.expression scope) t else .leave .value

def moveOptionalLabel (scope : Scope) (broken : Bool) (t : Token) : Move :=
  if t.isNameIn scope && !broken then .take [] else .leave .value

def moveHandler (scope : Scope) : Token → Move
  | .keyword "catch" => .take [.caught scope]
  | .keyword "finally" => .take (block scope)
  | _ => .fail

/-- Behind the word `catch`. -/
def moveCaught (scope : Scope) : Token → Move
  | .openParen => .take (.binding scope :: .mark .closeParen :: block scope ++ [.finalizer scope])
  | .openBrace => .take [.statements scope, .finalizer scope]
  | _ => .fail

/-- Behind the word `for`. -/
def moveLoop (scope : Scope) : Token → Move
  | .name "await" =>
    if scope.awaits then .take [.mark .openParen, .loopStart ⟨scope, true⟩] else .fail
  | .openParen => .take [.loopStart ⟨scope, false⟩]
  | _ => .fail

/-- What a loop starts with, or goes through values by. -/
def LoopHead.level (h : LoopHead) : Level :=
  { Level.expression h.scope with ins := false, cover := true }

/-- The move of an expectation with the kind of the loop below it. -/
def Move.looped (m : Move) (h : LoopHead) (t : Token) : Move :=
  (m.followedBy [.loopKind h]).orElse fun s => moveLoopKind h s t

def moveLoopStart (h : LoopHead) (t : Token) : Move :=
  if t = .semicolon && !h.awaits then .take [.loopTest h.scope]
  else if t = .keyword "var" || t = .name "let" then
    .take [.declarator (.mutables h.scope (some h))]
  else if t = .keyword "const" then .take [.declarator (.constants h.scope (some h))]
  else if t = .name "async" then .take [.loopAsync h]
  else if t = .name "using" then .take [.loopUsing h]
  else if t = .name "await" && h.scope.awaits then .take [.loopAwait h]
  else (moveOperand h.level t).followedBy [.loopKind h]

/-- Behind `async` in the head of a loop. Only a loop that waits takes it for a name where `of`
follows. -/
def moveLoopAsync (h : LoopHead) (broken : Bool) (t : Token) : Move :=
  if t = .name "of" then
    if h.awaits then moveLoopKind h .name t
    else if broken then .fail
    else .take [.arrow, .arrowBody true h.level, .loopKind h]
  else (moveAsync h.level broken t).looped h t

def moveLoopUsing (h : LoopHead) (broken : Bool) (t : Token) : Move :=
  if t ≠ .name "of" && t.isNameIn h.scope && !broken then
    moveDeclarator (.disposables h.scope (some h)) t
  else (moveRest h.level .name broken t).looped h t

/-- Behind `await` in the head of a loop. -/
def moveLoopAwait (h : LoopHead) (broken : Bool) (t : Token) : Move :=
  if t = .name "using" && !broken then .take [.loopAwaitUsing h]
  else (moveOperand (h.level.behind .unary) t).followedBy [.loopKind h]

def moveLoopAwaitUsing (h : LoopHead) (broken : Bool) (t : Token) : Move :=
  if t.isNameIn h.scope && !broken then moveDeclarator (.disposables h.scope (some h)) t
  else (moveRest (h.level.behind .unary) .name broken t).looped h t

def moveLoopTest (scope : Scope) : Token → Move
  | .semicolon => .take [.loopStep scope]
  | t => (moveOperand (.expression scope) t).followedBy [.mark .semicolon, .loopStep scope]

def moveLoopStep (scope : Scope) : Token → Move
  | .closeParen => .take [.statement scope]
  | t =>
    (moveOperand (.expression scope) t).followedBy [.mark .closeParen, .statement scope]

end SiteBuild.Script
