import SiteBuild.Script.Grammar

/-!
Expressions. Operators of all ranks are read in one chain: an expression is operands with operators
between them, and only an operand that stands alone may be assigned to or start an arrow.
-/
namespace SiteBuild.Script

/-- A piece of a template. One that does not read as a text needs a function in front of it. -/
def moveTemplate (tagged : Bool) (scope : Scope) : Token → Move
  | .template continues reads =>
    if tagged || reads then
      .take (if continues then [.operand (.expression scope), .template scope tagged] else [])
    else .fail
  | _ => .fail

/-- The name of a member that every value may have. -/
def moveNamedMember : Token → Move
  | .name _ | .escapedName _ | .keyword _ => .take []
  | _ => .fail

def moveMember : Token → Move
  | .privateName _ => .take []
  | t => moveNamedMember t

/-- A value in brackets behind an operand. -/
def indexTail (scope : Scope) : List Expectation :=
  [.operand (.expression scope), .mark .closeBracket]

/-- Operands that no operator binds tighter than. -/
def movePrimary (scope : Scope) : Token → Move
  | .number | .string | .regex => .take []
  | .template continues reads => moveTemplate false scope (.template continues reads)
  | .openParen => .take [.operand (.expression scope), .mark .closeParen]
  | .openBracket => .take [.covered .elements .list scope]
  | .openBrace => .take [.covered .properties .list scope]
  | .at => .take [.operand (.decorator scope), .decorated false scope]
  | .keyword "this" | .keyword "null" | .keyword "true" | .keyword "false" => .take []
  | .keyword "function" => .take [.function (.expression false)]
  | .keyword "class" => .take [.classHead false scope]
  | .keyword "import" => .take [.imported scope]
  | .keyword "new" => .take [.newTarget scope]
  | t => if t.isNameIn scope then .take [] else .fail

def isUnaryWord (s : String) : Bool := s = "typeof" || s = "void" || s = "delete"

/-- An operator in front of its one operand. -/
def moveUnary (k : Level) : Move :=
  if k.operates && !k.steps then .take [.operand (k.behind .unary)] else .fail

/-- `++` or `--` in front of its operand. -/
def moveStep (k : Level) : Move :=
  if k.operates && !k.steps then
    let p := if k.position = .unary then .unary else .tight
    .take [.operand { k.behind p with steps := true }]
  else .fail

def moveOperand (k : Level) : Token → Move
  | .openParen => .take [.group k]
  | .openBracket => .take [.covered .elements .list k.scope, .listed k]
  | .openBrace => .take [.covered .properties .list k.scope, .listed k]
  | .sign | .not => moveUnary k
  | .step => moveStep k
  | .privateName _ =>
    if k.ins && (k.position = .lead || k.position = .loose) then
      .take [.mark (.keyword "in"), .operand (k.behind .tight)]
    else .fail
  | .keyword s =>
    if isUnaryWord s then moveUnary k
    else if s = "super" then .take [.superMember k]
    else (movePrimary k.scope (.keyword s)).followedBy [.rest k .value]
  | .name s =>
    if s = "async" then .take [.async k]
    else if s = "await" && k.scope.awaits then moveUnary k
    else if s = "yield" && k.scope.yields then
      if k.position = .lead then .take [.yielded (k.assigning .value)] else .fail
    else .take [.rest k .name]
  | .escapedName s =>
    if (Token.escapedName s).isNameIn k.scope then .take [.rest k .name] else .fail
  | t => (movePrimary k.scope t).followedBy [.rest k .value]

/-- Leaves an expression whose last operand has the shape. -/
def Level.finish (s : Shape) (k : Level) : Move :=
  if s.pending && !(k.cover && k.shape.isNone) then .fail else .leave (k.shape.getD s)

def moveBinary (k : Level) : Rank → Move
  | .power => if k.position = .unary then .fail else .take [.operand (k.behind .tight)]
  | .tight => .take [.operand (k.behind .tight)]
  | .loose => .take [.operand (k.behind .loose)]
  | r =>
    if k.choice.all (· = r) then .take [.operand { k.behind .loose with choice := some r }]
    else .fail

/-- The rank of an operator between two operands. -/
def Token.rank? (ins : Bool) : Token → Option Rank
  | .star | .sign => some .tight
  | .binary r => some r
  | .keyword s => if s = "instanceof" || (s = "in" && ins) then some .tight else none
  | _ => none

/-- What may follow an operand that no members and calls follow. -/
def moveOperator (k : Level) (before : Operand) (t : Token) : Move :=
  let s := before.shape
  if t = .assign then
    if k.position = .lead && s.assigns then .take [.operand (k.assigning s.assigned)] else .fail
  else if t = .update then
    if k.position = .lead && s.place then .take [.operand (k.assigning .value)] else .fail
  else if t = .comma && k.commas then
    if s.pending then .fail else .take [.operand k.anew]
  else if before.reach = .nothing || !k.operates then k.finish s
  else if t = .question then
    if s.pending then .fail
    else .take [.operand (.assignment k.scope), .mark .colon, .operand k.anew]
  else
    match t.rank? k.ins with
    | some r => if s.pending then .fail else moveBinary k r
    | none => k.finish s

/-- Whether a token opens a member, a call or a template behind an operand. -/
def Token.extends (p : Position) : Token → Bool
  | .dot | .optionalDot | .openParen | .template _ _ => true
  | .openBracket => p ≠ .decorator
  | _ => false

/-- Members, calls and templates behind an operand. -/
def moveExtension (k : Level) (r : Reach) : Token → Move
  | .dot => .take [.member, .rest k (if r = .chain then .chained else .member)]
  | .optionalDot => .take [.optionalMember k.scope, .rest k .chained]
  | .openBracket =>
    .take (indexTail k.scope ++ [.rest k (if r = .chain then .chained else .member)])
  | .openParen =>
    .take [.entries .arguments k.scope, .rest k (if r = .chain then .chained else .value)]
  | t => if r = .chain then .fail else (moveTemplate true k.scope t).followedBy [.rest k .value]

/-- What may follow an operand. A line's end in front of the token is `broken`. -/
def moveRest (k : Level) (before : Operand) (broken : Bool) (t : Token) : Move :=
  let more := before.reach = .members || before.reach = .chain
  if t = .arrow then
    match before.arrow with
    | some async => if k.position = .lead && !broken then .take [.arrowBody async k] else .fail
    | none => .fail
  else if more && t.extends k.position then
    if before.shape.pending then .fail else moveExtension k before.reach t
  else if more && t = .step && !broken && k.operates then
    if before.shape.place && !k.steps then .take [.rest k .stepped] else .fail
  else if k.steps then
    if before.shape.place then moveOperator { k with steps := false } .stepped t else .fail
  else moveOperator k before t

/-- An entry of a list that may turn out to be a pattern, and what stands behind it. -/
def coveredEntry (c : Cover) (soFar : Shape) (scope : Scope) (t : Token) : Move :=
  (moveOperand (.entry scope) t).followedBy [.coveredMore c .plain soFar scope]

def moveCoveredMore (c : Cover) (e : Entry) (soFar : Shape) (scope : Scope) (s : Shape) (t : Token) :
    Move :=
  let shape := match e with
    | .plain => soFar.add s
    | .rest => if c = .properties then soFar.addNamedRest s else soFar.addRest s
    | .counted => soFar
  if t = .comma then .take [.covered c (if e = .rest then shape.spoiled else shape) scope]
  else if t = c.close then .moveOn [] shape
  else .fail

/-- Behind `(`: an expression, or the parameters of an arrow. -/
def moveGroup (k : Level) : Token → Move
  | .closeParen => if k.position = .lead then .take [.arrow, .arrowBody false k] else .fail
  | .ellipsis =>
    if k.position = .lead then
      .take [.binding k.scope, .mark .closeParen, .arrow, .arrowBody false k]
    else .fail
  | t => (moveOperand (.entry k.scope) t).followedBy [.groupMore k none]

def moveGroupMore (k : Level) (soFar : Option Shape) (s : Shape) : Token → Move
  | .comma => .take [.groupNext k ((soFar.getD .list).add s)]
  | .closeParen => .take [.rest k (.group ((soFar.getD .list).add s) soFar.isNone s)]
  | _ => .fail

/-- Behind a comma in parentheses. -/
def moveGroupNext (k : Level) (soFar : Shape) (t : Token) : Move :=
  if t = .closeParen || t = .ellipsis then
    if soFar.binds then moveGroup k t else .fail
  else (moveOperand (.entry k.scope) t).followedBy [.groupMore k (some soFar)]

def moveArrow (broken : Bool) (t : Token) : Move :=
  if t = .arrow && !broken then .take [] else .fail

def moveArrowBody (async : Bool) (k : Level) : Token → Move
  | .openBrace => .take [.statements (.function async false), .rest k .closed]
  | t =>
    (moveOperand { Level.assignment (.function async false) with ins := k.ins } t).followedBy
      [.rest k .closed]

/-- Behind the word `async`. -/
def moveAsync (k : Level) (broken : Bool) (t : Token) : Move :=
  if broken then moveRest k .name broken t
  else if t = .keyword "function" then .take [.function (.expression true), .rest k .value]
  else if t = .openParen then .take [.covered .arguments .list k.scope, .asyncRest k]
  else if k.position = .lead && t.isNameIn (.function true false) then
    .take [.arrow, .arrowBody true k]
  else moveRest k .name broken t

/-- Behind the word `yield`. -/
def moveYielded (k : Level) (broken : Bool) (t : Token) : Move :=
  if t = .star && !broken then .take [.operand k]
  else if t.startsOperand && !broken then moveOperand k t
  else moveRest k .closed broken t

def moveOptionalMember (scope : Scope) : Token → Move
  | .openBracket => .take (indexTail scope)
  | .openParen => .take [.entries .arguments scope]
  | t => moveMember t

def moveSuperMember (k : Level) : Token → Move
  | .dot => .take [.namedMember, .rest k .member]
  | .openBracket => .take (indexTail k.scope ++ [.rest k .member])
  | .openParen => .take [.entries .arguments k.scope, .rest k .value]
  | _ => .fail

def moveSuperCallee (scope : Scope) : Token → Move
  | .dot => .take [.namedMember, .calleeRest scope]
  | .openBracket => .take (indexTail scope ++ [.calleeRest scope])
  | _ => .fail

/-- What is to be made. A module that is loaded on the way is not. -/
def moveCallee (scope : Scope) : Token → Move
  | .keyword "import" => .take [.mark .dot, .word "meta", .calleeRest scope]
  | .keyword "super" => .take [.superCallee scope]
  | t => (movePrimary scope t).followedBy [.calleeRest scope]

/-- Behind `new`: what is to be made, or `.target`. -/
def moveNewTarget (scope : Scope) : Token → Move
  | .dot => .take [.word "target"]
  | t => moveCallee scope t

def moveCalleeRest (scope : Scope) (s : Shape) (t : Token) : Move :=
  if s.pending then .fail
  else match t with
    | .dot => .take [.member, .calleeRest scope]
    | .openBracket => .take (indexTail scope ++ [.calleeRest scope])
    | .template continues reads =>
      (moveTemplate true scope (.template continues reads)).followedBy [.calleeRest scope]
    | .openParen => .take [.entries .arguments scope]
    | .optionalDot => .fail
    | _ => .leave .value

/-- Behind the word `import` within an expression. -/
def moveImported (scope : Scope) : Token → Move
  | .openParen => .take [.operand (.assignment scope), .importedMore false scope]
  | .dot => .take [.importedMember scope]
  | _ => .fail

def moveImportedMember (scope : Scope) : Token → Move
  | .name "meta" => .take []
  | .name "source" | .name "defer" =>
    .take [.mark .openParen, .operand (.assignment scope), .importedMore false scope]
  | _ => .fail

/-- Behind a source, or behind the attributes that may follow it. -/
def moveImportedMore (last : Bool) (scope : Scope) : Token → Move
  | .closeParen => .take []
  | .comma => .take [if last then .mark .closeParen else .importedNext scope]
  | _ => .fail

def moveImportedNext (scope : Scope) : Token → Move
  | .closeParen => .take []
  | t => (moveOperand (.assignment scope) t).followedBy [.importedMore true scope]

/-- Behind a decorator of a class. -/
def moveDecorated (named : Bool) (scope : Scope) : Token → Move
  | .at => .take [.operand (.decorator scope), .decorated named scope]
  | .keyword "class" => .take [.classHead named scope]
  | _ => .fail

/-- The name of a member, which may be computed. -/
def moveKey (scope : Scope) : Token → Move
  | .name _ | .escapedName _ | .keyword _ | .number | .string => .take []
  | .openBracket => .take [.operand (.assignment scope), .mark .closeBracket]
  | _ => .fail

/-- A method of an object, with what stands behind it. -/
def methodTail (tail : List Expectation) (soFar : Shape) (scope : Scope) : List Expectation :=
  tail ++ [.coveredMore .properties .counted soFar.spoiled scope]

/-- Behind the name of a property. -/
def movePropertyRest (soFar : Shape) (scope : Scope) : Token → Move
  | .colon => .take [.operand (.entry scope), .coveredMore .properties .plain soFar scope]
  | .openParen => .take (methodTail ((functionTail (.function false false)).drop 1) soFar scope)
  | _ => .fail

/-- Behind a property's name that may also stand for a value. -/
def movePropertyName (soFar : Shape) (scope : Scope) : Token → Move
  | .assign =>
    .take [.operand (.assignment scope),
      .coveredMore .properties .counted (soFar.add .presetName) scope]
  | .comma => .take [.covered .properties (soFar.add .name) scope]
  | .closeBrace => .moveOn [] (soFar.add .name)
  | t => movePropertyRest soFar scope t

/-- Behind `get` or `set`. -/
def movePropertyAccessor (setter : Bool) (soFar : Shape) (scope : Scope) (t : Token) : Move :=
  if t.startsKey then
    (moveKey scope t).followedBy (methodTail (accessorTail setter) soFar scope)
  else movePropertyName soFar scope t

def movePropertyAsync (soFar : Shape) (scope : Scope) (broken : Bool) (t : Token) : Move :=
  if t = .star && !broken then
    .take (.key scope :: methodTail (functionTail (.function true true)) soFar scope)
  else if t.startsKey && !broken then
    (moveKey scope t).followedBy (methodTail (functionTail (.function true false)) soFar scope)
  else movePropertyName soFar scope t

def moveProperty (soFar : Shape) (scope : Scope) (t : Token) : Move :=
  if t = .star then
    .take (.key scope :: methodTail (functionTail (.function false true)) soFar scope)
  else if t = .name "get" then .take [.propertyAccessor false soFar scope]
  else if t = .name "set" then .take [.propertyAccessor true soFar scope]
  else if t = .name "async" then .take [.propertyAsync soFar scope]
  else if t.isNameIn scope then .take [.propertyName soFar scope]
  else (moveKey scope t).followedBy [.propertyRest soFar scope]

/-- Behind the mark that opens a list, or behind a comma in it. -/
def moveCovered (c : Cover) (soFar : Shape) (scope : Scope) (t : Token) : Move :=
  if t = c.close then .moveOn [] soFar
  else if t = .ellipsis then
    .take [.operand (.entry scope), .coveredMore c .rest soFar scope]
  else match c with
    | .elements =>
      if t = .comma then .take [.covered .elements soFar scope]
      else coveredEntry .elements soFar scope t
    | .arguments => coveredEntry .arguments soFar scope t
    | .properties => moveProperty soFar scope t

end SiteBuild.Script
