import SiteBuild.Script.Lexer
import SiteBuild.Script.Shape

/-!
The grammar of scripts as a stack of expectations. Each expectation looks at one token and at the
shape of the expression in front of it, and either takes the token, with new expectations in its
place, or leaves it to the expectation below, or fails.
-/
namespace SiteBuild.Script

/-- What the function around a place allows. -/
structure Scope where
  returns : Bool
  awaits : Bool
  yields : Bool
  deriving DecidableEq, Repr

namespace Scope

/-- Outside of every function. -/
def module : Scope := ⟨false, true, false⟩

def function (async generator : Bool) : Scope := ⟨true, async, generator⟩

/-- Where values of fields are computed. -/
def field : Scope := ⟨false, false, false⟩

/-- Blocks of a class. -/
def block : Scope := ⟨false, true, false⟩

end Scope

/-- What stands in front of an operand, as far as it limits what may follow. -/
inductive Position
  /-- Nothing: the operand may be assigned to, or be the parameter of an arrow. -/
  | lead
  /-- An operator that binds less tight than a comparison. -/
  | loose
  /-- An operator that binds as tight as a comparison, or tighter. -/
  | tight
  /-- An operator of one operand, which is not raised to a power. -/
  | unary
  /-- A word that takes an operand without operators. -/
  | callee
  /-- A mark that takes an operand without operators and brackets. -/
  | decorator
  deriving DecidableEq, Repr

/-- What an expression may hold at its outermost level, and what of it was read so far. -/
structure Level where
  scope : Scope
  commas : Bool
  /-- Whether `in` is an operator. -/
  ins : Bool
  /-- Whether the text behind the expression may take it for a pattern. -/
  cover : Bool
  position : Position
  /-- Whether `++` or `--` stands in front of the operand. -/
  steps : Bool
  /-- Which of the operators that do not mix was read. -/
  choice : Option Rank
  /-- The shape of the expression, unless it is that of its one operand. -/
  shape : Option Shape
  deriving DecidableEq, Repr

namespace Level

def assignment (scope : Scope) : Level := ⟨scope, false, true, false, .lead, false, none, none⟩

def expression (scope : Scope) : Level := { assignment scope with commas := true }

/-- An entry of a list that may turn out to be a pattern. -/
def entry (scope : Scope) : Level := { assignment scope with cover := true }

def callee (scope : Scope) : Level := { assignment scope with position := .callee }

def decorator (scope : Scope) : Level := { assignment scope with position := .decorator }

/-- Whether operators may stand beside the operand. -/
def operates (k : Level) : Bool := k.position ≠ .callee && k.position ≠ .decorator

/-- The level of an operand behind an operator, given where that puts it. -/
def behind (p : Position) (k : Level) : Level :=
  { k with position := p, shape := some (k.shape.getD .value) }

/-- The level of an assigned value; `s` is the shape of the assignment. -/
def assigning (s : Shape) (k : Level) : Level := { k with shape := some (k.shape.getD s) }

/-- The level behind a comma, and of what a condition chooses last. -/
def anew (k : Level) : Level := { k with position := .lead, choice := none, shape := some .value }

end Level

/-- What may follow an operand. -/
inductive Reach
  /-- Members, calls and templates. -/
  | members
  /-- Members and calls that belong to an optional one. -/
  | chain
  /-- Operators. -/
  | operators
  | nothing
  deriving DecidableEq, Repr

structure Operand where
  shape : Shape
  /-- Whether it may be the parameters of an arrow, and whether that one waits. -/
  arrow : Option Bool
  reach : Reach
  deriving DecidableEq, Repr

namespace Operand

def ofShape (s : Shape) : Operand := ⟨s, none, .members⟩

def value : Operand := ofShape .value

def member : Operand := ofShape .member

def name : Operand := ⟨.name, some false, .members⟩

def chained : Operand := ⟨.value, none, .chain⟩

def stepped : Operand := ⟨.value, none, .operators⟩

def closed : Operand := ⟨.value, none, .nothing⟩

/-- Parentheses; `alone` says whether they hold only one expression, and `entry` is its shape. -/
def group (entries : Shape) (alone : Bool) (entry : Shape) : Operand :=
  ⟨if alone then entry.grouped else entries.spoiled, if entries.binds then some false else none,
    .members⟩

/-- A call of `async`, given the shape of what it holds. -/
def asyncCall (entries : Shape) : Operand :=
  ⟨entries.spoiled, if entries.binds then some true else none, .members⟩

end Operand

/-- Lists with commas between their entries, behind the mark that opens them. -/
inductive Listing
  | arguments
  | parameters
  | elementPattern
  | propertyPattern
  | importNames
  | exportNames
  /-- Names that the module itself holds. -/
  | localNames
  | attributes
  deriving DecidableEq, Repr

def Listing.close : Listing → Token
  | .elementPattern => .closeBracket
  | .arguments | .parameters => .closeParen
  | _ => .closeBrace

/-- Lists of expressions that may turn out to be patterns. -/
inductive Cover
  | elements
  | properties
  /-- What a call of `async` is given. -/
  | arguments
  deriving DecidableEq, Repr

def Cover.close : Cover → Token
  | .elements => .closeBracket
  | .properties => .closeBrace
  | .arguments => .closeParen

/-- How an entry of such a list counts. -/
inductive Entry
  | plain
  | rest
  /-- Its shape was counted before its end. -/
  | counted
  deriving DecidableEq, Repr

/-- What is known of a function at its first word. -/
structure FunctionHead where
  async : Bool
  /-- Whether a name has to follow. -/
  named : Bool
  /-- Whether it may be a generator. -/
  generates : Bool
  /-- The scope that its name is bound in, unless that is its own. -/
  outer : Option Scope
  deriving DecidableEq, Repr

namespace FunctionHead

def expression (async : Bool) : FunctionHead := ⟨async, false, true, none⟩

def declaration (async : Bool) (scope : Scope) : FunctionHead := ⟨async, true, true, some scope⟩

/-- The statement under a condition or a loop. -/
def body (scope : Scope) : FunctionHead := ⟨false, true, false, some scope⟩

def exported (async : Bool) : FunctionHead := ⟨async, false, true, some .module⟩

end FunctionHead

/-- The head of a loop that goes through values or counts. -/
structure LoopHead where
  scope : Scope
  /-- Whether the loop waits for each value. -/
  awaits : Bool
  deriving DecidableEq, Repr

/-- A `var`, `let`, `const` or `using`. -/
structure Declaration where
  scope : Scope
  /-- Whether an initial value has to follow a name. -/
  constant : Bool
  /-- Whether it holds names only, of what is disposed of in the end. -/
  disposed : Bool
  /-- The loop that it stands in the head of. -/
  loop : Option LoopHead
  /-- Whether an initial value is missing. -/
  owing : Bool
  deriving DecidableEq, Repr

namespace Declaration

def mutables (scope : Scope) (loop : Option LoopHead) : Declaration :=
  ⟨scope, false, false, loop, false⟩

def constants (scope : Scope) (loop : Option LoopHead) : Declaration :=
  ⟨scope, true, false, loop, false⟩

def disposables (scope : Scope) (loop : Option LoopHead) : Declaration :=
  ⟨scope, true, true, loop, false⟩

end Declaration

inductive Expectation
  | mark (t : Token)
  | word (s : String)
  /-- `=>` on the line of the parameters. -/
  | arrow
  -- lists
  | entries (l : Listing) (scope : Scope)
  | more (l : Listing) (scope : Scope)
  /-- A default value, or what `more` takes. -/
  | initial (l : Listing) (scope : Scope)
  | covered (c : Cover) (soFar : Shape) (scope : Scope)
  | coveredMore (c : Cover) (e : Entry) (soFar : Shape) (scope : Scope)
  -- expressions
  | operand (level : Level)
  | rest (level : Level) (before : Operand)
  /-- What `rest` takes, behind a list whose shape was just read. -/
  | listed (level : Level)
  | group (level : Level)
  | groupMore (level : Level) (soFar : Option Shape)
  | groupNext (level : Level) (soFar : Shape)
  | arrowBody (async : Bool) (level : Level)
  | async (level : Level)
  | asyncRest (level : Level)
  | yielded (level : Level)
  | template (scope : Scope) (tagged : Bool)
  | member
  | namedMember
  | optionalMember (scope : Scope)
  | superMember (level : Level)
  | superCallee (scope : Scope)
  | newTarget (scope : Scope)
  | calleeRest (scope : Scope)
  | imported (scope : Scope)
  | importedMember (scope : Scope)
  | importedMore (last : Bool) (scope : Scope)
  | importedNext (scope : Scope)
  | decorated (named : Bool) (scope : Scope)
  -- members of objects and classes
  | key (scope : Scope)
  | propertyName (soFar : Shape) (scope : Scope)
  | propertyRest (soFar : Shape) (scope : Scope)
  | propertyAccessor (setter : Bool) (soFar : Shape) (scope : Scope)
  | propertyAsync (soFar : Shape) (scope : Scope)
  | members (scope : Scope)
  | decoratedMember (scope : Scope)
  | memberKey (static : Bool) (scope : Scope)
  | memberRest (maker : Bool) (scope : Scope)
  | memberAccessor (setter static : Bool) (scope : Scope)
  | memberAsync (static : Bool) (scope : Scope)
  | memberStatic (scope : Scope)
  | fieldEnd (scope : Scope)
  -- functions and classes
  | function (h : FunctionHead)
  | functionName (scope : Scope) (h : FunctionHead)
  | setterRest (scope : Scope)
  | setterClose
  | classHead (named : Bool) (scope : Scope)
  | heritage (scope : Scope)
  -- patterns and declarations
  | binding (scope : Scope)
  | bindingName (scope : Scope)
  | patternName (scope : Scope)
  | declarator (d : Declaration)
  | declared (d : Declaration) (required : Bool)
  | declarators (d : Declaration)
  -- statements
  /-- The body of another statement. -/
  | statement (scope : Scope)
  | statements (scope : Scope)
  | cases (inside : Bool) (scope : Scope)
  | labelled (scope : Scope)
  | letStart (body : Bool) (scope : Scope)
  | usingStart (scope : Scope)
  | awaitStart (scope : Scope)
  | awaitUsing (scope : Scope)
  | asyncStart (body : Bool) (scope : Scope)
  | importStart (scope : Scope)
  | exportStart
  | exportSource
  | ending
  | optionalSemicolon
  | optionalValue (scope : Scope)
  | sameLineValue (scope : Scope)
  | optionalLabel (scope : Scope)
  | otherwise (scope : Scope)
  | handler (scope : Scope)
  | caught (scope : Scope)
  | finalizer (scope : Scope)
  | loop (scope : Scope)
  | loopStart (h : LoopHead)
  | loopAsync (h : LoopHead)
  | loopUsing (h : LoopHead)
  | loopAwait (h : LoopHead)
  | loopAwaitUsing (h : LoopHead)
  | loopKind (h : LoopHead)
  | loopTest (scope : Scope)
  | loopStep (scope : Scope)
  -- modules
  | item
  | decoratedItem
  | decoratedExport
  | exported
  | exportedDefault
  | exportedAsync (byDefault : Bool)
  | localEnding
  | dependency
  | importClause
  | importRest
  | importAlso
  | importSource
  | importFrom
  | importDefer
  | reexport
  | reexportAll
  | anyName
  | importName
  | exportName (l : Listing)
  | attributes
  deriving Repr

namespace Expectation

/-- How a slash or a closing brace reads where the expectation stands; a line's end in front of it is
`broken`. No expectation leaves a regular expression to the one below. -/
def goal (broken : Bool) : Expectation → Goal
  | .template _ _ => .template
  | .optionalValue _ | .yielded _ => if broken then .operator else .operand
  | .mark _ | .word _ | .arrow | .more _ _ | .initial _ _ | .coveredMore _ _ _ _ => .operator
  | .rest _ _ | .listed _ | .groupMore _ _ | .async _ | .asyncRest _ | .calleeRest _ => .operator
  | .importedMore _ _ | .propertyName _ _ | .propertyRest _ _ | .memberRest _ _ => .operator
  | .fieldEnd _ | .declared _ _ | .declarators _ | .labelled _ | .letStart _ _ => .operator
  | .usingStart _ | .awaitUsing _ | .asyncStart _ _ | .exportSource | .ending => .operator
  | .optionalSemicolon | .optionalLabel _ | .otherwise _ | .finalizer _ => .operator
  | .loopAsync _ | .loopUsing _ | .loopAwaitUsing _ | .loopKind _ => .operator
  | .exportedAsync _ | .localEnding | .attributes => .operator
  | _ => .operand

/-- Whether an expectation that leaves a token ends a statement in front of it. -/
def endsStatement : Expectation → Bool
  | .ending | .localEnding | .exportSource | .declarators _ | .declared _ _ => true
  | .labelled _ | .letStart _ _ | .usingStart _ | .awaitUsing _ | .asyncStart _ _ => true
  | .exportedAsync _ => true
  | _ => false

end Expectation

/-- What an expectation makes of a token. -/
inductive Move
  /-- Takes the token; what follows is expected next. If that is nothing, an expression of the shape
  was read. -/
  | moveOn (next : List Expectation) (s : Shape)
  /-- Leaves the token behind an expression of the shape. -/
  | leave (s : Shape)
  | fail

namespace Move

abbrev take (next : List Expectation) : Move := .moveOn next .value

/-- The move of an expectation with more of them below it. -/
def followedBy (below : List Expectation) : Move → Move
  | .moveOn next s => .moveOn (next ++ below) s
  | m => m

/-- The move of an expectation, or of another one that stands right below it. -/
def orElse (m : Move) (other : Shape → Move) : Move :=
  match m with
  | .leave s => other s
  | m => m

end Move

/-- Parameters and body behind the name of a function. -/
def functionTail (scope : Scope) : List Expectation :=
  [.mark .openParen, .entries .parameters scope, .mark .openBrace, .statements scope]

/-- Parameters and body behind the name of a function that gives or takes the value of a member. -/
def accessorTail (setter : Bool) : List Expectation :=
  let scope := Scope.function false false
  (if setter then [.mark .openParen, .binding scope, .setterRest scope]
    else [.mark .openParen, .mark .closeParen]) ++ [.mark .openBrace, .statements scope]

/-- Whether a name may be used or bound; where `await` waits it is no name. -/
def isNameIn (scope : Scope) (s : String) : Bool :=
  !(scope.awaits && s = "await") && !(scope.yields && s = "yield")

/-- Whether a token is a name that may be used or bound. -/
def Token.isNameIn (scope : Scope) : Token → Bool
  | .name s => Script.isNameIn scope s
  | .escapedName s => !keywords.contains s && Script.isNameIn scope s
  | _ => false

end SiteBuild.Script
