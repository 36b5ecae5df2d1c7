import SiteBuild.Script.Grammar.Expression

/-!
Functions, classes, patterns and the lists that all of these are made of.
-/
namespace SiteBuild.Script

def moveBindingName (scope : Scope) (t : Token) : Move :=
  if t.isNameIn scope then .take [] else .fail

/-- Names and the patterns that take a value apart. -/
def moveBinding (scope : Scope) : Token → Move
  | .openBracket => .take [.entries .elementPattern scope]
  | .openBrace => .take [.entries .propertyPattern scope]
  | t => moveBindingName scope t

/-- Behind the name of a property that a pattern takes. -/
def patternValue (scope : Scope) : List Expectation :=
  [.binding scope, .initial .propertyPattern scope]

/-- An entry of a pattern that takes members. -/
def moveProperties (scope : Scope) (t : Token) : Move :=
  if t = .ellipsis then .take [.bindingName scope, .mark .closeBrace]
  else if t.isNameIn scope then .take [.patternName scope]
  else (moveKey scope t).followedBy (.mark .colon :: patternValue scope)

/-- Behind a name that cannot be bound here: the name that is bound in its place. -/
def importedAs : List Expectation := [.word "as", .bindingName .module, .more .importNames .module]

def moveImportSpecifier (t : Token) : Move :=
  if t.isNameIn .module then .take [.importName]
  else match t with
    | .name _ | .escapedName _ | .keyword _ | .string => .take importedAs
    | _ => .fail

/-- Words that no module may export under as names of its own. -/
def isReserved (s : String) : Bool :=
  keywords.contains s ||
    ["await", "yield", "let", "static", "implements", "interface", "package", "private",
      "protected", "public"].contains s

def moveExportSpecifier (l : Listing) : Token → Move
  | .name s | .escapedName s =>
    if l = .localNames && isReserved s then .fail else .take [.exportName l]
  | .keyword _ | .string => if l = .localNames then .fail else .take [.exportName l]
  | _ => .fail

/-- An entry of a list, with what stands behind it. -/
def moveEntry (l : Listing) (scope : Scope) (t : Token) : Move :=
  match l with
  | .arguments =>
    if t = .ellipsis then .take [.operand (.assignment scope), .more .arguments scope]
    else (moveOperand (.assignment scope) t).followedBy [.more .arguments scope]
  | .parameters =>
    if t = .ellipsis then .take [.binding scope, .mark .closeParen]
    else (moveBinding scope t).followedBy [.initial .parameters scope]
  | .elementPattern =>
    if t = .comma then .take [.entries .elementPattern scope]
    else if t = .ellipsis then .take [.binding scope, .mark .closeBracket]
    else (moveBinding scope t).followedBy [.initial .elementPattern scope]
  | .propertyPattern => moveProperties scope t
  | .importNames => moveImportSpecifier t
  | .exportNames => moveExportSpecifier .exportNames t
  | .localNames => moveExportSpecifier .localNames t
  | .attributes =>
    match t with
    | .name _ | .escapedName _ | .keyword _ | .string =>
      .take [.mark .colon, .mark .string, .more .attributes scope]
    | _ => .fail

def moveEntries (l : Listing) (scope : Scope) (t : Token) : Move :=
  if t = l.close then .take [] else moveEntry l scope t

def moveMore (l : Listing) (scope : Scope) (t : Token) : Move :=
  if t = .comma then .take [.entries l scope]
  else if t = l.close then .take []
  else .fail

def moveInitial (l : Listing) (scope : Scope) (t : Token) : Move :=
  if t = .assign then .take [.operand (.assignment scope), .more l scope] else moveMore l scope t

def movePatternName (scope : Scope) (t : Token) : Move :=
  if t = .colon then .take (patternValue scope) else moveInitial .propertyPattern scope t

/-- Where a function's name may stand; `scope` is that of its body. -/
def moveFunctionName (scope : Scope) (h : FunctionHead) (t : Token) : Move :=
  if t.isNameIn (h.outer.getD scope) then .take (functionTail scope)
  else if t = .openParen && !h.named then .take ((functionTail scope).drop 1)
  else .fail

/-- Behind the word `function`. -/
def moveFunction (h : FunctionHead) (t : Token) : Move :=
  if t = .star && h.generates then .take [.functionName (.function h.async true) h]
  else moveFunctionName (.function h.async false) h t

/-- Behind the parameter of a function that takes the value of a member. -/
def moveSetterRest (scope : Scope) : Token → Move
  | .assign => .take [.operand (.assignment scope), .setterClose]
  | .comma => .take [.mark .closeParen]
  | .closeParen => .take []
  | _ => .fail

def moveSetterClose : Token → Move
  | .comma => .take [.mark .closeParen]
  | .closeParen => .take []
  | _ => .fail

def moveHeritage (scope : Scope) : Token → Move
  | .keyword "extends" => .take [.operand (.callee scope), .mark .openBrace, .members scope]
  | .openBrace => .take [.members scope]
  | _ => .fail

/-- Behind the word `class`. -/
def moveClassHead (named : Bool) (scope : Scope) (t : Token) : Move :=
  if t.isNameIn scope then .take [.heritage scope]
  else if named then .fail
  else moveHeritage scope t

/-- The name of a member that is no field and does not make objects. -/
def moveMemberKey (static : Bool) (scope : Scope) : Token → Move
  | .name s =>
    if s = (if static then "prototype" else "constructor") then .fail else .take []
  | .privateName s => if s = "constructor" then .fail else .take []
  | t => moveKey scope t

/-- A method behind its name, and the further members. -/
def memberTail (f scope : Scope) : List Expectation := functionTail f ++ [.members scope]

def moveMemberStart (static : Bool) (scope : Scope) (t : Token) : Move :=
  if t = .star then
    .take (.memberKey static scope :: memberTail (.function false true) scope)
  else if t = .name "get" then .take [.memberAccessor false static scope]
  else if t = .name "set" then .take [.memberAccessor true static scope]
  else if t = .name "async" then .take [.memberAsync static scope]
  else if t = .name "constructor" then .take [.memberRest true scope]
  else (moveMemberKey static scope t).followedBy [.memberRest false scope]

/-- A member of a class behind what may stand in front of any. -/
def moveMemberHead (scope : Scope) (t : Token) : Move :=
  if t = .name "static" then .take [.memberStatic scope]
  else if t = .at then .take [.operand (.decorator scope), .decoratedMember scope]
  else moveMemberStart false scope t

/-- The members of a class, up to its closing brace. -/
def moveMembers (scope : Scope) : Token → Move
  | .closeBrace => .take []
  | .semicolon => .take [.members scope]
  | t => moveMemberHead scope t

/-- A field ends at a semicolon, at a line's end, or with its class. -/
def moveFieldEnd (scope : Scope) (broken : Bool) (t : Token) : Move :=
  match t with
  | .semicolon => .take [.members scope]
  | .closeBrace => .take []
  | t => if broken then moveMembers scope t else .fail

/-- Behind the name of a member; `maker` if it is that of the method that makes objects, and of
nothing else. -/
def moveMemberRest (maker : Bool) (scope : Scope) (broken : Bool) (t : Token) : Move :=
  if t = .openParen then .take ((memberTail (.function false false) scope).drop 1)
  else if maker then .fail
  else if t = .assign then .take [.operand (.assignment .field), .fieldEnd scope]
  else moveFieldEnd scope broken t

def moveMemberAccessor (setter static : Bool) (scope : Scope) (broken : Bool) (t : Token) : Move :=
  if t.startsKey then
    (moveMemberKey static scope t).followedBy (accessorTail setter ++ [.members scope])
  else moveMemberRest false scope broken t

def moveMemberAsync (static : Bool) (scope : Scope) (broken : Bool) (t : Token) : Move :=
  if t = .star && !broken then
    .take (.memberKey static scope :: memberTail (.function true true) scope)
  else if t.startsKey && !broken then
    (moveMemberKey static scope t).followedBy (memberTail (.function true false) scope)
  else moveMemberRest false scope broken t

/-- Behind the word `static`. -/
def moveMemberStatic (scope : Scope) (broken : Bool) (t : Token) : Move :=
  if t = .openBrace then .take [.statements .block, .members scope]
  else if t.startsKey || t = .star then moveMemberStart true scope t
  else moveMemberRest false scope broken t

end SiteBuild.Script
