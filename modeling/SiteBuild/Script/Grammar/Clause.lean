import SiteBuild.Script.Grammar.Statement

/-!
Items of a module: what stands in front of the source of an import or a re-export, the attributes
behind it, and what a module exports of its own.
-/
namespace SiteBuild.Script

def moveAnyName : Token → Move
  | .name _ | .escapedName _ | .keyword _ | .string => .take []
  | _ => .fail

def moveWord (s : String) (t : Token) : Move := if t = .name s then .take [] else .fail

/-- The names that an import puts beside a first one. -/
def moveImportAlso : Token → Move
  | .star => .take [.word "as", .bindingName .module, .word "from"]
  | .openBrace => .take [.entries .importNames .module, .word "from"]
  | _ => .fail

def moveImportRest : Token → Move
  | .comma => .take [.importAlso]
  | t => moveWord "from" t

/-- Behind the word `import`. A source that follows at once is left to the reader of the source. -/
def moveImportClause (t : Token) : Move :=
  if t = .string then .leave .value
  else if t = .name "source" then .take [.importSource]
  else if t = .name "defer" then .take [.importDefer]
  else if t.isNameIn .module then .take [.importRest]
  else moveImportAlso t

/-- Behind `import source`: the name of the source's value, unless `source` is the name. -/
def moveImportSource (t : Token) : Move :=
  if t = .name "from" then .take [.importFrom]
  else if t.isNameIn .module then .take [.word "from"]
  else moveImportRest t

/-- Behind `import source from`, where the last word may be the name of the source's value. -/
def moveImportFrom : Token → Move
  | .string => .leave .value
  | t => moveWord "from" t

def moveImportDefer : Token → Move
  | .star => moveImportAlso .star
  | t => moveImportRest t

def moveReexport : Token → Move
  | .star => .take [.reexportAll]
  | .openBrace => .take [.entries .exportNames .module, .word "from"]
  | _ => .fail

def moveReexportAll : Token → Move
  | .name "as" => .take [.anyName, .word "from"]
  | t => moveWord "from" t

def moveDependency : Token → Move
  | .keyword "import" => .take [.importClause]
  | .keyword "export" => .take [.reexport]
  | _ => .fail

def moveAttributes (broken : Bool) : Token → Move
  | .keyword "with" => .take [.mark .openBrace, .entries .attributes .module]
  | .name "assert" =>
    if broken then .leave .value else .take [.mark .openBrace, .entries .attributes .module]
  | _ => .leave .value

/-- Behind the word `export` that no source follows. -/
def moveExported : Token → Move
  | .openBrace => .take [.entries .localNames .module, .localEnding]
  | .at => moveStatement false .module .at
  | .name s =>
    if s = "let" then .take [.declarator (.mutables .module none)]
    else if s = "async" then .take [.exportedAsync false]
    else .fail
  | .keyword s =>
    if s = "default" then .take [.exportedDefault]
    else if s = "var" || s = "const" || s = "function" || s = "class" then
      moveWordStatement .module s
    else .fail
  | _ => .fail

def moveExportedDefault : Token → Move
  | .keyword "function" => .take [.function (.exported false)]
  | .keyword "class" => .take [.classHead false .module]
  | .at => .take [.operand (.decorator .module), .decorated false .module]
  | .name "async" => .take [.exportedAsync true]
  | t => (moveOperand (.assignment .module) t).followedBy [.ending]

def moveExportedAsync (byDefault broken : Bool) (t : Token) : Move :=
  if t = .keyword "function" && !broken then
    .take [.function (if byDefault then .exported true else .declaration true .module)]
  else if byDefault then (moveAsync (.assignment .module) broken t).ended broken t
  else .fail

/-- Behind a decorator that an item begins with. -/
def moveDecoratedItem : Token → Move
  | .at => .take [.operand (.decorator .module), .decoratedItem]
  | .keyword "class" => .take [.classHead true .module]
  | .keyword "export" => .take [.decoratedExport]
  | _ => .fail

def moveDecoratedExport : Token → Move
  | .keyword "class" => .take [.classHead true .module]
  | .keyword "default" => .take [.mark (.keyword "class"), .classHead false .module]
  | _ => .fail

/-- An item of a module that depends on no other module. -/
def moveItem : Token → Move
  | .keyword "export" => .take [.exported]
  | .keyword "import" => moveStatementOperand .module (.keyword "import")
  | .at => .take [.operand (.decorator .module), .decoratedItem]
  | t => moveStatement false .module t

/-- What stands between a source in quotes and the end of its statement, with the source. -/
def sourceTail : List Expectation := [.mark .string, .attributes, .ending]

/-- Behind the word `import` in a statement within another one, which depends on nothing. -/
def moveImportStart (scope : Scope) (t : Token) : Move :=
  if t = .openParen || t = .dot then
    (moveImported scope t).followedBy [.rest (.expression scope) .value, .ending]
  else if t = .string then .take [.attributes, .ending]
  else (moveImportClause t).followedBy sourceTail

/-- Behind the word `export` in a statement within another one. -/
def moveExportStart : Token → Move
  | .star => .take (.reexportAll :: sourceTail)
  | .openBrace => .take [.entries .exportNames .module, .exportSource]
  | t => moveExported t

def moveExportSource (broken : Bool) (t : Token) : Move :=
  if t = .name "from" then .take sourceTail else moveEnding broken t

/-- What an expectation makes of a token behind an expression of shape `s`; a line's end in front of
the token is `broken`. -/
def Expectation.move (s : Shape) (broken : Bool) (t : Token) : Expectation → Move
  | .mark m => if t = m then .take [] else .fail
  | .word s => moveWord s t
  | .arrow => moveArrow broken t
  | .entries l scope => moveEntries l scope t
  | .more l scope => moveMore l scope t
  | .initial l scope => moveInitial l scope t
  | .covered c soFar scope => moveCovered c soFar scope t
  | .coveredMore c e soFar scope => moveCoveredMore c e soFar scope s t
  | .operand k => moveOperand k t
  | .rest k before => moveRest k before broken t
  | .listed k => moveRest k (.ofShape s) broken t
  | .group k => moveGroup k t
  | .groupMore k soFar => moveGroupMore k soFar s t
  | .groupNext k soFar => moveGroupNext k soFar t
  | .arrowBody waits k => moveArrowBody waits k t
  | .async k => moveAsync k broken t
  | .asyncRest k => moveRest k (.asyncCall s) broken t
  | .yielded k => moveYielded k broken t
  | .template scope tagged => moveTemplate tagged scope t
  | .member => moveMember t
  | .namedMember => moveNamedMember t
  | .optionalMember scope => moveOptionalMember scope t
  | .superMember k => moveSuperMember k t
  | .superCallee scope => moveSuperCallee scope t
  | .newTarget scope => moveNewTarget scope t
  | .calleeRest scope => moveCalleeRest scope s t
  | .imported scope => moveImported scope t
  | .importedMember scope => moveImportedMember scope t
  | .importedMore last scope => moveImportedMore last scope t
  | .importedNext scope => moveImportedNext scope t
  | .decorated named scope => moveDecorated named scope t
  | .key scope => moveKey scope t
  | .propertyName soFar scope => movePropertyName soFar scope t
  | .propertyRest soFar scope => movePropertyRest soFar scope t
  | .propertyAccessor setter soFar scope => movePropertyAccessor setter soFar scope t
  | .propertyAsync soFar scope => movePropertyAsync soFar scope broken t
  | .members scope => moveMembers scope t
  | .decoratedMember scope => moveMemberHead scope t
  | .memberKey static scope => moveMemberKey static scope t
  | .memberRest maker scope => moveMemberRest maker scope broken t
  | .memberAccessor setter static scope => moveMemberAccessor setter static scope broken t
  | .memberAsync static scope => moveMemberAsync static scope broken t
  | .memberStatic scope => moveMemberStatic scope broken t
  | .fieldEnd scope => moveFieldEnd scope broken t
  | .function h => moveFunction h t
  | .functionName scope h => moveFunctionName scope h t
  | .setterRest scope => moveSetterRest scope t
  | .setterClose => moveSetterClose t
  | .classHead named scope => moveClassHead named scope t
  | .heritage scope => moveHeritage scope t
  | .binding scope => moveBinding scope t
  | .bindingName scope => moveBindingName scope t
  | .patternName scope => movePatternName scope t
  | .declarator d => moveDeclarator d t
  | .declared d required => moveDeclared d required broken t
  | .declarators d => moveDeclarators d broken t
  | .statement scope => moveBody scope t
  | .statements scope => moveStatements scope t
  | .cases inside scope => moveCases inside scope t
  | .labelled scope => moveLabelled scope broken t
  | .letStart body scope => moveLetStart body scope broken t
  | .usingStart scope => moveUsingStart scope broken t
  | .awaitStart scope => moveAwaitStart scope broken t
  | .awaitUsing scope => moveAwaitUsing scope broken t
  | .asyncStart body scope => moveAsyncStart body scope broken t
  | .importStart scope => moveImportStart scope t
  | .exportStart => moveExportStart t
  | .exportSource => moveExportSource broken t
  | .ending => moveEnding broken t
  | .optionalSemicolon => if t = .semicolon then .take [] else .leave .value
  | .optionalValue scope => moveOptionalValue scope broken t
  | .sameLineValue scope => if broken then .fail else moveOperand (.expression scope) t
  | .optionalLabel scope => moveOptionalLabel scope broken t
  | .otherwise scope => if t = .keyword "else" then .take [.statement scope] else .leave .value
  | .handler scope => moveHandler scope t
  | .caught scope => moveCaught scope t
  | .finalizer scope => if t = .keyword "finally" then .take (block scope) else .leave .value
  | .loop scope => moveLoop scope t
  | .loopStart h => moveLoopStart h t
  | .loopAsync h => moveLoopAsync h broken t
  | .loopUsing h => moveLoopUsing h broken t
  | .loopAwait h => moveLoopAwait h broken t
  | .loopAwaitUsing h => moveLoopAwaitUsing h broken t
  | .loopKind h => moveLoopKind h s t
  | .loopTest scope => moveLoopTest scope t
  | .loopStep scope => moveLoopStep scope t
  | .item => moveItem t
  | .decoratedItem => moveDecoratedItem t
  | .decoratedExport => moveDecoratedExport t
  | .exported => moveExported t
  | .exportedDefault => moveExportedDefault t
  | .exportedAsync byDefault => moveExportedAsync byDefault broken t
  | .localEnding => if t = .name "from" then .fail else moveEnding broken t
  | .dependency => moveDependency t
  | .importClause => moveImportClause t
  | .importRest => moveImportRest t
  | .importAlso => moveImportAlso t
  | .importSource => moveImportSource t
  | .importFrom => moveImportFrom t
  | .importDefer => moveImportDefer t
  | .reexport => moveReexport t
  | .reexportAll => moveReexportAll t
  | .anyName => moveAnyName t
  | .importName =>
    if t = .name "as" then .take [.bindingName .module, .more .importNames .module]
    else moveMore .importNames .module t
  | .exportName l =>
    if t = .name "as" then .take [.anyName, .more l .module] else moveMore l .module t
  | .attributes => moveAttributes broken t

end SiteBuild.Script
