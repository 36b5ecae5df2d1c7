import SiteBuild.Glob.Expression
import SiteBuild.Glob.Match
import SiteBuild.Optimize.File

/-!
What a run finds out before it touches a file: which files there are, whether a script of theirs
imports a stylesheet, and which modules load which.
-/
namespace SiteBuild

namespace Glob

/-- What there is to tell about patterns, given as they are spelled and as they are read. -/
def PatternSet.events (texts : List String) (ps : PatternSet) : List Event :=
  if ps.patterns.isEmpty then []
  else
    ((texts.zip ps.patterns).filter fun (_, p) => p.kind = .wildcards).map
      (fun (text, p) => .patternRead text p.expression) ++
    [.patternsRead (.ofKinds (ps.patterns.map Pattern.kind))]

end Glob

namespace Job

/-- The files below a directory but those that a pattern excludes. -/
def scan (root : Path) (exclude : List String) : Job (List Path) := do
  let patterns ← ofExcept ((Glob.PatternSet.parse exclude).mapError .glob)
  (patterns.events exclude).forM tell
  return (← list root).filter fun p => !patterns.isMatch (root.relativeTo p)

/-- Whether one of some scripts imports a stylesheet. The first that does ends the search; those that
are no modules are passed over. -/
def importsCss (n : Naming) : List Path → Job Bool
  | [] => return false
  | p :: ps => do
    match SiteBuild.importsCss? n (← inspect p) with
    | some true => return true
    | some false => importsCss n ps
    | none =>
      tell (.checkSkipped p (.unreadable none))
      importsCss n ps

end Job

namespace ModuleGraph

/-- What there is to tell about a file that takes no part in a graph. -/
def event? (r : Reading) : Option Event :=
  match r.text with
  | .error e => some (.moduleUnread r.file e)
  | .ok text =>
    if (Script.Module.read? text.toList).isNone then
      some (.moduleUnreadable r.file (.unreadable none))
    else none

def ofFiles (root : Path) (n : Naming) (scripts : List Path) : Plan ModuleGraph := do
  let readings ← Plan.inspectAll scripts
  (readings.filterMap event?).forM Plan.tell
  return ofReadings root n readings

end ModuleGraph

structure Survey where
  files : List Path
  embedCss : Bool
  graph : Option ModuleGraph

namespace Survey

def scripts (n : Naming) (files : List Path) : List Path :=
  files.filter fun p => FileKind.classify n p = .script

/-- Whether stylesheets are to be embedded. Where a script cannot be looked into, none is. -/
def embedCss? (n : Naming) (scripts : List Path) : Plan Bool := do
  match ← (Job.importsCss n scripts).attempt with
  | .ok found => return found
  | .error f =>
    Plan.tell (.checkFailed f)
    return false

def ofRequest (r : Request) : Job Survey :=
  Job.during .scanning do
    let files ← Job.scan r.root r.excluded
    let scripts := scripts r.options.naming files
    Job.tell (.filesFound files.length scripts.length)
    let embedCss ← embedCss? r.options.naming scripts
    let graph ← if r.options.preloadModules then
        some <$> ModuleGraph.ofFiles r.root r.options.naming scripts
      else pure none
    Job.tell (.embeddingChosen embedCss)
    return ⟨files, embedCss, graph⟩

end Survey

end SiteBuild
