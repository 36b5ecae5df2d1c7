import SiteBuild.Optimize.Styles
import SiteBuild.Optimize.Survey

/-!
A whole run: a survey, work on each file, the combined stylesheet, and the manifest. A file that
fails is reported and left out; the run goes on.
-/
namespace SiteBuild

structure Failure where
  file : Path
  fault : Fault
  deriving DecidableEq, Repr

structure Report where
  processed : Nat
  failures : List Failure
  embedCss : Bool
  combined : Option Path
  removed : Nat
  manifest : Path
  /-- How long the run took in nanoseconds. -/
  elapsed : Nat
  deriving DecidableEq, Repr

namespace Setting

/-- Works on all files. What becomes of one does not stop the others. -/
def optimizeAll (s : Setting) (files : List Path) : Plan (List (Except Failure FileResult)) :=
  Plan.during .optimizing
    (files.mapM fun p => return (← (s.optimize p).attempt).mapError (⟨p, ·⟩))

def minifyProxy (s : Setting) (p : Path) : Job Unit :=
  Job.revise p fun code => return (← Job.ofExcept (s.minifier.script p code), ())

/-- The proxies that no file has embedded. -/
def unusedProxies (s : Setting) (rs : List FileResult) : List Path :=
  let used := (rs.flatMap FileResult.css).map CssEntry.proxy
  (rs.map FileResult.file).filter fun p =>
    FileKind.classify s.options.naming p = .cssProxy && !used.any p.same

def minifyProxies (s : Setting) : List Path → Plan (List Failure)
  | [] => return []
  | p :: ps => do
    match ← (s.minifyProxy p).attempt with
    | .ok () => s.minifyProxies ps
    | .error f =>
      Plan.tell (.fileFailed p f)
      return ⟨p, f⟩ :: (← s.minifyProxies ps)

end Setting

namespace Report

def failuresOf (outcomes : List (Except Failure FileResult)) : List Failure :=
  outcomes.filterMap fun o =>
    match o with
    | .ok _ => none
    | .error f => some f

def resultsOf (outcomes : List (Except Failure FileResult)) : List FileResult :=
  outcomes.filterMap Except.toOption

/-- The results of the files that did not fail. -/
def dropFailed (failures : List Failure) (rs : List FileResult) : List FileResult :=
  rs.filter fun r => !failures.any fun f => f.file.same r.file

/-- The work on the files of a survey: the results, and the failures. -/
def workOn (m : Minifier) (r : Request) (s : Survey) : Plan (List FileResult × List Failure) := do
  let setting : Setting := ⟨m, r.options, s.embedCss, s.graph⟩
  (m.onStart r.options.workers).forM Plan.tell
  let outcomes ← setting.optimizeAll s.files
  let results := resultsOf outcomes
  let failures := failuresOf outcomes
  failures.forM fun f => Plan.tell (.fileFailed f.file f.fault)
  let late ← if r.options.minifyScripts then
      setting.minifyProxies (setting.unusedProxies results)
    else pure []
  m.onStop.forM Plan.tell
  return (dropFailed late results, failures ++ late)

def writeManifest (p : Path) (m : Manifest) : Job Unit := do
  Job.write p m.toText
  Job.tell (.manifestWritten p)

/-- A run on a build directory. -/
def ofRequest (m : Minifier) (r : Request) : Job Report := do
  let start ← Plan.ask .now
  Job.tell (.rootChosen r.root)
  Job.tell (.workersChosen r.options.workers)
  let survey ← Survey.ofRequest r
  let (results, failures) ← workOn m r survey
  let (combined, removed) ← if survey.embedCss then r.finishStyles results else pure (none, 0)
  writeManifest r.manifestPath (Manifest.build r.root results combined.toList)
  let elapsed := (← Plan.ask .now) - start
  Job.tell (.summary results.length failures.length elapsed)
  return ⟨results.length, failures, survey.embedCss, combined, removed, r.manifestPath, elapsed⟩

end Report

end SiteBuild
