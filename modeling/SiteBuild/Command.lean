import SiteBuild.Optimize.Report
import SiteBuild.Options.Load

/-!
What the program does on a command: a run on a build directory, or a list of a script's imports.
-/
namespace SiteBuild

structure OptimizeCommand where
  buildDirectory : Path
  metaDirectory : Path
  config : Option Path
  overrides : Overrides
  deriving DecidableEq, Repr

inductive Command
  | optimize (c : OptimizeCommand)
  | scan (file : Path)
  deriving DecidableEq, Repr

namespace OptimizeCommand

/-- The run that a command asks for. Its configuration stands beside the build directory. -/
def request (c : OptimizeCommand) : Job Request := do
  if ← Plan.ask (.isDirectory c.buildDirectory) then
    let config ← Config.load c.config (c.buildDirectory.parent?.getD ⟨"."⟩)
    let options ← Job.ofExcept (Options.merge config c.overrides)
    return ⟨c.buildDirectory, c.metaDirectory, options⟩
  else throw (.config (.missingBuild c.buildDirectory))

def perform (c : OptimizeCommand) : Job Unit := do
  let report ← Report.ofRequest Minifier.standard (← c.request)
  report.combined.toList.forM fun p => Job.tell (.combinedAt p)
  Job.tell (.reported report.processed report.failures.length report.elapsed)

end OptimizeCommand

namespace Command

def listImports (file : Path) : Job Unit := do
  let code ← Job.inspect file
  match Script.Module.read? code.toList with
  | none => throw (.unreadable none)
  | some m =>
    let imports := m.located.filter fun (_, d) => d.isImport
    Job.tell (.importsFound imports.length file)
    imports.forM fun (n, d) =>
      Job.tell (.importFound (String.ofList d.specifier) (d.span n) (d.specifierSpan n))

def perform : Command → Job Unit
  | .optimize c => c.perform
  | .scan file => listImports file

/-- Performs a command to its end, and tells what stopped it. -/
def finish (c : Command) : Plan Bool := do
  match ← c.perform.attempt with
  | .ok () => return true
  | .error f =>
    Plan.tell (.stopped f)
    return false

end Command

end SiteBuild
