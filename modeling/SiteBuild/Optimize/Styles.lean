import SiteBuild.Manifest
import SiteBuild.Minifier
import SiteBuild.Options
import SiteBuild.Plan

/-!
The stylesheets that scripts imported: put together into one file, and removed with their proxies.
-/
namespace SiteBuild

namespace FileResult

/-- The texts of the stylesheets of some results, without those that cannot be read. -/
def sources : List CssEntry → Plan (List String)
  | [] => return []
  | e :: es => do
    match ← (Job.read e.actual).attempt with
    | .ok text => return text :: (← sources es)
    | .error f =>
      Plan.tell (.styleSkipped e.actual f)
      sources es

/-- One stylesheet of all that some results have embedded, unless it would hold nothing. -/
def combine (target : Path) (rs : List FileResult) : Plan (Option String) := do
  let texts ← sources (uniqueCss rs)
  if texts.all fun s => s.toList.all Text.isBlank then return none
  else
    Plan.during .bundling do
      let bundle := Stylesheet.bundle texts
      (Minifier.styleEvents target bundle).forM Plan.tell
      return some (Stylesheet.render true bundle)

/-- Removes some files, and counts those that were there. -/
def removeAll : List Path → Job Nat
  | [] => return 0
  | p :: ps => do
    let found ← Job.remove p
    let n ← removeAll ps
    return (if found then n + 1 else n)

/-- Removes the stylesheets and proxies that some results have replaced. -/
def removeCss (rs : List FileResult) : Job Nat :=
  removeAll ((rs.flatMap css).flatMap fun e => [e.actual, e.proxy])

end FileResult

/-- Writes the combined stylesheet, and then removes what it stands for. -/
def Request.finishStyles (r : Request) (rs : List FileResult) : Job (Option Path × Nat) :=
  Job.during .combining do
    let text ← FileResult.combine r.combinedPath rs
    let combined ← match text with
      | none => pure none
      | some text => do
        Job.write r.combinedPath text
        Job.tell (.combinedWritten r.combinedPath text.utf8ByteSize)
        pure (some r.combinedPath)
    let removed ← FileResult.removeCss rs
    Job.tell (.filesRemoved removed)
    return (combined, removed)

end SiteBuild
