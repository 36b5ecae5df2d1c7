import SiteBuild.Embed
import SiteBuild.Manifest
import SiteBuild.Minifier
import SiteBuild.Options
import SiteBuild.Page.Preload
import SiteBuild.Plan

/-!
Work on one file of a build. What is done depends on the kind that its name tells; files of no known
kind and proxies are left alone, and a file whose text stays as it was is not written.
-/
namespace SiteBuild

/-- What all files of a run are worked on with. -/
structure Setting where
  minifier : Minifier
  options : Options
  /-- Whether some script of the build imports a stylesheet. -/
  embedCss : Bool
  graph : Option ModuleGraph

/-- The text that was found in a file, of those that were looked into. -/
def Reading.find (rs : List Reading) (p : Path) : Except IoError String :=
  ((rs.find? fun r => r.file.same p).map Reading.text).getD (.error .notFound)

/-- Looks into some files, one after the other. -/
def Plan.inspectAll (ps : List Path) : Plan (List Reading) :=
  ps.mapM fun p => return ⟨p, ← Plan.ask (.inspect p)⟩

namespace Embedded

/-- The script with its stylesheets embedded; class maps are looked up in their proxies. -/
def ofFile (n : Naming) (file : Path) (code : String) : Job Embedded :=
  match Script.Module.read? code.toList with
  | none => throw (.unreadable none)
  | some m => do
    let readings ← Plan.inspectAll (proxiesRead n file m)
    Job.ofExcept ((ofModule (Reading.find readings) n file m).mapError .io)

end Embedded

namespace Job

/-- Changes the text of a file, which is written only if it became another. -/
def revise (p : Path) (f : String → Job (String × α)) : Job α := do
  let text ← read p
  let (new, a) ← f text
  if new ≠ text then write p new
  return a

end Job

namespace Setting

def minifyStyle (s : Setting) (file : Path) : Job Unit :=
  if s.options.minifyStyles then do
    let text ← Job.read file
    (s.minifier.onStyle file text).forM Job.tell
    Job.write file (← Job.ofExcept (s.minifier.style file text))
  else return

def minifyScript (s : Setting) (file : Path) (code : String) : Except Fault String :=
  if s.options.minifyScripts then s.minifier.script file code else .ok code

/-- Embeds the stylesheets of a script, and tells which. -/
def optimizeScript (s : Setting) (file : Path) : Job (List CssEntry) :=
  if s.embedCss || s.options.minifyScripts then
    Job.revise file fun code => do
      let e ← if s.embedCss then Embedded.ofFile s.options.naming file code else pure ⟨[], code⟩
      return (← Job.ofExcept (s.minifyScript file e.code), e.imports)
  else return []

/-- The graph of the modules, if pages are to tell what they load. -/
def preloadGraph (s : Setting) : Option ModuleGraph :=
  if s.options.preloadModules then s.graph else none

/-- A page with its links: to the combined stylesheet, and to the modules that it loads. -/
def linkPage (s : Setting) (file : Path) (text : String) : String :=
  let text := if s.embedCss then
    Page.inject (Page.stylesheetLink s.options.combinedName) text else text
  match s.preloadGraph with
  | some g => Page.preloadModules g file text
  | none => text

def minifyPage (s : Setting) (text : String) : Except Fault String :=
  if s.options.minifyPages then s.minifier.page text else .ok text

def optimizePage (s : Setting) (file : Path) : Job Unit :=
  if s.embedCss || s.preloadGraph.isSome || s.options.minifyPages then
    Job.revise file fun text => return (← Job.ofExcept (s.minifyPage (s.linkPage file text)), ())
  else return

/-- What is done to a file, and the stylesheets that went into it. -/
def optimize (s : Setting) (file : Path) : Job FileResult := do
  let kind := FileKind.classify s.options.naming file
  Job.tell (.fileTaken file kind)
  match kind with
  | .css => s.minifyStyle file; return ⟨file, []⟩
  | .script => return ⟨file, ← s.optimizeScript file⟩
  | .page => s.optimizePage file; return ⟨file, []⟩
  | .cssProxy | .other => return ⟨file, []⟩

end Setting

end SiteBuild
