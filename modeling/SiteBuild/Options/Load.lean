import SiteBuild.Options
import SiteBuild.Plan

/-!
Looking for a configuration file. One that is named has to be there; of the directory's own file
nothing is expected.
-/
namespace SiteBuild.Config

def fileName : Path := ⟨"optimize.config.json"⟩

def loadFrom (p : Path) : Job Config := do
  Job.tell (.configFound p)
  let text ← Job.inspect p
  Job.ofExcept ((parse text).mapError fun detail => .config (.malformed p detail))

def load (named : Option Path) (directory : Path) : Job (Option Config) :=
  match named with
  | some p => do
    if ← Plan.ask (.isThere p) then some <$> loadFrom p else throw (.config (.missingFile p))
  | none => do
    let p := directory.join fileName
    if ← Plan.ask (.isThere p) then some <$> loadFrom p
    else
      Job.tell .configMissing
      return none

end SiteBuild.Config
