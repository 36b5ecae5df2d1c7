import SiteBuild.Event
import SiteBuild.Page.Compact
import SiteBuild.Script.Compact
import SiteBuild.Stylesheet

/-!
What makes files small. A run only needs a text for a text, so that minifiers can be exchanged.
-/
namespace SiteBuild

structure Minifier where
  script : Path → String → Except Fault String
  style : Path → String → Except Fault String
  page : String → Except Fault String
  /-- What there is to tell when a run with some workers starts to use the minifier. -/
  onStart : Nat → List Event := fun _ => []
  onStyle : Path → String → List Event := fun _ _ => []
  onStop : List Event := []

namespace Minifier

/-- What there is to tell about writing a stylesheet. -/
def styleEvents (p : Path) (s : String) : List Event :=
  .started (.styling p) ::
    (if (Stylesheet.render? true s).isNone then [.styleRejected p] else []) ++
      [.finished (.styling p)]

/-- A script has to be a module; a stylesheet and a page are taken as they come. -/
def standard : Minifier where
  script p s := (Script.compact? s).elim (.error (.unreadable (some ⟨some p⟩))) .ok
  style _ s := .ok (Stylesheet.render true s)
  page s := .ok (Page.compact s)
  onStart n := [.minifierStarted n]
  onStyle := styleEvents
  onStop := [.minifierStopped]

end Minifier

end SiteBuild
