import SiteBuild.ModuleGraph
import SiteBuild.Page.Head
import SiteBuild.Page.Script

/-!
Hints that let a browser fetch the modules behind a page's scripts early.
-/
namespace SiteBuild.Page

/-- The links to every module that the page's own entries lead to. -/
def preloadLinks (g : ModuleGraph) (page : Path) (text : String) : String :=
  String.join ((g.preloadList (moduleEntries g.root page text)).map fun m =>
    preloadLink (Path.urlFrom g.root m))

def preloadModules (g : ModuleGraph) (page : Path) (text : String) : String :=
  if (g.preloadList (moduleEntries g.root page text)).isEmpty then text
  else inject (preloadLinks g page text) text

end SiteBuild.Page
