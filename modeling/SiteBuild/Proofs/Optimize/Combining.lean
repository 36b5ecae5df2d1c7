import SiteBuild.Proofs.Optimize.Bundling
import SiteBuild.Proofs.Optimize.Links
import SiteBuild.Proofs.Stylesheet.Silence

/-! Whether the combined stylesheet holds anything. Its sources are looked at before they are put together,
and what each of them holds may be nothing that is written: a combined stylesheet may be blank. -/

namespace SiteBuild

open Stylesheet (IsFilled SaysNothing bundle)

variable {o : Outages} {t : FileTree} {rs : List FileResult}

namespace FileResult

/-- The stylesheets that some results have embedded, as one that is not yet short. -/
def bundleOf (o : Outages) (t : FileTree) (rs : List FileResult) : String :=
  bundle (textsOf o t (Path.firsts [] ((rs.flatMap css).map CssEntry.actual)))

theorem isFilled_of_combine {target : Path} {text : String}
    (h : ((combine target rs).run o t).result = some text) :
    IsFilled text.toList ↔ ¬SaysNothing (bundleOf o t rs) := by
  have hbundles := bundles_combine (o := o) (t := t) target rs
  have hne : ((combine target rs).run o t).result ≠ none := h ▸ Option.some_ne_none text
  obtain rfl : text = _ := Option.some.inj (h.symm.trans (hbundles.some hne))
  refine Stylesheet.isFilled_render ((Stylesheet.isFilled_bundle _).2 ?_)
  simpa [IsFilled] using mt hbundles.none_iff.2 hne

namespace Commented

def style : Path := ⟨"a.css"⟩

def results : List FileResult := [⟨⟨"a.js"⟩, [⟨style, ⟨"a.css.proxy.js"⟩⟩]⟩]

def tree (text : String) : FileTree := FileTree.empty.put [] "a.css" (.file text.toUTF8)

def request : Request where
  root := ⟨""⟩
  options := { combinedName := "all.css" }

def comment : String := "/* c */"

def rule : String := "/* c */ .a \x7b color: red; \x7d"

end Commented

end FileResult

end SiteBuild
