import SiteBuild.Proofs.Optimize.Atomicity
import SiteBuild.Proofs.Optimize.Reruns
import SiteBuild.Proofs.Page.Seam

/-! What becomes of a page that takes both a link to the combined stylesheet and hints for its modules. -/

namespace SiteBuild

open FileTree

variable {o : Outages} {t : FileTree} {file : Path} {s : Setting} {g : ModuleGraph} {text new : String}

/-- Work on a file that can be read and written ends with the new text in it. -/
theorem Job.run_revise_ok {α : Type} {a : α} {f : String → Job (String × α)}
    (hlooks : ∀ text, (f text).Calls Looks) (hread : t.read file = .ok text) (hin : o.read file = none)
    (hout : o.write file = none) (hf : ((f text).attempt.run o t).result = .ok (new, a)) :
    ((revise file f).attempt.run o t).result = .ok a ∧
      ((revise file f).attempt.run o t).tree.read file = .ok new := by
  have hanswer : (t.answer o (.read file)).1 = .ok text := by simp only [answer, hin, hread]
  have hstart : ((read file).attempt.run o t).result = .ok text := by
    rw [run_read, hanswer]
    rfl
  unfold revise
  rw [run_bind_of_ok hstart, run_read]
  dsimp only
  rw [run_bind_of_ok hf, (hlooks text).attempt.looks]
  dsimp only
  by_cases hne : new = text
  · simp only [hne, ne_eq, not_true_eq_false, if_false]
    exact ⟨rfl, hread⟩
  · rw [if_pos hne]
    obtain ⟨k, hfind⟩ := find_of_read hread
    have hok : (t.write file new.toUTF8).2 = .ok () := (write_of_find hfind).1
    have hwrite : t.answer o (.write file new) = (.ok (), (t.write file new.toUTF8).1) := by
      simp only [answer, hout]
      exact Prod.ext hok rfl
    have hend : ((write file new).attempt.run o t).result = .ok () := by
      rw [run_write, hwrite]
      rfl
    rw [run_bind_of_ok hend, run_write, hwrite]
    exact ⟨rfl, read_of_write hok⟩

namespace Setting

theorem linkPage_eq_inject (hcss : s.embedCss = true) (hgraph : s.preloadGraph = some g) :
    let linked := Page.inject (Page.stylesheetLink s.options.combinedName) text
    s.linkPage file text = Page.inject (Page.preloadLinks g file linked) linked := by
  simp only [linkPage, hcss, hgraph, if_true, Page.preloadModules_eq_inject]

theorem run_optimizePage_ok (hread : t.read file = .ok text) (hin : o.read file = none)
    (hout : o.write file = none) (hasked : (s.embedCss || s.preloadGraph.isSome) = true)
    (hwhole : s.options.minifyPages = false) :
    ((s.optimizePage file).attempt.run o t).result = .ok () ∧
      ((s.optimizePage file).attempt.run o t).tree.read file = .ok (s.linkPage file text) := by
  unfold optimizePage
  rw [if_pos (by simp [hasked])]
  refine Job.run_revise_ok (fun _ => .bind (.ofExcept _) fun _ => .pure _) hread hin hout ?_
  simp only [minifyPage, hwhole]
  rfl

theorem run_optimize_page_ok (hkind : FileKind.classify s.options.naming file = .page)
    (hresult : ((s.optimizePage file).attempt.run o t).result = .ok ()) :
    ((s.optimize file).attempt.run o t).result = .ok ⟨file, []⟩ := by
  unfold optimize
  rw [Job.run_bind_of_ok (a := ()) rfl, Job.run_tell, hkind]
  dsimp only
  rw [Job.run_bind_of_ok hresult]
  rfl

/-- A page that takes both the link to the combined stylesheet and hints for its modules is kept in full,
and it takes them side by side at one place: where its head ends if there is an end to it, and the hints
behind the link; else where its head begins, or in front of everything, and the hints in front of the
link. The modules are those that the page asks for as it stands with the link. -/
theorem optimizePage_joins (hcss : s.embedCss = true) (hgraph : s.preloadGraph = some g)
    (hwhole : s.options.minifyPages = false) (hname : '<' ∉ s.options.combinedName.toList)
    (file : Path) (text : String) :
    let link := Page.stylesheetLink s.options.combinedName
    let modules := g.preloadList (Page.moduleEntries g.root file (Page.inject link text))
    let hints := String.join (modules.map fun m => Page.preloadLink (Path.urlFrom g.root m))
    ∃ seat pre post, Page.Seam seat pre post ∧ text = String.ofList (pre ++ post) ∧
      let new := String.ofList (pre ++ seat.order link.toList hints.toList ++ post)
      s.minifyPage (s.linkPage file text) = .ok new ∧
      ∀ (o : Outages) (t : FileTree), FileKind.classify s.options.naming file = .page →
        t.read file = .ok text → o.read file = none → o.write file = none →
        ((s.optimize file).attempt.run o t).result = .ok ⟨file, []⟩ ∧
          ((s.optimize file).attempt.run o t).tree.read file = .ok new := by
  intro link modules hints
  obtain ⟨seat, pre, post, hseam, hpage⟩ := Page.exists_seam text.toList
  have htext : text = String.ofList (pre ++ post) := by rw [← hpage, String.ofList_toList]
  have hlink : s.linkPage file text =
      String.ofList (pre ++ seat.order link.toList hints.toList ++ post) := by
    rw [linkPage_eq_inject hcss hgraph,
      ← hseam.inject_inject (Page.inert_stylesheetLink hname) hints, ← htext]
    rfl
  refine ⟨seat, pre, post, hseam, htext, ?_, fun o t hkind hread hin hout => ?_⟩
  · simp only [minifyPage, hwhole, hlink]
    rfl
  · obtain ⟨hresult, htree⟩ := run_optimizePage_ok hread hin hout (by simp [hcss]) hwhole
    rw [run_optimize_of_page hkind, htree, hlink]
    exact ⟨run_optimize_page_ok hkind hresult, rfl⟩

namespace Joined

def page : Path := ⟨"build/index.html"⟩

/-- A page with a module, which loads another. The tag that ends its head is in mixed case. -/
def source : String := "<script type=module src=\"/a.js\"></script></Head >"

def tree : FileTree :=
  (FileTree.empty.put [] "build" .directory).put ["build"] "index.html" (.file source.toUTF8)

def graph : ModuleGraph := ⟨⟨"build"⟩, [(⟨"build/a.js"⟩, [⟨"build/b.js"⟩])]⟩

def setting : Setting :=
  ⟨.standard, { minifyPages := false, preloadModules := true }, true, some graph⟩

def link : String := "    <link rel=\"stylesheet\" href=\"/imported-styles.css\" />\n"

def hint : String := "    <link rel=\"modulepreload\" href=\"/b.js\" />\n"

theorem values : FileKind.classify setting.options.naming page = .page ∧ tree.read page = .ok source ∧
    '<' ∉ setting.options.combinedName.toList ∧
    Page.stylesheetLink setting.options.combinedName = link ∧
    Page.moduleEntries graph.root page (Page.inject link source) = [⟨"build/a.js"⟩] ∧
    Page.preloadLink (Path.urlFrom graph.root ⟨"build/b.js"⟩) = hint := by
  decide +kernel

theorem preloadList_a : graph.preloadList [⟨"build/a.js"⟩] = [⟨"build/b.js"⟩] := by
  have ha : ModuleGraph.discover [⟨"build/a.js"⟩]
      ((graph.edges? ⟨"build/a.js"⟩).getD []) = [⟨"build/b.js"⟩] := by decide
  have hb : ModuleGraph.discover [⟨"build/b.js"⟩, ⟨"build/a.js"⟩]
      ((graph.edges? ⟨"build/b.js"⟩).getD []) = [] := by decide
  simp [ModuleGraph.preloadList, ModuleGraph.visit, ha, hb]

theorem page_takes_both : FileKind.classify setting.options.naming page = .page ∧
    tree.read page = .ok source ∧ '<' ∉ setting.options.combinedName.toList ∧
    ∃ seat pre post, Page.Seam seat pre post ∧ source = String.ofList (pre ++ post) ∧
      ((setting.optimize page).attempt.run {} tree).result = .ok ⟨page, []⟩ ∧
      ((setting.optimize page).attempt.run {} tree).tree.read page =
        .ok (String.ofList (pre ++ seat.order link.toList hint.toList ++ post)) := by
  obtain ⟨hkind, hread, hname, hlink, hentries, hhint⟩ := values
  have hjoin : String.join [hint] = hint := by simp [String.join]
  have h := setting.optimizePage_joins rfl rfl rfl hname page source
  dsimp only at h
  rw [hlink, hentries, preloadList_a, List.map_singleton, hhint, hjoin] at h
  obtain ⟨seat, pre, post, hseam, htext, -, hrun⟩ := h
  exact ⟨hkind, hread, hname, seat, pre, post, hseam, htext, hrun {} tree hkind hread rfl rfl⟩

end Joined

end Setting

end SiteBuild
