import SiteBuild.Proofs.Optimize.Removals

/-! Pages that are linked to the combined stylesheet. Whether they are is settled before any file is
worked on, by what scripts import; whether there is such a stylesheet is settled afterwards, by what was
embedded and can be read. -/

namespace SiteBuild

open FileTree

variable {o : Outages} {t t' : FileTree} {g : Path} {m : Minifier} {r : Request} {s : Survey}
  {rs : List FileResult} {rep : Report}

namespace Request

/-- Where the stylesheets are finished without fault, a combined one that there is was written. -/
theorem finishStyles_ok {combined : Option Path} {removed : Nat}
    (h : ((r.finishStyles rs).attempt.run o t).result = .ok (combined, removed)) :
    match ((FileResult.combine r.combinedPath rs).run o t).result with
    | none => combined = none
    | some text => combined = some r.combinedPath ∧
        ⟨.write r.combinedPath text, .ok ()⟩ ∈ ((r.finishStyles rs).attempt.run o t).exchanges := by
  obtain ⟨es, es', -, hrun⟩ := run_finishStyles o t r rs
  rw [hrun] at h ⊢
  dsimp only at h ⊢
  generalize ((FileResult.combine r.combinedPath rs).run o t).result = text at h ⊢
  cases text with
  | none =>
    obtain ⟨c, hc, h, -⟩ := Job.run_bind_ok h
    cases hc
    obtain ⟨n, -, h, -⟩ := Job.run_bind_ok h
    obtain ⟨u, -, h, -⟩ := Job.run_bind_ok h
    cases h
    rfl
  | some text =>
    cases hw : (t.answer o (.write r.combinedPath text)).1 with
    | error e =>
      rw [Job.run_bind_of_error (run_publish_error hw)] at h
      cases h
    | ok u =>
      have hpublish := run_publish_ok hw
      have hc : ((r.publish (some text)).attempt.run o t).result = .ok (some r.combinedPath) := by
        rw [hpublish]
      rw [Job.run_bind_of_ok hc] at h ⊢
      obtain ⟨n, -, h, -⟩ := Job.run_bind_ok h
      obtain ⟨u, -, h, -⟩ := Job.run_bind_ok h
      cases h
      refine ⟨rfl, List.mem_append_left _ (List.mem_append_right _ (List.mem_append_left _ ?_))⟩
      rw [hpublish]
      exact List.mem_cons_self

end Request

namespace Report

/-- After the work on the files of a build a page holds its own text with the link to the combined
stylesheet. -/
structure LinksPage (m : Minifier) (r : Request) (s : Survey) (t t' : FileTree) (g : Path) : Prop where
  embedCss : s.embedCss = true
  mem : g ∈ s.files
  page : FileKind.classify r.options.naming g = .page
  linked : ∃ text new, t.read g = .ok text ∧
    Setting.minifyPage ⟨m, r.options, true, s.graph⟩
      (Setting.linkPage ⟨m, r.options, true, s.graph⟩ g text) = .ok new ∧
    t'.read g = .ok new

/-- Some stylesheet of those that were embedded can be read and holds something. -/
def HasSource (o : Outages) (t : FileTree) (rs : List FileResult) : Prop :=
  ∃ e ∈ rs.flatMap FileResult.css, o.read e.actual = none ∧
    ∃ text : String, t.read e.actual = .ok text ∧ ¬text.toList.all Text.isBlank

/-- The combined stylesheet of a run that has embedded some: its text, unless it would hold nothing. -/
theorem combine_workOn (o : Outages) (t u : FileTree) (m : Minifier) (r : Request) (s : Survey) :
    let rs := ((workOn m r s).run o t).result.1
    let sources := ((FileResult.sources (FileResult.uniqueCss rs)).run o u).result
    (HasSource o u rs → ((FileResult.combine r.combinedPath rs).run o u).result =
        some (Stylesheet.render true (Stylesheet.bundle sources))) ∧
      (¬HasSource o u rs → ((FileResult.combine r.combinedPath rs).run o u).result = none) := by
  intro rs sources
  rw [FileResult.combine_result]
  dsimp only
  constructor
  · rintro ⟨e, he, ho, text, ht, hb⟩
    refine if_neg fun hall => hb ?_
    exact List.all_eq_true.1 hall text (mem_sources_workOn.2 ⟨e, he, ho, ht⟩)
  · intro hno
    refine if_pos (List.all_eq_true.2 fun text ht => ?_)
    obtain ⟨e, he, ho, ht⟩ := mem_sources_workOn.1 ht
    by_contra hb
    exact hno ⟨e, he, ho, text, ht, hb⟩

/-- What is called to finish the stylesheets is called by the run. -/
theorem Completes.mem_exchanges {w : Run (List FileResult × List Failure)} {x : Exchange}
    (h : Completes m r o t rep s w)
    (hx : x ∈ ((finish r s w.result.1).attempt.run o w.tree).exchanges) :
    x ∈ ((ofRequest m r).attempt.run o t).exchanges := by
  obtain ⟨es, -, hrun⟩ := run_ofRequest h.survey h.work
  obtain ⟨es', hend⟩ := conclude_exchanges o w.tree r s 0 w.result.1 w.result.2
  rw [hrun]
  dsimp only
  rw [hend]
  exact List.mem_append_right _ (List.mem_append_left _ hx)

/-- A run that has linked a page tells that stylesheets are embedded. It has a combined stylesheet just
if some stylesheet that was embedded could be read and holds something, and then it has written it. -/
theorem combined_of_linksPage (h : ((ofRequest m r).attempt.run o t).result = .ok rep)
    (hs : ((Survey.ofRequest r).attempt.run o t).result = .ok s) (hr : Reaches m r o t rs t')
    (hl : LinksPage m r s t t' g) :
    rep.embedCss = true ∧ (rep.combined.isSome ↔ HasSource o t' rs) ∧
      (rep.combined.isSome → rep.combined = some r.combinedPath ∧
        ⟨.write r.combinedPath (Stylesheet.render true (Stylesheet.bundle
          ((FileResult.sources (FileResult.uniqueCss rs)).run o t').result)), .ok ()⟩ ∈
            ((ofRequest m r).attempt.run o t).exchanges) := by
  obtain ⟨s', w, hc⟩ := exists_completes h
  obtain rfl : s = s' := Except.ok.inj (hs.symm.trans hc.survey)
  obtain ⟨rfl, rfl⟩ := hr.unique hc.reaches
  have hok := hc.finished
  rw [finish_of_embedCss hl.embedCss] at hok
  have hcombined := Request.finishStyles_ok hok
  obtain ⟨hsome, hnone⟩ := combine_workOn o t w.tree m r s
  rw [hc.work] at hsome hnone
  refine ⟨hc.embedCss.trans hl.embedCss, ?_⟩
  by_cases hsource : HasSource o w.tree w.result.1
  · rw [hsome hsource] at hcombined
    obtain ⟨hpath, hwrite⟩ := hcombined
    refine ⟨iff_of_true (by simp [hpath]) hsource, fun _ => ⟨hpath, hc.mem_exchanges ?_⟩⟩
    rwa [finish_of_embedCss hl.embedCss]
  · rw [hnone hsource] at hcombined
    have hno : ¬rep.combined.isSome := by simp [show rep.combined = none from hcombined]
    exact ⟨iff_of_false hno hsource, fun h => absurd h hno⟩

/-! A build with a page, and a script that imports a proxy without a class map by a name. The import is
kept, and so is everything else but the page. -/

namespace Kept

open Unread (script style proxy kept text request minifier setting)

def page : Path := ⟨"build/index.html"⟩

/-- The page with the link. -/
def linked : String :=
  "<head>    <link rel=\"stylesheet\" href=\"/imported-styles.css\" />\n</head>"

def tree : FileTree :=
  ((((FileTree.empty.put [] "build" .directory).put ["build"] "app.js"
    (.file (text [kept]).toUTF8)).put ["build"] "index.html" (.file "<head></head>".toUTF8)).put
    ["build"] "x.module.css" (.file ".a \x7b color: red; \x7d".toUTF8)).put
    ["build"] "x.module.css.proxy.js" (.file "export default 1;\n".toUTF8)

def survey : Survey := ⟨[script, page, style, proxy], true, none⟩

def results : List FileResult := [⟨script, []⟩, ⟨page, []⟩, ⟨style, []⟩, ⟨proxy, []⟩]

/-- The tree once the work on all files is done. -/
def worked : FileTree := ((setting.optimizeAll [page, style, proxy]).run {} tree).tree

def report : Report :=
  ⟨4, [], true, none, 0, ⟨"build/_snowpack/optimize-manifest.json"⟩, 0⟩

/-- What the build holds, as far as the work on the script asks for it. -/
theorem tree_values :
    (∀ l ∈ [kept], l.IsSound) ∧ tree.read script = .ok (text [kept]) ∧
    tree.read (script.resolveFrom "./x.module.css.proxy.js") = .ok "export default 1;\n" ∧
    ((Job.scan request.root request.excluded).attempt.run {} tree).result = .ok survey.files ∧
    ((Script.Line.module [kept]).imports.any fun d =>
      Naming.isCssProxy {} (String.ofList d.specifier)) = true ∧
    FileKind.classify {} script = .script ∧
    (tree.answer {} (.read script)).1 = .ok (text [kept]) := by
  decide +kernel

/-- What the work on the other files gives, and what a run comes to after it. -/
theorem worked_values :
    ((setting.optimizeAll [page, style, proxy]).run {} tree).result =
      [.ok ⟨page, []⟩, .ok ⟨style, []⟩, .ok ⟨proxy, []⟩] ∧
    FileKind.classify {} page = .page ∧ tree.read page = .ok "<head></head>" ∧
    setting.minifyPage (setting.linkPage page "<head></head>") = .ok linked ∧
    worked.read page = .ok linked ∧
    ((conclude request survey 0 results []).attempt.run {} worked).result = .ok report := by
  decide +kernel

theorem survey_ok : ((Survey.ofRequest request).attempt.run {} tree).result = .ok survey := by
  obtain ⟨hsound, hread, -, hscan, himports, -⟩ := tree_values
  have hcss : importsCss? {} (text [kept]) = some true := himports ▸ importsCss?_print hsound
  exact Survey.ofRequest_of_scan rfl hscan (Job.importsCss_of_read hread hcss)

theorem embedded : Embedded.ofCode tree.read {} script (text [kept]) = .ok ⟨[], text [kept]⟩ := by
  obtain ⟨hsound, -, hproxy, -⟩ := tree_values
  have hr : ∀ l ∈ [kept], l.IsReadable {} tree script := by
    simp [kept, Script.Line.IsReadable, hproxy]
  rw [text, Embedded.ofCode_print hsound hr]
  decide +kernel

theorem run_workOn : ((workOn minifier request survey).run {} tree).result = (results, []) ∧
    ((workOn minifier request survey).run {} tree).tree = worked := by
  obtain ⟨-, -, -, -, -, hkind, hread⟩ := tree_values
  obtain ⟨hscript, htree⟩ := Setting.optimize_of_keeps (o := {}) (t := tree) (s := setting)
    (g := script) rfl rfl hkind hread embedded rfl
  obtain ⟨hr, ht⟩ := workOn_cons (m := minifier) (r := request) (s := survey) rfl rfl hscript htree
  exact ⟨hr.trans (congrArg (fun ys => (⟨script, []⟩ :: resultsOf ys, failuresOf ys))
    worked_values.1), ht⟩

theorem reaches : Reaches minifier request {} tree results worked :=
  ⟨survey, survey_ok, congrArg Prod.fst run_workOn.1, run_workOn.2⟩

theorem ofRequest_ok : ((ofRequest minifier request).attempt.run {} tree).result = .ok report := by
  rw [(result_ofRequest survey_ok rfl).1, run_workOn.1, run_workOn.2]
  exact worked_values.2.2.2.2.2

theorem linksPage : LinksPage minifier request survey tree worked page where
  embedCss := rfl
  mem := by simp [survey]
  page := worked_values.2.1
  linked := ⟨_, _, worked_values.2.2.1, worked_values.2.2.2.1, worked_values.2.2.2.2.1⟩

end Kept

/-- Whether there is a combined stylesheet can be told of a run that has linked a page. -/
theorem combined_of_linksPage_kept :
    ((ofRequest Unread.minifier Unread.request).attempt.run {} Kept.tree).result = .ok Kept.report ∧
    ((Survey.ofRequest Unread.request).attempt.run {} Kept.tree).result = .ok Kept.survey ∧
    Reaches Unread.minifier Unread.request {} Kept.tree Kept.results Kept.worked ∧
    LinksPage Unread.minifier Unread.request Kept.survey Kept.tree Kept.worked Kept.page ∧
    Kept.report.embedCss = true ∧ (Kept.report.combined.isSome ↔ HasSource {} Kept.worked Kept.results) :=
  have h := combined_of_linksPage Kept.ofRequest_ok Kept.survey_ok Kept.reaches Kept.linksPage
  ⟨Kept.ofRequest_ok, Kept.survey_ok, Kept.reaches, Kept.linksPage, h.1, h.2.1⟩

/-- A page is linked to a combined stylesheet that the run has not written, for the import that asks for
it is kept. -/
theorem linked_without_stylesheet :
    (∀ p text, Unread.minifier.script p text = .ok text ∧ Unread.minifier.style p text = .ok text ∧
      Unread.minifier.page text = .ok text) ∧
    ((ofRequest Unread.minifier Unread.request).attempt.run {} Kept.tree).result = .ok Kept.report ∧
    ((Survey.ofRequest Unread.request).attempt.run {} Kept.tree).result = .ok Kept.survey ∧
    Reaches Unread.minifier Unread.request {} Kept.tree Kept.results Kept.worked ∧
    LinksPage Unread.minifier Unread.request Kept.survey Kept.tree Kept.worked Kept.page ∧
    Kept.report.combined = none :=
  ⟨fun _ _ => ⟨rfl, rfl, rfl⟩, Kept.ofRequest_ok, Kept.survey_ok, Kept.reaches, Kept.linksPage, rfl⟩

end Report

end SiteBuild
