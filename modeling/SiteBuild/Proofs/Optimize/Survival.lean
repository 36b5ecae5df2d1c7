import SiteBuild.Proofs.Optimize.Links
import SiteBuild.Proofs.Optimize.Refusals
import SiteBuild.Proofs.Optimize.Unchanged

/-! What becomes of the combined stylesheet after it is written. The stylesheets that went into it are
removed after that, and the manifest comes last; either may meet the file that has just been written, for
its name is free to choose. -/

namespace SiteBuild

open FileTree

variable {o : Outages} {t t' u : FileTree} {p q : Path} {j k : Place} {b : ByteArray} {m : Minifier}
  {r : Request} {s : Survey} {rs : List FileResult} {rep : Report}

/-- That two paths lead to one file. -/
def SameFile (t : FileTree) (p q : Path) : Prop := ∃ k, LeadsTo t p k ∧ LeadsTo t q k

namespace FileTree

theorem bytes?_of_find (h : t.find p = .ok (k, .file b)) : t.bytes? k = some b :=
  bytes?_eq_some.2 (find_eq_file.1 h).2.1

theorem find_of_place? (hp : t.place? p = some k) (hs : p.endsInSlash = false)
    (hb : t.bytes? k = some b) : t.find p = .ok (k, .file b) := by
  unfold place? at hp
  split at hp
  · next i n ht =>
    cases hp
    exact find_eq_file.2 ⟨hs, bytes?_eq_some.1 hb, i, n, rfl, ht⟩
  · cases hp

/-- A path that led to a file leads to what is there now. -/
theorem find_file_iff (h : t.find p = .ok (k, .file b)) (hd : KeepsDirectories t t') {c : ByteArray} :
    t'.find p = .ok (j, .file c) ↔ j = k ∧ t'.bytes? k = some c := by
  have hplace := hd.place? (place?_of_find h)
  constructor
  · intro hc
    obtain rfl : j = k := Option.some.inj ((place?_of_find hc).symm.trans hplace)
    exact ⟨rfl, bytes?_of_find hc⟩
  · rintro ⟨rfl, hc⟩
    exact find_of_place? hplace (find_eq_file.1 h).1 hc

theorem read_iff_bytes? (h : t.find p = .ok (k, .file b)) (hd : KeepsDirectories t t')
    {text : String} : t'.read p = .ok text ↔ t'.bytes? k = some text.toUTF8 := by
  constructor
  · intro hr
    obtain ⟨j, hj⟩ := find_of_read hr
    exact ((find_file_iff h hd).1 hj).2
  · exact fun hb => read_of_find ((find_file_iff h hd).2 ⟨rfl, hb⟩)

/-- Another path leads to the same file just if it leads to its place. -/
theorem sameFile_iff (h : t.find p = .ok (k, .file b)) : SameFile t p q ↔ LeadsTo t q k := by
  constructor
  · rintro ⟨j, ⟨c, hc⟩, hq⟩
    rw [h] at hc
    cases hc
    exact hq
  · exact fun hq => ⟨k, ⟨b, h⟩, hq⟩

end FileTree

theorem Lacks.bytes?_eq_some {taken : Place → Prop} (h : Lacks taken t t') :
    t'.bytes? k = some b ↔ ¬taken k ∧ t.bytes? k = some b := by
  rw [FileTree.bytes?_eq_some, FileTree.bytes?_eq_some]
  by_cases hk : taken k
  · rw [h.gone k hk]
    simp [hk]
  · rw [h.stays k hk]
    simp [hk]

namespace Request

/-- A combined stylesheet that is published is there until the others are removed. -/
theorem publish_ok {text : String} {x : Option Path × Nat}
    (h : ((r.finishStyles rs).attempt.run o t).result = .ok x)
    (htext : ((FileResult.combine r.combinedPath rs).run o t).result = some text) :
    let t' := (t.write r.combinedPath text.toUTF8).1
    t'.read r.combinedPath = .ok text ∧
      Lacks (fun k => ∃ e ∈ rs.flatMap FileResult.css, ∃ q, e.Has q ∧ LeadsTo t' q k) t'
        ((r.finishStyles rs).attempt.run o t).tree := by
  intro t'
  have hlacks := publish_lacks h
  rw [htext] at hlacks
  cases hw : (t.answer o (.write r.combinedPath text)).1 with
  | error e =>
    obtain ⟨es, es', -, hrun⟩ := run_finishStyles o t r rs
    rw [hrun, htext] at h
    dsimp only at h
    rw [Job.run_bind_of_error (run_publish_error hw)] at h
    cases h
  | ok u =>
    have ho := answer_write_of_ok hw
    rw [run_publish_ok hw] at hlacks
    simp only [answer, ho, Prod.fst_swap, Prod.snd_swap] at hw hlacks
    refine ⟨read_of_write hw, ?_⟩
    have hhas (k : Place) : (∃ e ∈ rs.flatMap FileResult.css, ∃ q, e.Has q ∧ LeadsTo t' q k) ↔
        ∃ e ∈ rs.flatMap FileResult.css, LeadsTo t' e.actual k ∨ LeadsTo t' e.proxy k := by
      simp [CssEntry.Has, or_and_right, exists_or]
    simp only [hhas]
    exact hlacks

end Request

namespace Report

/-- The manifest is written over a file just if its path leads there. -/
theorem bytes?_writeManifest {x : Manifest} {v : Unit}
    (h : ((writeManifest q x).attempt.run o t).result = .ok v) (hp : t.place? p = some k)
    (hs : p.endsInSlash = false) :
    let t' := ((writeManifest q x).attempt.run o t).tree
    SameFile t' p q ∧ t'.bytes? k = some x.toText.toUTF8 ∨
      ¬SameFile t' p q ∧ t'.bytes? k = t.bytes? k := by
  intro t'
  obtain ⟨i, hq⟩ := find_of_read (read_writeManifest h)
  have hplace : t'.place? p = some k := (Plan.run_keepsDirectories o t _).place? hp
  have hbytes : t'.bytes? k = if i = k then some x.toText.toUTF8 else t.bytes? k := by
    obtain ⟨v, hw, -⟩ := Job.run_bind_ok h
    rw [Job.run_write] at hw
    have hw : (t.answer o (.write q x.toText)).1 = .ok v := eq_ok_of_mapError hw
    have htree : t' = (t.write q x.toText.toUTF8).1 := by
      simp only [t', tree_writeManifest, answer, answer_write_of_ok hw, Prod.snd_swap]
    simp only [answer, answer_write_of_ok hw, Prod.fst_swap] at hw
    rw [htree, bytes?_write (.refl _), hw, ← htree, place?_of_find hq]
    simp
  by_cases hik : i = k
  · subst hik
    rw [if_pos rfl] at hbytes
    exact .inl ⟨⟨i, ⟨_, find_of_place? hplace hs hbytes⟩, ⟨_, hq⟩⟩, hbytes⟩
  · rw [if_neg hik] at hbytes
    refine .inr ⟨?_, hbytes⟩
    rintro ⟨j, ⟨c, hc⟩, ⟨d, hd⟩⟩
    rw [place?_of_find hc] at hplace
    rw [hq] at hd
    cases hd
    exact hik (Option.some.inj hplace)

theorem Completes.written {w : Run (List FileResult × List Failure)}
    (h : ((ofRequest m r).attempt.run o t).result = .ok rep) (hc : Completes m r o t rep s w) :
    ((writeManifest r.manifestPath (Manifest.build r.root w.result.1 rep.combined.toList)).attempt.run
      o ((finish r s w.result.1).attempt.run o w.tree).tree).result = .ok () := by
  rw [(result_ofRequest hc.survey hc.work).1] at h
  obtain ⟨-, -, -, -, hwritten, -⟩ := conclude_ok h
  exact hwritten

/-- A run tells of no combined stylesheet but the one that is put together once all files are done. -/
theorem Completes.combined_ok {w : Run (List FileResult × List Failure)}
    (hc : Completes m r o t rep s w) (hp : rep.combined = some p) :
    s.embedCss = true ∧ p = r.combinedPath ∧
      ∃ text, ((FileResult.combine r.combinedPath w.result.1).run o w.tree).result = some text := by
  have hfinished := hc.finished
  by_cases hembed : s.embedCss = true
  · rw [finish_of_embedCss hembed] at hfinished
    have hcombined := Request.finishStyles_ok hfinished
    cases htext : ((FileResult.combine r.combinedPath w.result.1).run o w.tree).result with
    | none =>
      rw [htext, hp] at hcombined
      cases hcombined
    | some text =>
      rw [htext, hp] at hcombined
      exact ⟨hembed, Option.some.inj hcombined.1, text, rfl⟩
  · rw [finish_of_not_embedCss (by simpa using hembed), hp] at hfinished
    cases hfinished

/-- A run that tells of a combined stylesheet has written it, and its manifest names it and nothing else as
generated. In the end the stylesheet is there just if nothing came over it: neither is it one of those that
were embedded and then removed, nor does the manifest stand in its place. -/
theorem combined_survives_iff (h : ((ofRequest m r).attempt.run o t).result = .ok rep)
    (hp : rep.combined = some p) :
    ∃ (rs : List FileResult) (t' : FileTree) (text : String) (man : Manifest),
      Reaches m r o t rs t' ∧ ((FileResult.combine p rs).run o t').result = some text ∧
      ((ofRequest m r).attempt.run o t).tree.read r.manifestPath = .ok man.toText ∧
      man.generated = [r.root.relativeTo p] ∧
      (((ofRequest m r).attempt.run o t).tree.read p = .ok text ↔
        SameFile ((ofRequest m r).attempt.run o t).tree p r.manifestPath ∧ man.toText = text ∨
        ¬SameFile ((ofRequest m r).attempt.run o t).tree p r.manifestPath ∧
          ∀ e ∈ rs.flatMap FileResult.css, ∀ q, e.Has q →
            ¬SameFile (t'.write p text.toUTF8).1 p q) := by
  obtain ⟨s, w, hc⟩ := exists_completes h
  obtain ⟨hembed, rfl, text, htext⟩ := hc.combined_ok hp
  have hfinish : finish r s w.result.1 = r.finishStyles w.result.1 := finish_of_embedCss hembed
  have hfinished := hc.finished
  have hwritten := hc.written h
  have htree := hc.tree
  rw [hfinish] at hfinished hwritten htree
  refine ⟨w.result.1, w.tree, text, _, hc.reaches, htext, hc.read, by rw [hp]; rfl, ?_⟩
  obtain ⟨hread, hlacks⟩ := Request.publish_ok hfinished htext
  obtain ⟨k, hf⟩ := find_of_read hread
  have hkeeps := hlacks.keeps.trans (Plan.run_keepsDirectories o _
    (writeManifest r.manifestPath
      (Manifest.build r.root w.result.1 rep.combined.toList)).attempt)
  have hmanifest := bytes?_writeManifest hwritten (hlacks.keeps.place? (place?_of_find hf))
    (find_eq_file.1 hf).1
  rw [← htree] at hkeeps hmanifest
  rw [read_iff_bytes? hf hkeeps]
  rcases hmanifest with ⟨hsame, hbytes⟩ | ⟨hother, hbytes⟩
  · rw [hbytes]
    simp only [hsame, true_and, not_true_eq_false, false_and, or_false, Option.some.injEq,
      String.toUTF8_eq_toByteArray]
    exact String.toByteArray_inj
  · rw [hbytes, hlacks.bytes?_eq_some]
    simp only [hother, false_and, not_false_eq_true, true_and, false_or, sameFile_iff hf,
      bytes?_of_find hf, and_true, not_exists, not_and]

/-! A build whose combined stylesheet is to have the name of the only one that goes into it. -/

namespace Overlaid

open Blocked (script style proxy lines text)
open Unread (minifier)

def tree : FileTree :=
  (((FileTree.empty.put [] "build" .directory).put ["build"] "app.js" (.file text.toUTF8)).put
    ["build"] "x.css" (.file ".a \x7b color: red; \x7d".toUTF8)).put
    ["build"] "x.css.proxy.js" (.file "export default 1;\n".toUTF8)

def request : Request where
  root := ⟨"build"⟩
  options :=
    { minifyScripts := false, minifyPages := false, minifyStyles := false, combinedName := "/x.css" }

def survey : Survey := ⟨[script, style, proxy], true, none⟩

def setting : Setting := ⟨minifier, request.options, true, none⟩

/-- The tree once the work on the script is done. -/
def written : FileTree := (tree.write script "".toUTF8).1

def results : List FileResult := [⟨script, [⟨style, proxy⟩]⟩, ⟨style, []⟩, ⟨proxy, []⟩]

/-- The tree once the work on all files is done. -/
def worked : FileTree := ((setting.optimizeAll [style, proxy]).run {} written).tree

/-- What is left to do when the work on the files is done. -/
def concluded : Run (Except Fault Report) := (conclude request survey 0 results []).attempt.run {} worked

def report : Report :=
  ⟨3, [], true, some style, 2, ⟨"build/_snowpack/optimize-manifest.json"⟩, 0⟩

/-- What the build holds, as far as the work on the script asks for it. -/
theorem tree_values :
    (∀ l ∈ lines, l.IsSound) ∧ tree.read script = .ok text ∧
    ((Job.scan request.root request.excluded).attempt.run {} tree).result = .ok survey.files ∧
    ((Script.Line.module lines).imports.any fun d =>
      Naming.isCssProxy {} (String.ofList d.specifier)) = true ∧
    FileKind.classify {} script = .script ∧
    (tree.answer {} (.read script)).1 = .ok text ∧ "" ≠ text ∧
    (tree.answer {} (.write script "")).1 = .ok () ∧
    Naming.isCssModule {} (Naming.actual {} "./x.css.proxy.js") = false := by
  decide +kernel

/-- What the work on the other files gives, and what a run comes to after it. -/
theorem worked_values :
    ((setting.optimizeAll [style, proxy]).run {} written).result =
      [.ok ⟨style, []⟩, .ok ⟨proxy, []⟩] ∧
    ((FileResult.combine style results).run {} worked).result = some ".a\x7bcolor:red\x7d" ∧
    concluded.result = .ok report ∧ concluded.tree.read style = .error .notFound := by
  decide +kernel

theorem survey_ok : ((Survey.ofRequest request).attempt.run {} tree).result = .ok survey := by
  obtain ⟨hsound, hread, hscan, himports, -⟩ := tree_values
  have hcss : importsCss? {} text = some true := himports ▸ importsCss?_print hsound
  exact Survey.ofRequest_of_scan rfl hscan (Job.importsCss_of_read hread hcss)

theorem embedded : Embedded.ofCode tree.read {} script text = .ok ⟨[⟨style, proxy⟩], ""⟩ := by
  have hr : ∀ l ∈ lines, l.IsReadable {} tree script := by
    obtain ⟨-, -, -, -, -, -, -, -, hmodule⟩ := tree_values
    simp [lines, Script.Line.IsReadable, Embed.IsModuleProxy, hmodule]
  rw [text, Embedded.ofCode_print tree_values.1 hr]
  decide

theorem run_workOn : ((workOn minifier request survey).run {} tree).result = (results, []) ∧
    ((workOn minifier request survey).run {} tree).tree = worked := by
  obtain ⟨-, -, -, -, hkind, hread, hne, hwrite, -⟩ := tree_values
  obtain ⟨hresult, htree⟩ := Setting.optimize_of_embeds (o := {}) (t := tree) (s := setting)
    (g := script) rfl rfl hkind hread embedded hne hwrite
  obtain ⟨hr, ht⟩ := workOn_cons (m := minifier) (r := request) (s := survey) rfl rfl hresult htree
  exact ⟨hr.trans (congrArg (fun ys => (⟨script, [⟨style, proxy⟩]⟩ :: resultsOf ys, failuresOf ys))
    worked_values.1), ht⟩

theorem reaches : Reaches minifier request {} tree results worked :=
  ⟨survey, survey_ok, congrArg Prod.fst run_workOn.1, run_workOn.2⟩

theorem run_ofRequest :
    ((ofRequest minifier request).attempt.run {} tree).result = .ok report ∧
      ((ofRequest minifier request).attempt.run {} tree).tree = concluded.tree := by
  have h := result_ofRequest (m := minifier) survey_ok rfl
  rw [run_workOn.1, run_workOn.2] at h
  exact ⟨h.1.trans worked_values.2.2.1, h.2⟩

end Overlaid

/-- Whether the combined stylesheet survives can be told where it has the name of another one. -/
theorem combined_survives_overlaid_iff :
    ((ofRequest Unread.minifier Overlaid.request).attempt.run {} Overlaid.tree).result =
      .ok Overlaid.report ∧
    Overlaid.report.combined = some Blocked.style ∧
    ∃ (rs : List FileResult) (t' : FileTree) (text : String) (man : Manifest),
      Reaches Unread.minifier Overlaid.request {} Overlaid.tree rs t' ∧
      ((FileResult.combine Blocked.style rs).run {} t').result = some text ∧
      ((ofRequest Unread.minifier Overlaid.request).attempt.run {} Overlaid.tree).tree.read
        Overlaid.request.manifestPath = .ok man.toText ∧
      man.generated = [Overlaid.request.root.relativeTo Blocked.style] ∧
      (((ofRequest Unread.minifier Overlaid.request).attempt.run {} Overlaid.tree).tree.read
          Blocked.style = .ok text ↔
        SameFile ((ofRequest Unread.minifier Overlaid.request).attempt.run {} Overlaid.tree).tree
            Blocked.style Overlaid.request.manifestPath ∧ man.toText = text ∨
        ¬SameFile ((ofRequest Unread.minifier Overlaid.request).attempt.run {} Overlaid.tree).tree
            Blocked.style Overlaid.request.manifestPath ∧
          ∀ e ∈ rs.flatMap FileResult.css, ∀ q, e.Has q →
            ¬SameFile (t'.write Blocked.style text.toUTF8).1 Blocked.style q) :=
  ⟨Overlaid.run_ofRequest.1, rfl, combined_survives_iff Overlaid.run_ofRequest.1 rfl⟩

/-- A run tells of a combined stylesheet that is not there in the end: it is removed as the one that went
into it. -/
theorem combined_removed :
    ((ofRequest Unread.minifier Overlaid.request).attempt.run {} Overlaid.tree).result =
      .ok Overlaid.report ∧
    Overlaid.report.combined = some Blocked.style ∧
    Reaches Unread.minifier Overlaid.request {} Overlaid.tree Overlaid.results Overlaid.worked ∧
    ((FileResult.combine Blocked.style Overlaid.results).run {} Overlaid.worked).result =
      some ".a\x7bcolor:red\x7d" ∧
    ((ofRequest Unread.minifier Overlaid.request).attempt.run {} Overlaid.tree).tree.read
      Blocked.style = .error .notFound := by
  obtain ⟨-, hcombine, -, hgone⟩ := Overlaid.worked_values
  refine ⟨Overlaid.run_ofRequest.1, rfl, Overlaid.reaches, hcombine, ?_⟩
  rw [Overlaid.run_ofRequest.2]
  exact hgone

end Report

end SiteBuild
