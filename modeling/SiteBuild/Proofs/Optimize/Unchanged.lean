import SiteBuild.Proofs.Embed.Effect
import SiteBuild.Proofs.Optimize.Account
import SiteBuild.Proofs.Optimize.Confinement

/-! Builds in which nothing is left to do. Where no text can be made smaller, a run leaves them as they
are: such are the builds of which no script imports a stylesheet, and those of which no script embeds one
and no page can be linked. -/

namespace SiteBuild

open FileTree

variable {o : Outages} {t : FileTree} {g p : Path} {m : Minifier} {r : Request} {s : Survey}
  {rs : List FileResult}

/-- That a minifier gives texts back as they are, or fails. -/
structure Minifier.KeepsTexts (m : Minifier) : Prop where
  script : ∀ p text new, m.script p text = .ok new → new = text
  style : ∀ p text new, m.style p text = .ok new → new = text
  page : ∀ text new, m.page text = .ok new → new = text

/-- That a run which embeds stylesheets changes a file: a page that can be read and written is linked to
the combined one, a script may have some to embed. -/
structure Touches (n : Naming) (o : Outages) (t : FileTree) (g : Path) : Prop where
  read : o.read g = none
  write : o.write g = none
  changes : FileKind.classify n g = .page ∧ (∃ text, t.read g = .ok text) ∨
    FileKind.classify n g = .script ∧ ∃ code e, t.read g = .ok code ∧
      Embedded.ofCode t.read n g code = .ok e ∧ e.imports ≠ []

namespace FileTree

/-- What is read from a file is what it holds. -/
theorem find_of_read {text : String} (h : t.read p = .ok text) :
    ∃ k, t.find p = .ok (k, .file text.toUTF8) := by
  obtain ⟨k, b, hf, hb⟩ := exists_find_of_read h
  refine ⟨k, ?_⟩
  unfold String.fromUTF8? at hb
  split at hb
  · cases hb
    exact hf
  · cases hb

/-- Writing over a file what is read from it changes nothing. -/
theorem write_of_read {text : String} (h : t.read p = .ok text) : (t.write p text.toUTF8).1 = t := by
  obtain ⟨k, hf⟩ := find_of_read h
  refine ext_node? fun j => ?_
  rw [(write_of_find hf).2]
  split
  · next hj => rw [hj, (find_eq_file.1 hf).2.1]
  · rfl

theorem answer_write_of_read {text : String} (h : t.read p = .ok text) :
    (t.answer o (.write p text)).2 = t := by
  simp only [answer]
  cases o.write p with
  | some e => rfl
  | none => exact write_of_read h

end FileTree

/-- Work that leaves a tree as it is does so one by one, and each part of it finds the same. -/
theorem Plan.run_mapM_of_tree_eq {α β : Type} {f : α → Plan β} {l : List α}
    (h : ∀ a ∈ l, ((f a).run o t).tree = t) :
    ((l.mapM f).run o t).tree = t ∧
      ((l.mapM f).run o t).result = l.map fun a => ((f a).run o t).result := by
  induction l with
  | nil => exact ⟨rfl, rfl⟩
  | cons a l ih =>
    obtain ⟨htree, hresult⟩ := ih fun b hb => h b (List.mem_cons_of_mem _ hb)
    rw [run_mapM_cons]
    dsimp only
    rw [h a List.mem_cons_self, hresult]
    exact ⟨htree, rfl⟩

namespace Job

/-- A job leaves a tree as it is if both its parts do. -/
theorem bind_tree_eq {α β : Type} {x : Job α} {f : α → Job β} (hx : (x.attempt.run o t).tree = t)
    (hf : ∀ a, (x.attempt.run o t).result = .ok a → ((f a).attempt.run o t).tree = t) :
    ((x >>= f).attempt.run o t).tree = t := by
  rw [run_bind]
  dsimp only
  cases h : (x.attempt.run o t).result with
  | error e => exact hx
  | ok a =>
    dsimp only
    rw [hx]
    exact hf a h

theorem read_tree_eq (p : Path) : ((read p).attempt.run o t).tree = t := by
  rw [run_read]

theorem write_tree_eq_of_read {text : String} (h : t.read p = .ok text) :
    ((write p text).attempt.run o t).tree = t := by
  rw [run_write]
  exact answer_write_of_read h

/-- A file is left alone if its text stays the same wherever it can be read and written. -/
theorem revise_tree_eq {α : Type} {f : String → Job (String × α)} (hl : ∀ text, (f text).Calls Looks)
    (h : o.read g = none → o.write g = none → ∀ text new a, t.read g = .ok text →
      ((f text).attempt.run o t).result = .ok (new, a) → new = text) :
    ((revise g f).attempt.run o t).tree = t := by
  unfold revise
  refine bind_tree_eq (read_tree_eq g) fun text hr => ?_
  rw [run_read] at hr
  obtain ⟨hread, htext⟩ := answer_read_of_ok (eq_ok_of_mapError hr)
  refine bind_tree_eq (hl text).attempt.looks fun (new, a) ha => ?_
  by_cases hne : new = text
  · simp only [hne, ne_eq, not_true_eq_false, if_false]
    rfl
  · simp only [ne_eq, hne, not_false_eq_true, if_true]
    refine bind_tree_eq ?_ fun _ _ => rfl
    rw [run_write]
    simp only [answer]
    cases hw : o.write g with
    | none => exact absurd (h hread hw text new a htext ha) hne
    | some e => rfl

end Job

namespace Setting

variable {s : Setting}

theorem minifyScript_eq (hm : s.minifier.KeepsTexts) {text new : String}
    (h : s.minifyScript g text = .ok new) : new = text := by
  unfold minifyScript at h
  split at h
  · exact hm.script _ _ _ h
  · exact (Except.ok.inj h).symm

theorem minifyPage_eq (hm : s.minifier.KeepsTexts) {text new : String}
    (h : s.minifyPage text = .ok new) : new = text := by
  unfold minifyPage at h
  split at h
  · exact hm.page _ _ h
  · exact (Except.ok.inj h).symm

theorem minifyStyle_tree_eq (hm : s.minifier.KeepsTexts) :
    ((s.minifyStyle g).attempt.run o t).tree = t := by
  unfold minifyStyle
  split
  · refine Job.bind_tree_eq (Job.read_tree_eq g) fun text hr => Job.bind_tree_eq ?_ fun _ _ => ?_
    · exact (Job.Calls.forM (P := Looks) fun _ _ => .tell trivial).attempt.looks
    · refine Job.bind_tree_eq rfl fun new hnew => ?_
      rw [hm.style _ _ _ hnew]
      exact Job.write_tree_eq_of_read (Job.read_of_run_read hr)
  · rfl

theorem embedScript_looks (s : Setting) (file : Path) (code : String) :
    (s.embedScript file code).Calls Looks :=
  .bind (Embedded.ofFile_calls fun _ _ _ => trivial) fun _ => .bind (.ofExcept _) fun _ => .pure _

theorem optimizeScript_tree_eq (hm : s.minifier.KeepsTexts)
    (hk : FileKind.classify s.options.naming g = .script)
    (h : s.embedCss = true → ¬Touches s.options.naming o t g) :
    ((s.optimizeScript g).attempt.run o t).tree = t := by
  cases he : s.embedCss with
  | false =>
    unfold optimizeScript
    split
    · simp only [he, Bool.false_eq_true, if_false, pure_bind]
      refine Job.revise_tree_eq (fun _ => .bind (.ofExcept _) fun _ => .pure _)
        fun _ _ code new a _ hx => ?_
      obtain ⟨x, hcode, hnew, -⟩ := Job.run_bind_ok hx
      cases hnew
      exact minifyScript_eq hm hcode
    · rfl
  | true =>
    rw [optimizeScript_eq he]
    refine Job.revise_tree_eq (s.embedScript_looks g) fun hread hwrite code new es hr hx => ?_
    obtain ⟨e, hc, hnew, -⟩ := embedScript_ok hx
    rw [minifyScript_eq hm hnew, Embedded.code_eq_iff hc]
    by_contra hne
    exact h he ⟨hread, hwrite, .inr ⟨hk, code, e, hr, hc, hne⟩⟩

theorem linkPage_eq (he : s.embedCss = false) (hg : s.preloadGraph = none) (text : String) :
    s.linkPage g text = text := by
  simp [linkPage, he, hg]

theorem optimizePage_tree_eq (hm : s.minifier.KeepsTexts)
    (hk : FileKind.classify s.options.naming g = .page) (hg : s.preloadGraph = none)
    (h : s.embedCss = true → ¬Touches s.options.naming o t g) :
    ((s.optimizePage g).attempt.run o t).tree = t := by
  unfold optimizePage
  split
  · refine Job.revise_tree_eq (fun _ => .bind (.ofExcept _) fun _ => .pure _)
      fun hread hwrite text new a hr hx => ?_
    cases he : s.embedCss with
    | true => exact absurd ⟨hread, hwrite, .inl ⟨hk, text, hr⟩⟩ (h he)
    | false =>
      obtain ⟨x, hpage, hnew, -⟩ := Job.run_bind_ok hx
      cases hnew
      rw [linkPage_eq he hg] at hpage
      exact minifyPage_eq hm hpage
  · rfl

/-- A file stays as it is where nothing is made smaller, unless stylesheets are embedded and touch it. -/
theorem optimize_tree_eq (hm : s.minifier.KeepsTexts) (hg : s.preloadGraph = none)
    (h : s.embedCss = true → ¬Touches s.options.naming o t g) :
    ((s.optimize g).attempt.run o t).tree = t := by
  unfold optimize
  refine Job.bind_tree_eq rfl fun _ _ => ?_
  cases hk : FileKind.classify s.options.naming g with
  | css => exact Job.bind_tree_eq (minifyStyle_tree_eq hm) fun _ _ => rfl
  | script => exact Job.bind_tree_eq (optimizeScript_tree_eq hm hk h) fun _ _ => rfl
  | page => exact Job.bind_tree_eq (optimizePage_tree_eq hm hk hg h) fun _ _ => rfl
  | cssProxy => rfl
  | other => rfl

/-- What is embedded into a file touches it. -/
theorem css_of_optimize_ok {x : FileResult} (hm : s.minifier.KeepsTexts)
    (h : s.embedCss = true → ¬Touches s.options.naming o t g)
    (hx : ((s.optimize g).attempt.run o t).result = .ok x) : x.css = [] := by
  cases he : s.embedCss with
  | false => exact optimize_nil he hx
  | true =>
    obtain ⟨-, hcss⟩ := optimize_ok hx
    split at hcss
    · next hk =>
      obtain ⟨code, e, new, hr, hc, hes, hread, hnew, hwrite⟩ := optimizeScript_ok he hcss
      rw [hes]
      by_contra hne
      obtain rfl := minifyScript_eq hm hnew
      exact h he ⟨hread, hwrite fun heq => hne ((Embedded.code_eq_iff hc).1 heq),
        .inr ⟨hk, code, e, hr, hc, hne⟩⟩
    · exact hcss

/-- Files that are not touched stay as they are, and nothing is embedded into them. -/
theorem run_optimizeAll_of_not_touches {fs : List Path} (hm : s.minifier.KeepsTexts)
    (hg : s.preloadGraph = none)
    (h : s.embedCss = true → ∀ g ∈ fs, ¬Touches s.options.naming o t g) :
    ((s.optimizeAll fs).run o t).tree = t ∧
      ∀ x ∈ Report.resultsOf ((s.optimizeAll fs).run o t).result, x.css = [] := by
  unfold optimizeAll
  rw [Plan.run_during]
  dsimp only
  obtain ⟨htree, hresult⟩ := Plan.run_mapM_of_tree_eq (o := o) (t := t) (l := fs)
    (f := fun p => return (← (s.optimize p).attempt).mapError (Failure.mk p)) fun g hgs => by
      rw [Plan.run_bind]
      exact optimize_tree_eq hm hg fun he => h he g hgs
  refine ⟨htree, fun x hx => ?_⟩
  rw [hresult] at hx
  obtain ⟨g, hgs, hx⟩ := List.mem_map.1 (Report.mem_resultsOf.1 hx)
  rw [Plan.run_bind] at hx
  exact css_of_optimize_ok hm (fun he => h he g hgs) (eq_ok_of_mapError hx)

theorem minifyProxy_tree_eq (hm : s.minifier.KeepsTexts) :
    ((s.minifyProxy p).attempt.run o t).tree = t := by
  refine Job.revise_tree_eq (fun _ => .bind (.ofExcept _) fun _ => .pure _) fun _ _ _ new a _ h => ?_
  obtain ⟨x, hx, h, -⟩ := Job.run_bind_ok h
  cases h
  exact hm.script _ _ _ hx

theorem minifyProxies_tree_eq (hm : s.minifier.KeepsTexts) (ps : List Path) :
    ((s.minifyProxies ps).run o t).tree = t := by
  induction ps with
  | nil => rfl
  | cons p ps ih =>
    unfold minifyProxies
    rw [Plan.run_bind]
    dsimp only
    rw [minifyProxy_tree_eq hm]
    cases ((s.minifyProxy p).attempt.run o t).result with
    | ok u => exact ih
    | error f =>
      dsimp only
      rw [Plan.run_bind]
      dsimp only
      rw [Plan.run_bind]
      exact ih

end Setting

namespace FileResult

theorem combine_of_css_nil (h : ∀ x ∈ rs, x.css = []) (target : Path) :
    combine target rs = pure none := by
  have hnil : rs.flatMap css = [] := List.flatMap_eq_nil_iff.2 h
  unfold combine uniqueCss
  rw [hnil]
  rfl

theorem removeCss_of_css_nil (h : ∀ x ∈ rs, x.css = []) : removeCss rs = pure 0 := by
  have hnil : rs.flatMap css = [] := List.flatMap_eq_nil_iff.2 h
  unfold removeCss
  rw [hnil]
  rfl

end FileResult

namespace Report

theorem minifyLeft_tree_eq (hm : m.KeepsTexts) (rs : List FileResult) :
    ((minifyLeft r ⟨m, r.options, s.embedCss, s.graph⟩ rs).run o t).tree = t := by
  unfold minifyLeft
  split
  · exact Setting.minifyProxies_tree_eq hm _
  · rfl

/-- The work on files that are not touched leaves them as they are, and nothing is embedded. -/
theorem run_workOn_of_not_touches (hm : m.KeepsTexts) (hp : r.options.preloadModules = false)
    (h : s.embedCss = true → ∀ g ∈ s.files, ¬Touches r.options.naming o t g) :
    ((workOn m r s).run o t).tree = t ∧ ∀ x ∈ ((workOn m r s).run o t).result.1, x.css = [] := by
  have hg : Setting.preloadGraph ⟨m, r.options, s.embedCss, s.graph⟩ = none := by
    simp [Setting.preloadGraph, hp]
  obtain ⟨htree, hcss⟩ := Setting.run_optimizeAll_of_not_touches hm hg h
  obtain ⟨hresult, hend⟩ := run_workOn_eq m r s o t
  rw [hend, minifyLeft_tree_eq hm, hresult]
  exact ⟨htree, fun x hx => hcss x (mem_dropFailed.1 hx).1⟩

/-- Where nothing was embedded, there is nothing to put together or to remove. -/
theorem finish_looks (h : ∀ x ∈ rs, x.css = []) : (finish r s rs).Calls Looks := by
  unfold finish
  split
  · have hnone : (liftM (pure none : Plan (Option String)) : Job (Option String)) = pure none := rfl
    rw [Request.finishStyles_eq, FileResult.combine_of_css_nil h, FileResult.removeCss_of_css_nil h,
      hnone, pure_bind]
    refine .during (fun _ => trivial) (.bind (.pure none) fun _ => .bind (.pure 0) fun _ => ?_)
    exact .bind (.tell trivial) fun _ => .pure _
  · exact .pure _

/-- Where nothing was embedded, a run ends with the manifest. -/
theorem conclude_writes (h : ∀ x ∈ rs, x.css = []) (start : Nat) (fs : List Failure) :
    (conclude r s start rs fs).Calls (WritesOnly [r.manifestPath]) := by
  unfold conclude
  refine .bind ((finish_looks h).mono fun _ => Looks.writesOnly) fun _ => ?_
  refine .bind (.bind (.write (List.mem_singleton.2 rfl)) fun _ => .tell trivial) fun _ => ?_
  exact .bind (.lift (.ask trivial)) fun _ => .bind (.tell trivial) fun _ => .pure _

theorem Completes.finish_none {rep : Report} {w : Run (List FileResult × List Failure)}
    (h : Completes m r o t rep s w) (he : s.embedCss = false) :
    rep.combined = none ∧ rep.removed = 0 := by
  have hfinish := h.finished
  rw [finish_of_not_embedCss he, Job.run_pure] at hfinish
  obtain ⟨hcombined, hremoved⟩ := Prod.mk.inj (Except.ok.inj hfinish)
  exact ⟨hcombined.symm, hremoved.symm⟩

/-- That a run on a build would touch no file: its survey finds no script that imports a stylesheet, or
none that embeds one and no page that can be linked. -/
def IsSettled (r : Request) (o : Outages) (t : FileTree) : Prop :=
  ∀ s, ((Survey.ofRequest r).attempt.run o t).result = .ok s → s.embedCss = true →
    ∀ g ∈ s.files, ¬Touches r.options.naming o t g

/-- That all files of a tree are the same in another but the one that a path leads to. -/
def KeepsFiles (p : Path) (t u : FileTree) : Prop :=
  ∀ k, u.place? p ≠ some k → u.bytes? k = t.bytes? k

/-- A run on a build in which nothing is left to do changes no file but the manifest, also where a fault
stops it. -/
theorem IsSettled.keepsFiles (h : IsSettled r o t) (hp : r.options.preloadModules = false)
    (hm : m.KeepsTexts) :
    KeepsFiles r.manifestPath t ((ofRequest m r).attempt.run o t).tree := by
  intro k hk
  cases hs : ((Survey.ofRequest r).attempt.run o t).result with
  | error e =>
    have hlooks : ∀ x ∈ ((ofRequest m r).attempt.run o t).exchanges, WritesOnly [] x.1 :=
      fun x hx => ((run_ofRequest_of_error hs).2 x hx).writesOnly
    exact Plan.bytes?_of_writesOnly hlooks (by simp)
  | ok s =>
    obtain ⟨htree, hcss⟩ := run_workOn_of_not_touches hm hp (h s hs)
    -- the work on the files leaves the tree as it is, and only the end of the run is left
    rw [(result_ofRequest hs rfl).2, htree] at hk ⊢
    refine Plan.bytes?_of_writesOnly (conclude_writes hcss 0 _).attempt.exchanges fun p hp => ?_
    rwa [List.mem_singleton.1 hp]

/-- That no script among the files of a build which can be read imports a stylesheet. -/
def ImportsNoStyle (r : Request) (o : Outages) (t : FileTree) : Prop :=
  ∀ files, ((Job.scan r.root r.excluded).attempt.run o t).result = .ok files →
    ∀ p ∈ Survey.scripts r.options.naming files, ∀ text, t.read p = .ok text →
      importsCss? r.options.naming text ≠ some true

theorem ImportsNoStyle.embedCss (h : ImportsNoStyle r o t)
    (hs : ((Survey.ofRequest r).attempt.run o t).result = .ok s) : s.embedCss = false := by
  by_contra he
  obtain ⟨p, hp, text, hr, hc⟩ := Survey.exists_importsCss hs (by simpa using he)
  exact h _ (Survey.scan_of_ofRequest hs) p hp text hr hc

/-- That a run changes no file but a manifest and removes none, that it tells of no stylesheet, and that
the manifest tells of none either. -/
structure OnlyRecords (p : Path) (t : FileTree) (x : Run (Except Fault Report)) : Prop where
  bytes? : ∀ k, x.tree.place? p ≠ some k → x.tree.bytes? k = t.bytes? k
  removes : ∀ q, ¬x.Removes q
  report : ∀ rep, x.result = .ok rep →
    rep.embedCss = false ∧ rep.combined = none ∧ rep.removed = 0
  manifest : ∀ rep, x.result = .ok rep → ∃ man : Manifest, x.tree.read p = .ok man.toText ∧
    man.generated = [] ∧ ∀ e ∈ man.imports.entries, e.2 = []

theorem ImportsNoStyle.isSettled (h : ImportsNoStyle r o t) : IsSettled r o t := by
  intro s hs he
  simp [h.embedCss hs] at he

/-- A build of which no script imports a stylesheet is left as it is by a minifier that makes nothing
smaller, but for the manifest. -/
theorem onlyRecords_of_importsNoStyle (hp : r.options.preloadModules = false) (hm : m.KeepsTexts)
    (hi : ImportsNoStyle r o t) :
    OnlyRecords r.manifestPath t ((ofRequest m r).attempt.run o t) where
  bytes? := hi.isSettled.keepsFiles hp hm
  removes p := by
    rintro ⟨a, hx⟩
    obtain ⟨rs, t', ⟨s, hs, rfl, -⟩, e, he, -⟩ := mem_exchanges_remove hx
    obtain ⟨y, hy, he⟩ := List.mem_flatMap.1 he
    rw [css_workOn (hi.embedCss hs) y hy] at he
    cases he
  report rep hrep := by
    obtain ⟨s, w, hc⟩ := exists_completes hrep
    have he := hi.embedCss hc.survey
    obtain ⟨hcombined, hremoved⟩ := hc.finish_none he
    exact ⟨hc.embedCss.trans he, hcombined, hremoved⟩
  manifest rep hrep := by
    obtain ⟨s, w, hc⟩ := exists_completes hrep
    have he := hi.embedCss hc.survey
    refine ⟨_, hc.read, ?_, fun e hm => ?_⟩
    · rw [(hc.finish_none he).1]
      rfl
    · obtain ⟨f, hf, -, hcss⟩ := hc.get?_imports.1 (Table.get?_of_mem hm)
      rw [← hcss, css_workOn he f (hc.work ▸ hf)]
      rfl

/-! A build with a script that loads a proxy when it runs, which is no import. -/

namespace Loading

def script : Path := ⟨"build/app.js"⟩

def lines : List Script.Line := [.load "./a.css.proxy.js".toList]

def text : String := String.ofList (lines.flatMap Script.Line.print)

def tree : FileTree :=
  (((FileTree.empty.put [] "build" .directory).put ["build"] "app.js" (.file text.toUTF8)).put
    ["build"] "a.css" (.file ".a \x7b\x7d".toUTF8)).put
    ["build"] "a.css.proxy.js" (.file "export default 1;\n".toUTF8)

def request : Request where
  root := ⟨"build"⟩
  options := {}

def files : List Path := [⟨"build/a.css"⟩, ⟨"build/a.css.proxy.js"⟩, script]

def report : Report :=
  ⟨3, [], false, none, 0, ⟨"build/_snowpack/optimize-manifest.json"⟩, 0⟩

theorem tree_values :
    (∀ l ∈ lines, l.IsSound) ∧ tree.read script = .ok text ∧
    ((Job.scan request.root request.excluded).attempt.run {} tree).result = .ok files ∧
    Survey.scripts {} files = [script] ∧
    ((Script.Line.module lines).imports.any fun d =>
      Naming.isCssProxy {} (String.ofList d.specifier)) = false := by
  decide +kernel

theorem importsCss_text : importsCss? {} text = some false := by
  obtain ⟨hsound, -, -, -, himports⟩ := tree_values
  exact himports ▸ importsCss?_print hsound

theorem importsNoStyle : ImportsNoStyle request {} tree := by
  obtain ⟨-, hread, hscan, hscripts, -⟩ := tree_values
  intro fs hfs p hp s hs
  rw [hscan] at hfs
  cases hfs
  obtain rfl : p = script := by simpa [request, hscripts] using hp
  rw [hread] at hs
  cases hs
  rw [show importsCss? request.options.naming text = some false from importsCss_text]
  simp

theorem keepsTexts : Unread.minifier.KeepsTexts :=
  ⟨fun _ _ _ h => (Except.ok.inj h).symm, fun _ _ _ h => (Except.ok.inj h).symm,
    fun _ _ h => (Except.ok.inj h).symm⟩

theorem survey_ok :
    ((Survey.ofRequest request).attempt.run {} tree).result = .ok ⟨files, false, none⟩ := by
  obtain ⟨-, hread, hscan, hscripts, -⟩ := tree_values
  refine Survey.ofRequest_of_scan rfl hscan ?_
  rw [show Survey.scripts request.options.naming files = [script] from hscripts]
  exact Job.importsCss_cons_of_read hread importsCss_text

theorem ofRequest_ok :
    ((ofRequest Unread.minifier request).attempt.run {} tree).result = .ok report := by
  rw [(result_ofRequest survey_ok rfl).1]
  decide +kernel

end Loading

/-- A build with a script that only loads a proxy is left as it is. -/
theorem onlyRecords_loading :
    ((ofRequest Unread.minifier Loading.request).attempt.run {} Loading.tree).result =
      .ok Loading.report ∧
    Loading.request.options.preloadModules = false ∧ Unread.minifier.KeepsTexts ∧
    ImportsNoStyle Loading.request {} Loading.tree ∧
    OnlyRecords Loading.request.manifestPath Loading.tree
      ((ofRequest Unread.minifier Loading.request).attempt.run {} Loading.tree) :=
  ⟨Loading.ofRequest_ok, rfl, Loading.keepsTexts, Loading.importsNoStyle,
    onlyRecords_of_importsNoStyle rfl Loading.keepsTexts Loading.importsNoStyle⟩

end Report

end SiteBuild
