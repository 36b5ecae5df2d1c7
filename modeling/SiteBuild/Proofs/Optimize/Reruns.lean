import SiteBuild.Proofs.Optimize.Isolation
import SiteBuild.Proofs.Optimize.Links
import SiteBuild.Proofs.Optimize.Unchanged
import SiteBuild.Proofs.Page.Head

/-! A run on a build on which a run has been before. Whether stylesheets are embedded is told by what
scripts import, so that an import which the run before has left has all pages linked once more. -/

namespace SiteBuild

open FileTree

variable {o : Outages} {t u : FileTree} {g p : Path} {k : Place} {b : ByteArray} {n : Naming}
  {m : Minifier} {r : Request} {s : Survey} {rep : Report}

/-- That a minifier gives every text back as it is. -/
structure Minifier.GivesBack (m : Minifier) : Prop where
  script : ∀ p text, m.script p text = .ok text
  style : ∀ p text, m.style p text = .ok text
  page : ∀ text, m.page text = .ok text

theorem Minifier.GivesBack.keepsTexts (h : m.GivesBack) : m.KeepsTexts where
  script p text _ hx := (Except.ok.inj ((h.script p text).symm.trans hx)).symm
  style p text _ hx := (Except.ok.inj ((h.style p text).symm.trans hx)).symm
  page text _ hx := (Except.ok.inj ((h.page text).symm.trans hx)).symm

namespace FileKind

/-- The kinds of the files that embedding changes. -/
def TakesStyles (k : FileKind) : Prop := k = .page ∨ k = .script

instance (k : FileKind) : Decidable k.TakesStyles := inferInstanceAs (Decidable (_ ∨ _))

theorem classify_manifestPath (r : Request) : ¬(classify {} r.manifestPath).TakesStyles := by
  have hname : r.manifestPath.fileName? = Path.fileName? ⟨"optimize-manifest.json"⟩ := by
    rw [fileName?_manifestPath]
    decide
  rw [classify_congr hname]
  decide

end FileKind

theorem Touches.takesStyles (h : Touches n o t g) : (FileKind.classify n g).TakesStyles :=
  h.changes.imp And.left And.left

namespace FileTree

theorem toUTF8_of_read {text : String} (hk : t.find p = .ok (k, .file b)) (h : t.read p = .ok text) :
    text.toUTF8 = b := by
  obtain ⟨j, hj⟩ := find_of_read h
  rw [hk] at hj
  cases hj
  rfl

theorem fileName?_of_place? (h : t.place? p = some k) :
    ∃ j x, k = j ++ [x] ∧ p.fileName? = some x := by
  unfold place? at h
  split at h
  · next j x ht => exact ⟨j, x, (Option.some.inj h).symm, fileName?_of_target ht⟩
  · cases h

/-- A path by the name of a file that embedding changes leads to no file of another kind. -/
theorem place?_ne_of_classify (hg : t.place? g = some k)
    (hkind : (FileKind.classify n g).TakesStyles) (hp : ¬(FileKind.classify n p).TakesStyles) :
    t.place? p ≠ some k := by
  intro hplace
  obtain ⟨j, x, rfl, hx⟩ := fileName?_of_place? hg
  obtain ⟨i, y, he, hy⟩ := fileName?_of_place? hplace
  obtain ⟨-, he⟩ := List.append_inj' he rfl
  rw [FileKind.classify_congr (q := g) (by rw [hx, hy, List.singleton_inj.1 he])] at hp
  exact hp hkind

end FileTree

namespace Job

variable {α : Type}

/-- A new text that is to be written fails to be and leaves the file as it is, or the file holds it. -/
theorem run_writeBack {text : String} (hk : t.find g = .ok (k, .file b))
    (ht : t.read g = .ok text) (new : String) (a : α) :
    let x := (do
      if new ≠ text then write g new
      return a : Job α).attempt.run o t
    (x.tree = t ∧ (∃ e, x.result = .error e) ∧ o.write g ≠ none) ∨
      x.tree.bytes? k = some new.toUTF8 := by
  by_cases hne : new = text
  · simp only [hne, ne_eq, not_true_eq_false, if_false]
    rw [toUTF8_of_read hk ht]
    exact .inr (bytes?_eq_some.2 (find_eq_file.1 hk).2.1)
  · simp only [ne_eq, hne, not_false_eq_true, if_true]
    rcases answer_write_of_find (o := o) hk new with ⟨htree, ho⟩ | ⟨-, hok, hnode⟩
    · obtain ⟨e, he⟩ := Option.ne_none_iff_exists'.1 ho
      have hw : ((write g new).attempt.run o t).result = .error (.io e) := by
        rw [run_write]
        simp only [answer, he]
        rfl
      rw [run_bind_of_error hw, run_write, htree]
      exact .inl ⟨rfl, ⟨_, rfl⟩, ho⟩
    · have hw : ((write g new).attempt.run o t).result = .ok () := by
        rw [run_write, hok]
        rfl
      rw [run_bind_of_ok hw, run_write]
      exact .inr (bytes?_eq_some.2 ((hnode k).trans (if_pos rfl)))

/-- Work on the text of a file fails and leaves the file as it is, or it ends with the new text. -/
theorem run_revise {f : String → Job (String × α)} (hl : ∀ text, (f text).Calls Looks)
    (hk : t.find g = .ok (k, .file b)) :
    let x := (revise g f).attempt.run o t
    (x.tree = t ∧ (∃ e, x.result = .error e) ∧ (o.read g = none → o.write g = none →
      ∀ text, t.read g = .ok text → ∃ e, ((f text).attempt.run o t).result = .error e)) ∨
    ∃ text new a, t.read g = .ok text ∧ ((f text).attempt.run o t).result = .ok (new, a) ∧
      x.tree.bytes? k = some new.toUTF8 := by
  intro x
  cases hr : (t.answer o (.read g)).1 with
  | error e =>
    have hread : ((read g).attempt.run o t).result = .error (.io e) := by
      rw [run_read, hr]
      rfl
    have hx : x = _ := run_bind_of_error hread
    rw [hx, run_read]
    refine .inl ⟨rfl, ⟨_, rfl⟩, fun ho _ text ht => ?_⟩
    simp only [answer, ho, ht] at hr
    cases hr
  | ok text =>
    have hread : ((read g).attempt.run o t).result = .ok text := by
      rw [run_read, hr]
      rfl
    obtain ⟨-, htext⟩ := answer_read_of_ok hr
    have hx : x = _ := run_bind_of_ok hread
    rw [run_read] at hx
    cases hf : ((f text).attempt.run o t).result with
    | error e =>
      rw [run_bind_of_error hf, (hl text).attempt.looks] at hx
      rw [hx]
      refine .inl ⟨rfl, ⟨e, rfl⟩, fun _ _ text' ht => ⟨e, ?_⟩⟩
      rw [htext] at ht
      cases ht
      exact hf
    | ok y =>
      obtain ⟨new, a⟩ := y
      rw [run_bind_of_ok hf, (hl text).attempt.looks] at hx
      rw [hx]
      rcases run_writeBack (o := o) hk htext new a with ⟨htree, herror, ho⟩ | hb
      · exact .inl ⟨htree, herror, fun _ ho' => absurd ho' ho⟩
      · exact .inr ⟨text, new, a, htext, hf, hb⟩

end Job

namespace Setting

variable {s : Setting}

theorem minifyPage_of_givesBack (hm : s.minifier.GivesBack) (text : String) :
    s.minifyPage text = .ok text := by
  unfold minifyPage
  split
  · exact hm.page text
  · rfl

theorem run_embedScript (hm : s.minifier.GivesBack) (code : String) :
    ((s.embedScript g code).attempt.run o t).result =
      (Embedded.ofCode t.read s.options.naming g code).map fun e => (e.code, e.imports) := by
  have hminify (code : String) : s.minifyScript g code = .ok code := by
    unfold minifyScript
    split
    · exact hm.script g code
    · rfl
  unfold embedScript
  rw [Job.run_bind]
  dsimp only
  rw [(Embedded.run_ofFile o t s.options.naming g code).1]
  cases Embedded.ofCode t.read s.options.naming g code with
  | error e => rfl
  | ok e =>
    simp only [hminify]
    rfl

theorem run_optimize_of_page (hk : FileKind.classify s.options.naming g = .page) :
    ((s.optimize g).attempt.run o t).tree = ((s.optimizePage g).attempt.run o t).tree := by
  unfold optimize
  rw [Job.run_bind_of_ok (a := ()) rfl, Job.run_tell, hk]
  dsimp only
  rw [Job.run_bind]
  dsimp only
  cases ((s.optimizePage g).attempt.run o t).result with
  | error e => rfl
  | ok u => rfl

/-- Where stylesheets are embedded, work on a script fails and leaves it as it is, or it ends with the
script as it is embedded. -/
theorem run_optimize_script (hm : s.minifier.GivesBack) (he : s.embedCss = true)
    (hk : FileKind.classify s.options.naming g = .script) (hf : t.find g = .ok (k, .file b)) :
    let x := (s.optimize g).attempt.run o t
    (x.tree = t ∧ (∃ e, x.result = .error e) ∧ (o.read g = none → o.write g = none →
      ∀ code, t.read g = .ok code → ∀ e, Embedded.ofCode t.read s.options.naming g code ≠ .ok e)) ∨
    ∃ code e, t.read g = .ok code ∧ Embedded.ofCode t.read s.options.naming g code = .ok e ∧
      x.tree.bytes? k = some e.code.toUTF8 := by
  intro x
  obtain ⟨hresult, htree⟩ := run_optimize_of_script (o := o) (t := t) hk
  rw [optimizeScript_eq he] at hresult htree
  rcases Job.run_revise (o := o) (s.embedScript_looks g) hf with
    ⟨hsame, ⟨e, herror⟩, hno⟩ | ⟨code, new, es, hr, hok, hb⟩
  · refine .inl ⟨htree.trans hsame, ⟨e, by rw [hresult, herror]; rfl⟩, ?_⟩
    intro hread hwrite code hcode e he
    obtain ⟨f, hf⟩ := hno hread hwrite code hcode
    rw [run_embedScript hm, he] at hf
    cases hf
  · rw [run_embedScript hm] at hok
    cases he : Embedded.ofCode t.read s.options.naming g code with
    | error f =>
      rw [he] at hok
      cases hok
    | ok e =>
      rw [he] at hok
      cases hok
      exact .inr ⟨code, e, hr, he, htree ▸ hb⟩

theorem linkPage_of_embedCss (he : s.embedCss = true) (hg : s.preloadGraph = none) (text : String) :
    s.linkPage g text = Page.inject (Page.stylesheetLink s.options.combinedName) text := by
  simp [linkPage, he, hg]

/-- A page that can be read and written is linked. -/
theorem run_optimize_page {text : String} (hm : s.minifier.GivesBack) (he : s.embedCss = true)
    (hg : s.preloadGraph = none) (hk : FileKind.classify s.options.naming g = .page)
    (hf : t.find g = .ok (k, .file b)) (hread : o.read g = none) (hwrite : o.write g = none)
    (ht : t.read g = .ok text) :
    ((s.optimize g).attempt.run o t).tree.bytes? k =
      some (Page.inject (Page.stylesheetLink s.options.combinedName) text).toUTF8 := by
  let work (text : String) : Job (String × Unit) := do
    return (← Job.ofExcept (s.minifyPage (s.linkPage g text)), ())
  have hwork (text : String) : ((work text).attempt.run o t).result =
      .ok (Page.inject (Page.stylesheetLink s.options.combinedName) text, ()) := by
    simp only [work, minifyPage_of_givesBack hm, linkPage_of_embedCss he hg]
    rfl
  have hrevise : s.optimizePage g = Job.revise g work := by
    simp only [optimizePage, he, Bool.true_or, if_true]
    rfl
  rw [run_optimize_of_page hk, hrevise]
  rcases Job.run_revise (o := o) (f := work) (fun _ => .bind (.ofExcept _) fun _ => .pure _) hf with
    ⟨-, -, hno⟩ | ⟨text', new, u, hr, hok, hb⟩
  · obtain ⟨f, hf⟩ := hno hread hwrite text ht
    rw [hwork] at hf
    cases hf
  · rw [ht] at hr
    cases hr
    rw [hwork] at hok
    cases hok
    exact hb

/-- A file that embedding touches is another one after the work on it. -/
theorem bytes?_optimize_ne (hm : s.minifier.GivesBack) (he : s.embedCss = true)
    (hg : s.preloadGraph = none) (hf : t.find g = .ok (k, .file b))
    (h : Touches s.options.naming o t g) :
    ((s.optimize g).attempt.run o t).tree.bytes? k ≠ some b := by
  have hutf {x y : String} (hx : t.read g = .ok x) (hy : y ≠ x) : some y.toUTF8 ≠ some b := by
    rw [← toUTF8_of_read hf hx]
    exact fun heq => hy (String.toByteArray_inj.1 (Option.some.inj heq))
  cases h.changes with
  | inl hpage =>
    obtain ⟨hk, text, hr⟩ := hpage
    rw [run_optimize_page hm he hg hk hf h.read h.write hr]
    exact hutf hr (Page.inject_ne (Page.stylesheetLink_ne_empty _) text)
  | inr hscript =>
    obtain ⟨hk, code, e, hr, hc, hne⟩ := hscript
    rcases run_optimize_script (o := o) hm he hk hf with ⟨-, -, hno⟩ | ⟨code', e', hr', hc', hb⟩
    · exact absurd hc (hno h.read h.write code hr e)
    · rw [hr] at hr'
      cases hr'
      rw [hc] at hc'
      cases hc'
      rw [hb]
      exact hutf hr fun heq => hne ((Embedded.code_eq_iff hc).1 heq)

end Setting

/-- A file that a scan finds once directories have been added is found before, if it was there. -/
theorem Job.mem_scan {root : Path} {exclude : List String} {fs gs : List Path}
    (h : KeepsDirectories t u) (hf : ((scan root exclude).attempt.run o t).result = .ok fs)
    (hg : ((scan root exclude).attempt.run o u).result = .ok gs) (hmem : g ∈ gs)
    (hk : u.find g = .ok (k, .file b)) {c : ByteArray} (hc : t.node? k = some (.file c)) :
    g ∈ fs ∧ t.find g = .ok (k, .file c) := by
  obtain ⟨patterns, ps, hparse, hl, rfl⟩ := scan_eq hf
  obtain ⟨patterns', qs, hparse', hl', rfl⟩ := scan_eq hg
  obtain rfl : patterns = patterns' := Except.ok.inj (hparse.symm.trans hparse')
  obtain ⟨i, x, hi, rfl, hfind⟩ := list_eq hl
  obtain ⟨j, y, hj, rfl, hfind'⟩ := list_eq hl'
  obtain rfl : j = i := h.eq_of_find hi hj
  obtain ⟨hmem, hno⟩ := List.mem_filter.1 hmem
  obtain ⟨names, hn, rfl⟩ := List.mem_map.1 hmem
  obtain ⟨d, hd⟩ := hfind' names hn
  rw [hd] at hk
  cases hk
  have hnames : names ∈ t.filesWithin j := mem_filesWithin.2 ⟨c, hc⟩
  obtain ⟨e, he⟩ := hfind names hnames
  rw [(find_eq_file.1 he).2.1] at hc
  cases hc
  exact ⟨List.mem_filter.2 ⟨List.mem_map.2 ⟨names, hnames, rfl⟩, hno⟩, he⟩

namespace Report

/-- After the work on all files each holds what the work on it alone makes of it. -/
theorem bytes?_workOn (hn : r.options.naming = {}) (hm : m.GivesBack) (hf : ∀ g ∈ s.files, t.IsFile g)
    (ha : s.files.Pairwise t.Apart) (hg : g ∈ s.files) (hk : t.find g = .ok (k, .file b)) :
    ((workOn m r s).run o t).tree.bytes? k =
      ((Setting.optimize ⟨m, r.options, s.embedCss, s.graph⟩ g).attempt.run o t).tree.bytes? k := by
  have hall := Setting.node?_optimizeAll (o := o) (s := ⟨m, r.options, s.embedCss, s.graph⟩)
    (hn ▸ Naming.isPlain_default) hf ha hg hk
  rw [(run_workOn_eq m r s o t).2, minifyLeft_tree_eq hm.keepsTexts]
  simp only [bytes?, hall]

theorem workOn_alike (hn : r.options.naming = {}) (hm : m.GivesBack)
    (hf : ∀ g ∈ s.files, t.IsFile g) : t.Alike ((workOn m r s).run o t).tree := by
  rw [(run_workOn_eq m r s o t).2, minifyLeft_tree_eq hm.keepsTexts]
  exact (Setting.optimizeAll_rewrites (s := ⟨m, r.options, s.embedCss, s.graph⟩)
    (hn ▸ Naming.isPlain_default) hf).1

/-- A page or script that is there in the end has been the same since the work on the files, unless the
combined stylesheet is named like one. -/
theorem bytes?_workOn_of_run (hc : ¬(FileKind.classify {} r.combinedPath).TakesStyles)
    (hs : ((Survey.ofRequest r).attempt.run o t).result = .ok s)
    (hg : ((ofRequest m r).attempt.run o t).tree.place? g = some k)
    (hkind : (FileKind.classify {} g).TakesStyles)
    (hb : ((ofRequest m r).attempt.run o t).tree.bytes? k = some b) :
    ((workOn m r s).run o t).tree.bytes? k = some b := by
  have hplace : ∀ p, p = r.combinedPath ∨ p = r.manifestPath →
      ((ofRequest m r).attempt.run o t).tree.place? p ≠ some k := by
    rintro p (rfl | rfl)
    · exact place?_ne_of_classify hg hkind hc
    · exact place?_ne_of_classify hg hkind (FileKind.classify_manifestPath r)
  rw [(result_ofRequest (m := m) hs rfl).2] at hplace hb
  refine Plan.bytes?_of_run (fun p hw => ?_) hb
  obtain ⟨⟨text, hx⟩, hp⟩ := hw
  have hends : r.Changes [] _ _ := (conclude_changes 0 _).attempt.exchanges _ hx
  exact hplace p (hends.resolve_left List.not_mem_nil) hp

/-- A run that changes no file but the manifest had nothing left to do. -/
theorem IsSettled.of_keepsFiles (hn : r.options.naming = {})
    (hp : r.options.preloadModules = false) (hm : m.GivesBack)
    (hc : ¬(FileKind.classify {} r.combinedPath).TakesStyles)
    (h : KeepsFiles r.manifestPath t ((ofRequest m r).attempt.run o t).tree) : IsSettled r o t := by
  intro s hs he g hg ht
  obtain ⟨hfiles, hapart⟩ := Survey.ofRequest_ok hs
  obtain ⟨k, b, hk⟩ := hfiles g hg
  have hkind : (FileKind.classify {} g).TakesStyles := hn ▸ ht.takesStyles
  have hplace := (Plan.run_keepsDirectories o t (ofRequest m r).attempt).place? (place?_of_find hk)
  have hsame : ((ofRequest m r).attempt.run o t).tree.bytes? k = some b := by
    rw [h k (place?_ne_of_classify hplace hkind (FileKind.classify_manifestPath r))]
    exact bytes?_eq_some.2 (find_eq_file.1 hk).2.1
  have hwork := bytes?_workOn_of_run hc hs hplace hkind hsame
  rw [bytes?_workOn hn hm hfiles hapart hg hk] at hwork
  exact Setting.bytes?_optimize_ne (s := ⟨m, r.options, s.embedCss, s.graph⟩) hm he
    (by simp [Setting.preloadGraph, hp]) hk ht hwork

/-- That a run leaves a script that imports a proxy: it embeds no stylesheets at all, or the script fails,
or it keeps the import. -/
inductive Lingers (t : FileTree) (rep : Report) (g : Path) : Prop
  | idle {code : String} (read : t.read g = .ok code) (imports : importsCss? {} code = some true)
    (idle : rep.embedCss = false)
  | failed {code : String} {e : Fault} (read : t.read g = .ok code)
    (imports : importsCss? {} code = some true) (failed : ⟨g, e⟩ ∈ rep.failures)
  | kept {code : String} {e : Embedded} (read : t.read g = .ok code)
    (embeds : Embedded.ofCode t.read {} g code = .ok e) (imports : importsCss? {} e.code = some true)

/-- A script that imports a proxy after the work on it was left so. -/
theorem lingers_of_optimize {w : Run (List FileResult × List Failure)} {text : String}
    (hn : r.options.naming = {}) (hp : r.options.preloadModules = false) (hm : m.GivesBack)
    (h : Completes m r o t rep s w) (hg : g ∈ s.files) (hk : FileKind.classify {} g = .script)
    (hf : t.find g = .ok (k, .file b))
    (hb : ((Setting.optimize ⟨m, r.options, s.embedCss, s.graph⟩ g).attempt.run o t).tree.bytes? k =
      some text.toUTF8)
    (hi : importsCss? {} text = some true) : Lingers t rep g := by
  have hkind : FileKind.classify r.options.naming g = .script := hn ▸ hk
  have hsame (htree : ((Setting.optimize ⟨m, r.options, s.embedCss, s.graph⟩ g).attempt.run o t).tree =
      t) : t.read g = .ok text := by
    rw [htree, bytes?_eq_some, (find_eq_file.1 hf).2.1] at hb
    cases hb
    exact read_of_find hf
  cases he : s.embedCss with
  | false =>
    refine .idle (hsame ?_) hi (h.embedCss.trans he)
    exact Setting.optimize_tree_eq hm.keepsTexts (by simp [Setting.preloadGraph, hp]) (by simp [he])
  | true =>
    rcases Setting.run_optimize_script (o := o) (s := ⟨m, r.options, s.embedCss, s.graph⟩) hm he hkind hf
      with ⟨htree, ⟨e, herror⟩, -⟩ | ⟨code, e, hr, hc, hcode⟩
    · refine .failed (e := e) (hsame htree) hi ((h.mem_failures hn hg (by simp [hk])).2 ?_)
      unfold Setting.outcome
      rw [herror]
      rfl
    · rw [hb, Option.some.injEq] at hcode
      obtain rfl := String.toByteArray_inj.1 hcode
      exact .kept hr (by rwa [hn] at hc) hi

/-- A script that imports a proxy after a run was left so by it. -/
theorem exists_lingers (hn : r.options.naming = {}) (hp : r.options.preloadModules = false)
    (hm : m.GivesBack) (hc : ¬(FileKind.classify {} r.combinedPath).TakesStyles)
    (hs : ((Survey.ofRequest r).attempt.run o t).result = .ok s)
    (h : ((ofRequest m r).attempt.run o t).result = .ok rep) {s' : Survey}
    (hs' : ((Survey.ofRequest r).attempt.run o ((ofRequest m r).attempt.run o t).tree).result = .ok s')
    (he : s'.embedCss = true) : ∃ g ∈ Survey.scripts {} s.files, Lingers t rep g := by
  obtain ⟨g, hg', text, hr, himports⟩ := Survey.exists_importsCss hs' he
  rw [hn] at hg' himports
  obtain ⟨hg', hk⟩ := List.mem_filter.1 hg'
  have hk : FileKind.classify {} g = .script := by simpa using hk
  obtain ⟨hfiles, hapart⟩ := Survey.ofRequest_ok hs
  -- the file was there, with its last text since the work on the files
  obtain ⟨k, hfind⟩ := find_of_read hr
  have hwork := bytes?_workOn_of_run hc hs (place?_of_find hfind) (.inr hk)
    (bytes?_eq_some.2 (find_eq_file.1 hfind).2.1)
  obtain ⟨c, hnode⟩ := (workOn_alike hn hm hfiles).symm.node?_file (bytes?_eq_some.1 hwork)
  obtain ⟨hg, hfind⟩ := Job.mem_scan (Plan.run_keepsDirectories o t _) (Survey.scan_of_ofRequest hs)
    (Survey.scan_of_ofRequest hs') hg' hfind hnode
  have hscript : g ∈ Survey.scripts {} s.files := List.mem_filter.2 ⟨hg, by simpa using hk⟩
  obtain ⟨s'', w, hc⟩ := exists_completes h
  obtain rfl : s = s'' := Except.ok.inj (hs.symm.trans hc.survey)
  rw [bytes?_workOn hn hm hfiles hapart hg hfind] at hwork
  exact ⟨g, hscript, lingers_of_optimize hn hp hm hc hg hk hfind hwork himports⟩

/-- A run on what a run has left changes no file but the manifest if nothing is left to do there, and only
then, unless the combined stylesheet is named like a page or a script. Something is left to do only if a
script lingers. -/
theorem rerun_keepsFiles (hn : r.options.naming = {}) (hp : r.options.preloadModules = false)
    (hm : m.GivesBack) (hs : ((Survey.ofRequest r).attempt.run o t).result = .ok s)
    (h : ((ofRequest m r).attempt.run o t).result = .ok rep) :
    let left := ((ofRequest m r).attempt.run o t).tree
    let again := ((ofRequest m r).attempt.run o left).tree
    (IsSettled r o left → KeepsFiles r.manifestPath left again) ∧
      (¬(FileKind.classify {} r.combinedPath).TakesStyles →
        (KeepsFiles r.manifestPath left again → IsSettled r o left) ∧
          ((∀ g ∈ Survey.scripts {} s.files, ¬Lingers t rep g) → IsSettled r o left)) := by
  intro left again
  refine ⟨fun hsettled => hsettled.keepsFiles hp hm.keepsTexts, fun hc => ⟨?_, ?_⟩⟩
  · exact fun hkeeps => .of_keepsFiles hn hp hm hc hkeeps
  · intro hno s' hs' he
    obtain ⟨g, hg, hlingers⟩ := exists_lingers hn hp hm hc hs h hs' he
    exact absurd hlingers (hno g hg)

/-! A script of which all imports of stylesheets go. -/

namespace Vendored

def report : Report :=
  ⟨1, [], true, some ⟨"build/imported-styles.css"⟩, 2, ⟨"build/_snowpack/optimize-manifest.json"⟩, 0⟩

theorem givesBack : minifier.GivesBack := ⟨fun _ _ => rfl, fun _ _ => rfl, fun _ => rfl⟩

theorem report_values :
    concluded.result = .ok report ∧ ¬(FileKind.classify {} request.combinedPath).TakesStyles ∧
    tree.read script = .ok text ∧ Survey.scripts {} survey.files = [script] := by
  decide +kernel

theorem ofRequest_ok : ((ofRequest minifier request).attempt.run {} tree).result = .ok report := by
  rw [(result_ofRequest survey_ok rfl).1, run_workOn.1, run_workOn.2]
  exact report_values.1

theorem not_lingers : ∀ g ∈ Survey.scripts {} survey.files, ¬Lingers tree report g := by
  obtain ⟨-, -, hread, hscripts⟩ := report_values
  rintro g hg hl
  obtain rfl : g = script := by simpa [hscripts] using hg
  cases hl with
  | idle _ _ h => cases h
  | failed _ _ h => cases h
  | kept hr hc hi =>
    rw [hread] at hr
    cases hr
    rw [embedded] at hc
    cases hc
    exact absurd hi (by decide +kernel)

end Vendored

/-- A build of which all imports of stylesheets have gone stays as it is. -/
theorem rerun_keepsFiles_vendored :
    Vendored.request.options.naming = {} ∧ Vendored.request.options.preloadModules = false ∧
    Vendored.minifier.GivesBack ∧
    ((Survey.ofRequest Vendored.request).attempt.run {} Vendored.tree).result = .ok Vendored.survey ∧
    ((ofRequest Vendored.minifier Vendored.request).attempt.run {} Vendored.tree).result =
      .ok Vendored.report ∧
    ¬(FileKind.classify {} Vendored.request.combinedPath).TakesStyles ∧
    (∀ g ∈ Survey.scripts {} Vendored.survey.files, ¬Lingers Vendored.tree Vendored.report g) ∧
    let left := ((ofRequest Vendored.minifier Vendored.request).attempt.run {} Vendored.tree).tree
    KeepsFiles Vendored.request.manifestPath left
      ((ofRequest Vendored.minifier Vendored.request).attempt.run {} left).tree := by
  obtain ⟨hsettled, hrest⟩ := rerun_keepsFiles rfl rfl Vendored.givesBack Vendored.survey_ok
    Vendored.ofRequest_ok
  have hc := Vendored.report_values.2.1
  exact ⟨rfl, rfl, Vendored.givesBack, Vendored.survey_ok, Vendored.ofRequest_ok, hc,
    Vendored.not_lingers, hsettled ((hrest hc).2 Vendored.not_lingers)⟩

/-! The script whose import is kept, and the page that is linked on its account. -/

namespace Kept

open Unread (script kept text request minifier)

/-- What a run leaves of the build. -/
def left : FileTree := ((conclude request survey 0 results []).attempt.run {} worked).tree

theorem tree_ofRequest : ((ofRequest minifier request).attempt.run {} tree).tree = left := by
  rw [(result_ofRequest survey_ok rfl).2, run_workOn.1, run_workOn.2]
  rfl

theorem left_values :
    left.read script = .ok (text [kept]) ∧ left.read page = .ok linked ∧
    ((Job.scan request.root request.excluded).attempt.run {} left).result = .ok survey.files ∧
    ¬(FileKind.classify {} request.combinedPath).TakesStyles := by
  decide +kernel

theorem survey_left : ((Survey.ofRequest request).attempt.run {} left).result = .ok survey := by
  obtain ⟨hsound, -, -, -, himports, -⟩ := tree_values
  obtain ⟨hread, -, hscan, -⟩ := left_values
  have hcss : importsCss? {} (text [kept]) = some true := himports ▸ importsCss?_print hsound
  exact Survey.ofRequest_of_scan rfl hscan (Job.importsCss_of_read hread hcss)

theorem touches_page : Touches request.options.naming {} left page where
  read := rfl
  write := rfl
  changes := .inl ⟨worked_values.2.1, linked, left_values.2.1⟩

end Kept

/-- A run on what a run has left links a page that is linked already. -/
theorem linked_again :
    Unread.request.options.naming = {} ∧ Unread.request.options.preloadModules = false ∧
    Unread.minifier.GivesBack ∧
    ((ofRequest Unread.minifier Unread.request).attempt.run {} Kept.tree).result = .ok Kept.report ∧
    let left := ((ofRequest Unread.minifier Unread.request).attempt.run {} Kept.tree).tree
    ¬KeepsFiles Unread.request.manifestPath left
      ((ofRequest Unread.minifier Unread.request).attempt.run {} left).tree := by
  have hm : Unread.minifier.GivesBack := ⟨fun _ _ => rfl, fun _ _ => rfl, fun _ => rfl⟩
  refine ⟨rfl, rfl, hm, Kept.ofRequest_ok, ?_⟩
  rw [Kept.tree_ofRequest]
  intro left hkeeps
  have hsettled := IsSettled.of_keepsFiles rfl rfl hm Kept.left_values.2.2.2 hkeeps
  exact hsettled Kept.survey Kept.survey_left rfl Kept.page (by simp [Kept.survey]) Kept.touches_page

end Report

end SiteBuild
