import SiteBuild.Proofs.Optimize.Changes

/-! Files that a pattern excludes. A run does not write to them, unless one of its own files goes there,
and removes just those whose stylesheet a script has embedded: what scripts import is not held against
the patterns. -/

namespace SiteBuild

open FileTree

variable {o : Outages} {t : FileTree} {p : Path} {b : ByteArray} {m : Minifier} {r : Request}
  {s : Survey}

namespace Glob.PatternSet

theorem exists_mem_of_mapM {ε α β : Type} {f : α → Except ε β} {l : List α} {bs : List β}
    (h : l.mapM f = .ok bs) {a : α} (ha : a ∈ l) : ∃ b ∈ bs, f a = .ok b := by
  induction l generalizing bs with
  | nil => cases ha
  | cons x l ih =>
    rw [List.mapM_cons] at h
    cases hx : f x with
    | error e =>
      rw [hx] at h
      cases h
    | ok c =>
      cases hl : l.mapM f with
      | error e =>
        rw [hx, hl] at h
        cases h
      | ok cs =>
        rw [hx, hl] at h
        cases h
        rcases List.mem_cons.1 ha with rfl | ha
        · exact ⟨c, List.mem_cons_self, hx⟩
        · obtain ⟨d, hd, hf⟩ := ih hl ha
          exact ⟨d, List.mem_cons_of_mem _ hd, hf⟩

/-- What one of some patterns matches, all of them together match. -/
theorem isMatch_of_mem {texts : List String} {ps : PatternSet} (h : parse texts = .ok ps)
    {w : String} {g : Pattern} (hw : w ∈ texts) (hg : Pattern.parse w = .ok g) {path : String}
    (hm : g.isMatch path = true) : ps.isMatch path = true := by
  unfold parse at h
  cases hl : texts.mapM Pattern.parse with
  | error e =>
    rw [hl] at h
    cases h
  | ok bs =>
    rw [hl] at h
    cases h
    obtain ⟨g', hg', hf⟩ := exists_mem_of_mapM hl hw
    rw [hg] at hf
    cases hf
    exact List.any_eq_true.2 ⟨g, hg', hm⟩

end Glob.PatternSet

/-- What a survey finds below a directory: the files whose names no pattern matches. -/
theorem Survey.mem_files_iff {d : Place} (h : ((ofRequest r).attempt.run o t).result = .ok s)
    (hd : t.find r.root = .ok (d, .directory)) :
    ∃ patterns, Glob.PatternSet.parse r.excluded = .ok patterns ∧ ∀ p, p ∈ s.files ↔
      ∃ names b, t.node? (d ++ names) = some (.file b) ∧ p = r.root.below names ∧
        patterns.isMatch ("/".intercalate names) = false := by
  obtain ⟨patterns, ps, hparse, hl, hfiles⟩ := Job.scan_eq (scan_of_ofRequest h)
  obtain ⟨k, x, hk, rfl, -⟩ := list_eq hl
  rw [hd] at hk
  cases hk
  have hway {names : Place} {b : ByteArray} (hb : t.node? (d ++ names) = some (.file b)) :
      r.root.relativeTo (r.root.below names) = "/".intercalate names := by
    have hnode : t.node? (d ++ names) ≠ none := by simp [hb]
    exact Path.relativeTo_below fun n => isFileName_of_mem hnode
  refine ⟨patterns, hparse, fun p => ?_⟩
  rw [hfiles, List.mem_filter, List.mem_map, Bool.not_eq_true']
  constructor
  · rintro ⟨⟨names, hnames, rfl⟩, hno⟩
    obtain ⟨b, hb⟩ := mem_filesWithin.1 hnames
    exact ⟨names, b, hb, rfl, hway hb ▸ hno⟩
  · rintro ⟨names, b, hb, rfl, hno⟩
    exact ⟨⟨names, mem_filesWithin.2 ⟨b, hb⟩, rfl⟩, (hway hb).symm ▸ hno⟩

/-- A file that a survey finds below a directory, and that none of the patterns matches. -/
theorem Survey.mem_files {d : Place} (h : ((ofRequest r).attempt.run o t).result = .ok s)
    (hd : t.find r.root = .ok (d, .directory)) (hp : p ∈ s.files) :
    ∃ names, t.place? p = some (d ++ names) ∧ ∀ w ∈ r.excluded, ∀ g, Glob.Pattern.parse w = .ok g →
      g.isMatch ("/".intercalate names) = false := by
  obtain ⟨patterns, hparse, hfiles⟩ := mem_files_iff h hd
  obtain ⟨names, b, hb, rfl, hno⟩ := (hfiles p).1 hp
  refine ⟨names, place?_of_find (find_below hd (ne_nil_of_file hd hb) hb), fun w hw g hg => ?_⟩
  by_contra hm
  rw [Glob.PatternSet.isMatch_of_mem hparse hw hg (by simpa using hm)] at hno
  cases hno

namespace Report

/-- An excluded file, unless it is one that the run itself generates, is as it was in the end just if
the run does not remove it for a script that has embedded it or its stylesheet. -/
theorem excluded_stays_iff {w : String} {g : Glob.Pattern} {d names : Place}
    (hd : t.find r.root = .ok (d, .directory)) (hk : t.node? (d ++ names) = some (.file b))
    (hw : w ∈ r.excluded) (hg : Glob.Pattern.parse w = .ok g)
    (hm : g.isMatch ("/".intercalate names) = true)
    (hown : ∀ p, p = r.combinedPath ∨ p = r.manifestPath →
      ¬((ofRequest m r).attempt.run o t).WritesAt p (d ++ names)) :
    ((ofRequest m r).attempt.run o t).tree.node? (d ++ names) = some (.file b) ↔
      ∀ rs t', Reaches m r o t rs t' → ∀ e ∈ rs.flatMap FileResult.css, ∀ q, e.Has q →
        ¬((ofRequest m r).attempt.run o t).RemovesAt q (d ++ names) := by
  have hwrites : ∀ p, ¬((ofRequest m r).attempt.run o t).WritesAt p (d ++ names) := by
    rintro p ⟨⟨text, hp⟩, hplace⟩
    obtain ⟨s, hs, hf | hc | hc⟩ := mem_exchanges_write hp
    rotate_left
    · exact hown p (.inl hc) ⟨⟨text, hp⟩, hplace⟩
    · exact hown p (.inr hc) ⟨⟨text, hp⟩, hplace⟩
    · -- a file of the survey stays where it was found, and no pattern matches it
      obtain ⟨found, hfound, hno⟩ := Survey.mem_files hs hd hf
      have hkeep := (Plan.run_keepsDirectories o t (ofRequest m r).attempt).place? hfound
      rw [hkeep, Option.some.injEq, List.append_cancel_left_eq] at hplace
      rw [← hplace, hno w hw g hg] at hm
      cases hm
  rw [Plan.node?_run hk hwrites]
  constructor
  · exact fun h _ _ _ _ _ q _ => h q
  · rintro h q ⟨hq, hplace⟩
    obtain ⟨rs, t', hreach, e, he, hqe⟩ := mem_exchanges_remove hq
    exact h rs t' hreach e he q hqe ⟨hq, hplace⟩

/-- The work on a single script, where nothing is made smaller. -/
theorem workOn_of_embeds {g : Path} {code : String} {e : Embedded}
    (hm : r.options.minifyScripts = false) (hk : FileKind.classify r.options.naming g = .script)
    (hr : (t.answer o (.read g)).1 = .ok code)
    (hc : Embedded.ofCode t.read r.options.naming g code = .ok e) (hne : e.code ≠ code)
    (hw : (t.answer o (.write g e.code)).1 = .ok ()) :
    ((workOn m r ⟨[g], true, none⟩).run o t).result = ([⟨g, e.imports⟩], []) ∧
      ((workOn m r ⟨[g], true, none⟩).run o t).tree = (t.answer o (.write g e.code)).2 := by
  obtain ⟨hg, ht⟩ := Setting.optimize_of_embeds (s := ⟨m, r.options, true, none⟩) rfl hm hk hr hc hne hw
  exact workOn_cons (s := ⟨[g], true, none⟩) hm rfl hg ht

/-! A build with a directory that is excluded. Its only script imports a stylesheet from there, and
another one by an absolute specifier. -/

namespace Vendored

def script : Path := ⟨"build/app.js"⟩

def lines : List Script.Line :=
  [.import .nothing "./vendor/a.css.proxy.js".toList, .import .nothing "/b.css.proxy.js".toList]

def text : String := String.ofList (lines.flatMap Script.Line.print)

def style : String := ".a \x7b color: red; \x7d"

def tree : FileTree :=
  ((((FileTree.empty.put [] "build" .directory).put ["build"] "app.js" (.file text.toUTF8)).put
    ["build"] "vendor" .directory).put ["build", "vendor"] "a.css" (.file style.toUTF8)).put
    ["build", "vendor"] "a.css.proxy.js" (.file "export default 1;\n".toUTF8)

/-- Where the stylesheet stands in the build. -/
def place : Place := ["vendor", "a.css"]

def pattern : Glob.Pattern := "vendor".toList.map .literal ++ [.trailing]

def request : Request where
  root := ⟨"build"⟩
  options :=
    { minifyScripts := false, minifyPages := false, minifyStyles := false, exclude := ["vendor/**"] }

/-- Leaves all texts as they are. -/
def minifier : Minifier := ⟨fun _ s => .ok s, fun _ s => .ok s, .ok, fun _ => [], fun _ _ => [], []⟩

def survey : Survey := ⟨[script], true, none⟩

def entries : List CssEntry :=
  [⟨⟨"build/vendor/a.css"⟩, ⟨"build/vendor/a.css.proxy.js"⟩⟩, ⟨⟨"/b.css"⟩, ⟨"/b.css.proxy.js"⟩⟩]

/-- The tree once the work on the script is done. -/
def written : FileTree := (tree.write script "".toUTF8).1

/-- What is left to do when the work on the script is done. -/
def concluded : Run (Except Fault Report) :=
  (conclude request survey 0 [⟨script, entries⟩] []).attempt.run {} written

/-- What the build holds, as far as a run asks for it before it has embedded anything. -/
theorem tree_values :
    (∀ l ∈ lines, l.IsSound) ∧ tree.read script = .ok text ∧
    ((Job.scan request.root request.excluded).attempt.run {} tree).result = .ok survey.files ∧
    ((Script.Line.module lines).imports.any fun d =>
      Naming.isCssProxy {} (String.ofList d.specifier)) = true ∧
    FileKind.classify {} script = .script ∧
    (tree.answer {} (.read script)).1 = .ok text ∧ "" ≠ text ∧
    (tree.answer {} (.write script "")).1 = .ok () ∧
    tree.find request.root = .ok (["build"], .directory) ∧
    tree.node? (["build"] ++ place) = some (.file style.toUTF8) ∧
    pattern.isMatch ("/".intercalate place) = true ∧
    Naming.isCssModule {} (Naming.actual {} "./vendor/a.css.proxy.js") = false ∧
    Naming.isCssModule {} (Naming.actual {} "/b.css.proxy.js") = false := by
  decide +kernel

theorem parse_pattern : Glob.Pattern.parse "vendor/**" = .ok pattern := by rfl

theorem survey_ok : ((Survey.ofRequest request).attempt.run {} tree).result = .ok survey := by
  obtain ⟨hsound, hread, hscan, himports, -⟩ := tree_values
  have hcss : importsCss? {} text = some true := himports ▸ importsCss?_print hsound
  exact Survey.ofRequest_of_scan rfl hscan (Job.importsCss_of_read hread hcss)

theorem embedded : Embedded.ofCode tree.read {} script text = .ok ⟨entries, ""⟩ := by
  have hr : ∀ l ∈ lines, l.IsReadable {} tree script := by
    obtain ⟨-, -, -, -, -, -, -, -, -, -, -, ha, hb⟩ := tree_values
    simp [lines, Script.Line.IsReadable, Embed.IsModuleProxy, ha, hb]
  rw [text, Embedded.ofCode_print tree_values.1 hr]
  decide

theorem run_workOn : ((workOn minifier request survey).run {} tree).result = ([⟨script, entries⟩], []) ∧
    ((workOn minifier request survey).run {} tree).tree = written := by
  obtain ⟨-, -, -, -, hkind, hread, hne, hwrite, -⟩ := tree_values
  exact workOn_of_embeds (e := ⟨entries, ""⟩) rfl hkind hread embedded hne hwrite

theorem reaches : Reaches minifier request {} tree [⟨script, entries⟩] written :=
  ⟨survey, survey_ok, congrArg Prod.fst run_workOn.1, run_workOn.2⟩

/-- The run ends as what is left to do after the work on the script. -/
theorem run_ofRequest :
    ((ofRequest minifier request).attempt.run {} tree).tree = concluded.tree ∧
      ∀ x ∈ concluded.exchanges, x ∈ ((ofRequest minifier request).attempt.run {} tree).exchanges := by
  obtain ⟨es, -, h⟩ := Report.run_ofRequest (m := minifier) survey_ok rfl
  rw [run_workOn.1, run_workOn.2] at h
  rw [h]
  exact ⟨rfl, fun x hx => List.mem_append_right _ hx⟩

/-- Where the generated files are in the end, and what is there no more. -/
theorem concluded_values :
    concluded.tree.place? request.combinedPath = some ["build", "imported-styles.css"] ∧
    concluded.tree.place? request.manifestPath =
      some ["build", "_snowpack", "optimize-manifest.json"] ∧
    concluded.tree.node? (["build"] ++ place) = none := by
  decide +kernel

theorem not_writesAt_style {p : Path} (hp : p = request.combinedPath ∨ p = request.manifestPath) :
    ¬((ofRequest minifier request).attempt.run {} tree).WritesAt p (["build"] ++ place) := by
  rintro ⟨-, hplace⟩
  rw [run_ofRequest.1] at hplace
  obtain ⟨hc, hm, -⟩ := concluded_values
  rcases hp with rfl | rfl
  · rw [hc] at hplace
    exact absurd hplace (by decide)
  · rw [hm] at hplace
    exact absurd hplace (by decide)

end Vendored

/-- Whether an excluded file stays can be told where a script imports one. -/
theorem excluded_stays_vendored_iff :
    Vendored.tree.find Vendored.request.root = .ok (["build"], .directory) ∧
    Vendored.tree.node? (["build"] ++ Vendored.place) = some (.file Vendored.style.toUTF8) ∧
    "vendor/**" ∈ Vendored.request.excluded ∧
    Glob.Pattern.parse "vendor/**" = .ok Vendored.pattern ∧
    Vendored.pattern.isMatch ("/".intercalate Vendored.place) = true ∧
    (∀ p, p = Vendored.request.combinedPath ∨ p = Vendored.request.manifestPath →
      ¬((ofRequest Vendored.minifier Vendored.request).attempt.run {} Vendored.tree).WritesAt p
        (["build"] ++ Vendored.place)) ∧
    (((ofRequest Vendored.minifier Vendored.request).attempt.run {} Vendored.tree).tree.node?
        (["build"] ++ Vendored.place) = some (.file Vendored.style.toUTF8) ↔
      ∀ rs t', Reaches Vendored.minifier Vendored.request {} Vendored.tree rs t' →
        ∀ e ∈ rs.flatMap FileResult.css, ∀ q, e.Has q →
          ¬((ofRequest Vendored.minifier Vendored.request).attempt.run {} Vendored.tree).RemovesAt q
            (["build"] ++ Vendored.place)) := by
  obtain ⟨-, -, -, -, -, -, -, -, hroot, hstyle, hmatch, -⟩ := Vendored.tree_values
  have hw : "vendor/**" ∈ Vendored.request.excluded := by simp [Request.excluded, Vendored.request]
  exact ⟨hroot, hstyle, hw, Vendored.parse_pattern, hmatch, fun _ => Vendored.not_writesAt_style,
    excluded_stays_iff hroot hstyle hw Vendored.parse_pattern hmatch
      fun _ => Vendored.not_writesAt_style⟩

/-- A stylesheet in an excluded directory is removed, for a script imports it. -/
theorem excluded_file_removed :
    Vendored.tree.find Vendored.request.root = .ok (["build"], .directory) ∧
    Vendored.tree.node? (["build"] ++ Vendored.place) = some (.file Vendored.style.toUTF8) ∧
    "vendor/**" ∈ Vendored.request.options.exclude ∧
    Glob.Pattern.parse "vendor/**" = .ok Vendored.pattern ∧
    Vendored.pattern.isMatch ("/".intercalate Vendored.place) = true ∧
    (∀ p, p = Vendored.request.combinedPath ∨ p = Vendored.request.manifestPath →
      ¬((ofRequest Vendored.minifier Vendored.request).attempt.run {} Vendored.tree).WritesAt p
        (["build"] ++ Vendored.place)) ∧
    ((ofRequest Vendored.minifier Vendored.request).attempt.run {} Vendored.tree).tree.node?
      (["build"] ++ Vendored.place) = none := by
  obtain ⟨-, -, -, -, -, -, -, -, hroot, hstyle, hmatch, -⟩ := Vendored.tree_values
  refine ⟨hroot, hstyle, List.mem_singleton.2 rfl, Vendored.parse_pattern, hmatch,
    fun _ => Vendored.not_writesAt_style, ?_⟩
  rw [Vendored.run_ofRequest.1]
  exact Vendored.concluded_values.2.2

end Report

end SiteBuild
