import SiteBuild.Proofs.Embed.Lines
import SiteBuild.Proofs.Optimize.Styles

/-! What becomes of the stylesheets that a run removes. One that could be read went into the combined
stylesheet, which was written before anything was removed. One that could not be read is removed all
the same. -/

namespace SiteBuild

open FileTree

variable {o : Outages} {t t' : FileTree} {p q : Path} {k : Place} {b : ByteArray}
  {m : Minifier} {r : Request} {s : Survey} {rs : List FileResult}

/-- A text is written without fault before anything is removed. -/
def WrittenFirst (p : Path) (text : String) (es : List Exchange) : Prop :=
  ∃ front rest, es = front ++ ⟨.write p text, .ok ()⟩ :: rest ∧ ∀ x ∈ front, Spares x.1

namespace WrittenFirst

variable {text : String} {es es' : List Exchange}

theorem append_left (h : WrittenFirst p text es) (hs : ∀ x ∈ es', Spares x.1) :
    WrittenFirst p text (es' ++ es) := by
  obtain ⟨front, rest, rfl, hf⟩ := h
  refine ⟨es' ++ front, rest, by simp, fun x hx => ?_⟩
  rcases List.mem_append.1 hx with hx | hx
  · exact hs x hx
  · exact hf x hx

theorem append_right (h : WrittenFirst p text es) : WrittenFirst p text (es ++ es') := by
  obtain ⟨front, rest, rfl, hf⟩ := h
  exact ⟨front, rest ++ es', by simp, hf⟩

end WrittenFirst

theorem Plan.mem_mapM_result {α β : Type} {f : α → Plan β} {l : List α} {Q : β → Prop}
    (h : ∀ a ∈ l, ∀ t, Q ((f a).run o t).result) : ∀ c ∈ ((l.mapM f).run o t).result, Q c := by
  induction l generalizing t with
  | nil => simp
  | cons a l ih =>
    rw [Plan.run_mapM_cons]
    intro c hc
    rcases List.mem_cons.1 hc with rfl | hc
    · exact h a List.mem_cons_self t
    · exact ih (fun x hx => h x (List.mem_cons_of_mem _ hx)) c hc

theorem Setting.optimizeAll_calls (s : Setting) (fs : List Path) :
    (s.optimizeAll fs).Calls Spares := by
  refine .during (fun _ => trivial) (.mapM fun g _ => Plan.Calls.bind ?_ fun _ => .done _)
  exact (optimize_calls (P := Spares) (fun _ => trivial) trivial (fun _ _ _ => trivial)
    fun _ _ => trivial).attempt

/-- All that a file contributes is named by specifiers. -/
def FileResult.IsNamed (n : Naming) (r : FileResult) : Prop :=
  ∀ e ∈ r.css, ∃ g w, n.isCssProxy w = true ∧ e = Embed.entryOf n g w

/-- What the work on each file gives, the work on all files gives. -/
theorem Setting.mem_optimizeAll {s : Setting} {fs : List Path} {Q : FileResult → Prop}
    (h : ∀ g ∈ fs, ∀ t x, ((s.optimize g).attempt.run o t).result = .ok x → Q x) :
    ∀ x ∈ ((s.optimizeAll fs).run o t).result, ∀ y, x = .ok y → Q y := by
  unfold optimizeAll
  rw [Plan.run_during]
  dsimp only
  refine Plan.mem_mapM_result fun g hg t y hy => ?_
  rw [Plan.run_bind] at hy
  exact h g hg t y (eq_ok_of_mapError hy)

namespace Report

theorem workOn_calls (m : Minifier) (r : Request) (s : Survey) : (workOn m r s).Calls Spares := by
  rw [workOn_eq]
  refine .bind (.forM fun _ _ => .ask trivial) fun _ =>
    .bind (Setting.optimizeAll_calls _ _) fun outcomes => ?_
  refine .bind (.forM fun _ _ => .ask trivial) fun _ => .bind ?_ fun late => ?_
  · unfold minifyLeft
    split
    · exact minifyProxies_calls _ (fun _ => trivial) (fun _ _ => trivial) fun _ _ _ => trivial
    · exact .done []
  · exact .bind (.forM fun _ _ => .ask trivial) fun _ => .done _

/-- The work on the files, then the work on the proxies that are left; what is told changes nothing. -/
theorem run_workOn_eq (m : Minifier) (r : Request) (s : Survey) (o : Outages) (t : FileTree) :
    let setting : Setting := ⟨m, r.options, s.embedCss, s.graph⟩
    let x := (setting.optimizeAll s.files).run o t
    let late := (minifyLeft r setting (resultsOf x.result)).run o x.tree
    ((workOn m r s).run o t).result =
        (dropFailed late.result (resultsOf x.result), failuresOf x.result ++ late.result) ∧
      ((workOn m r s).run o t).tree = late.tree := by
  intro setting x late
  have hstart : (((m.onStart r.options.workers).forM Plan.tell).run o t).tree = t :=
    Plan.Calls.looks (.forM fun _ _ => .ask trivial)
  have hfailures (fs : List Failure) (t : FileTree) :
      ((fs.forM fun f => Plan.tell (.fileFailed f.file f.fault)).run o t).tree = t :=
    Plan.Calls.looks (.forM fun _ _ => .ask trivial)
  have hstop (t : FileTree) : ((m.onStop.forM Plan.tell).run o t).tree = t :=
    Plan.Calls.looks (.forM fun _ _ => .ask trivial)
  rw [workOn_eq, Plan.run_bind]
  dsimp only
  rw [Plan.run_bind, hstart]
  dsimp only
  rw [Plan.run_bind]
  dsimp only
  rw [Plan.run_bind]
  dsimp only
  rw [Plan.run_bind]
  simp only [hfailures, hstop, Plan.run_pure]
  exact ⟨rfl, rfl⟩

/-- The work on the files is all there is to it where nothing is made smaller. -/
theorem workOn_of_optimizeAll (hm : r.options.minifyScripts = false) :
    let x := (Setting.optimizeAll ⟨m, r.options, s.embedCss, s.graph⟩ s.files).run o t
    ((workOn m r s).run o t).result = (resultsOf x.result, failuresOf x.result) ∧
      ((workOn m r s).run o t).tree = x.tree := by
  intro x
  obtain ⟨hr, ht⟩ := run_workOn_eq m r s o t
  rw [hr, ht]
  simp only [minifyLeft, hm]
  exact ⟨by simp [dropFailed, x], rfl⟩

/-- The work on the first file, then the work on the others, where nothing is made smaller. -/
theorem workOn_cons {g : Path} {fs : List Path} {x : FileResult} {left : FileTree}
    (hm : r.options.minifyScripts = false) (hs : s.files = g :: fs)
    (hx : ((Setting.optimize ⟨m, r.options, s.embedCss, s.graph⟩ g).attempt.run o t).result = .ok x)
    (hleft : ((Setting.optimize ⟨m, r.options, s.embedCss, s.graph⟩ g).attempt.run o t).tree = left) :
    let y := (Setting.optimizeAll ⟨m, r.options, s.embedCss, s.graph⟩ fs).run o left
    ((workOn m r s).run o t).result = (x :: resultsOf y.result, failuresOf y.result) ∧
      ((workOn m r s).run o t).tree = y.tree := by
  intro y
  obtain ⟨hr, ht⟩ := workOn_of_optimizeAll (m := m) (s := s) (o := o) (t := t) hm
  obtain ⟨hall, htree⟩ := Setting.run_optimizeAll_cons (o := o) (t := t)
    (s := ⟨m, r.options, s.embedCss, s.graph⟩) (g := g) fs
  rw [Setting.outcome, hx, hleft] at hall
  rw [hleft] at htree
  rw [hr, ht, hs, hall, htree]
  exact ⟨rfl, rfl⟩

theorem mem_workOn {Q : FileResult → Prop}
    (h : ∀ g ∈ s.files, ∀ t x, ((Setting.optimize ⟨m, r.options, s.embedCss, s.graph⟩ g).attempt.run o
      t).result = .ok x → Q x) : ∀ x ∈ ((workOn m r s).run o t).result.1, Q x := by
  rw [(run_workOn_eq m r s o t).1]
  intro x hx
  exact Setting.mem_optimizeAll h _ (mem_resultsOf.1 (List.mem_filter.1 hx).1) _ rfl

theorem workOn_isNamed : ∀ x ∈ ((workOn m r s).run o t).result.1, x.IsNamed r.options.naming :=
  mem_workOn fun g _ _ _ hx e he =>
    let ⟨w, hw⟩ := Setting.optimize_entries hx e he
    ⟨g, w, hw⟩

theorem css_workOn (he : s.embedCss = false) : ∀ x ∈ ((workOn m r s).run o t).result.1, x.css = [] :=
  mem_workOn fun _ _ _ _ hx => Setting.optimize_nil he hx

theorem writeManifest_calls (p : Path) (x : Manifest) : (writeManifest p x).Calls Spares :=
  .bind (.write trivial) fun _ => .tell trivial

/-- After the stylesheets no file is taken away any more. -/
theorem conclude_grows (start : Nat) (fs : List Failure) :
    Grows ((finish r s rs).attempt.run o t).tree
      ((conclude r s start rs fs).attempt.run o t).tree := by
  unfold conclude
  rw [Job.run_bind]
  dsimp only
  cases ((finish r s rs).attempt.run o t).result with
  | error e => exact .refl _
  | ok x =>
    apply Plan.Calls.spares
    apply Job.Calls.attempt
    refine .bind (writeManifest_calls _ _) fun _ => .bind (.lift (.ask trivial)) fun _ => ?_
    exact .bind (.tell trivial) fun _ => .pure _

/-- The exchanges at the end of a run start with those on the stylesheets. -/
theorem conclude_exchanges (o : Outages) (t : FileTree) (r : Request) (s : Survey) (start : Nat)
    (rs : List FileResult) (fs : List Failure) :
    ∃ es, ((conclude r s start rs fs).attempt.run o t).exchanges =
      ((finish r s rs).attempt.run o t).exchanges ++ es := by
  unfold conclude
  rw [Job.run_bind]
  dsimp only
  cases ((finish r s rs).attempt.run o t).result with
  | error e => exact ⟨[], by simp⟩
  | ok x => exact ⟨_, rfl⟩

end Report

namespace Request

/-- The publishing and removing of stylesheets, once what to publish is known. -/
theorem run_finishStyles (o : Outages) (t : FileTree) (r : Request) (rs : List FileResult) :
    let text := ((FileResult.combine r.combinedPath rs).run o t).result
    let x := (do
      let combined ← r.publish text
      let removed ← FileResult.removeCss rs
      Job.tell (.filesRemoved removed)
      return (combined, removed) : Job (Option Path × Nat)).attempt.run o t
    ∃ es es', (∀ x ∈ es, Spares x.1) ∧ (r.finishStyles rs).attempt.run o t =
      { x with exchanges := es ++ x.exchanges ++ es' } := by
  intro text x
  have hc := FileResult.combine_calls r.combinedPath rs
  have hl : (liftM (FileResult.combine r.combinedPath rs) : Job _).Calls Looks := .lift hc
  refine ⟨⟨.tell (.started .combining), ()⟩ ::
    ((FileResult.combine r.combinedPath rs).run o t).exchanges,
    [⟨.tell (.finished .combining), ()⟩], ?_, ?_⟩
  · simp only [List.mem_cons, forall_eq_or_imp]
    exact ⟨trivial, fun x hx => (hc.exchanges x hx).spares⟩
  · rw [finishStyles_eq, Job.run_during, Job.run_bind_looks hl (a := text) (by rw [Job.run_lift])]
    rw [Job.run_lift]
    rfl

theorem run_publish_ok {text : String} (h : (t.answer o (.write r.combinedPath text)).1 = .ok ()) :
    (r.publish (some text)).attempt.run o t =
      ⟨.ok (some r.combinedPath), (t.answer o (.write r.combinedPath text)).2,
        [⟨.write r.combinedPath text, .ok ()⟩,
          ⟨.tell (.combinedWritten r.combinedPath text.utf8ByteSize), ()⟩]⟩ := by
  have hw := Job.run_write (o := o) (t := t) r.combinedPath text
  rw [h] at hw
  unfold publish
  rw [Job.run_bind_of_ok (by rw [hw]; rfl), hw, Job.run_bind_of_ok (a := ()) rfl]
  rfl

theorem run_publish_error {text : String} {e : IoError}
    (h : (t.answer o (.write r.combinedPath text)).1 = .error e) :
    ((r.publish (some text)).attempt.run o t).result = .error (.io e) := by
  have hw := Job.run_write (o := o) (t := t) r.combinedPath text
  rw [h] at hw
  unfold publish
  rw [Job.run_bind_of_error (by rw [hw]; rfl)]

/-- A file that is gone in the end was removed after the combined stylesheet was written. -/
theorem writtenFirst_of_gone (h : t.IsFile p)
    (hg : ¬((r.finishStyles rs).attempt.run o t).tree.IsFile p) {text : String}
    (ht : ((FileResult.combine r.combinedPath rs).run o t).result = some text) :
    WrittenFirst r.combinedPath text ((r.finishStyles rs).attempt.run o t).exchanges := by
  obtain ⟨es, es', hs, hr⟩ := run_finishStyles o t r rs
  rw [ht] at hr
  rw [hr] at hg ⊢
  dsimp only at hg ⊢
  refine (WrittenFirst.append_left ?_ hs).append_right
  cases hw : (t.answer o (.write r.combinedPath text)).1 with
  | error e =>
    rw [Job.run_bind_of_error (run_publish_error hw)] at hg
    exact absurd ((publish_calls r (some text)).attempt.spares.isFile h) hg
  | ok u =>
    rw [Job.run_bind_of_ok (by rw [run_publish_ok hw]), run_publish_ok hw]
    exact ⟨[], _, rfl, by simp⟩

end Request

namespace Report

theorem entry_of_workOn {e : CssEntry}
    (h : e ∈ ((workOn m r s).run o t).result.1.flatMap FileResult.css) :
    ∃ g w, r.options.naming.isCssProxy w = true ∧ e = Embed.entryOf r.options.naming g w := by
  obtain ⟨x, hx, he⟩ := List.mem_flatMap.1 h
  exact workOn_isNamed x hx e he

/-- The sources of the combined stylesheet are what can be read of all that was embedded. -/
theorem mem_sources_workOn {u : FileTree} {text : String} :
    text ∈ ((FileResult.sources (FileResult.uniqueCss ((workOn m r s).run o t).result.1)).run o
        u).result ↔
      ∃ e ∈ ((workOn m r s).run o t).result.1.flatMap FileResult.css, o.read e.actual = none ∧
        u.read e.actual = .ok text := by
  rw [FileResult.mem_sources]
  constructor
  · rintro ⟨e, he, h⟩
    exact ⟨e, FileResult.distinct_subset he, h⟩
  · rintro ⟨d, hd, h⟩
    obtain ⟨x, hx, hsame⟩ := FileResult.mem_uniqueCss hd
    have hxd : d.actual = x.actual := by
      obtain ⟨g, v, -, rfl⟩ := entry_of_workOn hd
      obtain ⟨g', v', -, rfl⟩ := entry_of_workOn (FileResult.distinct_subset hx)
      rw [Embed.actual_entryOf, Embed.actual_entryOf] at hsame ⊢
      exact Path.eq_of_same_resolveFrom hsame
    exact ⟨x, hx, hxd ▸ h⟩

/-- The results of the work on the files, and the tree that it leaves. -/
def Reaches (m : Minifier) (r : Request) (o : Outages) (t : FileTree) (rs : List FileResult)
    (t' : FileTree) : Prop :=
  ∃ s, ((Survey.ofRequest r).attempt.run o t).result = .ok s ∧
    ((workOn m r s).run o t).result.1 = rs ∧ ((workOn m r s).run o t).tree = t'

/-- A text of a stylesheet is kept: it went into the combined one, and that was written first. -/
def Keeps (r : Request) (o : Outages) (t : FileTree) (rs : List FileResult) (b : ByteArray)
    (es : List Exchange) : Prop :=
  let sources := ((FileResult.sources (FileResult.uniqueCss rs)).run o t).result
  (∃ text ∈ sources, text.toUTF8 = b) ∧
    WrittenFirst r.combinedPath (Stylesheet.render true (Stylesheet.bundle sources)) es

/-- A stylesheet with something in it that is no longer there in the end is kept in the combined one
just if some stylesheet with its text could be read. -/
theorem keeps_iff_of_gone (hr : Reaches m r o t rs t') {e : CssEntry}
    (he : e ∈ rs.flatMap FileResult.css) (hf : t'.find e.actual = .ok (k, .file b))
    (hb : ∀ text : String, text.toUTF8 = b → ¬text.toList.all Text.isBlank)
    (hg : ¬((ofRequest m r).attempt.run o t).tree.IsFile e.actual) :
    Keeps r o t' rs b ((ofRequest m r).attempt.run o t).exchanges ↔
      ∃ d ∈ rs.flatMap FileResult.css, o.read d.actual = none ∧
        ∃ text, t'.read d.actual = .ok text ∧ text.toUTF8 = b := by
  obtain ⟨s, hs, rfl, rfl⟩ := hr
  obtain ⟨es, hes, hrun⟩ := run_ofRequest (m := m) hs rfl
  constructor
  · rintro ⟨⟨text, ht, hb⟩, -⟩
    obtain ⟨d, hd, ho, ht⟩ := mem_sources_workOn.1 ht
    exact ⟨d, hd, ho, text, ht, hb⟩
  · rintro ⟨d, hd, ho, text, ht, hbt⟩
    have hsrc := mem_sources_workOn.2 ⟨d, hd, ho, ht⟩
    refine ⟨⟨text, hsrc, hbt⟩, ?_⟩
    have hcomb := FileResult.combine_result (o := o) (t := ((workOn m r s).run o t).tree)
      r.combinedPath ((workOn m r s).run o t).result.1
    have hblank : ¬(((FileResult.sources (FileResult.uniqueCss
        ((workOn m r s).run o t).result.1)).run o ((workOn m r s).run o t).tree).result.all
          fun s => s.toList.all Text.isBlank) = true :=
      fun h => hb text hbt (List.all_eq_true.1 h text hsrc)
    dsimp only at hcomb
    rw [if_neg hblank] at hcomb
    rw [hrun] at hg ⊢
    have hfin : ¬((finish r s ((workOn m r s).run o t).result.1).attempt.run o
        ((workOn m r s).run o t).tree).tree.IsFile e.actual :=
      fun hfin => hg ((conclude_grows 0 _).isFile hfin)
    obtain ⟨rest, hrest⟩ := conclude_exchanges o ((workOn m r s).run o t).tree r s 0
      ((workOn m r s).run o t).result.1 ((workOn m r s).run o t).result.2
    dsimp only
    rw [hrest]
    refine WrittenFirst.append_left (WrittenFirst.append_right ?_) ?_
    · unfold finish at hfin ⊢
      split
      · next h =>
        rw [if_pos h] at hfin
        exact Request.writtenFirst_of_gone ⟨k, b, hf⟩ hfin hcomb
      · next h =>
        rw [if_neg h] at hfin
        exact absurd ⟨k, b, hf⟩ hfin
    · intro x hx
      rcases List.mem_append.1 hx with hx | hx
      · exact (hes x hx).spares
      · exact (workOn_calls m r s).exchanges x hx

/-! A build with a stylesheet that is no text. Its only script imports the proxy twice, the second
time by a name that the proxy has no class map for. -/

namespace Unread

def script : Path := ⟨"build/app.js"⟩

def style : Path := ⟨"build/x.module.css"⟩

def proxy : Path := ⟨"build/x.module.css.proxy.js"⟩

def kept : Script.Line := .import (.default "styles".toList) "./x.module.css.proxy.js".toList

def lines : List Script.Line := [.import .nothing "./x.module.css.proxy.js".toList, kept]

def text (ls : List Script.Line) : String := String.ofList (ls.flatMap Script.Line.print)

/-- A rule, and a byte that no text holds. -/
def bytes : ByteArray := ".a \x7b color: red; \x7d".toUTF8.push 0xff

def tree : FileTree :=
  (((FileTree.empty.put [] "build" .directory).put ["build"] "app.js" (.file (text lines).toUTF8)).put
    ["build"] "x.module.css" (.file bytes)).put
    ["build"] "x.module.css.proxy.js" (.file "export default 1;\n".toUTF8)

def request : Request where
  root := ⟨"build"⟩
  options := { minifyScripts := false, minifyPages := false, minifyStyles := false }

/-- Leaves all texts as they are. -/
def minifier : Minifier := ⟨fun _ s => .ok s, fun _ s => .ok s, .ok, fun _ => [], fun _ _ => [], []⟩

def survey : Survey := ⟨[script, style, proxy], true, none⟩

def setting : Setting := ⟨minifier, request.options, true, none⟩

/-- The tree once the work on the script is done. -/
def written : FileTree := (tree.write script (text [kept]).toUTF8).1

/-- What the build holds, as far as the work on the script asks for it. -/
theorem tree_values :
    (∀ l ∈ lines, l.IsSound) ∧ tree.read script = .ok (text lines) ∧
    tree.read (script.resolveFrom "./x.module.css.proxy.js") = .ok "export default 1;\n" ∧
    ((Job.scan request.root request.excluded).attempt.run {} tree).result = .ok survey.files ∧
    ((Script.Line.module lines).imports.any fun d =>
      Naming.isCssProxy {} (String.ofList d.specifier)) = true ∧
    FileKind.classify {} script = .script ∧
    (tree.answer {} (.read script)).1 = .ok (text lines) ∧ text [kept] ≠ text lines ∧
    (tree.answer {} (.write script (text [kept]))).1 = .ok () ∧ String.fromUTF8? bytes = none := by
  decide +kernel

theorem lines_isSound : ∀ l ∈ lines, l.IsSound := tree_values.1

theorem survey_ok : ((Survey.ofRequest request).attempt.run {} tree).result = .ok survey := by
  obtain ⟨-, hread, -, hscan, himports, -⟩ := tree_values
  have hcss : importsCss? {} (text lines) = some true := himports ▸ importsCss?_print lines_isSound
  exact Survey.ofRequest_of_scan rfl hscan (Job.importsCss_of_read hread hcss)

theorem embedded : Embedded.ofCode tree.read {} script (text lines) =
    .ok ⟨[⟨style, proxy⟩], text [kept]⟩ := by
  have hr : ∀ l ∈ lines, l.IsReadable {} tree script := by
    simp [lines, kept, Script.Line.IsReadable, tree_values.2.2.1]
  rw [text, Embedded.ofCode_print lines_isSound hr]
  decide +kernel

theorem optimize_script :
    ((setting.optimize script).attempt.run {} tree).result = .ok ⟨script, [⟨style, proxy⟩]⟩ ∧
      ((setting.optimize script).attempt.run {} tree).tree = written := by
  obtain ⟨-, -, -, -, -, hkind, hread, hne, hwrite, -⟩ := tree_values
  exact Setting.optimize_of_embeds (o := {}) (t := tree) (s := setting) (g := script) rfl rfl hkind
    hread embedded hne hwrite

def results : List FileResult := [⟨script, [⟨style, proxy⟩]⟩, ⟨style, []⟩, ⟨proxy, []⟩]

/-- The tree once the work on all files is done. -/
def worked : FileTree := ((setting.optimizeAll [style, proxy]).run {} written).tree

/-- What is left to do when the work on the files is done. -/
def concluded : Run (Except Fault Report) :=
  (conclude request survey 0 results []).attempt.run {} worked

/-- What the work on the other files gives, and what is there in the end. -/
theorem worked_values :
    ((setting.optimizeAll [style, proxy]).run {} written).result = [.ok ⟨style, []⟩, .ok ⟨proxy, []⟩] ∧
    worked.find style = .ok (["build", "x.module.css"], .file bytes) ∧
    concluded.tree.find style = .error .notFound := by
  decide +kernel

theorem run_workOn : ((workOn minifier request survey).run {} tree).result = (results, []) ∧
    ((workOn minifier request survey).run {} tree).tree = worked := by
  obtain ⟨hr, ht⟩ := workOn_cons (m := minifier) (r := request) (s := survey) rfl rfl
    optimize_script.1 optimize_script.2
  exact ⟨hr.trans (congrArg (fun ys => (⟨script, [⟨style, proxy⟩]⟩ :: resultsOf ys, failuresOf ys))
    worked_values.1), ht⟩

theorem reaches : Reaches minifier request {} tree results worked :=
  ⟨survey, survey_ok, congrArg Prod.fst run_workOn.1, run_workOn.2⟩

theorem run_ofRequest :
    ((ofRequest minifier request).attempt.run {} tree).result = concluded.result ∧
      ((ofRequest minifier request).attempt.run {} tree).tree = concluded.tree := by
  have h := result_ofRequest (m := minifier) survey_ok rfl
  rwa [run_workOn.1, run_workOn.2] at h

theorem find_style : worked.find style = .ok (["build", "x.module.css"], .file bytes) :=
  worked_values.2.1

theorem toUTF8_ne (s : String) : s.toUTF8 ≠ bytes := by
  intro h
  obtain ⟨-, -, -, -, -, -, -, -, -, hn⟩ := tree_values
  have hv : bytes.IsValidUTF8 := h ▸ s.isValidUTF8
  simp [String.fromUTF8?, hv] at hn

theorem not_isFile_style :
    ¬((ofRequest minifier request).attempt.run {} tree).tree.IsFile style := by
  rw [run_ofRequest.2]
  rintro ⟨k, b, hf⟩
  rw [worked_values.2.2] at hf
  cases hf

end Unread

/-- Whether a stylesheet that is gone is kept can be told where one is gone. -/
theorem keeps_unread_iff :
    Reaches Unread.minifier Unread.request {} Unread.tree Unread.results Unread.worked ∧
    ⟨Unread.style, Unread.proxy⟩ ∈ Unread.results.flatMap FileResult.css ∧
    Unread.worked.find Unread.style = .ok (["build", "x.module.css"], .file Unread.bytes) ∧
    (∀ text : String, text.toUTF8 = Unread.bytes → ¬text.toList.all Text.isBlank) ∧
    ¬((ofRequest Unread.minifier Unread.request).attempt.run {} Unread.tree).tree.IsFile
      Unread.style ∧
    (Keeps Unread.request {} Unread.worked Unread.results Unread.bytes
        ((ofRequest Unread.minifier Unread.request).attempt.run {} Unread.tree).exchanges ↔
      ∃ d ∈ Unread.results.flatMap FileResult.css, (none : Option IoError) = none ∧
        ∃ text, Unread.worked.read d.actual = .ok text ∧ text.toUTF8 = Unread.bytes) := by
  have he : (⟨Unread.style, Unread.proxy⟩ : CssEntry) ∈ Unread.results.flatMap FileResult.css := by
    decide +kernel
  have hb (text : String) (h : text.toUTF8 = Unread.bytes) : ¬text.toList.all Text.isBlank :=
    absurd h (Unread.toUTF8_ne text)
  exact ⟨Unread.reaches, he, Unread.find_style, hb, Unread.not_isFile_style,
    keeps_iff_of_gone Unread.reaches he Unread.find_style hb Unread.not_isFile_style⟩

/-- A stylesheet that could not be read is removed, and kept nowhere. -/
theorem not_keeps_unread :
    Reaches Unread.minifier Unread.request {} Unread.tree Unread.results Unread.worked ∧
    ⟨Unread.style, Unread.proxy⟩ ∈ Unread.results.flatMap FileResult.css ∧
    Unread.worked.find Unread.style = .ok (["build", "x.module.css"], .file Unread.bytes) ∧
    (∀ text : String, text.toUTF8 = Unread.bytes → ¬text.toList.all Text.isBlank) ∧
    ¬((ofRequest Unread.minifier Unread.request).attempt.run {} Unread.tree).tree.IsFile
      Unread.style ∧
    ¬Keeps Unread.request {} Unread.worked Unread.results Unread.bytes
      ((ofRequest Unread.minifier Unread.request).attempt.run {} Unread.tree).exchanges := by
  have he : (⟨Unread.style, Unread.proxy⟩ : CssEntry) ∈ Unread.results.flatMap FileResult.css := by
    decide +kernel
  refine ⟨Unread.reaches, he, Unread.find_style, fun text h => absurd h (Unread.toUTF8_ne text),
    Unread.not_isFile_style, ?_⟩
  rintro ⟨⟨text, -, hb⟩, -⟩
  exact Unread.toUTF8_ne text hb

end Report

end SiteBuild
