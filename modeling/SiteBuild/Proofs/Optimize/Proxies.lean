import SiteBuild.Proofs.Optimize.Stylesheets

/-! What becomes of the proxies. One is removed just if some script that did not fail has embedded it,
also where another import of it was kept. -/

namespace SiteBuild

open FileTree

variable {o : Outages} {t t' : FileTree} {f g p q : Path} {k : Place} {b : ByteArray}
  {m : Minifier} {r : Request} {s : Survey}

theorem FileKind.classify_congr {n : Naming} (h : p.fileName? = q.fileName?) :
    FileKind.classify n p = FileKind.classify n q := by
  simp [FileKind.classify, FileKind.ofPath, Path.extension?, h]

theorem FileKind.classify_of_same {n : Naming} (h : p.same q = true) :
    FileKind.classify n p = FileKind.classify n q := by
  have hc : p.components = q.components := by simpa [Path.same] using h
  exact classify_congr (by simp [Path.fileName?, hc])

/-- Whether a script, taken by itself, embeds the stylesheet behind a proxy. -/
def Embeds (t : FileTree) (g p : Path) : Prop :=
  ∃ code e i, t.read g = .ok code ∧ Embedded.ofCode t.read {} g code = .ok e ∧ i ∈ e.imports ∧
    i.proxy = p

namespace Setting

variable {s : Setting}

theorem minifyProxies_files {ps : List Path} :
    ∀ x ∈ ((s.minifyProxies ps).run o t).result, x.file ∈ ps := by
  induction ps generalizing t with
  | nil => simp [minifyProxies]
  | cons p ps ih =>
    unfold minifyProxies
    rw [Plan.run_bind]
    dsimp only
    cases ((s.minifyProxy p).attempt.run o t).result with
    | ok u => exact fun x hx => List.mem_cons_of_mem _ (ih x hx)
    | error e =>
      dsimp only
      rw [Plan.run_bind]
      dsimp only
      rw [Plan.run_bind]
      intro x hx
      rcases List.mem_cons.1 hx with rfl | hx
      · exact List.mem_cons_self
      · exact List.mem_cons_of_mem _ (ih x hx)

end Setting

namespace Report

theorem mem_dropFailed {late : List Failure} {rs : List FileResult} {x : FileResult} :
    x ∈ dropFailed late rs ↔ x ∈ rs ∧ ∀ y ∈ late, ¬y.file.same x.file = true := by
  simp [dropFailed]

/-- What the work on the files of a build comes to, by what each of them comes to alone. -/
theorem run_workOn (hn : r.options.naming = {}) (hf : ∀ g ∈ s.files, t.IsFile g)
    (ha : s.files.Pairwise t.Apart) :
    ∃ late, (∀ x ∈ late, FileKind.classify {} x.file = .cssProxy) ∧
      ((workOn m r s).run o t).result =
        let outcomes := s.files.map (Setting.outcome ⟨m, r.options, s.embedCss, s.graph⟩ o t)
        (dropFailed late (resultsOf outcomes), failuresOf outcomes ++ late) := by
  have hall := Setting.run_optimizeAll (o := o) (s := ⟨m, r.options, s.embedCss, s.graph⟩)
    (hn ▸ Naming.isPlain_default) hf ha
  rw [(run_workOn_eq m r s o t).1, hall]
  refine ⟨_, fun x hx => ?_, rfl⟩
  unfold minifyLeft at hx
  split at hx
  · have := Setting.minifyProxies_files x hx
    simp only [Setting.unusedProxies, List.mem_filter, Bool.and_eq_true, decide_eq_true_eq] at this
    rw [← hn]
    exact this.2.1
  · cases hx

/-- A file that is no proxy has failed just if it fails alone. -/
theorem mem_failures_workOn (hn : r.options.naming = {}) (hf : ∀ g ∈ s.files, t.IsFile g)
    (ha : s.files.Pairwise t.Apart) {x : Failure} (hk : FileKind.classify {} x.file ≠ .cssProxy) :
    x ∈ ((workOn m r s).run o t).result.2 ↔ x.file ∈ s.files ∧
      Setting.outcome ⟨m, r.options, s.embedCss, s.graph⟩ o t x.file = .error x := by
  obtain ⟨late, hl, hw⟩ := run_workOn (m := m) (o := o) hn hf ha
  rw [hw]
  dsimp only
  rw [List.mem_append, mem_failuresOf, List.mem_map]
  constructor
  · rintro (⟨g, hg, hx⟩ | hx)
    · obtain rfl := Setting.outcome_error hx
      exact ⟨hg, hx⟩
    · exact absurd (hl x hx) hk
  · rintro ⟨hx, hout⟩
    exact .inl ⟨x.file, hx, hout⟩

/-- A file that is no proxy has a result just if it has that result alone. -/
theorem mem_results_workOn (hn : r.options.naming = {}) (hf : ∀ g ∈ s.files, t.IsFile g)
    (ha : s.files.Pairwise t.Apart) {x : FileResult} (hk : FileKind.classify {} x.file ≠ .cssProxy) :
    x ∈ ((workOn m r s).run o t).result.1 ↔ x.file ∈ s.files ∧
      Setting.outcome ⟨m, r.options, s.embedCss, s.graph⟩ o t x.file = .ok x := by
  obtain ⟨late, hl, hw⟩ := run_workOn (m := m) (o := o) hn hf ha
  rw [hw]
  dsimp only
  rw [mem_dropFailed, mem_resultsOf, List.mem_map]
  constructor
  · rintro ⟨⟨g, hg, hx⟩, -⟩
    obtain ⟨rfl, -⟩ := Setting.optimize_ok (Setting.outcome_ok hx)
    exact ⟨hg, hx⟩
  · rintro ⟨hx, hout⟩
    refine ⟨⟨x.file, hx, hout⟩, fun y hy hs => hk ?_⟩
    rw [← FileKind.classify_of_same hs]
    exact hl y hy

/-- Only scripts are recorded with stylesheets. -/
theorem classify_of_mem_css {x : FileResult} {e : CssEntry}
    (hx : x ∈ ((workOn m r s).run o t).result.1) (he : e ∈ x.css) :
    FileKind.classify r.options.naming x.file = .script := by
  refine mem_workOn (Q := fun x => e ∈ x.css → FileKind.classify r.options.naming x.file = .script)
    (fun g _ t x hx he => ?_) x hx he
  obtain ⟨rfl, hcss⟩ := Setting.optimize_ok hx
  by_contra hk
  rw [if_neg hk] at hcss
  simp [hcss] at he

/-- The proxies that stand in the results: those that a script embeds, unless work on it failed. -/
theorem exists_proxy_iff (hn : r.options.naming = {}) (hf : ∀ g ∈ s.files, t.IsFile g)
    (ha : s.files.Pairwise t.Apart) (he : s.embedCss = true) :
    (∃ e ∈ ((workOn m r s).run o t).result.1.flatMap FileResult.css, e.proxy = p) ↔
      ∃ g ∈ Survey.scripts {} s.files,
        (∀ x ∈ ((workOn m r s).run o t).result.2, x.file ≠ g) ∧ Embeds t g p := by
  constructor
  · rintro ⟨e, hm, hp⟩
    obtain ⟨x, hx, hex⟩ := List.mem_flatMap.1 hm
    have hk : FileKind.classify {} x.file = .script := hn ▸ classify_of_mem_css hx hex
    have hproxy : FileKind.classify {} x.file ≠ .cssProxy := by simp [hk]
    obtain ⟨hg, hout⟩ := (mem_results_workOn hn hf ha hproxy).1 hx
    obtain ⟨-, hcss⟩ := Setting.optimize_ok (Setting.outcome_ok hout)
    rw [if_pos (by rw [hn]; exact hk)] at hcss
    obtain ⟨code, e', -, hr, ho, hes, -⟩ := Setting.optimizeScript_ok he hcss
    rw [hn] at ho
    refine ⟨x.file, List.mem_filter.2 ⟨hg, by simpa using hk⟩, fun y hy hyx => ?_, code, e', e, hr, ho,
      hes ▸ hex, hp⟩
    rw [← hyx] at hproxy hout
    rw [((mem_failures_workOn hn hf ha hproxy).1 hy).2] at hout
    cases hout
  · rintro ⟨g, hg, hok, code, e, i, hr, ho, hi, hp⟩
    obtain ⟨hg, hk⟩ := List.mem_filter.1 hg
    have hk : FileKind.classify {} g = .script := by simpa using hk
    have hproxy : FileKind.classify {} g ≠ .cssProxy := by simp [hk]
    cases hx : Setting.outcome ⟨m, r.options, s.embedCss, s.graph⟩ o t g with
    | error y =>
      obtain rfl := Setting.outcome_error hx
      exact absurd rfl (hok y ((mem_failures_workOn hn hf ha hproxy).2 ⟨hg, hx⟩))
    | ok x =>
      obtain ⟨rfl, hcss⟩ := Setting.optimize_ok (Setting.outcome_ok hx)
      rw [if_pos (by rw [hn]; exact hk)] at hcss
      obtain ⟨code', e', -, hr', ho', hes, -⟩ := Setting.optimizeScript_ok he hcss
      rw [hn] at ho'
      rw [hr] at hr'
      cases hr'
      rw [ho] at ho'
      cases ho'
      have hmem := (mem_results_workOn (m := m) (r := r) hn hf ha hproxy).2 ⟨hg, hx⟩
      exact ⟨i, List.mem_flatMap.2 ⟨x, hmem, hes ▸ hi⟩, hp⟩

end Report

/-- The name of a stylesheet that a proxy stands for ends as names of stylesheets do. -/
theorem fileName?_actual {w : String} (hw : Naming.isCssProxy {} w = true) :
    ∃ n, (g.resolveFrom (Naming.actual {} w)).fileName? = some n ∧ ".css".toList <:+ n.toList :=
  Path.fileName?_resolveFrom ⟨by decide, by decide, by decide⟩ (Naming.actual_of_isCssProxy hw).1

theorem fileName?_proxy {v : String} (hv : Naming.isCssProxy {} v = true) :
    ∃ n, (g.resolveFrom v).fileName? = some n ∧ ".css.proxy.js".toList <:+ n.toList :=
  Path.fileName?_resolveFrom Naming.isPlain_default (List.isSuffixOf_iff_suffix.1 hv)

/-- The names of a stylesheet and of a proxy do not end alike. -/
theorem actual_ne_resolveFrom {w v : String} (hw : Naming.isCssProxy {} w = true)
    (hv : Naming.isCssProxy {} v = true) :
    g.resolveFrom (Naming.actual {} w) ≠ f.resolveFrom v := by
  intro he
  obtain ⟨n, hn, h1⟩ := fileName?_proxy (g := f) hv
  obtain ⟨n', hn', h2⟩ := fileName?_actual (g := g) hw
  rw [he, hn] at hn'
  cases hn'
  exact absurd (List.suffix_of_suffix_length_le h2 h1 (by decide)) (by decide)

theorem fileName?_manifestPath (r : Request) :
    r.manifestPath.fileName? = some "optimize-manifest.json" := by
  have hq : Path.segments (Path.mk "optimize-manifest.json").text.toList =
      [] ++ ["optimize-manifest.json".toList] := Path.segments_of_not_mem (by decide)
  obtain ⟨ss, hs⟩ := Path.segments_join (p := r.root.join r.metaDirectory) hq
  have hc : Path.component? "optimize-manifest.json".toList =
      some (.name "optimize-manifest.json") := by decide
  have := Path.getLast?_components hs hc
  simp [Path.fileName?, Request.manifestPath, this]

theorem fileName?_ne_manifestPath {n : String} {w : List Char} (hp : p.fileName? = some n)
    (hs : w <:+ n.toList) (hw : ¬w <:+ "optimize-manifest.json".toList) :
    p.fileName? ≠ r.manifestPath.fileName? := by
  rw [hp, fileName?_manifestPath]
  exact fun he => hw (Option.some.inj he ▸ hs)

/-- A path of a stylesheet or of a proxy that the default names embed. -/
theorem fileName?_entry_ne {e : CssEntry} {w : String} (hw : Naming.isCssProxy {} w = true)
    (he : e = Embed.entryOf {} g w) :
    e.actual.fileName? ≠ r.manifestPath.fileName? ∧ e.proxy.fileName? ≠ r.manifestPath.fileName? := by
  subst he
  rw [Embed.actual_entryOf, Embed.proxy_entryOf]
  obtain ⟨n, hn, ha⟩ := fileName?_actual (g := g) hw
  obtain ⟨n', hn', hp⟩ := fileName?_proxy (g := g) hw
  exact ⟨fileName?_ne_manifestPath hn ha (by decide), fileName?_ne_manifestPath hn' hp (by decide)⟩

theorem Report.tree_writeManifest {x : Manifest} :
    ((writeManifest p x).attempt.run o t).tree = (t.answer o (.write p x.toText)).2 := by
  unfold writeManifest
  rw [Job.run_bind, Job.run_write]
  dsimp only
  cases (t.answer o (.write p x.toText)).1 <;> rfl

/-- The manifest does not bring a file back. -/
theorem not_isFile_writeManifest {x : Manifest} (h : ¬t.IsFile p.normalize)
    (hn : p.normalize.fileName? ≠ q.fileName?) :
    ¬((Report.writeManifest q x).attempt.run o t).tree.IsFile p.normalize := by
  rw [Report.tree_writeManifest]
  simp only [answer]
  cases o.write q with
  | some e => exact h
  | none => exact not_isFile_write h hn

namespace Request

/-- The files that are gone once the combined stylesheet is written. -/
theorem publish_lacks {rs : List FileResult} {x : Option Path × Nat}
    (h : ((r.finishStyles rs).attempt.run o t).result = .ok x) :
    let t' := ((r.publish ((FileResult.combine r.combinedPath rs).run o t).result).attempt.run o t).tree
    Lacks (fun k => ∃ e ∈ rs.flatMap FileResult.css, LeadsTo t' e.actual k ∨ LeadsTo t' e.proxy k) t'
      ((r.finishStyles rs).attempt.run o t).tree := by
  obtain ⟨es, es', -, hr⟩ := run_finishStyles o t r rs
  rw [hr] at h ⊢
  dsimp only at h ⊢
  obtain ⟨c, hc, h, ht⟩ := Job.run_bind_ok h
  rw [ht]
  obtain ⟨n, hn, h, ht⟩ := Job.run_bind_ok h
  rw [ht]
  refine (FileResult.clears_of_removeAll hn).lacks.congr fun k => ?_
  change (∃ p ∈ FileResult.replaced rs, _) ↔ _
  simp only [FileResult.mem_replaced]
  constructor
  · rintro ⟨p, ⟨e, he, rfl | rfl⟩, hp⟩
    · exact ⟨e, he, .inl hp⟩
    · exact ⟨e, he, .inr hp⟩
  · rintro ⟨e, he, hp | hp⟩
    · exact ⟨e.actual, ⟨e, he, .inl rfl⟩, hp⟩
    · exact ⟨e.proxy, ⟨e, he, .inr rfl⟩, hp⟩

/-- The tree when the combined stylesheet is written, and the files that are gone after that. -/
theorem finishStyles_lacks {rs : List FileResult} {x : Option Path × Nat}
    (h : ((r.finishStyles rs).attempt.run o t).result = .ok x) :
    ∃ t', Grows t t' ∧ Lacks (fun k => ∃ e ∈ rs.flatMap FileResult.css,
      LeadsTo t' e.actual k ∨ LeadsTo t' e.proxy k) t' ((r.finishStyles rs).attempt.run o t).tree :=
  ⟨_, (publish_calls r _).attempt.spares, publish_lacks h⟩

end Request

namespace Report

/-- A proxy is there in the end unless its stylesheet is among what was embedded. -/
theorem isFile_conclude_iff {v : String}
    (hv : Naming.isCssProxy {} v = true) (hf : t.IsFile (f.resolveFrom v)) {start : Nat}
    {rs : List FileResult} {fs : List Failure} {rep : Report} (hrs : ∀ x ∈ rs, x.IsNamed {})
    (h : ((conclude r s start rs fs).attempt.run o t).result = .ok rep) :
    ((conclude r s start rs fs).attempt.run o t).tree.IsFile (f.resolveFrom v) ↔
      ¬(s.embedCss = true ∧ ∃ e ∈ rs.flatMap FileResult.css, e.proxy = f.resolveFrom v) := by
  obtain ⟨hx, -, -, -, -, ht⟩ := conclude_ok h
  rw [ht]
  cases he : s.embedCss with
  | false =>
    rw [finish_of_not_embedCss he, Job.run_pure]
    simp only [Bool.false_eq_true, false_and, not_false_eq_true, iff_true]
    exact ((writeManifest_calls _ _).attempt.spares).isFile hf
  | true =>
    rw [finish_of_embedCss he] at hx ⊢
    obtain ⟨t2, hg, hl⟩ := r.finishStyles_lacks hx
    obtain ⟨k, b, hk⟩ := hg.isFile hf
    simp only [true_and]
    by_cases hgone : ∃ e ∈ rs.flatMap FileResult.css, e.proxy = f.resolveFrom v
    · obtain ⟨e, hm, hp⟩ := hgone
      obtain ⟨n, hn, hs⟩ := fileName?_proxy (g := f) hv
      have hgone := hl.not_isFile fun j hj => ⟨e, hm, .inr (hp ▸ hj)⟩
      refine iff_of_false (not_isFile_writeManifest hgone ?_) fun hno => hno ⟨e, hm, hp⟩
      exact fileName?_ne_manifestPath hn hs (by decide)
    · refine iff_of_true ?_ hgone
      apply ((writeManifest_calls _ _).attempt.spares).isFile
      have hstay := hl.stays k ?_
      · rw [(find_eq_file.1 hk).2.1] at hstay
        exact isFile_of_node? hk hl.keeps hstay
      · rintro ⟨e, hm, ⟨c, hc⟩ | ⟨c, hc⟩⟩
        · obtain ⟨y, hy, hey⟩ := List.mem_flatMap.1 hm
          obtain ⟨g, w, hw, rfl⟩ := hrs y hy e hey
          rw [Embed.actual_entryOf] at hc
          exact actual_ne_resolveFrom hw hv (eq_of_find hc hk)
        · obtain ⟨y, hy, hey⟩ := List.mem_flatMap.1 hm
          obtain ⟨g, w, hw, rfl⟩ := hrs y hy e hey
          rw [Embed.proxy_entryOf] at hc
          exact hgone ⟨_, hm, eq_of_find hc hk⟩

/-- A proxy that was there is there in the end unless a script that did not fail embeds it. -/
theorem isFile_proxy_iff (hn : r.options.naming = {}) {v : String}
    (hv : Naming.isCssProxy {} v = true) (hf : t.IsFile (f.resolveFrom v)) {rep : Report}
    (hs : ((Survey.ofRequest r).attempt.run o t).result = .ok s)
    (h : ((ofRequest m r).attempt.run o t).result = .ok rep) :
    ((ofRequest m r).attempt.run o t).tree.IsFile (f.resolveFrom v) ↔
      ¬(s.embedCss = true ∧ ∃ g ∈ Survey.scripts {} s.files,
        (∀ x ∈ rep.failures, x.file ≠ g) ∧ Embeds t g (f.resolveFrom v)) := by
  obtain ⟨hfiles, hapart⟩ := Survey.ofRequest_ok hs
  obtain ⟨hresult, htree⟩ := result_ofRequest (m := m) hs rfl
  rw [hresult] at h
  rw [htree]
  have hfw := (workOn_calls m r s).spares (o := o).isFile hf
  have hnamed : ∀ x ∈ ((workOn m r s).run o t).result.1, x.IsNamed {} := hn ▸ workOn_isNamed
  rw [isFile_conclude_iff hv hfw hnamed h, (conclude_ok h).2.2.1]
  refine not_congr (and_congr_right fun he => ?_)
  exact exists_proxy_iff hn hfiles hapart he

/-- A proxy that the text of some script imports. -/
def Imports (t : FileTree) (scripts : List Path) (p : Path) : Prop :=
  ∃ f ∈ scripts, ∃ text m d, t.read f = .ok text ∧ Script.Module.read? text.toList = some m ∧
    d ∈ m.imports ∧ Naming.isCssProxy {} (String.ofList d.specifier) = true ∧
      p = f.resolveFrom (String.ofList d.specifier)

/-- The proxies that scripts still import when a run is over are there just if no script that did not
fail has embedded one of them. -/
theorem imported_proxies_stay_iff (hn : r.options.naming = {}) {rep : Report}
    (hs : ((Survey.ofRequest r).attempt.run o t).result = .ok s)
    (h : ((ofRequest m r).attempt.run o t).result = .ok rep) :
    (∀ p, Imports ((ofRequest m r).attempt.run o t).tree (Survey.scripts {} s.files) p →
      t.IsFile p → ((ofRequest m r).attempt.run o t).tree.IsFile p) ↔
    (s.embedCss = true →
      ∀ p, Imports ((ofRequest m r).attempt.run o t).tree (Survey.scripts {} s.files) p →
        t.IsFile p → ∀ g ∈ Survey.scripts {} s.files, (∀ x ∈ rep.failures, x.file ≠ g) →
          ¬Embeds t g p) := by
  have hp : ∀ p, Imports ((ofRequest m r).attempt.run o t).tree (Survey.scripts {} s.files) p →
      t.IsFile p → (((ofRequest m r).attempt.run o t).tree.IsFile p ↔
        ¬(s.embedCss = true ∧ ∃ g ∈ Survey.scripts {} s.files,
          (∀ x ∈ rep.failures, x.file ≠ g) ∧ Embeds t g p)) := by
    rintro p ⟨f, -, text, x, d, -, -, -, hd, rfl⟩ hf
    exact isFile_proxy_iff hn hd hf hs h
  constructor
  · intro hstay he p hi hf g hg hok hemb
    exact (hp p hi hf).1 (hstay p hi hf) ⟨he, g, hg, hok, hemb⟩
  · intro hno p hi hf
    refine (hp p hi hf).2 ?_
    rintro ⟨he, g, hg, hok, hemb⟩
    exact hno he p hi hf g hg hok hemb

namespace Unread

def report : Report :=
  ⟨3, [], true, none, 2, ⟨"build/_snowpack/optimize-manifest.json"⟩, 0⟩

theorem concluded_values : concluded.result = .ok report ∧
    concluded.tree.read script = .ok (text [kept]) ∧ concluded.tree.find proxy = .error .notFound ∧
    script ∈ Survey.scripts {} survey.files := by
  decide +kernel

theorem ofRequest_ok : ((ofRequest minifier request).attempt.run {} tree).result = .ok report :=
  run_ofRequest.1.trans concluded_values.1

theorem imports_proxy : Imports ((ofRequest minifier request).attempt.run {} tree).tree
    (Survey.scripts {} survey.files) proxy := by
  obtain ⟨-, hread, -, hscript⟩ := concluded_values
  have hkept : ∀ l ∈ [kept], l.IsSound := fun l hl => lines_isSound l (List.mem_cons_of_mem _ hl)
  rw [run_ofRequest.2]
  refine ⟨script, hscript, text [kept], Script.Line.module [kept],
    ⟨"import".toList, " styles from ".toList, Script.Line.quote "./x.module.css.proxy.js".toList,
      [';']⟩, hread, ?_, ?_, ?_, ?_⟩
  · rw [text, String.toList_ofList]
    exact Script.Line.read?_print hkept
  all_goals decide

theorem not_isFile_proxy :
    ¬((ofRequest minifier request).attempt.run {} tree).tree.IsFile proxy := by
  rw [run_ofRequest.2]
  rintro ⟨k, b, hf⟩
  rw [concluded_values.2.2.1] at hf
  cases hf

end Unread

/-- Whether the proxies that scripts import stay can be told of a run that succeeds. -/
theorem imported_proxies_unread_iff :
    Unread.request.options.naming = {} ∧
    ((Survey.ofRequest Unread.request).attempt.run {} Unread.tree).result = .ok Unread.survey ∧
    ((ofRequest Unread.minifier Unread.request).attempt.run {} Unread.tree).result =
      .ok Unread.report ∧
    ((∀ p, Imports ((ofRequest Unread.minifier Unread.request).attempt.run {} Unread.tree).tree
        (Survey.scripts {} Unread.survey.files) p → Unread.tree.IsFile p →
        ((ofRequest Unread.minifier Unread.request).attempt.run {} Unread.tree).tree.IsFile p) ↔
      (Unread.survey.embedCss = true →
        ∀ p, Imports ((ofRequest Unread.minifier Unread.request).attempt.run {} Unread.tree).tree
          (Survey.scripts {} Unread.survey.files) p → Unread.tree.IsFile p →
          ∀ g ∈ Survey.scripts {} Unread.survey.files,
            (∀ x ∈ Unread.report.failures, x.file ≠ g) → ¬Embeds Unread.tree g p)) :=
  ⟨rfl, Unread.survey_ok, Unread.ofRequest_ok,
    imported_proxies_stay_iff rfl Unread.survey_ok Unread.ofRequest_ok⟩

/-- A run without a failure removes a proxy that a script still imports. -/
theorem imported_proxy_removed :
    ((Survey.ofRequest Unread.request).attempt.run {} Unread.tree).result = .ok Unread.survey ∧
    ((ofRequest Unread.minifier Unread.request).attempt.run {} Unread.tree).result =
      .ok Unread.report ∧
    Imports ((ofRequest Unread.minifier Unread.request).attempt.run {} Unread.tree).tree
      (Survey.scripts {} Unread.survey.files) Unread.proxy ∧
    Unread.tree.IsFile Unread.proxy ∧
    ¬((ofRequest Unread.minifier Unread.request).attempt.run {} Unread.tree).tree.IsFile
      Unread.proxy := by
  have hf : Unread.tree.find Unread.proxy =
      .ok (["build", "x.module.css.proxy.js"], .file "export default 1;\n".toUTF8) := by
    decide +kernel
  exact ⟨Unread.survey_ok, Unread.ofRequest_ok, Unread.imports_proxy, ⟨_, _, hf⟩,
    Unread.not_isFile_proxy⟩

end Report

end SiteBuild
