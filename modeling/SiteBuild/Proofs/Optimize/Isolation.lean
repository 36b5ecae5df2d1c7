import SiteBuild.Proofs.Optimize.Account

/-! A file that cannot be read or written is a matter of its own. Two runs that differ in what becomes of
the calls on one file tell the same of every other file that is no proxy. -/

namespace SiteBuild

open FileTree

variable {o o' : Outages} {t : FileTree} {f g : Path} {m : Minifier} {r : Request} {s : Survey}

/-- That outages meet all reads and writes alike but those of one file. -/
structure Outages.DifferAt (f : Path) (o o' : Outages) : Prop where
  read : ∀ p, p.same f = false → o.read p = o'.read p
  write : ∀ p, p.same f = false → o.write p = o'.write p

namespace Outages.DifferAt

/-- The calls of the work on another file are answered alike. -/
theorem answer {n : Naming} (h : DifferAt f o o') (hg : g.same f = false) (t : FileTree) {c : Call}
    (hc : Handles n g c) : t.answer o c = t.answer o' c := by
  cases c with
  | read p =>
    obtain rfl : p = g := hc
    simp only [FileTree.answer, h.read p hg]
  | write p text =>
    obtain rfl : p = g := hc.1
    simp only [FileTree.answer, h.write p hg]
  | inspect p => rfl
  | tell e => rfl
  | remove p => cases hc
  | isThere p => cases hc
  | isDirectory p => cases hc
  | list p => cases hc
  | now => cases hc

/-- What becomes of another file, taken by itself, is the same. -/
theorem outcome {x : Setting} (h : DifferAt f o o') (hn : x.options.naming.IsPlain)
    (hg : g.same f = false) : x.outcome o t g = x.outcome o' t g := by
  unfold Setting.outcome
  rw [(Setting.optimize_handles hn g).attempt.run_eq fun t c hc => h.answer hg t hc]

end Outages.DifferAt

namespace Report

/-- That two runs tell the same of a file: it has failed in both of them with the same fault, or it has
the same record in both manifests. -/
structure TellsAlike (root g : Path) (rep rep' : Report) (x x' : Manifest) : Prop where
  failures : ∀ e, ⟨g, e⟩ ∈ rep.failures ↔ ⟨g, e⟩ ∈ rep'.failures
  imports : (∀ e, ⟨g, e⟩ ∉ rep.failures) → ∃ css,
    x.imports.get? (root.relativeTo g) = some css ∧ x'.imports.get? (root.relativeTo g) = some css

variable {rep rep' : Report} {w : Run (List FileResult × List Failure)}

/-- The failures that a run reports of files that are no proxies are those that come of each alone. -/
theorem Completes.mem_failures (hn : r.options.naming = {}) (h : Completes m r o t rep s w)
    (hg : g ∈ s.files) (hk : FileKind.classify {} g ≠ .cssProxy) {e : Fault} :
    ⟨g, e⟩ ∈ rep.failures ↔
      Setting.outcome ⟨m, r.options, s.embedCss, s.graph⟩ o t g = .error ⟨g, e⟩ := by
  obtain ⟨hfiles, hapart⟩ := Survey.ofRequest_ok h.survey
  rw [h.failures, ← h.work, mem_failures_workOn hn hfiles hapart (x := ⟨g, e⟩) hk]
  exact and_iff_right hg

/-- What a manifest records of a file that is no proxy is what comes of it alone. -/
theorem Completes.get?_of_outcome (hn : r.options.naming = {}) (h : Completes m r o t rep s w)
    (hg : g ∈ s.files) (hk : FileKind.classify {} g ≠ .cssProxy) {x : FileResult}
    (hx : Setting.outcome ⟨m, r.options, s.embedCss, s.graph⟩ o t g = .ok x) :
    (Manifest.build r.root w.result.1 rep.combined.toList).imports.get? (r.root.relativeTo g) =
      some (x.css.map (ManifestCss.of r.root)) := by
  obtain ⟨hfiles, hapart⟩ := Survey.ofRequest_ok h.survey
  obtain ⟨rfl, -⟩ := Setting.optimize_ok (Setting.outcome_ok hx)
  refine h.get?_imports.2 ⟨x, ?_, rfl, rfl⟩
  rw [← h.work]
  exact (mem_results_workOn hn hfiles hapart hk).2 ⟨hg, hx⟩

/-- Two runs whose outages differ in the reads and writes of one file tell the same of all other files
that they find and that are no proxies. -/
theorem tellsAlike_of_differAt (hn : r.options.naming = {}) (hd : Outages.DifferAt f o o')
    (h : ((ofRequest m r).attempt.run o t).result = .ok rep)
    (h' : ((ofRequest m r).attempt.run o' t).result = .ok rep') :
    ∃ files x x', ((Job.scan r.root r.excluded).attempt.run o t).result = .ok files ∧
      ((ofRequest m r).attempt.run o t).tree.read r.manifestPath = .ok x.toText ∧
      ((ofRequest m r).attempt.run o' t).tree.read r.manifestPath = .ok x'.toText ∧
      ∀ g ∈ files, g.same f = false → FileKind.classify {} g ≠ .cssProxy →
        TellsAlike r.root g rep rep' x x' := by
  obtain ⟨s, w, hc⟩ := exists_completes h
  obtain ⟨s', w', hc'⟩ := exists_completes h'
  -- no outage meets a survey, so that both runs go on from one
  obtain rfl : s = s' := by
    have hs := hc.survey
    rw [Survey.run_ofRequest_eq r o o' t, hc'.survey] at hs
    exact (Except.ok.inj hs).symm
  refine ⟨s.files, _, _, Survey.scan_of_ofRequest hc.survey, hc.read, hc'.read, ?_⟩
  intro g hg hgf hk
  have hout := hd.outcome (t := t) (x := ⟨m, r.options, s.embedCss, s.graph⟩)
    (hn ▸ Naming.isPlain_default) hgf
  constructor
  · intro e
    rw [hc.mem_failures hn hg hk, hc'.mem_failures hn hg hk, hout]
  · intro hok
    cases hx : Setting.outcome ⟨m, r.options, s.embedCss, s.graph⟩ o t g with
    | error y =>
      obtain rfl := Setting.outcome_error hx
      exact absurd ((hc.mem_failures hn hg hk).2 hx) (hok y.fault)
    | ok x => exact ⟨_, hc.get?_of_outcome hn hg hk hx, hc'.get?_of_outcome hn hg hk (hout ▸ hx)⟩

/-! The build with the stylesheet that is no text again, once without outages and once with one that
meets its script. -/

namespace Unread

/-- The script cannot be read. -/
def scriptOutage : Outages where
  read p := if p.same script then some .notFound else none

theorem differAt_script : Outages.DifferAt script {} scriptOutage where
  read p hp := by simp [scriptOutage, hp]
  write p hp := rfl

def outageReport : Report :=
  ⟨2, [⟨script, .io .notFound⟩], true, none, 0, ⟨"build/_snowpack/optimize-manifest.json"⟩, 0⟩

theorem ofRequest_outage :
    ((ofRequest minifier request).attempt.run scriptOutage tree).result = .ok outageReport := by
  have hs := survey_ok
  rw [Survey.run_ofRequest_eq request {} scriptOutage tree] at hs
  rw [(result_ofRequest hs rfl).1]
  decide +kernel

end Unread

/-- A run in which the script fails tells the same of the other files as one in which it does not. -/
theorem tellsAlike_unread :
    Unread.request.options.naming = {} ∧
    Outages.DifferAt Unread.script {} Unread.scriptOutage ∧
    ((ofRequest Unread.minifier Unread.request).attempt.run {} Unread.tree).result =
      .ok Unread.report ∧
    ((ofRequest Unread.minifier Unread.request).attempt.run Unread.scriptOutage Unread.tree).result =
      .ok Unread.outageReport ∧
    ∃ files x x',
      ((Job.scan Unread.request.root Unread.request.excluded).attempt.run {} Unread.tree).result =
        .ok files ∧
      ((ofRequest Unread.minifier Unread.request).attempt.run {} Unread.tree).tree.read
        Unread.request.manifestPath = .ok x.toText ∧
      ((ofRequest Unread.minifier Unread.request).attempt.run Unread.scriptOutage Unread.tree).tree.read
        Unread.request.manifestPath = .ok x'.toText ∧
      ∀ g ∈ files, g.same Unread.script = false → FileKind.classify {} g ≠ .cssProxy →
        TellsAlike Unread.request.root g Unread.report Unread.outageReport x x' :=
  ⟨rfl, Unread.differAt_script, Unread.ofRequest_ok, Unread.ofRequest_outage,
    tellsAlike_of_differAt rfl Unread.differAt_script Unread.ofRequest_ok Unread.ofRequest_outage⟩

end Report

end SiteBuild
