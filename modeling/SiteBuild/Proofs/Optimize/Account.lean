import Mathlib.Data.List.Basic
import Mathlib.Data.List.Nodup
import SiteBuild.Proofs.Optimize.Proxies
import SiteBuild.Proofs.Table

/-! The account that a run gives of the files that it found: each of them has failed, or it has a key of
its own in the manifest. -/

namespace SiteBuild

variable {o : Outages} {t t' : FileTree} {p q root : Path} {m : Minifier} {r : Request} {s : Survey}

/-- What a manifest records of a file is what the result of the file tells. -/
theorem Manifest.get?_build {rs : List FileResult} {generated : List Path} {key : String}
    {css : List ManifestCss} (h : (rs.map fun f => root.relativeTo f.file).Nodup) :
    (build root rs generated).imports.get? key = some css ↔
      ∃ f ∈ rs, root.relativeTo f.file = key ∧ f.css.map (ManifestCss.of root) = css := by
  rw [build, Table.get?_ofList (by simpa [Function.comp_def] using h)]
  simp

namespace Path

theorem relativeTo_of_same (h : p.same q = true) : root.relativeTo p = root.relativeTo q := by
  have hc : p.components = q.components := by simpa [same] using h
  simp [relativeTo, stripPrefix?, hc]

/-- What stays of some different paths without some of them. -/
theorem perm_append_filter {ps qs : List Path} (hs : qs.Sublist ps)
    (hp : ps.Pairwise fun p q => p.same q = false) :
    (qs ++ ps.filter fun p => !qs.any (·.same p)).Perm ps := by
  induction hs with
  | slnil => exact .refl _
  | @cons qs ps p hs ih =>
    obtain ⟨hfresh, hps⟩ := List.pairwise_cons.1 hp
    have hkeep : (qs.any (·.same p)) = false := by
      rw [List.any_eq_false]
      intro q hq hsame
      have hno := hfresh q (hs.subset hq)
      simp only [same, decide_eq_true_eq, decide_eq_false_iff_not] at hno hsame
      exact hno hsame.symm
    rw [List.filter_cons_of_pos (by simp [hkeep])]
    exact List.perm_middle.trans ((ih hps).cons p)
  | @cons_cons qs ps p hs ih =>
    obtain ⟨hfresh, hps⟩ := List.pairwise_cons.1 hp
    have hrest : (ps.filter fun x => !(p :: qs).any (·.same x)) =
        ps.filter fun x => !qs.any (·.same x) :=
      List.filter_congr fun x hx => by simp [hfresh x hx]
    rw [List.filter_cons_of_neg (by simp), hrest]
    exact (ih hps).cons p

end Path

namespace FileTree

theorem endsInSlash_of_store {b : ByteArray} (h : (t.store p b).2 = .ok ()) :
    p.endsInSlash = false := by
  unfold store at h
  split at h
  · cases h
  · cases h
  · split at h
    · cases h
    · next hs => simpa using fun hp => hs (.inl hp)

/-- What was written is read. -/
theorem read_of_write {text : String} (h : (t.write p text.toUTF8).2 = .ok ()) :
    (t.write p text.toUTF8).1.read p = .ok text := by
  have hslash : p.endsInSlash = false := by
    unfold write at h
    split at h
    · exact endsInSlash_of_store h
    · split at h
      · exact endsInSlash_of_store h
      · cases h
  obtain ⟨t', ht', ⟨-, e, he⟩ | ⟨hstores, -⟩⟩ := write_cases t p text.toUTF8
  · rw [he] at h
    cases h
  · obtain ⟨k, n, htarget, -, hnode⟩ := id hstores
    refine read_of_find (k := k ++ [n]) (find_eq_file.2 ⟨hslash, ?_, k, n, rfl, ?_⟩)
    · rw [hnode, if_pos rfl]
    · exact hstores.keepsDirectories.target htarget

end FileTree

/-- The files of a scan have different names below the root. -/
theorem Job.scan_relativeTo_nodup {exclude : List String} {fs : List Path}
    (h : ((Job.scan root exclude).attempt.run o t).result = .ok fs) :
    (fs.map root.relativeTo).Nodup := by
  obtain ⟨patterns, ps, -, hl, rfl⟩ := scan_eq h
  obtain ⟨k, x, -, rfl, hfind⟩ := FileTree.list_eq hl
  have hname : ∀ s ∈ t.filesWithin k, ∀ n ∈ s, IsFileName n := by
    intro s hs n hn
    obtain ⟨b, hb⟩ := hfind s hs
    have hnode : t.node? (k ++ s) ≠ none := by simp [(FileTree.find_eq_file.1 hb).2.1]
    exact FileTree.isFileName_of_mem hnode hn
  refine List.Nodup.sublist (List.filter_sublist.map _) ?_
  rw [List.map_map]
  refine List.Nodup.map_on (fun s hs s' hs' he => ?_) (FileTree.filesWithin_nodup t k)
  simp only [Function.comp_apply] at he
  rw [Path.relativeTo_below (hname s hs), Path.relativeTo_below (hname s' hs')] at he
  exact Path.names_inj (hname s hs) (hname s' hs') he

theorem Path.pairwise_of_relativeTo {fs : List Path} (h : (fs.map root.relativeTo).Nodup) :
    fs.Pairwise fun p q => p.same q = false := by
  refine (List.pairwise_map.1 h).imp fun hne => ?_
  exact Bool.eq_false_iff.2 fun hs => hne (relativeTo_of_same hs)

theorem Plan.forall₂_mapM_result {α β : Type} {f : α → Plan β} {l : List α} {Q : β → α → Prop}
    (h : ∀ a t, Q ((f a).run o t).result a) : List.Forall₂ Q ((l.mapM f).run o t).result l := by
  induction l generalizing t with
  | nil => exact .nil
  | cons a l ih =>
    rw [Plan.run_mapM_cons]
    exact .cons (h a t) ih

/-- What became of a file tells which file it is. -/
def IsOutcomeOf : Except Failure FileResult → Path → Prop
  | .ok x, p => x.file = p
  | .error f, p => f.file = p

namespace Setting

variable {s : Setting}

theorem optimizeAll_outcomes (fs : List Path) :
    List.Forall₂ IsOutcomeOf ((s.optimizeAll fs).run o t).result fs := by
  unfold optimizeAll
  rw [Plan.run_during]
  refine Plan.forall₂_mapM_result fun g t => ?_
  rw [Plan.run_bind]
  simp only [Plan.run_pure]
  cases hg : ((s.optimize g).attempt.run o t).result with
  | error e => exact rfl
  | ok x => exact (optimize_ok hg).1

/-- A proxy fails once at most. -/
theorem minifyProxies_sublist (ps : List Path) :
    (((s.minifyProxies ps).run o t).result.map Failure.file).Sublist ps := by
  induction ps generalizing t with
  | nil => exact .slnil
  | cons p ps ih =>
    unfold minifyProxies
    rw [Plan.run_bind]
    dsimp only
    cases ((s.minifyProxy p).attempt.run o t).result with
    | ok u => exact ih.cons p
    | error e =>
      dsimp only
      rw [Plan.run_bind]
      dsimp only
      rw [Plan.run_bind]
      exact ih.cons_cons p

end Setting

namespace Report

theorem outcomes_perm {outcomes : List (Except Failure FileResult)} {fs : List Path}
    (h : List.Forall₂ IsOutcomeOf outcomes fs) :
    ((failuresOf outcomes).map Failure.file ++ (resultsOf outcomes).map FileResult.file).Perm fs := by
  induction h with
  | nil => exact .refl _
  | @cons x p outcomes fs hx _ ih =>
    cases x with
    | error f =>
      obtain rfl : f.file = p := hx
      exact ih.cons f.file
    | ok y =>
      obtain rfl : y.file = p := hx
      exact List.perm_middle.trans (ih.cons y.file)

theorem dropFailed_perm {late : List Failure} {rs : List FileResult}
    (hs : (late.map Failure.file).Sublist (rs.map FileResult.file))
    (hp : (rs.map FileResult.file).Pairwise fun p q => p.same q = false) :
    (late.map Failure.file ++ (dropFailed late rs).map FileResult.file).Perm
      (rs.map FileResult.file) := by
  have hdrop : (dropFailed late rs).map FileResult.file =
      (rs.map FileResult.file).filter fun p => !(late.map Failure.file).any (·.same p) := by
    simp [dropFailed, List.filter_map, List.any_map, Function.comp_def]
  rw [hdrop]
  exact Path.perm_append_filter hs hp

theorem minifyLeft_sublist {setting : Setting} {rs : List FileResult} :
    (((minifyLeft r setting rs).run o t).result.map Failure.file).Sublist
      (setting.unusedProxies rs) := by
  unfold minifyLeft
  split
  · exact Setting.minifyProxies_sublist _
  · exact List.nil_sublist _

/-- What the work on files comes to: the results of the files, without the proxies that failed late. -/
theorem workOn_result (m : Minifier) (r : Request) (s : Survey) (o : Outages) (t : FileTree) :
    let setting : Setting := ⟨m, r.options, s.embedCss, s.graph⟩
    let outcomes := ((setting.optimizeAll s.files).run o t).result
    ∃ late, (late.map Failure.file).Sublist (setting.unusedProxies (resultsOf outcomes)) ∧
      ((workOn m r s).run o t).result =
        (dropFailed late (resultsOf outcomes), failuresOf outcomes ++ late) := by
  intro setting outcomes
  exact ⟨_, minifyLeft_sublist, (run_workOn_eq m r s o t).1⟩

/-- Every file that was worked on has failed or has a result, and none has both. -/
theorem workOn_perm (hp : s.files.Pairwise fun p q => p.same q = false) :
    let w := ((workOn m r s).run o t).result
    (w.2.map Failure.file ++ w.1.map FileResult.file).Perm s.files := by
  intro w
  obtain ⟨late, hlate, hw⟩ := workOn_result m r s o t
  have hall := outcomes_perm (Setting.optimizeAll_outcomes (o := o) (t := t)
    (s := ⟨m, r.options, s.embedCss, s.graph⟩) s.files)
  have hres := (List.pairwise_append.1 ((hall.pairwise_iff fun {p q} h => ?_).2 hp)).2.1
  · rw [show w = _ from hw, List.map_append, List.append_assoc]
    exact ((dropFailed_perm (hlate.trans List.filter_sublist) hres).append_left _).trans hall
  · simp only [Path.same, decide_eq_false_iff_not] at h ⊢
    exact Ne.symm h

theorem read_writeManifest {x : Manifest} {u : Unit}
    (h : ((writeManifest p x).attempt.run o t).result = .ok u) :
    ((writeManifest p x).attempt.run o t).tree.read p = .ok x.toText := by
  unfold writeManifest at h ⊢
  obtain ⟨u, hw, -, ht⟩ := Job.run_bind_ok h
  rw [Job.run_write] at hw
  have hw : (t.answer o (.write p x.toText)).1 = .ok u := eq_ok_of_mapError hw
  rw [ht, Job.run_tell, Job.run_write]
  simp only [FileTree.answer] at hw ⊢
  cases ho : o.write p with
  | some e =>
    rw [ho] at hw
    cases hw
  | none =>
    rw [ho] at hw
    exact FileTree.read_of_write hw

/-- A run that succeeds has been surveyed. -/
theorem exists_survey {rep : Report} (h : ((ofRequest m r).attempt.run o t).result = .ok rep) :
    ∃ s, ((Survey.ofRequest r).attempt.run o t).result = .ok s := by
  cases hs : ((Survey.ofRequest r).attempt.run o t).result with
  | ok s => exact ⟨s, rfl⟩
  | error e =>
    rw [(run_ofRequest_of_error hs).1] at h
    cases h

/-- The results of the files of a survey have different keys. -/
theorem workOn_relativeTo_nodup (hs : ((Survey.ofRequest r).attempt.run o t).result = .ok s) :
    (((workOn m r s).run o t).result.1.map fun f => r.root.relativeTo f.file).Nodup := by
  have hnames := Job.scan_relativeTo_nodup (Survey.scan_of_ofRequest hs)
  have hperm := workOn_perm (m := m) (r := r) (o := o) (t := t) (Path.pairwise_of_relativeTo hnames)
  have hall := (hperm.map r.root.relativeTo).nodup_iff.2 hnames
  rw [List.map_append, List.map_map, List.map_map] at hall
  exact hall.of_append_right

/-- That a run has gone from a survey through the work on its files to a report and a manifest. -/
structure Completes (m : Minifier) (r : Request) (o : Outages) (t : FileTree) (rep : Report)
    (s : Survey) (w : Run (List FileResult × List Failure)) : Prop where
  survey : ((Survey.ofRequest r).attempt.run o t).result = .ok s
  work : (workOn m r s).run o t = w
  finished : ((finish r s w.result.1).attempt.run o w.tree).result = .ok (rep.combined, rep.removed)
  processed : rep.processed = w.result.1.length
  failures : rep.failures = w.result.2
  embedCss : rep.embedCss = s.embedCss
  tree : ((ofRequest m r).attempt.run o t).tree =
    ((writeManifest r.manifestPath (Manifest.build r.root w.result.1 rep.combined.toList)).attempt.run o
      ((finish r s w.result.1).attempt.run o w.tree).tree).tree
  read : ((ofRequest m r).attempt.run o t).tree.read r.manifestPath =
    .ok (Manifest.build r.root w.result.1 rep.combined.toList).toText

/-- What a run that succeeds has gone through. -/
theorem exists_completes {rep : Report} (h : ((ofRequest m r).attempt.run o t).result = .ok rep) :
    ∃ s w, Completes m r o t rep s w := by
  obtain ⟨s, hs⟩ := exists_survey h
  obtain ⟨hresult, htree⟩ := result_ofRequest (m := m) hs rfl
  rw [hresult] at h
  obtain ⟨hfinish, hprocessed, hfailures, hembed, hwrite, hend⟩ := conclude_ok h
  have hend := htree.trans hend
  refine ⟨s, _, hs, rfl, hfinish, hprocessed, hfailures, hembed, hend, ?_⟩
  rw [hend]
  exact read_writeManifest hwrite

/-- The manifest records each file that has not failed, with what was embedded into it. -/
theorem Completes.get?_imports {rep : Report} {w : Run (List FileResult × List Failure)}
    (h : Completes m r o t rep s w) {generated : List Path} {key : String} {css : List ManifestCss} :
    (Manifest.build r.root w.result.1 generated).imports.get? key = some css ↔
      ∃ f ∈ w.result.1, r.root.relativeTo f.file = key ∧ f.css.map (ManifestCss.of r.root) = css :=
  Manifest.get?_build (h.work ▸ workOn_relativeTo_nodup h.survey)

/-- That some files are those that a report tells to have failed and some others, which it counts and
of which each has a key of its own in a manifest. -/
structure Accounts (root : Path) (files rest : List Path) (rep : Report) (x : Manifest) : Prop where
  apart : files.Pairwise fun p q => p.same q = false
  perm : (rep.failures.map Failure.file ++ rest).Perm files
  processed : rep.processed = rest.length
  keys : x.imports.keys.Perm (rest.map root.relativeTo)
  distinct : (rest.map root.relativeTo).Nodup
  ascending : x.imports.keys.Pairwise (· < ·)

/-- Every file that a run finds is accounted for once, by the report and by the manifest that is there
in the end. -/
theorem accounts_for_files {rep : Report}
    (h : ((ofRequest m r).attempt.run o t).result = .ok rep) :
    ∃ files rest x, ((Job.scan r.root r.excluded).attempt.run o t).result = .ok files ∧
      ((ofRequest m r).attempt.run o t).tree.read r.manifestPath = .ok x.toText ∧
      Accounts r.root files rest rep x := by
  obtain ⟨s, w, hc⟩ := exists_completes h
  have hscan := Survey.scan_of_ofRequest hc.survey
  have hapart := Path.pairwise_of_relativeTo (Job.scan_relativeTo_nodup hscan)
  have hperm := workOn_perm (m := m) (r := r) (o := o) (t := t) hapart
  have hrest := workOn_relativeTo_nodup (m := m) hc.survey
  rw [hc.work] at hperm hrest
  have hkeys : (Manifest.build r.root w.result.1 rep.combined.toList).imports.keys.Perm
      (w.result.1.map fun f => r.root.relativeTo f.file) := by
    refine (Table.keys_ofList_perm ?_).trans ?_
    · simpa [Function.comp_def] using hrest
    · simp [Function.comp_def]
  exact ⟨s.files, w.result.1.map FileResult.file, _, hscan, hc.read,
    { apart := hapart
      perm := hc.failures ▸ hperm
      processed := by rw [hc.processed, List.length_map]
      keys := by simpa [Function.comp_def] using hkeys
      distinct := by simpa [Function.comp_def] using hrest
      ascending := Table.keys_ascending _ }⟩

/-! A build with a stylesheet and a proxy that cannot be made smaller. -/

namespace Failing

def tree : FileTree :=
  (((FileTree.empty.put [] "build" .directory).put ["build"] "a.css" (.file "a \x7b".toUTF8)).put
    ["build"] "a.css.proxy.js" (.file "export default".toUTF8)).put
    ["build"] "a.txt" (.file "a".toUTF8)

def request : Request where
  root := ⟨"build"⟩
  options := {}

/-- Makes nothing smaller. -/
def minifier : Minifier where
  script _ _ := .error (.unreadable none)
  style _ _ := .error (.unreadable none)
  page := .ok

def report : Report :=
  ⟨1, [⟨⟨"build/a.css"⟩, .unreadable none⟩, ⟨⟨"build/a.css.proxy.js"⟩, .unreadable none⟩], false,
    none, 0, ⟨"build/_snowpack/optimize-manifest.json"⟩, 0⟩

theorem ofRequest_ok : ((ofRequest minifier request).attempt.run {} tree).result = .ok report := by
  decide +kernel

end Failing

/-- Two of three files fail, one at its turn and one after it. -/
theorem accounts_for_failing_files :
    ((ofRequest Failing.minifier Failing.request).attempt.run {} Failing.tree).result =
        .ok Failing.report ∧
      ∃ files rest x,
        ((Job.scan Failing.request.root Failing.request.excluded).attempt.run {} Failing.tree).result =
            .ok files ∧
        ((ofRequest Failing.minifier Failing.request).attempt.run {} Failing.tree).tree.read
            Failing.request.manifestPath = .ok x.toText ∧
        Accounts Failing.request.root files rest Failing.report x :=
  ⟨Failing.ofRequest_ok, accounts_for_files Failing.ofRequest_ok⟩

end Report

end SiteBuild
