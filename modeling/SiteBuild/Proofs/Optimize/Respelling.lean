import SiteBuild.Proofs.ModuleGraph.Locality
import SiteBuild.Proofs.Optimize.Account
import SiteBuild.Proofs.Optimize.DottedSurvey

/-! A whole run on a build directory in two spellings. It does the same for both as long as the scripts
have no stylesheet from the directory itself; where they have one, the manifest tells the spelling. -/

namespace SiteBuild

open FileTree

variable {t : FileTree} {root p q : Path} {m : Minifier} {r : Request} {s : Survey} {n : Naming}
  {fs : List Path} {rs : List FileResult} {graph : Option ModuleGraph}

/-- Where no module loads another one a page is linked as if there were no graph. -/
theorem Setting.linkPage_of_loadsNothing {setting : Setting} (h : Survey.LoadsNothing graph)
    (p q : Path) (text : String) :
    (setting.withGraph graph).linkPage p text = (setting.withGraph none).linkPage q text := by
  have hnone : (setting.withGraph none).preloadGraph = none := by
    unfold preloadGraph
    split <;> rfl
  unfold linkPage
  rw [hnone]
  cases hg : (setting.withGraph graph).preloadGraph with
  | none => rfl
  | some g =>
    have hgraph : graph = some g := by
      unfold preloadGraph at hg
      split at hg
      · exact hg
      · cases hg
    simp only [Page.preloadModules, ModuleGraph.preloadList_eq_nil (h g hgraph)]
    rfl

namespace Report

/-- The results of files that are no scripts tell of no stylesheet. -/
theorem css_of_mem_resultsOf {setting : Setting} {x : FileResult}
    (h : x ∈ resultsOf ((setting.optimizeAll fs).run {} t).result)
    (hk : FileKind.classify setting.options.naming x.file ≠ .script) : x.css = [] := by
  refine Setting.mem_optimizeAll (Q := fun x =>
    FileKind.classify setting.options.naming x.file ≠ .script → x.css = []) ?_ _ (mem_resultsOf.1 h) _
      rfl hk
  rintro g - t x hx hk
  obtain ⟨rfl, hcss⟩ := Setting.optimize_ok hx
  rwa [if_neg hk] at hcss

theorem dropFailed_dotted {late late' : List Failure}
    (hl : late'.map Failure.file = (late.map Failure.file).map Path.dotted)
    (hb : ∀ f ∈ late, f.file.IsBare) (hr : ∀ x ∈ rs, x.file.IsBare) :
    dropFailed late' (rs.map FileResult.dotted) = (dropFailed late rs).map FileResult.dotted := by
  unfold dropFailed
  rw [List.filter_map]
  refine congrArg (List.map FileResult.dotted) (List.filter_congr fun x hx => ?_)
  have hany (fs : List Failure) (p : Path) :
      (fs.any fun f => f.file.same p) = (fs.map Failure.file).any (·.same p) := by
    rw [List.any_map]
    rfl
  have hsame : (((late.map Failure.file).map Path.dotted).any (·.same x.file.dotted)) =
      (late.map Failure.file).any (·.same x.file) := by
    rw [Bool.eq_iff_iff, List.map_map, List.any_map, List.any_map, List.any_eq_true, List.any_eq_true]
    refine exists_congr fun f => and_congr_right fun hf => ?_
    simp only [Function.comp_apply, Path.same_dotted (hb f hf) (hr x hx)]
  simp only [Function.comp_apply, hany, hl, FileResult.dotted, hsame]

/-- What scripts have embedded is not lost with the proxies that fail. -/
theorem mem_workOn_of_mem_resultsOf {e : CssEntry}
    (he : e ∈ (resultsOf ((Setting.optimizeAll ⟨m, r.options, s.embedCss, s.graph⟩ s.files).run
      {} t).result).flatMap FileResult.css) :
    e ∈ ((workOn m r s).run {} t).result.1.flatMap FileResult.css := by
  obtain ⟨late, hlate, hw⟩ := workOn_result m r s {} t
  obtain ⟨x, hx, he⟩ := List.mem_flatMap.1 he
  rw [hw]
  refine List.mem_flatMap.2 ⟨x, List.mem_filter.2 ⟨hx, ?_⟩, he⟩
  rw [Bool.not_eq_true', List.any_eq_false]
  intro f hf hsame
  have hf := (List.mem_filter.1 (hlate.subset (List.mem_map_of_mem hf))).2
  rw [Bool.and_eq_true, decide_eq_true_eq] at hf
  have hname : x.file.fileName? = f.file.fileName? := by
    rw [Path.fileName?, ← Path.same_eq_true.1 hsame, Path.fileName?]
  have hkind : FileKind.classify r.options.naming x.file = .cssProxy := by
    rw [← hf.1]
    simp [FileKind.classify, FileKind.ofPath, Path.extension?, hname]
  rw [css_of_mem_resultsOf hx (by simp [hkind])] at he
  cases he

theorem respelled_results {xs ys : List (Except Failure FileResult)}
    (h : List.Forall₂ Setting.Respelled xs ys) :
    resultsOf xs = (resultsOf ys).map FileResult.dotted ∧
      (failuresOf xs).length = (failuresOf ys).length := by
  induction h with
  | nil => exact ⟨rfl, rfl⟩
  | @cons x y xs ys hxy _ ih =>
    cases x with
    | ok x =>
      cases y with
      | ok y => exact ⟨congrArg₂ List.cons hxy ih.1, ih.2⟩
      | error f => cases hxy
    | error e =>
      cases y with
      | ok y => cases hxy
      | error f => exact ⟨ih.1, congrArg Nat.succ ih.2⟩

theorem minifyLeft_dotted {setting : Setting} (hm : setting.minifier.IgnoresSpelling)
    (hb : ∀ y ∈ rs, y.file.IsBare)
    (hn : ∀ e ∈ rs.flatMap FileResult.css, ∃ q : Path, e.proxy = q.normalize)
    (hcss : ∀ e ∈ rs.flatMap FileResult.css, ∀ y ∈ rs, y.file.same e.proxy = false) :
    Plan.InStep {} t (fun a b => a.map Failure.file = (b.map Failure.file).map Path.dotted)
      (minifyLeft r.dotted (setting.withGraph graph) (rs.map FileResult.dotted))
      (minifyLeft r setting rs) := by
  have hproxies : ∀ p ∈ setting.unusedProxies rs, p.IsBare := by
    intro p hp
    obtain ⟨y, hy, rfl⟩ := List.mem_map.1 (List.mem_filter.1 hp).1
    exact hb y hy
  unfold minifyLeft
  rw [Setting.unusedProxies_dotted hb hn hcss, show r.dotted.options = r.options from rfl]
  split
  · exact Setting.minifyProxies_dotted hm hproxies
  · exact .done rfl

/-- The work on files goes in step if no proxy that scripts have embedded is among them. -/
theorem workOn_dotted (hm : m.IgnoresSpelling) (hgraph : graph.isSome = s.graph.isSome)
    (hb : ∀ g ∈ s.files, g.IsBare) (hf : ∀ g ∈ s.files, t.IsFile g) (ha : s.files.Pairwise t.Apart)
    (hpage : ∀ g ∈ s.files, FileKind.classify r.options.naming g = .page → ∀ text, t.read g = .ok text →
      (Setting.withGraph ⟨m, r.options, s.embedCss, s.graph⟩ graph).linkPage g.dotted text =
        Setting.linkPage ⟨m, r.options, s.embedCss, s.graph⟩ g text)
    (hcss : ∀ e ∈ ((workOn m r s).run {} t).result.1.flatMap FileResult.css,
      ∀ g ∈ s.files, g.same e.proxy = false) :
    Plan.InStep {} t (fun a b => a.1 = b.1.map FileResult.dotted ∧ a.2.length = b.2.length)
      (workOn m r.dotted (s.dotted graph)) (workOn m r s) := by
  have htell {α β : Type} (f : α → Event) (g : β → Event) (l : List α) (l' : List β) (t : FileTree) :
      Plan.InStep {} t (fun _ _ => True) (l.forM fun a => Plan.tell (f a))
        (l'.forM fun a => Plan.tell (g a)) :=
    .looks (.forM fun _ _ => .ask trivial) (.forM fun _ _ => .ask trivial)
  have hstart : (((m.onStart r.options.workers).forM Plan.tell).run {} t).tree = t :=
    Plan.Calls.looks (.forM fun _ _ => .ask trivial)
  have hall : Plan.InStep {} t (List.Forall₂ Setting.Respelled)
      ((Setting.withGraph ⟨m, r.options, s.embedCss, s.graph⟩ graph).optimizeAll
        (s.files.map Path.dotted))
      (Setting.optimizeAll ⟨m, r.options, s.embedCss, s.graph⟩ s.files) :=
    Setting.optimizeAll_dotted hm hgraph hb hf ha hpage
  rw [workOn_eq, workOn_eq]
  refine (htell id id _ _ t).bind_result fun _ _ _ _ => ?_
  change Plan.InStep {} (((m.onStart r.options.workers).forM Plan.tell).run {} t).tree _ _ _
  rw [hstart]
  refine hall.bind_result fun xs ys hxy hys => ?_
  obtain ⟨hres, hfail⟩ := respelled_results hxy
  have hfiles : ∀ y ∈ resultsOf ys, y.file ∈ s.files := by
    intro y hy
    exact Setting.optimizeAll_files _ (hys ▸ mem_resultsOf.1 hy) _ rfl
  have hentries : ∀ e ∈ (resultsOf ys).flatMap FileResult.css,
      e ∈ ((workOn m r s).run {} t).result.1.flatMap FileResult.css := by
    rw [← hys]
    exact fun e => mem_workOn_of_mem_resultsOf
  refine (htell _ _ _ _ _).bind fun _ _ t' _ => ?_
  have hbare : ∀ y ∈ resultsOf ys, y.file.IsBare := fun y hy => hb _ (hfiles y hy)
  rw [hres]
  have hnormal : ∀ e ∈ (resultsOf ys).flatMap FileResult.css, ∃ q : Path, e.proxy = q.normalize := by
    intro e he
    obtain ⟨g, w, -, rfl⟩ := entry_of_workOn (hentries e he)
    exact ⟨_, Embed.proxy_entryOf _ g w⟩
  have hleft : Plan.InStep {} t'
      (fun a b => a.map Failure.file = (b.map Failure.file).map Path.dotted)
      (minifyLeft r.dotted (Setting.withGraph ⟨m, r.options, s.embedCss, s.graph⟩ graph)
        ((resultsOf ys).map FileResult.dotted))
      (minifyLeft r ⟨m, r.options, s.embedCss, s.graph⟩ (resultsOf ys)) :=
    minifyLeft_dotted hm hbare hnormal fun e he y hy => hcss e (hentries e he) _ (hfiles y hy)
  refine hleft.bind_result fun late' late hl hlate => ?_
  refine (htell id id _ _ _).bind fun _ _ _ _ => .done ⟨?_, ?_⟩
  · refine dropFailed_dotted hl (fun f hf => ?_) hbare
    have hproxy := minifyLeft_sublist.subset (hlate ▸ List.mem_map_of_mem hf)
    obtain ⟨y, hy, hf⟩ := List.mem_map.1 (List.mem_filter.1 hproxy).1
    exact hf ▸ hbare y hy
  · have hlen := congrArg List.length hl
    simp only [List.length_map] at hlen
    simp [hfail, hlen]

end Report

namespace FileResult

theorem flatMap_css_dotted (rs : List FileResult) : (rs.map dotted).flatMap css = rs.flatMap css := by
  simp [dotted, List.flatMap_map]

theorem combine_dotted (p q : Path) (rs : List FileResult) :
    Plan.InStep {} t Eq (combine p (rs.map dotted)) (combine q rs) := by
  refine ⟨?_, ?_⟩
  · rw [(combine_calls _ _).looks, (combine_calls _ _).looks]
  · rw [combine_result, combine_result, uniqueCss, flatMap_css_dotted, uniqueCss]

end FileResult

namespace Request

theorem combinedPath_dotted (hroot : r.root.IsBare) :
    r.dotted.combinedPath = r.combinedPath.dotted ∧ r.combinedPath.IsBare :=
  ⟨Path.join_dotted hroot.text_ne_empty (isAbsolute_dropLeadingSlashes _),
    hroot.join (isAbsolute_dropLeadingSlashes _)⟩

/-- The manifest stands where it stands, or in the spelling of the directory. -/
theorem manifestPath_dotted (hroot : r.root.IsBare) :
    r.dotted.manifestPath = r.manifestPath ∨
      r.dotted.manifestPath = r.manifestPath.dotted ∧ r.manifestPath.IsBare := by
  cases ha : r.metaDirectory.isAbsolute with
  | true =>
    left
    simp [manifestPath, dotted, Path.join, ha]
  | false =>
    right
    have hdir := hroot.join ha
    rw [manifestPath, manifestPath, dotted, Path.join_dotted hroot.text_ne_empty ha]
    exact ⟨Path.join_dotted hdir.text_ne_empty rfl, hdir.join rfl⟩

theorem publish_dotted (hroot : r.root.IsBare) (text : Option String) :
    Job.InStep {} t (fun a b => a = b.map Path.dotted ∧ ∀ p ∈ b, p.IsBare)
      (r.dotted.publish text) (r.publish text) := by
  obtain ⟨hc, hb⟩ := combinedPath_dotted hroot
  cases text with
  | none => exact .pure ⟨rfl, by simp⟩
  | some text =>
    unfold publish
    rw [hc]
    refine (Job.InStep.write_dotted hb text).bind fun _ _ _ _ => ?_
    exact (Job.InStep.tell _ _).bind fun _ _ _ _ => .pure ⟨rfl, by simpa using hb⟩

/-- The stylesheets are put together and removed alike; what they are combined to has the spelling of
the directory. -/
theorem finishStyles_dotted (hroot : r.root.IsBare) (rs : List FileResult) :
    Job.InStep {} t (fun a b => (a.1 = b.1.map Path.dotted ∧ ∀ p ∈ b.1, p.IsBare) ∧ a.2 = b.2)
      (r.dotted.finishStyles (rs.map FileResult.dotted)) (r.finishStyles rs) := by
  rw [finishStyles_eq, finishStyles_eq]
  refine .during ((Job.InStep.lift (FileResult.combine_dotted _ _ rs)).bind fun text _ t h => ?_)
  subst h
  refine (publish_dotted hroot text).bind fun c c' t hc => ?_
  rw [show FileResult.removeCss (rs.map FileResult.dotted) = FileResult.removeCss rs by
    rw [FileResult.removeCss, FileResult.flatMap_css_dotted, FileResult.removeCss]]
  refine (Job.InStep.refl _).bind fun n _ t h => ?_
  subst h
  exact (Job.InStep.tell _ _).bind fun _ _ _ _ => .pure ⟨hc, rfl⟩

end Request

/-- A manifest does not tell the spelling of the directory, if no stylesheet is embedded that lies in it. -/
theorem Manifest.build_dotted {c : Option Path} (hroot : root.IsBare) (hb : ∀ x ∈ rs, x.file.IsBare)
    (hc : ∀ p ∈ c, p.IsBare)
    (hcss : ∀ e ∈ rs.flatMap FileResult.css, ∀ q, e.Has q →
      .here ∉ q.components ∧ ¬root.components <+: q.components) :
    build root.dotted (rs.map FileResult.dotted) (c.map Path.dotted).toList =
      build root rs c.toList := by
  have hgenerated : (c.map Path.dotted).toList.map root.dotted.relativeTo =
      c.toList.map root.relativeTo := by
    cases c with
    | none => rfl
    | some p => exact congrArg (fun s => [s]) (Path.relativeTo_dotted hroot (hc p rfl))
  have hentry (e : CssEntry) (he : e ∈ rs.flatMap FileResult.css) :
      ManifestCss.of root.dotted e = ManifestCss.of root e := by
    obtain ⟨ha, ha'⟩ := hcss e he e.actual (.inl rfl)
    obtain ⟨hp, hp'⟩ := hcss e he e.proxy (.inr rfl)
    rw [ManifestCss.of, Path.relativeTo_dotted_of_not_prefix hroot ha ha',
      Path.relativeTo_dotted_of_not_prefix hroot hp hp', ManifestCss.of]
  unfold build
  rw [hgenerated, List.map_map]
  refine congrArg (fun es => Manifest.mk (Table.ofList es) _) (List.map_congr_left fun x hx => ?_)
  have hentries : x.css.map (ManifestCss.of root.dotted) = x.css.map (ManifestCss.of root) :=
    List.map_congr_left fun e he => hentry e (List.mem_flatMap.2 ⟨x, hx, he⟩)
  simp only [Function.comp_apply, FileResult.dotted, Path.relativeTo_dotted hroot (hb x hx), hentries]

namespace Report

/-- Reports that count alike. -/
structure CountsAlike (a b : Report) : Prop where
  processed : a.processed = b.processed
  failures : a.failures.length = b.failures.length
  removed : a.removed = b.removed

theorem writeManifest_dotted (hroot : r.root.IsBare) (x : Manifest) :
    Job.InStep {} t (fun _ _ => True) (writeManifest r.dotted.manifestPath x)
      (writeManifest r.manifestPath x) := by
  have hwrite : Job.InStep {} t Eq (Job.write r.dotted.manifestPath x.toText)
      (Job.write r.manifestPath x.toText) := by
    rcases Request.manifestPath_dotted hroot with h | ⟨h, hb⟩
    · rw [h]
      exact .refl _
    · rw [h]
      exact .write_dotted hb _
  exact hwrite.bind fun _ _ _ _ => .tell _ _

theorem conclude_dotted {start start' : Nat} {fails fails' : List Failure} (hroot : r.root.IsBare)
    (hb : ∀ x ∈ rs, x.file.IsBare) (hlen : fails'.length = fails.length)
    (hcss : ∀ e ∈ rs.flatMap FileResult.css, ∀ q, e.Has q →
      .here ∉ q.components ∧ ¬r.root.components <+: q.components) :
    Job.InStep {} t CountsAlike
      (conclude r.dotted (s.dotted graph) start' (rs.map FileResult.dotted) fails')
      (conclude r s start rs fails) := by
  have hfinish : Job.InStep {} t (fun a b => (a.1 = b.1.map Path.dotted ∧ ∀ p ∈ b.1, p.IsBare) ∧ a.2 = b.2)
      (finish r.dotted (s.dotted graph) (rs.map FileResult.dotted)) (finish r s rs) := by
    unfold finish
    refine .ite (fun _ => Request.finishStyles_dotted hroot rs) fun _ => .pure ⟨⟨rfl, ?_⟩, rfl⟩
    rintro _ ⟨⟩
  unfold conclude
  refine hfinish.bind fun ⟨c, removed⟩ ⟨c', removed'⟩ t h => ?_
  obtain ⟨⟨hmap, hc⟩, hcount⟩ := h
  dsimp only at hmap hc hcount ⊢
  subst hmap hcount
  rw [show r.dotted.root = r.root.dotted from rfl, Manifest.build_dotted hroot hb hc hcss]
  refine (writeManifest_dotted hroot _).bind fun _ _ t _ => ?_
  refine (Job.InStep.refl _).bind fun _ _ t _ => ?_
  exact (Job.InStep.tell _ _).bind fun _ _ _ _ => .pure ⟨List.length_map _, hlen, rfl⟩

/-- What scripts have embedded is named by resolved paths. -/
theorem exists_normalize_of_has {e : CssEntry}
    (he : ∃ g w, n.isCssProxy w = true ∧ e = Embed.entryOf n g w) (hq : e.Has q) :
    ∃ z : Path, q = z.normalize := by
  obtain ⟨g, w, -, rfl⟩ := he
  rcases hq with hq | hq
  · exact ⟨_, hq.trans (Embed.actual_entryOf n g w)⟩
  · exact ⟨_, hq.trans (Embed.proxy_entryOf n g w)⟩

/-- A page is given no links to modules. -/
def LinksNoModule (m : Minifier) (r : Request) (s : Survey) (page : Path) (text : String) : Prop :=
  let setting : Setting := ⟨m, r.options, s.embedCss, s.graph⟩
  setting.linkPage page text = (setting.withGraph none).linkPage page text

/-- A run on a directory leaves the same files in either spelling and counts the same, if neither the
stylesheets that it embeds nor their proxies lie in the directory and pages are given no links. -/
theorem alike_in_either_spelling (hroot : r.root.IsNamed) (hm : m.IgnoresSpelling)
    (hpages : ∀ s, ((Survey.ofRequest r).attempt.run {} t).result = .ok s → ∀ g ∈ s.files,
      FileKind.classify r.options.naming g = .page → ∀ text, t.read g = .ok text →
        LinksNoModule m r s g text)
    (hout : ∀ rs t', Reaches m r {} t rs t' → ∀ e ∈ rs.flatMap FileResult.css, ∀ q, e.Has q →
      ¬r.root.Within q) :
    ((ofRequest m r.dotted).attempt.run {} t).tree = ((ofRequest m r).attempt.run {} t).tree ∧
      Except.Both CountsAlike ((ofRequest m r.dotted).attempt.run {} t).result
        ((ofRequest m r).attempt.run {} t).result := by
  have hbare := hroot.isBare
  suffices h : Job.InStep {} t CountsAlike (ofRequest m r.dotted) (ofRequest m r) from
    ⟨h.attempt.tree, h.attempt.result⟩
  rw [ofRequest_eq, ofRequest_eq]
  refine (Job.InStep.refl _).bind_looks (.lift (.ask trivial)) fun start _ h _ => ?_
  subst h
  refine (Job.InStep.tell _ _).bind_looks (.tell trivial) fun _ _ _ _ => ?_
  refine (Job.InStep.tell _ _).bind_looks (.tell trivial) fun _ _ _ _ => ?_
  refine (Survey.ofRequest_dotted hbare).bind_looks (Survey.ofRequest_calls r) fun _ s h hs => ?_
  obtain ⟨graph, hgraph, hnothing, rfl⟩ := h
  have hscan := Survey.scan_of_ofRequest hs
  have hfiles := Job.isBare_of_mem_scan hbare hscan
  obtain ⟨hf, ha⟩ := Survey.ofRequest_ok hs
  have hres : ∀ x ∈ ((workOn m r s).run {} t).result.1, x.file.IsBare := by
    intro x hx
    have hperm := workOn_perm (m := m) (r := r) (o := {}) (t := t)
      (Path.pairwise_of_relativeTo (Job.scan_relativeTo_nodup hscan))
    exact hfiles _ (hperm.subset (List.mem_append_right _ (List.mem_map_of_mem hx)))
  have hentries : ∀ e ∈ ((workOn m r s).run {} t).result.1.flatMap FileResult.css, ∀ q, e.Has q →
      .here ∉ q.components ∧ ¬r.root.components <+: q.components := by
    intro e he q hq
    have hno := hout _ _ ⟨s, hs, rfl, rfl⟩ e he q hq
    obtain ⟨z, rfl⟩ := exists_normalize_of_has (entry_of_workOn he) hq
    rw [Path.Within, hroot.resolve, Path.resolve_normalize] at hno
    exact ⟨Path.here_not_mem_normalize z, hno⟩
  have hproxies : ∀ e ∈ ((workOn m r s).run {} t).result.1.flatMap FileResult.css, ∀ g ∈ s.files,
      g.same e.proxy = false := by
    intro e he g hg
    rw [← Bool.not_eq_true]
    intro hsame
    refine hout _ _ ⟨s, hs, rfl, rfl⟩ e he e.proxy (.inr rfl) ?_
    rw [Path.Within, ← Path.same_eq_true.1 hsame]
    exact Survey.within_of_mem hs hg
  have hpage : ∀ g ∈ s.files, FileKind.classify r.options.naming g = .page → ∀ text,
      t.read g = .ok text →
      (Setting.withGraph ⟨m, r.options, s.embedCss, s.graph⟩ graph).linkPage g.dotted text =
        Setting.linkPage ⟨m, r.options, s.embedCss, s.graph⟩ g text := by
    intro g hg hk text ht
    rw [Setting.linkPage_of_loadsNothing hnothing g.dotted g]
    exact (hpages s hs g hg hk text ht).symm
  have hwork := workOn_dotted hm hgraph hfiles hf ha hpage hproxies
  refine (Job.InStep.lift hwork).bind_result fun w w' h hw => ?_
  obtain ⟨rs, fails⟩ := w
  obtain ⟨hrs, hlen⟩ := h
  dsimp only at hrs hlen ⊢
  rw [Job.run_lift] at hw
  cases hw
  subst hrs
  exact conclude_dotted hbare hres hlen hentries

namespace Failing

def survey : Survey :=
  ⟨[⟨"build/a.css"⟩, ⟨"build/a.css.proxy.js"⟩, ⟨"build/a.txt"⟩], false, none⟩

theorem survey_values :
    ((Job.scan request.root request.excluded).attempt.run {} tree).result = .ok survey.files ∧
    Survey.scripts {} survey.files = [] ∧
    (∀ g ∈ survey.files, FileKind.classify {} g ≠ .page) ∧
    ((workOn minifier request survey).run {} tree).result.1.flatMap FileResult.css = [] := by
  decide +kernel

theorem survey_ok : ((Survey.ofRequest request).attempt.run {} tree).result = .ok survey := by
  obtain ⟨hscan, hscripts, -⟩ := survey_values
  have hnone : ((Job.importsCss {} (Survey.scripts {} survey.files)).attempt.run {} tree).result =
      .ok false := by
    rw [hscripts]
    rfl
  exact Survey.ofRequest_of_scan rfl hscan hnone

end Failing

/-- A build of files that fail, in which nothing is embedded. -/
theorem alike_failing_in_either_spelling :
    Failing.request.root.IsNamed ∧ Failing.minifier.IgnoresSpelling ∧
    (∀ s, ((Survey.ofRequest Failing.request).attempt.run {} Failing.tree).result = .ok s →
      ∀ g ∈ s.files, FileKind.classify Failing.request.options.naming g = .page → ∀ text,
        Failing.tree.read g = .ok text → LinksNoModule Failing.minifier Failing.request s g text) ∧
    (∀ rs t', Reaches Failing.minifier Failing.request {} Failing.tree rs t' →
      ∀ e ∈ rs.flatMap FileResult.css, ∀ q, e.Has q → ¬Failing.request.root.Within q) ∧
    ((ofRequest Failing.minifier Failing.request.dotted).attempt.run {} Failing.tree).tree =
        ((ofRequest Failing.minifier Failing.request).attempt.run {} Failing.tree).tree ∧
      Except.Both CountsAlike
        ((ofRequest Failing.minifier Failing.request.dotted).attempt.run {} Failing.tree).result
        ((ofRequest Failing.minifier Failing.request).attempt.run {} Failing.tree).result := by
  obtain ⟨-, -, hpage, hcss⟩ := Failing.survey_values
  have hroot : Failing.request.root.IsNamed := ⟨"build", [], by decide⟩
  have hm : Failing.minifier.IgnoresSpelling := fun _ _ _ _ => ⟨rfl, rfl⟩
  have hpages : ∀ s, ((Survey.ofRequest Failing.request).attempt.run {} Failing.tree).result = .ok s →
      ∀ g ∈ s.files, FileKind.classify Failing.request.options.naming g = .page → ∀ text,
        Failing.tree.read g = .ok text → LinksNoModule Failing.minifier Failing.request s g text := by
    intro s hs g hg hk
    rw [Failing.survey_ok] at hs
    cases hs
    exact absurd hk (hpage g hg)
  have hout : ∀ rs t', Reaches Failing.minifier Failing.request {} Failing.tree rs t' →
      ∀ e ∈ rs.flatMap FileResult.css, ∀ q, e.Has q → ¬Failing.request.root.Within q := by
    rintro _ _ ⟨s, hs, rfl, rfl⟩ e he
    rw [Failing.survey_ok] at hs
    cases hs
    rw [hcss] at he
    cases he
  exact ⟨hroot, hm, hpages, hout, alike_in_either_spelling hroot hm hpages hout⟩

/-! The build with an excluded directory once more, by its name with a dot in front. -/

namespace Vendored

theorem isBare_script : script.IsBare := ⟨"build".toList, ["app.js".toList], by decide, rfl⟩

theorem isNamed_root : request.root.IsNamed := ⟨"build", [], by decide⟩

theorem survey_dotted :
    ((Survey.ofRequest request.dotted).attempt.run {} tree).result = .ok (survey.dotted none) := by
  have h := (Survey.ofRequest_dotted (t := tree) isNamed_root.isBare).attempt.result
  rw [survey_ok] at h
  obtain ⟨s, hs, graph, hgraph, -, rfl⟩ := h.exists_ok
  rw [hs, Option.isNone_iff_eq_none.1 (Option.isSome_eq_false_iff.1 hgraph)]

theorem run_workOn_dotted :
    ((workOn minifier request.dotted (survey.dotted none)).run {} tree).result =
        ([⟨script.dotted, entries⟩], []) ∧
      ((workOn minifier request.dotted (survey.dotted none)).run {} tree).tree = written := by
  obtain ⟨-, hread, -, -, hkind, -, hne, hwrite, -⟩ := tree_values
  have hname : script.fileName? = some "app.js" := by decide
  have hsame (text : String) : tree.answer {} (.write script.dotted text) =
      tree.answer {} (.write script text) :=
    congrArg Prod.swap (write_dotted isBare_script text.toUTF8)
  have hwork := workOn_of_embeds (m := minifier) (r := request.dotted) (o := {}) (t := tree)
    (g := script.dotted) (e := ⟨entries, ""⟩) rfl
    ((FileKind.classify_dotted isBare_script).trans hkind) ((read_dotted isBare_script).trans hread)
    ((Embedded.ofCode_dotted isBare_script hname text).trans embedded) hne
    ((congrArg Prod.fst (hsame "")).trans hwrite)
  rw [hsame] at hwork
  exact hwork

/-- What is left to do when the work on the script is done. -/
def concludedDotted : Run (Except Fault Report) :=
  (conclude request.dotted (survey.dotted none) 0 [⟨script.dotted, entries⟩] []).attempt.run {} written

theorem concluded_node :
    concludedDotted.tree.node? ["build", "_snowpack", "optimize-manifest.json"] ≠
      concluded.tree.node? ["build", "_snowpack", "optimize-manifest.json"] := by
  decide +kernel

theorem run_ofRequest_dotted :
    ((ofRequest minifier request.dotted).attempt.run {} tree).tree = concludedDotted.tree := by
  have h := (result_ofRequest (m := minifier) survey_dotted rfl).2
  rwa [run_workOn_dotted.1, run_workOn_dotted.2] at h

end Vendored

/-- A run whose manifest tells the spelling of the directory, for a script imports a stylesheet in it. -/
theorem manifest_tells_spelling :
    Vendored.request.root = ⟨"build"⟩ ∧ Vendored.request.dotted.root = ⟨"./build"⟩ ∧
    Vendored.request.root.IsNamed ∧ Vendored.minifier.IgnoresSpelling ∧
    ((ofRequest Vendored.minifier Vendored.request.dotted).attempt.run {} Vendored.tree).tree.node?
        ["build", "_snowpack", "optimize-manifest.json"] ≠
      ((ofRequest Vendored.minifier Vendored.request).attempt.run {} Vendored.tree).tree.node?
        ["build", "_snowpack", "optimize-manifest.json"] := by
  refine ⟨rfl, by decide, Vendored.isNamed_root, fun _ _ _ _ => ⟨rfl, rfl⟩, ?_⟩
  rw [Vendored.run_ofRequest_dotted, Vendored.run_ofRequest.1]
  exact Vendored.concluded_node

end Report

end SiteBuild
