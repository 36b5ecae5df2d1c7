import SiteBuild.Proofs.Optimize.Account
import SiteBuild.Proofs.Optimize.Changes

/-! Which faults end a run. Those met while the files are worked on are reported, and a stylesheet that
cannot be read is passed over; a write or a removal that is refused after that ends the run. -/

namespace SiteBuild

open FileTree

variable {o : Outages} {t : FileTree} {p : Path} {m : Minifier} {r : Request} {s : Survey}

/-- Whether an exchange is a write or a removal that was not done. -/
def Exchange.isRefused : Exchange → Bool
  | ⟨.write _ _, .error _⟩ => true
  | ⟨.remove _, .error _⟩ => true
  | _ => false

theorem Looks.not_isRefused {x : Exchange} (h : Looks x.1) : x.isRefused = false := by
  obtain ⟨c, a⟩ := x
  cases c <;> first | rfl | cases h

theorem Exchange.isRefused_iff {x : Exchange} :
    x.isRefused = true ↔ (∃ p text e, x = ⟨.write p text, .error e⟩) ∨ ∃ p e, x = ⟨.remove p, .error e⟩ := by
  constructor
  · intro h
    unfold isRefused at h
    split at h
    · next p text e => exact .inl ⟨p, text, e, rfl⟩
    · next p e => exact .inr ⟨p, e, rfl⟩
    · cases h
  · rintro (⟨p, text, e, rfl⟩ | ⟨p, e, rfl⟩) <;> rfl

/-- That a job succeeds just if none of its writes and removals is refused. -/
def Job.StopsAtRefusal {α : Type} (x : Job α) : Prop :=
  ∀ o t, (∃ a, (x.attempt.run o t).result = .ok a) ↔
    ∀ y ∈ (x.attempt.run o t).exchanges, y.isRefused = false

namespace Job.StopsAtRefusal

variable {α β : Type} {x : Job α} {f : α → Job β}

theorem pure (a : α) : (Pure.pure a : Job α).StopsAtRefusal := fun _ _ => by simp

theorem bind (hx : x.StopsAtRefusal) (hf : ∀ a, (f a).StopsAtRefusal) :
    (x >>= f).StopsAtRefusal := by
  intro o t
  rw [run_bind]
  dsimp only
  cases hres : (x.attempt.run o t).result with
  | ok a =>
    have hfirst := (hx o t).1 ⟨a, hres⟩
    dsimp only
    rw [hf a o (x.attempt.run o t).tree, List.forall_mem_append, and_iff_right hfirst]
  | error e =>
    have hfirst := mt (hx o t).2 (by simp [hres])
    exact iff_of_false (by simp) hfirst

theorem lift {x : Plan α} (hx : x.Calls Looks) : (liftM x : Job α).StopsAtRefusal := by
  intro o t
  rw [run_lift]
  exact iff_of_true ⟨_, rfl⟩ fun y hy => (hx.exchanges y hy).not_isRefused

theorem tell (e : Event) : (Job.tell e).StopsAtRefusal := .lift (.ask trivial)

theorem write (p : Path) (text : String) : (Job.write p text).StopsAtRefusal := by
  intro o t
  rw [run_write]
  cases (t.answer o (.write p text)).1 <;> simp [Except.mapError, Exchange.isRefused]

theorem remove (p : Path) : (Job.remove p).StopsAtRefusal := by
  intro o t
  rw [run_remove]
  cases (t.answer o (.remove p)).1 <;> simp [Except.mapError, Exchange.isRefused]

theorem during (a : Activity) (hx : x.StopsAtRefusal) : (Job.during a x).StopsAtRefusal := by
  intro o t
  rw [run_during]
  dsimp only
  rw [hx o t, List.forall_mem_cons, List.forall_mem_append]
  simp [Exchange.isRefused]

end Job.StopsAtRefusal

theorem FileResult.removeAll_stops (ps : List Path) : (removeAll ps).StopsAtRefusal := by
  induction ps with
  | nil => exact .pure 0
  | cons p ps ih => exact .bind (.remove p) fun _ => .bind ih fun _ => .pure _

namespace Request

theorem publish_stops (r : Request) (text : Option String) : (r.publish text).StopsAtRefusal := by
  cases text with
  | none => exact .pure none
  | some text => exact .bind (.write _ _) fun _ => .bind (.tell _) fun _ => .pure _

theorem finishStyles_stops (r : Request) (rs : List FileResult) :
    (r.finishStyles rs).StopsAtRefusal := by
  rw [finishStyles_eq]
  refine .during _ (.bind (.lift (FileResult.combine_calls _ _)) fun text => ?_)
  refine .bind (publish_stops r text) fun _ => .bind (FileResult.removeAll_stops _) fun _ => ?_
  exact .bind (.tell _) fun _ => .pure _

end Request

/-- A survey fails only where its scan does. -/
theorem Survey.exists_ofRequest {files : List Path}
    (h : ((Job.scan r.root r.excluded).attempt.run o t).result = .ok files) :
    ∃ s, ((Survey.ofRequest r).attempt.run o t).result = .ok s := by
  unfold ofRequest
  rw [Job.run_during, Job.run_bind_of_ok h]
  dsimp only
  rw [Job.run_bind_of_ok (a := ()) rfl]
  dsimp only
  rw [Job.run_bind_of_ok (by rw [Job.run_lift])]
  dsimp only
  split
  · rw [bind_map_left, Job.run_bind_of_ok (by rw [Job.run_lift]), Job.run_bind_of_ok (a := ()) rfl]
    exact ⟨_, rfl⟩
  · rw [pure_bind, Job.run_bind_of_ok (a := ()) rfl]
    exact ⟨_, rfl⟩

namespace Report

variable {rs : List FileResult} {fs : List Failure} {start : Nat}

theorem conclude_stops (r : Request) (s : Survey) (start : Nat) (rs : List FileResult)
    (fs : List Failure) : (conclude r s start rs fs).StopsAtRefusal := by
  unfold conclude
  refine .bind ?_ fun (combined, removed) => ?_
  · unfold finish
    split
    · exact r.finishStyles_stops rs
    · exact .pure _
  · refine .bind (.bind (.write _ _) fun _ => .tell _) fun _ => ?_
    exact .bind (.lift (.ask trivial)) fun _ => .bind (.tell _) fun _ => .pure _

theorem mem_exchanges_writeManifest {x : Manifest} {u : Unit}
    (h : ((writeManifest p x).attempt.run o t).result = .ok u) :
    ⟨.write p x.toText, .ok ()⟩ ∈ ((writeManifest p x).attempt.run o t).exchanges := by
  unfold writeManifest at h ⊢
  obtain ⟨v, hv, -⟩ := Job.run_bind_ok h
  rw [Job.run_bind_of_ok hv]
  rw [Job.run_write] at hv ⊢
  have hw : (t.answer o (.write p x.toText)).1 = .ok v := eq_ok_of_mapError hv
  rw [hw]
  exact List.mem_cons_self

/-- A run whose end succeeds writes its manifest there. -/
theorem conclude_writes_manifest {rep : Report}
    (h : ((conclude r s start rs fs).attempt.run o t).result = .ok rep) :
    ⟨.write r.manifestPath (Manifest.build r.root rs rep.combined.toList).toText, .ok ()⟩ ∈
      ((conclude r s start rs fs).attempt.run o t).exchanges := by
  have hf := (conclude_ok h).1
  unfold conclude at h ⊢
  rw [Job.run_bind_of_ok hf] at h ⊢
  obtain ⟨u, hw, -⟩ := Job.run_bind_ok h
  dsimp only at hw ⊢
  rw [Job.run_bind_of_ok hw]
  exact List.mem_append_right _ (List.mem_append_left _ (mem_exchanges_writeManifest hw))

/-- That a run has succeeded and left its manifest. -/
def Finishes (r : Request) (x : Run (Except Fault Report)) : Prop :=
  ∃ (rep : Report) (a : Manifest), x.result = .ok rep ∧
    ⟨.write r.manifestPath a.toText, .ok ()⟩ ∈ x.exchanges ∧ x.tree.read r.manifestPath = .ok a.toText

theorem finishes_of_ok {rep : Report} (h : ((ofRequest m r).attempt.run o t).result = .ok rep) :
    Finishes r ((ofRequest m r).attempt.run o t) := by
  obtain ⟨s, w, hc⟩ := exists_completes h
  refine ⟨rep, _, h, ?_, hc.read⟩
  obtain ⟨es, -, hrun⟩ := run_ofRequest hc.survey hc.work
  rw [hrun] at h ⊢
  exact List.mem_append_right _ (conclude_writes_manifest h)

/-- A run that finds its files, and to which neither the combined stylesheet nor the manifest is refused,
finishes just if none of its removals is. -/
theorem finishes_iff {files : List Path}
    (hs : ((Job.scan r.root r.excluded).attempt.run o t).result = .ok files)
    (hw : ∀ p text e, p = r.combinedPath ∨ p = r.manifestPath →
      (⟨.write p text, .error e⟩ : Exchange) ∉ ((ofRequest m r).attempt.run o t).exchanges) :
    Finishes r ((ofRequest m r).attempt.run o t) ↔
      ∀ p e, (⟨.remove p, .error e⟩ : Exchange) ∉ ((ofRequest m r).attempt.run o t).exchanges := by
  obtain ⟨s, hs⟩ := Survey.exists_ofRequest hs
  obtain ⟨es, hes, hrun⟩ := run_ofRequest (m := m) hs rfl
  have hstops := conclude_stops r s 0 ((workOn m r s).run o t).result.1
    ((workOn m r s).run o t).result.2 o ((workOn m r s).run o t).tree
  constructor
  · rintro ⟨rep, -, hok, -⟩ p e hmem
    rw [hrun] at hok hmem
    rcases List.mem_append.1 hmem with hmem | hmem
    · -- nothing is removed before the stylesheets are
      rcases List.mem_append.1 hmem with hmem | hmem
      · exact hes _ hmem
      · exact (workOn_calls m r s).exchanges _ hmem
    · exact absurd (hstops.1 ⟨rep, hok⟩ _ hmem) (by simp [Exchange.isRefused])
  · intro hno
    have hlast : ∀ y ∈ ((conclude r s 0 ((workOn m r s).run o t).result.1
        ((workOn m r s).run o t).result.2).attempt.run o ((workOn m r s).run o t).tree).exchanges,
        y.isRefused = false := by
      intro y hy
      have hmem : y ∈ ((ofRequest m r).attempt.run o t).exchanges := by
        rw [hrun]
        exact List.mem_append_right _ hy
      have hchange : r.Changes [] _ y.1 := (conclude_changes 0 _).attempt.exchanges y hy
      rw [Bool.eq_false_iff]
      intro href
      rcases Exchange.isRefused_iff.1 href with ⟨p, text, e, rfl⟩ | ⟨p, e, rfl⟩
      · exact hw p text e (hchange.resolve_left (by simp)) hmem
      · exact hno p e hmem
    obtain ⟨rep, hrep⟩ := hstops.2 hlast
    have hok : ((ofRequest m r).attempt.run o t).result = .ok rep := by
      rw [hrun]
      exact hrep
    exact finishes_of_ok hok

/-! A build with an empty directory that is named like the stylesheet of a proxy. -/

namespace Blocked

def script : Path := ⟨"build/app.js"⟩

def style : Path := ⟨"build/x.css"⟩

def proxy : Path := ⟨"build/x.css.proxy.js"⟩

def lines : List Script.Line := [.import .nothing "./x.css.proxy.js".toList]

def text : String := String.ofList (lines.flatMap Script.Line.print)

def tree : FileTree :=
  (((FileTree.empty.put [] "build" .directory).put ["build"] "app.js" (.file text.toUTF8)).put
    ["build"] "x.css" .directory).put
    ["build"] "x.css.proxy.js" (.file "export default 1;\n".toUTF8)

def survey : Survey := ⟨[script, proxy], true, none⟩

def setting : Setting := ⟨Unread.minifier, Unread.request.options, true, none⟩

/-- The tree once the work on the script is done. -/
def written : FileTree := (tree.write script "".toUTF8).1

def results : List FileResult := [⟨script, [⟨style, proxy⟩]⟩, ⟨proxy, []⟩]

/-- The tree once the work on all files is done. -/
def worked : FileTree := ((setting.optimizeAll [proxy]).run {} written).tree

/-- What is left to do when the work on the files is done. -/
def concluded : Run (Except Fault Report) :=
  (conclude Unread.request survey 0 results []).attempt.run {} worked

/-- What the build holds, as far as the work on the script asks for it. -/
theorem tree_values :
    (∀ l ∈ lines, l.IsSound) ∧ tree.read script = .ok text ∧
    ((Job.scan Unread.request.root Unread.request.excluded).attempt.run {} tree).result =
      .ok survey.files ∧
    ((Script.Line.module lines).imports.any fun d =>
      Naming.isCssProxy {} (String.ofList d.specifier)) = true ∧
    FileKind.classify {} script = .script ∧
    (tree.answer {} (.read script)).1 = .ok text ∧ "" ≠ text ∧
    (tree.answer {} (.write script "")).1 = .ok () ∧
    Naming.isCssModule {} (Naming.actual {} "./x.css.proxy.js") = false := by
  decide +kernel

/-- What the work on the proxy gives, and how the run ends. -/
theorem worked_values :
    ((setting.optimizeAll [proxy]).run {} written).result = [.ok ⟨proxy, []⟩] ∧
    concluded.result = .error (.io .isADirectory) ∧
    Unread.request.combinedPath ∉ survey.files ∧ Unread.request.manifestPath ∉ survey.files ∧
    ∀ x ∈ concluded.exchanges, x.isRefused = true → x.1 = .remove style := by
  decide +kernel

theorem survey_ok : ((Survey.ofRequest Unread.request).attempt.run {} tree).result = .ok survey := by
  obtain ⟨hsound, hread, hscan, himports, -⟩ := tree_values
  have hcss : importsCss? {} text = some true := himports ▸ importsCss?_print hsound
  exact Survey.ofRequest_of_scan rfl hscan (Job.importsCss_of_read hread hcss)

theorem embedded : Embedded.ofCode tree.read {} script text = .ok ⟨[⟨style, proxy⟩], ""⟩ := by
  have hr : ∀ l ∈ lines, l.IsReadable {} tree script := by
    obtain ⟨-, -, -, -, -, -, -, -, hmodule⟩ := tree_values
    simp [lines, Script.Line.IsReadable, Embed.IsModuleProxy, hmodule]
  rw [text, Embedded.ofCode_print tree_values.1 hr]
  decide

theorem run_workOn : ((workOn Unread.minifier Unread.request survey).run {} tree).result =
      (results, []) ∧
    ((workOn Unread.minifier Unread.request survey).run {} tree).tree = worked := by
  obtain ⟨-, -, -, -, hkind, hread, hne, hwrite, -⟩ := tree_values
  obtain ⟨hresult, htree⟩ := Setting.optimize_of_embeds (o := {}) (t := tree) (s := setting)
    (g := script) rfl rfl hkind hread embedded hne hwrite
  obtain ⟨hr, ht⟩ := workOn_cons (m := Unread.minifier) (r := Unread.request) (s := survey) rfl rfl
    hresult htree
  exact ⟨hr.trans (congrArg (fun ys => (⟨script, [⟨style, proxy⟩]⟩ :: resultsOf ys, failuresOf ys))
    worked_values.1), ht⟩

theorem ofRequest_error : ((ofRequest Unread.minifier Unread.request).attempt.run {} tree).result =
    .error (.io .isADirectory) := by
  have h := (result_ofRequest (m := Unread.minifier) survey_ok rfl).1
  rw [run_workOn.1, run_workOn.2] at h
  exact h.trans worked_values.2.1

/-- Neither the combined stylesheet nor the manifest is refused. -/
theorem not_refused (p : Path) (text : String) (e : IoError)
    (hp : p = Unread.request.combinedPath ∨ p = Unread.request.manifestPath) :
    (⟨.write p text, .error e⟩ : Exchange) ∉
      ((ofRequest Unread.minifier Unread.request).attempt.run {} tree).exchanges := by
  obtain ⟨es, hes, hrun⟩ := run_ofRequest (m := Unread.minifier) survey_ok rfl
  obtain ⟨-, -, hcombined, hmanifest, hlast⟩ := worked_values
  rw [hrun, run_workOn.1, run_workOn.2]
  intro hmem
  rcases List.mem_append.1 hmem with hmem | hmem
  · rcases List.mem_append.1 hmem with hmem | hmem
    · exact hes _ hmem
    · have hp' : p ∈ survey.files := workOn_writes _ hmem
      rcases hp with rfl | rfl
      · exact hcombined hp'
      · exact hmanifest hp'
  · exact absurd (hlast _ hmem rfl) (by simp)

end Blocked

/-- Whether a run finishes can be told where a directory stands for a stylesheet. -/
theorem finishes_blocked_iff :
    ((Job.scan Unread.request.root Unread.request.excluded).attempt.run {} Blocked.tree).result =
      .ok Blocked.survey.files ∧
    (∀ p text e, p = Unread.request.combinedPath ∨ p = Unread.request.manifestPath →
      (⟨.write p text, .error e⟩ : Exchange) ∉
        ((ofRequest Unread.minifier Unread.request).attempt.run {} Blocked.tree).exchanges) ∧
    (Finishes Unread.request ((ofRequest Unread.minifier Unread.request).attempt.run {} Blocked.tree) ↔
      ∀ p e, (⟨.remove p, .error e⟩ : Exchange) ∉
        ((ofRequest Unread.minifier Unread.request).attempt.run {} Blocked.tree).exchanges) :=
  ⟨Survey.scan_of_ofRequest Blocked.survey_ok, Blocked.not_refused,
    finishes_iff (Survey.scan_of_ofRequest Blocked.survey_ok) Blocked.not_refused⟩

/-- A directory that is named like a stylesheet ends the run. -/
theorem not_finishes_blocked :
    ((Job.scan Unread.request.root Unread.request.excluded).attempt.run {} Blocked.tree).result =
      .ok Blocked.survey.files ∧
    (∀ p text e, p = Unread.request.combinedPath ∨ p = Unread.request.manifestPath →
      (⟨.write p text, .error e⟩ : Exchange) ∉
        ((ofRequest Unread.minifier Unread.request).attempt.run {} Blocked.tree).exchanges) ∧
    ((ofRequest Unread.minifier Unread.request).attempt.run {} Blocked.tree).result =
      .error (.io .isADirectory) ∧
    ¬Finishes Unread.request
      ((ofRequest Unread.minifier Unread.request).attempt.run {} Blocked.tree) := by
  refine ⟨Survey.scan_of_ofRequest Blocked.survey_ok, Blocked.not_refused, Blocked.ofRequest_error, ?_⟩
  rintro ⟨rep, -, hok, -⟩
  rw [Blocked.ofRequest_error] at hok
  cases hok

end Report

end SiteBuild
