import SiteBuild.Proofs.Optimize.Dispatch
import SiteBuild.Proofs.Optimize.Search

/-! The course of a run on a build. Looking around changes nothing, and what is left to do after the
work on the files is to put the stylesheets together and to write the manifest. -/

namespace SiteBuild

variable {o : Outages} {t t' : FileTree} {p : Path}

/-- The calls that leave a tree as it is. -/
def Looks : Call → Prop
  | .write _ _ => False
  | .remove _ => False
  | _ => True

/-- The calls that leave a tree as it is and that no outage meets. -/
def Peeks : Call → Prop
  | .read _ => False
  | .write _ _ => False
  | .remove _ => False
  | _ => True

theorem Peeks.looks {c : Call} (h : Peeks c) : Looks c := by
  cases c <;> first | exact trivial | cases h

theorem answer_peeks {c : Call} (hc : Peeks c) (o o' : Outages) :
    t.answer o c = t.answer o' c := by
  cases c <;> first | rfl | cases hc

theorem answer_looks {c : Call} (hc : Looks c) : (t.answer o c).2 = t := by
  cases c with
  | read p => exact FileTree.answer_read_tree o t p
  | write p text => cases hc
  | remove p => cases hc
  | inspect p => rfl
  | isThere p => rfl
  | isDirectory p => rfl
  | list p => rfl
  | tell e => rfl
  | now => rfl

theorem Plan.Calls.looks {α : Type} {x : Plan α} (h : x.Calls Looks) : (x.run o t).tree = t :=
  h.keeps (I := fun t' => t' = t) (fun _ _ hc ht => (answer_looks hc).trans ht) rfl

/-- Running a job after one that only looks around. -/
theorem Job.run_bind_looks {α β : Type} {x : Job α} {f : α → Job β} {a : α} (hx : x.Calls Looks)
    (h : (x.attempt.run o t).result = .ok a) :
    (x >>= f).attempt.run o t =
      { (f a).attempt.run o t with
        exchanges := (x.attempt.run o t).exchanges ++ ((f a).attempt.run o t).exchanges } := by
  rw [run_bind_of_ok h, hx.attempt.looks]

/-- The calls that take no file away. -/
def Spares : Call → Prop
  | .remove _ => False
  | _ => True

theorem Looks.spares {c : Call} (h : Looks c) : Spares c := by
  cases c <;> first | exact trivial | cases h

theorem FileTree.IsFile.mono (h : t.IsFile p) (hd : FileTree.KeepsDirectories t t')
    (hf : ∀ k b, t.node? k = some (.file b) → ∃ c, t'.node? k = some (.file c)) : t'.IsFile p := by
  obtain ⟨k, b, h⟩ := h
  obtain ⟨hs, hb, j, n, rfl, ht⟩ := FileTree.find_eq_file.1 h
  obtain ⟨c, hc⟩ := hf _ b hb
  exact ⟨j ++ [n], c, FileTree.find_eq_file.2 ⟨hs, hc, j, n, rfl, hd.target ht⟩⟩

/-- What becomes of a tree from which no file is taken. -/
def Grows (t t' : FileTree) : Prop :=
  FileTree.KeepsDirectories t t' ∧
    ∀ k b, t.node? k = some (.file b) → ∃ c, t'.node? k = some (.file c)

namespace Grows

theorem refl (t : FileTree) : Grows t t := ⟨.refl t, fun _ b hb => ⟨b, hb⟩⟩

theorem trans {t'' : FileTree} (h : Grows t t') (h' : Grows t' t'') : Grows t t'' := by
  refine ⟨h.1.trans h'.1, fun k b hb => ?_⟩
  obtain ⟨c, hc⟩ := h.2 k b hb
  exact h'.2 k c hc

theorem isFile (h : Grows t t') (hp : t.IsFile p) : t'.IsFile p := hp.mono h.1 h.2

theorem answer {c : Call} (hc : Spares c) (t : FileTree) : Grows t (t.answer o c).2 := by
  cases c with
  | write p text =>
    simp only [FileTree.answer]
    cases o.write p with
    | some e => exact .refl t
    | none => exact ⟨t.write_keepsDirectories p _, fun k b hb => t.write_isSome_file hb⟩
  | remove p => cases hc
  | read p =>
    rw [FileTree.answer_read_tree]
    exact .refl t
  | inspect p => exact .refl t
  | isThere p => exact .refl t
  | isDirectory p => exact .refl t
  | list p => exact .refl t
  | tell e => exact .refl t
  | now => exact .refl t

end Grows

theorem Plan.Calls.spares {α : Type} {x : Plan α} (h : x.Calls Spares) : Grows t (x.run o t).tree :=
  h.keeps (I := Grows t) (fun t' _ hc ht => ht.trans (.answer hc t')) (.refl t)

namespace Job

theorem scan_peeks (root : Path) (exclude : List String) : (scan root exclude).Calls Peeks :=
  .bind (.ofExcept _) fun _ => .bind (.forM fun _ _ => .tell trivial) fun _ =>
    .bind (.list trivial) fun _ => .pure _

theorem scan_calls (root : Path) (exclude : List String) : (scan root exclude).Calls Looks :=
  (scan_peeks root exclude).mono fun _ => Peeks.looks

theorem importsCss_peeks (n : Naming) (ps : List Path) : (importsCss n ps).Calls Peeks := by
  induction ps with
  | nil => exact .pure false
  | cons p ps ih =>
    refine .bind (.inspect trivial) fun text => ?_
    split
    · exact .pure true
    · exact ih
    · exact .bind (.tell trivial) fun _ => ih

/-- Telling events neither fails nor changes anything. -/
theorem run_forM_tell (es : List Event) : ((es.forM tell).attempt.run o t).result = .ok () ∧
    ((es.forM tell).attempt.run o t).tree = t := by
  refine ⟨?_, (Calls.forM (P := Looks) fun _ _ => Calls.tell trivial).attempt.looks⟩
  induction es with
  | nil => rfl
  | cons e es ih =>
    change ((tell e >>= fun _ => es.forM tell).attempt.run o t).result = _
    rw [run_bind_of_ok (a := ()) rfl]
    exact ih

/-- What a scan comes to: the patterns are read, and a listing loses what one of them matches. -/
theorem scan_result (o : Outages) (t : FileTree) (root : Path) (exclude : List String) :
    ((scan root exclude).attempt.run o t).result =
      match Glob.PatternSet.parse exclude with
      | .error f => .error (.glob f)
      | .ok patterns => ((t.list root).mapError .io).map fun ps =>
          ps.filter fun p => !patterns.isMatch (root.relativeTo p) := by
  unfold scan
  cases Glob.PatternSet.parse exclude with
  | error f => rw [run_bind_of_error (e := .glob f) rfl]
  | ok patterns =>
    obtain ⟨htell, htree⟩ := run_forM_tell (o := o) (t := t) (patterns.events exclude)
    have hlist : ((list root).attempt.run o t).result = (t.list root).mapError .io := rfl
    rw [run_bind_of_ok (a := patterns) rfl, run_ofExcept]
    dsimp only
    rw [run_bind_of_ok htell, htree]
    dsimp only
    cases hl : t.list root with
    | error e => rw [run_bind_of_error (hlist.trans (by rw [hl]; rfl))]; rfl
    | ok ps => rw [run_bind_of_ok (hlist.trans (by rw [hl]; rfl))]; rfl

/-- A scan finds the files of a listing that no pattern matches. -/
theorem scan_eq {root : Path} {exclude : List String} {fs : List Path}
    (h : ((scan root exclude).attempt.run o t).result = .ok fs) :
    ∃ patterns ps, Glob.PatternSet.parse exclude = .ok patterns ∧ t.list root = .ok ps ∧
      fs = ps.filter fun p => !patterns.isMatch (root.relativeTo p) := by
  rw [scan_result] at h
  split at h
  · cases h
  next patterns hp =>
  obtain ⟨ps, hl, rfl⟩ := exists_of_map h
  exact ⟨patterns, ps, hp, eq_ok_of_mapError hl, rfl⟩

/-- What a scan finds: files, each by one path. -/
theorem scan_ok {root : Path} {exclude : List String} {fs : List Path}
    (h : ((scan root exclude).attempt.run o t).result = .ok fs) :
    (∀ g ∈ fs, t.IsFile g) ∧ fs.Pairwise t.Apart := by
  obtain ⟨patterns, ps, -, hl, rfl⟩ := scan_eq h
  obtain ⟨hf, ha⟩ := FileTree.list_spec hl
  exact ⟨fun g hg => hf g (List.mem_filter.1 hg).1, ha.filter _⟩

end Job

namespace Survey

theorem ofRequest_peeks (r : Request) : (ofRequest r).Calls Peeks := by
  unfold ofRequest
  refine .during (fun _ => trivial) (.bind (Job.scan_peeks r.root r.excluded) fun files => ?_)
  refine .bind (.tell trivial) fun _ => .bind (.lift ?_) fun e => ?_
  · refine Plan.Calls.bind (Job.importsCss_peeks _ _).attempt fun x => ?_
    cases x with
    | ok a => exact .done _
    | error f => exact (Plan.Calls.ask trivial).bind fun _ => .done _
  · have hg (g : Option ModuleGraph) : Job.Calls Peeks (do
        Job.tell (.embeddingChosen e)
        return (⟨files, e, g⟩ : Survey)) := .bind (.tell trivial) fun _ => .pure _
    dsimp only
    split
    · refine .bind (.map _ (.lift ?_)) hg
      refine (Plan.inspectAll_calls fun _ _ => trivial).bind fun _ => ?_
      exact (Plan.Calls.forM fun _ _ => .ask trivial).bind fun _ => .done _
    · exact .bind (.pure _) hg

theorem ofRequest_calls (r : Request) : (ofRequest r).Calls Looks :=
  (ofRequest_peeks r).mono fun _ => Peeks.looks

/-- A survey is the same with and without outages. -/
theorem run_ofRequest_eq (r : Request) (o o' : Outages) (t : FileTree) :
    (ofRequest r).attempt.run o t = (ofRequest r).attempt.run o' t :=
  (ofRequest_peeks r).attempt.run_eq fun _ _ hc => answer_peeks hc o o'

/-- A survey without a graph is what the scan and the search for a stylesheet find. -/
theorem ofRequest_of_scan {r : Request} {fs : List Path} {e : Bool}
    (hp : r.options.preloadModules = false)
    (hs : ((Job.scan r.root r.excluded).attempt.run o t).result = .ok fs)
    (he : ((Job.importsCss r.options.naming (scripts r.options.naming fs)).attempt.run o t).result =
      .ok e) :
    ((ofRequest r).attempt.run o t).result = .ok ⟨fs, e, none⟩ := by
  have hembed : ((embedCss? r.options.naming (scripts r.options.naming fs)).run o t).result = e := by
    unfold embedCss?
    rw [Plan.run_bind]
    simp only
    rw [he]
    rfl
  unfold ofRequest
  rw [Job.run_during, Job.run_bind_of_ok hs]
  dsimp only
  rw [Job.run_bind_of_ok (a := ()) rfl, Job.run_tell, (Job.scan_calls _ _).attempt.looks]
  dsimp only
  rw [Job.run_bind_of_ok (a := e) (by rw [Job.run_lift, hembed])]
  simp only [hp]
  rfl

/-- What a survey has found out: the files of a scan, and whether stylesheets are to be embedded. -/
theorem scan_and_embedCss_of_ofRequest {r : Request} {s : Survey}
    (h : ((ofRequest r).attempt.run o t).result = .ok s) :
    ((Job.scan r.root r.excluded).attempt.run o t).result = .ok s.files ∧
      s.embedCss =
        ((embedCss? r.options.naming (scripts r.options.naming s.files)).run o t).result := by
  unfold ofRequest at h
  rw [Job.run_during] at h
  dsimp only at h
  obtain ⟨files, hf, h, -⟩ := Job.run_bind_ok h
  rw [(Job.scan_calls _ _).attempt.looks] at h
  obtain ⟨-, -, h, -⟩ := Job.run_bind_ok h
  rw [Job.run_tell] at h
  obtain ⟨e, he, h, -⟩ := Job.run_bind_ok h
  rw [Job.run_lift] at he
  have hs : s.files = files ∧ s.embedCss = e := by
    split at h
    · obtain ⟨g, -, h, -⟩ := Job.run_bind_ok h
      obtain ⟨-, -, h, -⟩ := Job.run_bind_ok h
      cases h
      exact ⟨rfl, rfl⟩
    · obtain ⟨g, -, h, -⟩ := Job.run_bind_ok h
      obtain ⟨-, -, h, -⟩ := Job.run_bind_ok h
      cases h
      exact ⟨rfl, rfl⟩
  rw [hs.1, hs.2]
  exact ⟨hf, (Except.ok.inj he).symm⟩

theorem scan_of_ofRequest {r : Request} {s : Survey}
    (h : ((ofRequest r).attempt.run o t).result = .ok s) :
    ((Job.scan r.root r.excluded).attempt.run o t).result = .ok s.files :=
  (scan_and_embedCss_of_ofRequest h).1

/-- Where stylesheets are to be embedded, some script imports one. -/
theorem exists_importsCss {r : Request} {s : Survey}
    (h : ((ofRequest r).attempt.run o t).result = .ok s) (he : s.embedCss = true) :
    ∃ p ∈ scripts r.options.naming s.files, ∃ text, t.read p = .ok text ∧
      SiteBuild.importsCss? r.options.naming text = some true := by
  rw [(scan_and_embedCss_of_ofRequest h).2, embedCss?, Plan.run_bind] at he
  dsimp only at he
  cases hi : ((Job.importsCss r.options.naming (scripts r.options.naming s.files)).attempt.run o
      t).result with
  | error f =>
    rw [hi] at he
    cases he
  | ok found =>
    rw [hi] at he
    obtain rfl : found = true := he
    obtain ⟨front, p, rest, hps, -, hp⟩ := Job.importsCss_eq_ok_true.1 hi
    obtain ⟨text, hr⟩ := hp.isRead
    exact ⟨p, by simp [hps], text, hr, (t.importsProxy_iff hr).1 hp⟩

theorem ofRequest_ok {r : Request} {s : Survey}
    (h : ((ofRequest r).attempt.run o t).result = .ok s) :
    (∀ g ∈ s.files, t.IsFile g) ∧ s.files.Pairwise t.Apart :=
  Job.scan_ok (scan_of_ofRequest h)

end Survey

namespace Report

theorem mem_failuresOf {outcomes : List (Except Failure FileResult)} {x : Failure} :
    x ∈ failuresOf outcomes ↔ .error x ∈ outcomes := by
  simp only [failuresOf, List.mem_filterMap]
  constructor
  · rintro ⟨y, hy, he⟩
    cases y with
    | ok a => cases he
    | error e =>
      cases he
      exact hy
  · intro h
    exact ⟨_, h, rfl⟩

theorem mem_resultsOf {outcomes : List (Except Failure FileResult)} {x : FileResult} :
    x ∈ resultsOf outcomes ↔ .ok x ∈ outcomes := by
  simp only [resultsOf, List.mem_filterMap]
  constructor
  · rintro ⟨y, hy, he⟩
    cases y with
    | error e => cases he
    | ok a =>
      cases he
      exact hy
  · intro h
    exact ⟨_, h, rfl⟩

theorem minifyProxies_calls {P : Call → Prop} (s : Setting) {ps : List Path} (ht : ∀ e, P (.tell e))
    (hr : ∀ p ∈ ps, P (.read p)) (hw : ∀ p ∈ ps, ∀ text, P (.write p text)) :
    (s.minifyProxies ps).Calls P := by
  induction ps with
  | nil => exact .done []
  | cons p ps ih =>
    have hrest := ih (fun q hq => hr q (List.mem_cons_of_mem _ hq))
      fun q hq => hw q (List.mem_cons_of_mem _ hq)
    refine Plan.Calls.bind (x := (s.minifyProxy p).attempt) ?_ fun x => ?_
    · refine Job.Calls.attempt (Job.revise_calls (hr p List.mem_cons_self)
        (hw p List.mem_cons_self) fun text => ?_)
      exact .bind (.ofExcept _) fun _ => .pure _
    · cases x with
      | ok u => exact hrest
      | error f => exact (Plan.Calls.ask (ht _)).bind fun _ => hrest.bind fun _ => .done _

/-- The work on the proxies that the work on the files has left. -/
def minifyLeft (r : Request) (s : Setting) (rs : List FileResult) : Plan (List Failure) :=
  if r.options.minifyScripts then s.minifyProxies (s.unusedProxies rs) else pure []

/-- The work on the files, and then the work on the proxies that are left. -/
theorem workOn_eq (m : Minifier) (r : Request) (s : Survey) :
    workOn m r s = (do
      let setting : Setting := ⟨m, r.options, s.embedCss, s.graph⟩
      (m.onStart r.options.workers).forM Plan.tell
      let outcomes ← setting.optimizeAll s.files
      (failuresOf outcomes).forM fun f => Plan.tell (.fileFailed f.file f.fault)
      let late ← minifyLeft r setting (resultsOf outcomes)
      m.onStop.forM Plan.tell
      return (dropFailed late (resultsOf outcomes), failuresOf outcomes ++ late)) := by
  unfold workOn minifyLeft
  refine bind_congr fun _ => bind_congr fun outcomes => bind_congr fun _ => ?_
  dsimp only
  split
  · rfl
  · rfl

/-- What is done with the stylesheets when the work on the files is done. -/
def finish (r : Request) (s : Survey) (rs : List FileResult) : Job (Option Path × Nat) :=
  if s.embedCss then r.finishStyles rs else pure (none, 0)

theorem finish_of_embedCss {r : Request} {s : Survey} {rs : List FileResult} (he : s.embedCss = true) :
    finish r s rs = r.finishStyles rs := by
  simp [finish, he]

theorem finish_of_not_embedCss {r : Request} {s : Survey} {rs : List FileResult}
    (he : s.embedCss = false) : finish r s rs = pure (none, 0) := by
  simp [finish, he]

/-- What is left to do when the work on the files is done. -/
def conclude (r : Request) (s : Survey) (start : Nat) (rs : List FileResult)
    (failures : List Failure) : Job Report := do
  let (combined, removed) ← finish r s rs
  writeManifest r.manifestPath (Manifest.build r.root rs combined.toList)
  let elapsed := (← Plan.ask .now) - start
  Job.tell (.summary rs.length failures.length elapsed)
  return ⟨rs.length, failures, s.embedCss, combined, removed, r.manifestPath, elapsed⟩

/-- What a run that succeeds does at its end: it puts the stylesheets together, and writes a manifest. -/
theorem conclude_ok {s : Survey} {r : Request} {start : Nat} {rs : List FileResult}
    {fs : List Failure} {rep : Report}
    (h : ((conclude r s start rs fs).attempt.run o t).result = .ok rep) :
    ((finish r s rs).attempt.run o t).result = .ok (rep.combined, rep.removed) ∧
      rep.processed = rs.length ∧ rep.failures = fs ∧ rep.embedCss = s.embedCss ∧
      let x := Manifest.build r.root rs rep.combined.toList
      let written := (writeManifest r.manifestPath x).attempt.run o
        ((finish r s rs).attempt.run o t).tree
      written.result = .ok () ∧ ((conclude r s start rs fs).attempt.run o t).tree = written.tree := by
  unfold conclude at h ⊢
  obtain ⟨⟨combined, removed⟩, hx, h, ht⟩ := Job.run_bind_ok h
  rw [ht]
  dsimp only at h ⊢
  obtain ⟨u, hwrite, h, ht⟩ := Job.run_bind_ok h
  rw [ht]
  obtain ⟨now, -, h, ht⟩ := Job.run_bind_ok h
  rw [ht, Job.run_lift]
  obtain ⟨v, -, h, ht⟩ := Job.run_bind_ok h
  cases h
  exact ⟨hx, rfl, rfl, rfl, hwrite, ht⟩

theorem ofRequest_eq (m : Minifier) (r : Request) :
    ofRequest m r = (do
      let start ← Plan.ask .now
      Job.tell (.rootChosen r.root)
      Job.tell (.workersChosen r.options.workers)
      let s ← Survey.ofRequest r
      let w ← workOn m r s
      conclude r s start w.1 w.2) := by
  unfold ofRequest conclude finish
  refine bind_congr fun start => bind_congr fun _ => bind_congr fun _ => bind_congr fun s => ?_
  refine bind_congr fun w => ?_
  dsimp only
  split
  · rfl
  · rfl

/-- Before the survey a run only looks at the clock and tells what it is about to do. -/
theorem run_ofRequest_start (m : Minifier) (r : Request) (o : Outages) (t : FileTree) :
    let x := (do
      let s ← Survey.ofRequest r
      let w ← workOn m r s
      conclude r s 0 w.1 w.2 : Job Report).attempt.run o t
    ∃ es, (∀ e ∈ es, Looks e.1) ∧
      (ofRequest m r).attempt.run o t = { x with exchanges := es ++ x.exchanges } := by
  intro x
  have hnow : (liftM (Plan.ask .now) : Job Nat).Calls Looks := .lift (.ask trivial)
  have htell (e : Event) : (Job.tell e).Calls Looks := .tell trivial
  refine ⟨((liftM (Plan.ask .now) : Job Nat).attempt.run o t).exchanges ++
    (((Job.tell (.rootChosen r.root)).attempt.run o t).exchanges ++
      ((Job.tell (.workersChosen r.options.workers)).attempt.run o t).exchanges), ?_, ?_⟩
  · exact List.forall_mem_append.2 ⟨hnow.attempt.exchanges,
      List.forall_mem_append.2 ⟨(htell _).attempt.exchanges, (htell _).attempt.exchanges⟩⟩
  · rw [ofRequest_eq, Job.run_bind_looks hnow (a := (0 : Nat)) rfl,
      Job.run_bind_looks (htell _) (a := ()) rfl, Job.run_bind_looks (htell _) (a := ()) rfl]
    simp only [List.append_assoc, x]

/-- A run whose survey fails has only looked around. -/
theorem run_ofRequest_of_error {m : Minifier} {r : Request} {e : Fault}
    (h : ((Survey.ofRequest r).attempt.run o t).result = .error e) :
    ((ofRequest m r).attempt.run o t).result = .error e ∧
      ∀ x ∈ ((ofRequest m r).attempt.run o t).exchanges, Looks x.1 := by
  obtain ⟨es, hes, hrun⟩ := run_ofRequest_start m r o t
  rw [hrun, Job.run_bind_of_error h]
  exact ⟨rfl, List.forall_mem_append.2 ⟨hes, (Survey.ofRequest_calls r).attempt.exchanges⟩⟩

/-- A run whose survey succeeds is the work on the files and what comes after it. -/
theorem run_ofRequest {m : Minifier} {r : Request} {s : Survey} {w : Run (List FileResult × List Failure)}
    (hs : ((Survey.ofRequest r).attempt.run o t).result = .ok s) (hw : (workOn m r s).run o t = w) :
    ∃ es, (∀ x ∈ es, Looks x.1) ∧ (ofRequest m r).attempt.run o t =
      { (conclude r s 0 w.result.1 w.result.2).attempt.run o w.tree with
        exchanges := es ++ w.exchanges ++
          ((conclude r s 0 w.result.1 w.result.2).attempt.run o w.tree).exchanges } := by
  obtain ⟨es, hes, hrun⟩ := run_ofRequest_start m r o t
  have hcalls := (Survey.ofRequest_calls r).attempt.exchanges (o := o) (t := t)
  refine ⟨es ++ ((Survey.ofRequest r).attempt.run o t).exchanges,
    List.forall_mem_append.2 ⟨hes, hcalls⟩, ?_⟩
  have hlift : (liftM (workOn m r s) : Job _).attempt.run o t =
      ⟨.ok w.result, w.tree, w.exchanges⟩ := by rw [Job.run_lift, hw]
  rw [hrun, Job.run_bind_looks (Survey.ofRequest_calls r) hs, Job.run_bind_of_ok (by rw [hlift]), hlift]
  simp only [List.append_assoc]

/-- Such a run ends as what comes after the work on the files does. -/
theorem result_ofRequest {m : Minifier} {r : Request} {s : Survey}
    {w : Run (List FileResult × List Failure)}
    (hs : ((Survey.ofRequest r).attempt.run o t).result = .ok s) (hw : (workOn m r s).run o t = w) :
    ((ofRequest m r).attempt.run o t).result =
        ((conclude r s 0 w.result.1 w.result.2).attempt.run o w.tree).result ∧
      ((ofRequest m r).attempt.run o t).tree =
        ((conclude r s 0 w.result.1 w.result.2).attempt.run o w.tree).tree := by
  obtain ⟨es, -, hrun⟩ := run_ofRequest hs hw
  rw [hrun]
  exact ⟨rfl, rfl⟩

end Report

end SiteBuild
