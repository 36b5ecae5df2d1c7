import SiteBuild.Proofs.ModuleGraph.Files
import SiteBuild.Proofs.Optimize.Dotted

/-! A survey of a build directory in two spellings. The same files are found in both, but a graph of files
that are listed with a dot has no edges, for what scripts name is spelled without one. -/

namespace SiteBuild

open FileTree

variable {t : FileTree} {root p q : Path} {r : Request} {n : Naming} {fs : List Path}

namespace Job

theorem isBare_of_mem_list {ps : List Path} (hroot : root.IsBare) (h : t.list root = .ok ps) :
    ∀ p ∈ ps, p.IsBare := by
  obtain ⟨k, x, -, rfl, hfind⟩ := list_eq h
  intro p hp
  obtain ⟨names, hn, rfl⟩ := List.mem_map.1 hp
  obtain ⟨b, hb⟩ := hfind names hn
  have hnode : t.node? (k ++ names) ≠ none := by simp [(find_eq_file.1 hb).2.1]
  exact hroot.below fun n => isFileName_of_mem hnode

theorem isBare_of_mem_scan {exclude : List String} (hroot : root.IsBare)
    (h : ((scan root exclude).attempt.run {} t).result = .ok fs) : ∀ p ∈ fs, p.IsBare := by
  obtain ⟨patterns, ps, -, hl, rfl⟩ := scan_eq h
  exact fun p hp => isBare_of_mem_list hroot hl p (List.mem_filter.1 hp).1

/-- A scan finds the same files in either spelling, each in the spelling of the directory. -/
theorem scan_dotted (hroot : root.IsBare) (exclude : List String) :
    InStep {} t (fun a b => a = b.map Path.dotted) (scan root.dotted exclude) (scan root exclude) := by
  have hlist : InStep {} t (fun a b => a = b.map Path.dotted) (Job.list root.dotted)
      (Job.list root) := by
    refine .list ?_
    rw [list_dotted hroot]
    cases t.list root with
    | ok ps => exact .ok rfl
    | error e => exact .error e e
  refine (InStep.ofExcept (Except.Both.refl _)).bind_looks (.ofExcept _) fun patterns _ h _ => ?_
  subst h
  refine (InStep.forM_tell _ _).bind_looks (.forM fun _ _ => .tell trivial) fun _ _ _ _ => ?_
  refine hlist.bind_looks (.list trivial) fun ps' ps h hps => .pure ?_
  have hps : (t.list root).mapError Fault.io = .ok ps := hps
  have hbare := isBare_of_mem_list hroot (eq_ok_of_mapError hps)
  rw [h, List.filter_map]
  refine congrArg (List.map Path.dotted) (List.filter_congr fun p hp => ?_)
  simp only [Function.comp_apply, Path.relativeTo_dotted hroot (hbare p hp)]

theorem importsCss_dotted (hb : ∀ p ∈ fs, p.IsBare) :
    InStep {} t Eq (importsCss n (fs.map Path.dotted)) (importsCss n fs) := by
  induction fs generalizing t with
  | nil => exact .pure rfl
  | cons p fs ih =>
    obtain ⟨hp, hfs⟩ := List.forall_mem_cons.1 hb
    rw [List.map_cons]
    unfold importsCss
    refine (InStep.inspect (FileTree.read_dotted hp)).bind fun text _ t h => ?_
    subst h
    split
    · exact .pure rfl
    · exact ih hfs
    · exact (InStep.tell _ _).bind fun _ _ _ _ => ih hfs

end Job

namespace ModuleGraph

/-- A graph in which no module loads another one leads nowhere. -/
theorem preloadList_eq_nil {g : ModuleGraph} (h : ∀ p q, ¬g.Loads p q) (entries : List Path) :
    g.preloadList entries = [] := by
  cases hl : g.preloadList entries with
  | nil => rfl
  | cons p ps =>
    obtain ⟨q, -, hq⟩ := exists_loads_of_visit g entries entries [] p ps hl
    exact absurd hq (h q p)

/-- What scripts name is spelled without a dot, so that no file is found that is listed with one. -/
theorem not_loads_ofTree_dotted (hb : ∀ p ∈ fs, p.IsBare) (p q : Path) :
    ¬(ofTree t root n (fs.map Path.dotted)).Loads p q := by
  intro h
  obtain ⟨g, -, -, -, -, -, -, d, -, -, x, hx, ⟨y, hy, hxy⟩, -⟩ :=
    loads_ofTree_iff.1 ⟨q, h, Path.same_self q⟩
  obtain ⟨f, hf, rfl⟩ := List.mem_map.1 hy
  obtain ⟨z, rfl⟩ := exists_normalize_of_resolveLocal? hx
  rw [Path.not_same_dotted (hb f hf)] at hxy
  cases hxy

theorem ofFiles_calls (root : Path) (n : Naming) (fs : List Path) : (ofFiles root n fs).Calls Looks := by
  refine (Plan.inspectAll_calls fun _ _ => trivial).bind fun _ => ?_
  exact (Plan.Calls.forM fun _ _ => .ask trivial).bind fun _ => .done _

end ModuleGraph

/-- The survey of a build directory that is spelled with a dot. -/
def Survey.dotted (s : Survey) (graph : Option ModuleGraph) : Survey :=
  ⟨s.files.map Path.dotted, s.embedCss, graph⟩

/-- The same request on the directory spelled with a dot. -/
def Request.dotted (r : Request) : Request := { r with root := r.root.dotted }

namespace Survey

theorem embedCss?_dotted (hb : ∀ p ∈ fs, p.IsBare) :
    Plan.InStep {} t Eq (embedCss? n (fs.map Path.dotted)) (embedCss? n fs) := by
  unfold embedCss?
  refine (Job.importsCss_dotted hb).attempt.bind fun a b t hab => ?_
  cases hab with
  | ok hab => exact .done hab
  | error e e' => exact ⟨rfl, rfl⟩

theorem scripts_dotted (hb : ∀ p ∈ fs, p.IsBare) :
    scripts n (fs.map Path.dotted) = (scripts n fs).map Path.dotted := by
  unfold scripts
  rw [List.filter_map]
  refine congrArg (List.map Path.dotted) (List.filter_congr fun p hp => ?_)
  simp only [Function.comp_apply, FileKind.classify_dotted (hb p hp)]

/-- No module loads another one. -/
def LoadsNothing (graph : Option ModuleGraph) : Prop := ∀ g ∈ graph, ∀ p q, ¬g.Loads p q

theorem ofFiles_dotted (hb : ∀ p ∈ fs, p.IsBare) :
    Job.InStep {} t (fun a b => a.isSome = b.isSome ∧ LoadsNothing a)
      (some <$> liftM (ModuleGraph.ofFiles root.dotted n (fs.map Path.dotted)))
      (some <$> liftM (ModuleGraph.ofFiles root n fs)) := by
  have hlooks : Plan.InStep {} t (fun g _ => ∀ p q, ¬ModuleGraph.Loads g p q)
      (ModuleGraph.ofFiles root.dotted n (fs.map Path.dotted)) (ModuleGraph.ofFiles root n fs) := by
    refine ⟨?_, ?_⟩
    · rw [(ModuleGraph.ofFiles_calls _ _ _).looks, (ModuleGraph.ofFiles_calls _ _ _).looks]
    · rw [ModuleGraph.run_ofFiles]
      exact ModuleGraph.not_loads_ofTree_dotted hb
  rw [← bind_pure_comp, ← bind_pure_comp]
  refine (Job.InStep.lift hlooks).bind fun g g' t h => .pure ⟨rfl, ?_⟩
  rintro _ ⟨⟩
  exact h

/-- A survey finds the same in either spelling, but for the modules that load others. -/
theorem ofRequest_dotted (hroot : r.root.IsBare) :
    Job.InStep {} t (fun a b => ∃ graph, graph.isSome = b.graph.isSome ∧ LoadsNothing graph ∧
      a = b.dotted graph) (ofRequest r.dotted) (ofRequest r) := by
  unfold ofRequest
  refine .during ((Job.scan_dotted hroot r.excluded).bind_looks (Job.scan_calls _ _) fun _ fs h hfs => ?_)
  subst h
  have hbare := Job.isBare_of_mem_scan hroot hfs
  have hscripts : ∀ p ∈ scripts r.options.naming fs, p.IsBare := fun p hp =>
    hbare p (List.mem_filter.1 hp).1
  have hend (e : Bool) (g g' : Option ModuleGraph) (h : g.isSome = g'.isSome ∧ LoadsNothing g)
      (t : FileTree) : Job.InStep {} t (fun a b => ∃ graph, graph.isSome = b.graph.isSome ∧
        LoadsNothing graph ∧ a = b.dotted graph)
      (do
        Job.tell (.embeddingChosen e)
        return (⟨fs.map Path.dotted, e, g⟩ : Survey))
      (do
        Job.tell (.embeddingChosen e)
        return (⟨fs, e, g'⟩ : Survey)) :=
    (Job.InStep.tell _ _).bind fun _ _ _ _ => .pure ⟨g, h.1, h.2, rfl⟩
  dsimp only
  rw [show r.dotted.options = r.options from rfl, scripts_dotted hbare]
  refine (Job.InStep.tell _ _).bind fun _ _ t _ => ?_
  refine (Job.InStep.lift (embedCss?_dotted hscripts)).bind fun e _ t he => ?_
  subst he
  split
  · exact (ofFiles_dotted hscripts).bind fun g g' t h => hend e g g' h t
  · refine (Job.InStep.pure (R := fun a b => a.isSome = b.isSome ∧ LoadsNothing a) ⟨rfl, ?_⟩).bind
      fun g g' t h => hend e g g' h t
    rintro _ ⟨⟩

end Survey

end SiteBuild
