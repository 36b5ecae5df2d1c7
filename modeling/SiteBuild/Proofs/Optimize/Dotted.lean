import SiteBuild.Proofs.FileTree.Dotted
import SiteBuild.Proofs.Optimize.Confinement
import SiteBuild.Proofs.Plan.InStep

/-! Work on files by paths with a dot in front. What is scanned keeps the dot and what scripts name is
spelled without it, so that the two never meet; where they need not meet, the work goes in step. -/

namespace SiteBuild

open FileTree

variable {t t' : FileTree} {d g p q : Path} {m : Minifier} {r : Request} {s : Setting} {n : Naming}
  {fs : List Path} {graph : Option ModuleGraph}

namespace Path

/-- A path of names only. -/
def IsNamed (p : Path) : Prop := ∃ n names, p.components = (n :: names).map Component.name

theorem IsNamed.isBare (hp : p.IsNamed) : p.IsBare := by
  obtain ⟨n, names, hc⟩ := hp
  exact isBare_of_components hc (isLevel_of_name (p := p) (by simp [hc]))

theorem IsNamed.resolve (hp : p.IsNamed) : Path.resolve p.components = p.components := by
  obtain ⟨n, names, hc⟩ := hp
  rw [hc]
  exact resolve_append_names [] (n :: names)

theorem resolve_normalize (p : Path) : Path.resolve p.normalize.components = p.normalize.components := by
  rw [components_normalize]
  obtain ⟨first, names, hc, hf⟩ := resolve_isPlain p
  rw [hc, resolve_append_names]
  rcases hf with rfl | rfl | rfl | rfl <;> rfl

theorem here_not_mem_normalize (p : Path) : .here ∉ p.normalize.components := by
  have hr := resolve_isResolved p
  rw [← components_normalize] at hr
  intro h
  cases hc : p.normalize.components with
  | nil => simp [hc] at h
  | cons c cs =>
    rw [hc] at hr h
    rcases List.mem_cons.1 h with rfl | h
    · exact hr.1.elim (by simp) not_isLevel_here
    · exact not_isLevel_here (hr.2 _ h)

/-- No dot is told by what a path is resolved to. -/
theorem not_same_dotted (hp : p.IsBare) (q : Path) : q.normalize.same p.dotted = false := by
  rw [same, decide_eq_false_iff_not, components_dotted hp]
  intro h
  exact here_not_mem_normalize q (h ▸ List.mem_cons_self)

end Path

theorem FileKind.classify_dotted (hp : p.IsBare) :
    FileKind.classify n p.dotted = FileKind.classify n p := by
  simp [FileKind.classify, FileKind.ofPath, Path.extension?, Path.fileName?_dotted hp]

/-- A specifier leads to one path from a file in either spelling. -/
theorem Path.resolveFrom_dotted {x : String} (hp : p.IsBare) (hx : p.fileName? = some x) :
    p.dotted.resolveFrom = p.resolveFrom :=
  funext (resolveFrom_congr ((fileName?_dotted hp).trans hx) hx (normalize_dotted hp))

theorem Embed.entryOf_dotted {x : String} (hp : p.IsBare) (hx : p.fileName? = some x) :
    Embed.entryOf n p.dotted = Embed.entryOf n p := by
  funext w
  simp only [Embed.entryOf, Path.resolveFrom_dotted hp hx]

theorem Embedded.ofFile_dotted {x : String} (hp : p.IsBare) (hx : p.fileName? = some x) (code : String) :
    Embedded.ofFile n p.dotted code = Embedded.ofFile n p code := by
  simp only [Embedded.ofFile, Embedded.proxiesRead, Embedded.ofModule, Embed.outcome,
    Embed.entryOf_dotted hp hx]

theorem Embedded.ofCode_dotted {x : String} {f : Path → Except IoError String} (hp : p.IsBare)
    (hx : p.fileName? = some x) (code : String) :
    Embedded.ofCode f n p.dotted code = Embedded.ofCode f n p code := by
  simp only [Embedded.ofCode, Embedded.ofModule, Embed.outcome, Embed.entryOf_dotted hp hx]

theorem Except.both_of_toOption {ε α : Type} {x y : Except ε α} (h : x.toOption = y.toOption) :
    Except.Both Eq x y := by
  cases x with
  | ok a =>
    cases y with
    | ok b => exact .ok (Option.some.inj h)
    | error e => cases h
  | error e =>
    cases y with
    | ok b => cases h
    | error e' => exact .error e e'

/-- A minifier that makes the same of a text however the path of its file is spelled. -/
def Minifier.IgnoresSpelling (m : Minifier) : Prop :=
  ∀ p q text, p.normalize = q.normalize →
    (m.script p text).toOption = (m.script q text).toOption ∧
      (m.style p text).toOption = (m.style q text).toOption

theorem Minifier.ignoresSpelling_standard : Minifier.standard.IgnoresSpelling := by
  intro p q text _
  refine ⟨?_, rfl⟩
  simp only [standard]
  cases Script.compact? text <;> rfl

namespace Job.InStep

theorem read_dotted (hp : p.IsBare) : InStep {} t Eq (Job.read p.dotted) (Job.read p) :=
  .read (FileTree.read_dotted hp)

theorem write_dotted (hp : p.IsBare) (text : String) :
    InStep {} t Eq (Job.write p.dotted text) (Job.write p text) :=
  .write (congrArg Prod.swap (FileTree.write_dotted hp text.toUTF8))

/-- Work on the text of a file. -/
theorem revise_dotted {α β : Type} {R : α → β → Prop} {f : String → Job (String × α)}
    {f' : String → Job (String × β)} (hp : p.IsBare)
    (h : ∀ text, t.read p = .ok text →
      InStep {} t (fun a b => a.1 = b.1 ∧ R a.2 b.2) (f text) (f' text)) :
    InStep {} t R (Job.revise p.dotted f) (Job.revise p f') := by
  refine (read_dotted hp).bind_result fun text text' ht hr => ?_
  subst ht
  rw [run_read] at hr ⊢
  obtain ⟨-, hr⟩ := FileTree.answer_read_of_ok (eq_ok_of_mapError hr)
  refine (h text hr).bind fun a b t hab => ?_
  obtain ⟨new, a⟩ := a
  obtain ⟨new', b⟩ := b
  obtain ⟨rfl, hab⟩ := hab
  dsimp only
  split
  · exact (write_dotted hp _).bind fun _ _ _ _ => .pure hab
  · exact .pure hab

end Job.InStep

/-- The result of a file whose path is spelled with a dot. -/
def FileResult.dotted (x : FileResult) : FileResult := ⟨x.file.dotted, x.css⟩

namespace Setting

variable {x : String}

/-- The setting with another graph. -/
def withGraph (s : Setting) (graph : Option ModuleGraph) : Setting := { s with graph }

@[simp] theorem minifier_withGraph : (s.withGraph graph).minifier = s.minifier := rfl

@[simp] theorem options_withGraph : (s.withGraph graph).options = s.options := rfl

@[simp] theorem embedCss_withGraph : (s.withGraph graph).embedCss = s.embedCss := rfl

theorem minifyScript_dotted (hm : s.minifier.IgnoresSpelling) (hp : g.IsBare) (code : String) :
    Except.Both Eq ((s.withGraph graph).minifyScript g.dotted code) (s.minifyScript g code) := by
  cases hs : s.options.minifyScripts with
  | true =>
    simp only [minifyScript, options_withGraph, minifier_withGraph, hs, if_true]
    exact Except.both_of_toOption (hm g.dotted g code (Path.normalize_dotted hp)).1
  | false =>
    simp only [minifyScript, options_withGraph, hs]
    exact .ok rfl

theorem minifyStyle_dotted (hm : s.minifier.IgnoresSpelling) (hp : g.IsBare) :
    Job.InStep {} t (fun _ _ => True) ((s.withGraph graph).minifyStyle g.dotted) (s.minifyStyle g) := by
  unfold minifyStyle
  simp only [options_withGraph, minifier_withGraph]
  refine .ite (fun _ => ?_) fun _ => .pure trivial
  refine (Job.InStep.read_dotted hp).bind fun text text' _ ht => ?_
  subst ht
  refine (Job.InStep.forM_tell _ _).bind fun _ _ _ _ => ?_
  have hstyle := Except.both_of_toOption (hm g.dotted g text (Path.normalize_dotted hp)).2
  refine (Job.InStep.ofExcept hstyle).bind fun new new' _ hnew => ?_
  subst hnew
  exact (Job.InStep.write_dotted hp new).mono fun _ _ _ => trivial

theorem optimizeScript_dotted (hm : s.minifier.IgnoresSpelling) (hp : g.IsBare)
    (hx : g.fileName? = some x) :
    Job.InStep {} t Eq ((s.withGraph graph).optimizeScript g.dotted) (s.optimizeScript g) := by
  unfold optimizeScript
  simp only [Embedded.ofFile_dotted hp hx, options_withGraph, embedCss_withGraph]
  have hrest (e e' : Embedded) (t : FileTree) (he : e = e') :
      Job.InStep {} t (fun a b => a.1 = b.1 ∧ a.2 = b.2)
        (do return (← Job.ofExcept ((s.withGraph graph).minifyScript g.dotted e.code), e.imports))
        (do return (← Job.ofExcept (s.minifyScript g e'.code), e'.imports)) := by
    subst he
    exact (Job.InStep.ofExcept (minifyScript_dotted hm hp e.code)).bind fun _ _ _ hc =>
      .pure ⟨hc, rfl⟩
  refine .ite (fun _ => Job.InStep.revise_dotted hp fun code _ => ?_) fun _ => .pure rfl
  exact .ite (fun _ => (Job.InStep.refl _).bind hrest) fun _ => (Job.InStep.refl _).bind hrest

theorem optimizePage_dotted (hp : g.IsBare) (hgraph : graph.isSome = s.graph.isSome)
    (hpage : ∀ text, t.read g = .ok text →
      (s.withGraph graph).linkPage g.dotted text = s.linkPage g text) :
    Job.InStep {} t (fun _ _ => True) ((s.withGraph graph).optimizePage g.dotted) (s.optimizePage g) := by
  have hpreload : (s.withGraph graph).preloadGraph.isSome = s.preloadGraph.isSome := by
    unfold preloadGraph
    rw [options_withGraph]
    split
    · exact hgraph
    · rfl
  unfold optimizePage
  simp only [hpreload, options_withGraph, embedCss_withGraph]
  refine .ite (fun _ => Job.InStep.revise_dotted hp fun text ht => ?_) fun _ => .pure trivial
  rw [hpage text ht]
  exact (Job.InStep.ofExcept (Except.Both.refl _)).bind fun _ _ _ hc => .pure ⟨hc, trivial⟩

/-- Work on one file goes in step if the file is no page or is linked alike. -/
theorem optimize_dotted (hm : s.minifier.IgnoresSpelling) (hp : g.IsBare) (hx : g.fileName? = some x)
    (hgraph : graph.isSome = s.graph.isSome)
    (hpage : FileKind.classify s.options.naming g = .page → ∀ text, t.read g = .ok text →
      (s.withGraph graph).linkPage g.dotted text = s.linkPage g text) :
    Job.InStep {} t (fun a b => a = b.dotted) ((s.withGraph graph).optimize g.dotted) (s.optimize g) := by
  unfold optimize
  simp only [options_withGraph, FileKind.classify_dotted hp]
  refine (Job.InStep.tell _ _).bind_result fun _ _ _ _ => ?_
  rw [Job.run_tell]
  cases hk : FileKind.classify s.options.naming g with
  | css =>
    refine (minifyStyle_dotted hm hp).bind fun _ _ _ _ => ?_
    exact .pure rfl
  | script =>
    refine (optimizeScript_dotted hm hp hx).bind fun es es' _ he => ?_
    subst he
    exact .pure rfl
  | page =>
    refine (optimizePage_dotted hp hgraph (hpage hk)).bind fun _ _ _ _ => ?_
    exact .pure rfl
  | cssProxy => exact .pure rfl
  | other => exact .pure rfl

/-- A tree in which the files that are still to be worked on are as they were. -/
structure Untouched (t : FileTree) (fs : List Path) (t' : FileTree) : Prop where
  isFile : ∀ g ∈ fs, t.IsFile g
  apart : fs.Pairwise t.Apart
  alike : t.Alike t'
  eq : ∀ g ∈ fs, ∀ k b, t.find g = .ok (k, .file b) → t'.node? k = t.node? k

theorem Untouched.read (h : Untouched t fs t') (hg : g ∈ fs) : t'.read g = t.read g := by
  obtain ⟨k, b, hf⟩ := h.isFile g hg
  refine (h.alike.read fun j x ht => ?_).symm
  obtain ⟨-, -, i, y, rfl, ht'⟩ := find_eq_file.1 hf
  rw [ht] at ht'
  cases ht'
  exact (h.eq g hg _ b hf).symm

/-- Work on a file changes nothing but that file. -/
theorem run_optimize_others {k : Place} {b : ByteArray} (hf : t.find g = .ok (k, .file b)) :
    let left := ((s.optimize g).attempt.run {} t).tree
    t.Alike left ∧ ∀ j, j ≠ k → left.node? j = t.node? j := by
  have hcalls : (s.optimize g).attempt.Calls (WritesOnly [g]) :=
    (optimize_calls (P := WritesOnly [g]) (fun _ => trivial) trivial (fun _ _ _ => trivial)
      fun _ _ => List.mem_singleton_self g).attempt
  refine hcalls.keeps (I := fun t' => t.Alike t' ∧ ∀ j, j ≠ k → t'.node? j = t.node? j)
    (fun t' c hc h => ?_) ⟨.refl t, fun _ _ => rfl⟩
  cases c with
  | write p text =>
    obtain rfl := List.mem_singleton.1 hc
    obtain ⟨b', hf'⟩ := h.1.find_file hf
    rcases answer_write_of_find (o := {}) hf' text with ⟨ht, -⟩ | ⟨-, -, ht⟩
    · rw [ht]
      exact h
    · refine ⟨h.1.trans (alike_of_rewritten hf' ht), fun j hj => ?_⟩
      rw [ht, if_neg hj]
      exact h.2 j hj
  | read p =>
    rw [answer_read_tree]
    exact h
  | remove p => cases hc
  | inspect p => exact h
  | isThere p => exact h
  | isDirectory p => exact h
  | list p => exact h
  | tell e => exact h
  | now => exact h

theorem Untouched.optimize (h : Untouched t (g :: fs) t') :
    Untouched t fs ((s.optimize g).attempt.run {} t').tree := by
  obtain ⟨hg, hfs⟩ := List.pairwise_cons.1 h.apart
  obtain ⟨k, b, hf⟩ := h.isFile g List.mem_cons_self
  obtain ⟨b', hf'⟩ := h.alike.find_file hf
  obtain ⟨halike, hothers⟩ := run_optimize_others (s := s) hf'
  refine ⟨fun q hq => h.isFile q (List.mem_cons_of_mem _ hq), hfs, h.alike.trans halike, ?_⟩
  intro q hq j c hj
  have hne : j ≠ k := by
    rintro rfl
    exact hg q hq _ _ _ hf hj
  rw [hothers j hne]
  exact h.eq q (List.mem_cons_of_mem _ hq) j c hj

/-- What becomes of a file in one spelling and in the other. -/
def Respelled : Except Failure FileResult → Except Failure FileResult → Prop
  | .ok x, .ok y => x = y.dotted
  | .error e, .error f => e.file = f.file.dotted
  | _, _ => False

theorem optimizeAll_dotted (hm : s.minifier.IgnoresSpelling) (hgraph : graph.isSome = s.graph.isSome)
    (hb : ∀ g ∈ fs, g.IsBare) (hf : ∀ g ∈ fs, t.IsFile g) (ha : fs.Pairwise t.Apart)
    (hpage : ∀ g ∈ fs, FileKind.classify s.options.naming g = .page → ∀ text, t.read g = .ok text →
      (s.withGraph graph).linkPage g.dotted text = s.linkPage g text) :
    Plan.InStep {} t (List.Forall₂ Respelled) ((s.withGraph graph).optimizeAll (fs.map Path.dotted))
      (s.optimizeAll fs) := by
  refine .during (.mapM (I := fun left t' => left ⊆ fs ∧ Untouched t left t')
    (fun g left t' h => ?_) ⟨fun _ h => h, hf, ha, .refl t, fun _ _ _ _ _ => rfl⟩)
  obtain ⟨hsub, hun⟩ := h
  have hg := hsub List.mem_cons_self
  obtain ⟨x, hx⟩ := (hf g hg).exists_fileName?
  have hstep : Job.InStep {} t' (fun a b => a = b.dotted) ((s.withGraph graph).optimize g.dotted)
      (s.optimize g) :=
    optimize_dotted hm (hb g hg) hx hgraph fun hk text ht =>
      hpage g hg hk text (hun.read List.mem_cons_self ▸ ht)
  have hleft : Untouched t left
      ((do return (← (s.optimize g).attempt).mapError (⟨g, ·⟩) :
        Plan (Except Failure FileResult)).run {} t').tree := by
    rw [Plan.run_bind]
    exact hun.optimize
  refine ⟨?_, fun q hq => hsub (List.mem_cons_of_mem _ hq), hleft⟩
  refine hstep.attempt.bind fun a b _ hab => .done ?_
  cases hab with
  | ok hab => exact hab
  | error e e' => exact rfl

theorem minifyProxies_dotted (hm : s.minifier.IgnoresSpelling) (hb : ∀ p ∈ fs, p.IsBare) :
    Plan.InStep {} t (fun a b => a.map Failure.file = (b.map Failure.file).map Path.dotted)
      ((s.withGraph graph).minifyProxies (fs.map Path.dotted)) (s.minifyProxies fs) := by
  induction fs generalizing t with
  | nil => exact .done rfl
  | cons p fs ih =>
    obtain ⟨hp, hfs⟩ := List.forall_mem_cons.1 hb
    have hstep : Job.InStep {} t (fun _ _ => True) ((s.withGraph graph).minifyProxy p.dotted)
        (s.minifyProxy p) := by
      refine Job.InStep.revise_dotted hp fun code _ => ?_
      have hscript := Except.both_of_toOption (hm p.dotted p code (Path.normalize_dotted hp)).1
      exact (Job.InStep.ofExcept hscript).bind fun _ _ _ hc => .pure ⟨hc, trivial⟩
    rw [List.map_cons]
    unfold minifyProxies
    refine hstep.attempt.bind fun a b t hab => ?_
    cases hab with
    | ok _ => exact ih hfs
    | error e e' =>
      refine Plan.InStep.bind (R := fun _ _ => True) ⟨rfl, trivial⟩ fun _ _ t _ => ?_
      exact (ih hfs).bind fun a b _ h => .done (congrArg (p.dotted :: ·) h)

/-- All proxies are unused where no stylesheet that a script has embedded has one of them. -/
theorem unusedProxies_dotted {rs : List FileResult} (hb : ∀ y ∈ rs, y.file.IsBare)
    (hn : ∀ e ∈ rs.flatMap FileResult.css, ∃ q : Path, e.proxy = q.normalize)
    (hcss : ∀ e ∈ rs.flatMap FileResult.css, ∀ y ∈ rs, y.file.same e.proxy = false) :
    (s.withGraph graph).unusedProxies (rs.map FileResult.dotted) =
      (s.unusedProxies rs).map Path.dotted := by
  have hfiles : (rs.map FileResult.dotted).map FileResult.file =
      (rs.map FileResult.file).map Path.dotted := by
    simp [FileResult.dotted, Function.comp_def]
  have hused : (rs.map FileResult.dotted).flatMap FileResult.css = rs.flatMap FileResult.css := by
    simp [FileResult.dotted, List.flatMap_map]
  unfold unusedProxies
  simp only [hfiles, hused, options_withGraph, List.filter_map]
  refine congrArg (fun ys => (ys.map FileResult.file).map Path.dotted) (List.filter_congr fun y hy => ?_)
  have hkind : FileKind.classify s.options.naming y.file.dotted =
      FileKind.classify s.options.naming y.file := FileKind.classify_dotted (hb y hy)
  have hnone : ((rs.flatMap FileResult.css).map CssEntry.proxy).any y.file.same = false := by
    rw [List.any_eq_false]
    intro q hq
    obtain ⟨e, he, rfl⟩ := List.mem_map.1 hq
    simp [hcss e he y hy]
  have hnone' : ((rs.flatMap FileResult.css).map CssEntry.proxy).any y.file.dotted.same = false := by
    rw [List.any_eq_false]
    intro q hq
    obtain ⟨e, he, rfl⟩ := List.mem_map.1 hq
    obtain ⟨q, hq⟩ := hn e he
    have hno := Path.not_same_dotted (hb y hy) q
    simp only [Path.same, decide_eq_false_iff_not] at hno
    rw [hq]
    simpa [Path.same] using Ne.symm hno
  simp only [Function.comp_apply, hkind, hnone, hnone']

end Setting

end SiteBuild
