import SiteBuild.Optimize.File
import SiteBuild.Proofs.Path.Resolution
import SiteBuild.Proofs.Plan.Calls

/-! Embedding as a run: it looks into the proxies whose maps it needs, and gives what embedding with
the texts of the tree gives. -/

namespace SiteBuild

variable {o : Outages} {t : FileTree} {n : Naming} {file : Path}

/-- A specifier of a proxy is that of its stylesheet with the suffix behind it. -/
theorem Naming.actual_of_isCssProxy {s : String} (h : n.isCssProxy s = true) :
    n.cssExtension.toList <:+ (n.actual s).toList ∧ n.actual s ++ n.proxySuffix = s := by
  obtain ⟨front, hfront⟩ := List.isSuffixOf_iff_suffix.1 h
  have hs : s.toList = (front ++ n.cssExtension.toList) ++ n.proxySuffix.toList := by
    rw [← hfront, Naming.cssProxySuffix, String.toList_append, List.append_assoc]
  have hactual : n.actual s = String.ofList (front ++ n.cssExtension.toList) := by
    rw [Naming.actual, hs, Text.before?_append]
    rfl
  rw [hactual]
  refine ⟨?_, String.toList_inj.1 ?_⟩
  · rw [String.toList_ofList]
    exact List.suffix_append _ _
  · rw [String.toList_append, String.toList_ofList, hs]

theorem Plan.run_inspectAll (o : Outages) (t : FileTree) (ps : List Path) :
    ((Plan.inspectAll ps).run o t).result = ps.map (fun p => ⟨p, t.read p⟩) ∧
      ((Plan.inspectAll ps).run o t).tree = t := by
  unfold Plan.inspectAll
  induction ps with
  | nil => exact ⟨rfl, rfl⟩
  | cons p ps ih =>
    rw [Plan.run_mapM_cons]
    exact ⟨congrArg (⟨p, t.read p⟩ :: ·) ih.1, ih.2⟩

/-- Of readings of a tree, the one of a path that no other spelling of it comes before. -/
theorem Reading.find_map {ps : List Path} {p : Path} (hp : p ∈ ps)
    (h : ∀ q ∈ ps, q.same p → q = p) :
    Reading.find (ps.map fun q => ⟨q, t.read q⟩) p = t.read p := by
  unfold Reading.find
  induction ps with
  | nil => cases hp
  | cons q ps ih =>
    rw [List.map_cons, List.find?_cons]
    by_cases hq : q.same p = true
    · rw [h q List.mem_cons_self hq]
      simp
    · simp only [hq]
      refine ih ?_ fun q hq => h q (List.mem_cons_of_mem _ hq)
      rcases List.mem_cons.1 hp with rfl | hp
      · simp at hq
      · exact hp

namespace Embed

variable {f g : Path → Except IoError String} {d : Script.Dependency}

theorem proxy_entryOf (n : Naming) (file : Path) (s : String) :
    (entryOf n file s).proxy = file.resolveFrom s := by
  simp only [entryOf]

theorem actual_entryOf (n : Naming) (file : Path) (s : String) :
    (entryOf n file s).actual = file.resolveFrom (n.actual s) := by
  simp only [entryOf]

theorem outcome_congr (h : needsMap n d = true →
    f (entryOf n file (String.ofList d.specifier)).proxy =
      g (entryOf n file (String.ofList d.specifier)).proxy) :
    outcome f n file d = outcome g n file d := by
  unfold outcome
  simp only
  split
  · rfl
  · next hp =>
    split
    · rfl
    · next hb =>
      split
      · next hm =>
        have hn : needsMap n d = true := by
          simp only [Bool.not_eq_true', Bool.not_eq_false] at hp
          simp only [needsMap]
          simp_all
        rw [h hn]
      · rfl

theorem entry_of_outcome {x : Outcome} {i : CssEntry} (h : outcome f n file d = .ok x)
    (hi : x.entry? = some i) :
    n.isCssProxy (String.ofList d.specifier) = true ∧
      i = entryOf n file (String.ofList d.specifier) := by
  unfold outcome at h
  simp only at h
  split at h
  · cases h
    cases hi
  · next hp =>
    have hp : n.isCssProxy (String.ofList d.specifier) = true := by
      simp only [Bool.not_eq_true', Bool.not_eq_false, Bool.and_eq_true] at hp
      exact hp.2
    refine ⟨hp, ?_⟩
    split at h
    · cases h
      exact (Option.some.inj hi).symm
    · split at h
      · split at h
        · cases h
          split at hi
          · exact (Option.some.inj hi).symm
          · cases hi
        · cases h
          cases hi
        · cases h
      · cases h
        exact (Option.some.inj hi).symm

end Embed

namespace Embedded

theorem mem_proxiesRead {m : Script.Module} {p : Path} :
    p ∈ proxiesRead n file m ↔ ∃ d ∈ m.parts.map Prod.fst, Embed.needsMap n d = true ∧
      file.resolveFrom (String.ofList d.specifier) = p := by
  simp [proxiesRead, Embed.entryOf, and_assoc]

theorem mapM_congr {ε α β : Type} {f g : α → Except ε β} {l : List α} (h : ∀ a ∈ l, f a = g a) :
    l.mapM f = l.mapM g := by
  induction l with
  | nil => rfl
  | cons a l ih =>
    rw [List.mapM_cons, List.mapM_cons, h a List.mem_cons_self,
      ih fun b hb => h b (List.mem_cons_of_mem _ hb)]

theorem ofModule_congr {f g : Path → Except IoError String} {m : Script.Module}
    (h : ∀ p ∈ proxiesRead n file m, f p = g p) : ofModule f n file m = ofModule g n file m := by
  unfold ofModule
  rw [mapM_congr]
  rintro ⟨d, code⟩ hd
  simp only
  rw [Embed.outcome_congr]
  intro hn
  rw [Embed.proxy_entryOf]
  exact h _ (mem_proxiesRead.2 ⟨d, List.mem_map_of_mem hd, hn, rfl⟩)

theorem find_proxiesRead {m : Script.Module} {p : Path} (hp : p ∈ proxiesRead n file m) :
    Reading.find ((proxiesRead n file m).map fun q => ⟨q, t.read q⟩) p = t.read p := by
  refine Reading.find_map hp fun q hq hs => ?_
  obtain ⟨d, -, -, rfl⟩ := mem_proxiesRead.1 hp
  obtain ⟨e, -, -, rfl⟩ := mem_proxiesRead.1 hq
  exact Path.eq_of_same_resolveFrom hs

theorem mem_of_mapM {ε α β : Type} {f : α → Except ε β} {l : List α} {bs : List β}
    (h : l.mapM f = .ok bs) {b : β} (hb : b ∈ bs) : ∃ a ∈ l, f a = .ok b := by
  induction l generalizing bs with
  | nil =>
    cases h
    cases hb
  | cons a l ih =>
    rw [List.mapM_cons] at h
    cases ha : f a with
    | error e =>
      rw [ha] at h
      cases h
    | ok c =>
      cases hl : l.mapM f with
      | error e =>
        rw [ha, hl] at h
        cases h
      | ok cs =>
        rw [ha, hl] at h
        cases h
        rcases List.mem_cons.1 hb with rfl | hb
        · exact ⟨a, List.mem_cons_self, ha⟩
        · obtain ⟨x, hx, hf⟩ := ih hl hb
          exact ⟨x, List.mem_cons_of_mem _ hx, hf⟩

/-- Each stylesheet that was embedded is named by a specifier that stands for a proxy. -/
theorem mem_imports {f : Path → Except IoError String} {code : String} {e : Embedded} {i : CssEntry}
    (h : ofCode f n file code = .ok e) (hi : i ∈ e.imports) :
    ∃ s, n.isCssProxy s = true ∧ i = Embed.entryOf n file s := by
  unfold ofCode at h
  split at h
  · cases h
  · next m _ =>
    unfold ofModule at h
    cases hp : m.parts.mapM (fun p => do
        return (← Embed.outcome f n file p.1, p.1, p.2) : _ → Except IoError _) with
    | error x =>
      rw [hp] at h
      cases h
    | ok parts =>
      rw [hp] at h
      cases h
      obtain ⟨⟨x, d, c⟩, hx, hi⟩ := List.mem_filterMap.1 hi
      obtain ⟨⟨d', c'⟩, -, hd⟩ := mem_of_mapM hp hx
      cases ho : Embed.outcome f n file d' with
      | error y =>
        rw [ho] at hd
        cases hd
      | ok y =>
        rw [ho] at hd
        cases hd
        obtain ⟨hs, he⟩ := Embed.entry_of_outcome ho hi
        exact ⟨_, hs, he⟩

/-- Embedding changes nothing on the tree, and gives what the texts there say. -/
theorem run_ofFile (o : Outages) (t : FileTree) (n : Naming) (file : Path) (code : String) :
    ((ofFile n file code).attempt.run o t).result = ofCode t.read n file code ∧
      ((ofFile n file code).attempt.run o t).tree = t := by
  unfold ofFile ofCode
  cases Script.Module.read? code.toList with
  | none => exact ⟨rfl, rfl⟩
  | some m =>
    have hl := Job.run_lift (o := o) (t := t) (Plan.inspectAll (proxiesRead n file m))
    obtain ⟨hr, ht⟩ := Plan.run_inspectAll o t (proxiesRead n file m)
    rw [hr, ht] at hl
    simp only
    rw [Job.run_bind_of_ok (by rw [hl]), hl]
    simp only [Job.run_ofExcept]
    rw [ofModule_congr fun p hp => find_proxiesRead hp]
    exact ⟨rfl, trivial⟩

end Embedded

end SiteBuild
