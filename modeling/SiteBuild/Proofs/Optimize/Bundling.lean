import SiteBuild.Proofs.ModuleGraph.Walk
import SiteBuild.Proofs.Optimize.Styles
import SiteBuild.Proofs.Plan.Accesses

/-! The combined stylesheet is made of each stylesheet once. What comes first stays first, for the order
of the texts decides which rule wins, and what is imported again adds nothing. -/

namespace SiteBuild

variable {o : Outages} {t : FileTree}

namespace Path

variable {p : Path} {seen seen' ps : List Path}

/-- The paths of a list with none in front of them that is the same, there or among those seen. -/
def firsts (seen ps : List Path) : List Path :=
  ((ps.zip ps.inits).filter fun x => !(seen ++ x.2).any x.1.same).map Prod.fst

theorem firsts_cons (seen : List Path) (p : Path) (ps : List Path) :
    firsts seen (p :: ps) =
      if seen.any p.same then firsts (seen ++ [p]) ps else p :: firsts (seen ++ [p]) ps := by
  have hrest : ((ps.zip (ps.inits.map (p :: ·))).filter fun x => !(seen ++ x.2).any x.1.same).map
      Prod.fst = firsts (seen ++ [p]) ps := by
    rw [List.zip_map_right, List.filter_map, List.map_map]
    simp only [firsts, Function.comp_def, Prod.map, id_eq, List.append_assoc, List.singleton_append]
  unfold firsts at hrest ⊢
  rw [← hrest, List.inits, List.zip_cons_cons, List.filter_cons, List.append_nil]
  cases seen.any p.same <;> rfl

/-- Of what was seen it does not matter in which order and how it is spelled. -/
theorem firsts_congr (h : ∀ q : Path, seen.any q.same = seen'.any q.same) (ps : List Path) :
    firsts seen ps = firsts seen' ps := by
  unfold firsts
  simp only [List.any_append, h]

/-- A path that is the same as one that was seen was seen itself. -/
theorem firsts_seen (h : seen.any p.same = true) (ps : List Path) :
    firsts (seen ++ [p]) ps = firsts seen ps := by
  refine firsts_congr (fun q => ?_) ps
  rw [List.any_append, Bool.eq_iff_iff, Bool.or_eq_true]
  refine ⟨fun hq => hq.elim id fun hq => ?_, .inl⟩
  have hsame : q.same p = true := by simpa using hq
  exact any_same.2 ((any_same.1 h).of_same hsame)

/-- The paths that come first are found by going through the list with those that were seen. -/
theorem firsts_cons_eq (seen : List Path) (p : Path) (ps : List Path) :
    firsts seen (p :: ps) = if seen.any p.same then firsts seen ps else p :: firsts (p :: seen) ps := by
  have hfront : firsts (p :: seen) ps = firsts (seen ++ [p]) ps :=
    firsts_congr (fun q => by simp [Bool.or_comm]) ps
  rw [firsts_cons, hfront]
  split
  · next h => exact firsts_seen h ps
  · rfl

theorem not_isAmong_of_mem_firsts (h : p ∈ firsts seen ps) : ¬p.IsAmong seen := by
  obtain ⟨x, hx, rfl⟩ := List.mem_map.1 h
  have hnone := (List.mem_filter.1 hx).2
  rw [List.any_append, Bool.not_eq_true', Bool.or_eq_false_iff] at hnone
  exact any_same_eq_false.1 hnone.1

/-- No two of the paths that are kept are the same. -/
theorem firsts_pairwise (seen ps : List Path) :
    (firsts seen ps).Pairwise fun p q => p.same q = false := by
  induction ps generalizing seen with
  | nil => exact .nil
  | cons p ps ih =>
    rw [firsts_cons]
    split
    · exact ih _
    · refine List.pairwise_cons.2 ⟨fun q hq => ?_, ih _⟩
      rw [Bool.eq_false_iff]
      intro hsame
      exact not_isAmong_of_mem_firsts hq ⟨p, by simp, same_symm hsame⟩

/-- Every path of a list is the same as one that is kept, or as one that was seen. -/
theorem isAmong_firsts (hp : p ∈ ps) : p.IsAmong seen ∨ p.IsAmong (firsts seen ps) := by
  induction ps generalizing seen with
  | nil => cases hp
  | cons a ps ih =>
    have hrest : p = a ∨ p.IsAmong (firsts (seen ++ [a]) ps) ∨ p.IsAmong (seen ++ [a]) :=
      (List.mem_cons.1 hp).imp_right fun hp => (ih hp).symm
    rw [firsts_cons]
    split
    · next hseen =>
      have ha := any_same.1 hseen
      rcases hrest with rfl | hkept | hbefore
      · exact .inl ha
      · exact .inr hkept
      · refine .inl ((isAmong_append.1 hbefore).elim id fun h => ?_)
        obtain ⟨b, hb, hsame⟩ := h
        exact ha.of_same (List.mem_singleton.1 hb ▸ hsame)
    · rcases hrest with rfl | hkept | hbefore
      · exact .inr (isAmong_of_mem List.mem_cons_self)
      · exact .inr (hkept.mono (List.subset_cons_self _ _))
      · refine (isAmong_append.1 hbefore).imp_right fun h => h.mono ?_
        exact List.cons_subset_cons a (List.nil_subset _)

end Path

namespace FileResult

variable {seen : List Path} {es fs : List CssEntry}

/-- The distinct stylesheets are those whose paths come first. -/
theorem map_actual_distinct (seen : List Path) (es : List CssEntry) :
    (distinct seen es).map CssEntry.actual = Path.firsts seen (es.map CssEntry.actual) := by
  induction es generalizing seen with
  | nil => rfl
  | cons e es ih =>
    rw [distinct, List.map_cons, Path.firsts_cons_eq]
    by_cases hseen : seen.any e.actual.same = true
    · rw [if_pos hseen, if_pos hseen, ih]
    · rw [if_neg hseen, if_neg hseen, List.map_cons, ih]

theorem distinct_of_seen {extra : List CssEntry} (h : ∀ e ∈ extra, e.actual.IsAmong seen) :
    distinct seen (extra ++ es) = distinct seen es := by
  induction extra with
  | nil => rfl
  | cons e extra ih =>
    rw [List.cons_append, distinct, if_pos (Path.any_same.2 (h e List.mem_cons_self))]
    exact ih fun d hd => h d (List.mem_cons_of_mem _ hd)

/-- Stylesheets that came before add nothing, wherever they are imported again. -/
theorem distinct_again {extra : List CssEntry}
    (h : ∀ e ∈ extra, e.actual.IsAmong (seen ++ es.map CssEntry.actual)) :
    distinct seen (es ++ (extra ++ fs)) = distinct seen (es ++ fs) := by
  induction es generalizing seen with
  | nil => exact distinct_of_seen (by simpa using h)
  | cons a es ih =>
    rw [List.cons_append, List.cons_append, distinct, distinct]
    split
    · next hseen =>
      refine ih fun e he => ?_
      have ha := Path.any_same.1 hseen
      rcases Path.isAmong_append.1 (h e he) with hs | ⟨p, hp, hsame⟩
      · exact Path.isAmong_append.2 (.inl hs)
      · refine Path.isAmong_append.2 ?_
        rcases List.mem_cons.1 hp with rfl | hp
        · exact .inl (ha.of_same hsame)
        · exact .inr ⟨p, hp, hsame⟩
    · refine congrArg _ (ih fun e he => (h e he).mono ?_)
      intro p hp
      simpa [or_left_comm] using hp

/-- The texts that are answered where some stylesheets are read. -/
def textsOf (o : Outages) (t : FileTree) (ps : List Path) : List String :=
  ps.filterMap fun p => (t.answer o (.read p)).1.toOption

/-- Each of some stylesheets is read, and those that cannot be read are left out. -/
theorem run_sources (o : Outages) (t : FileTree) (es : List CssEntry) :
    ((sources es).run o t).accesses =
        (es.map CssEntry.actual).map (fun p => ⟨.read p, (t.answer o (.read p)).1⟩) ∧
      ((sources es).run o t).result = textsOf o t (es.map CssEntry.actual) := by
  induction es with
  | nil => exact ⟨rfl, rfl⟩
  | cons e es ih =>
    have hread : (Job.read e.actual).attempt.run o t = ⟨(t.answer o (.read e.actual)).1.mapError .io,
      t, [⟨.read e.actual, (t.answer o (.read e.actual)).1⟩]⟩ := Job.run_read e.actual
    obtain ⟨haccesses, hresult⟩ := ih
    unfold sources
    rw [Plan.accesses_bind, Plan.run_bind, Job.accesses_read, hread]
    unfold textsOf at hresult ⊢
    rw [List.map_cons, List.map_cons]
    cases hx : (t.answer o (.read e.actual)).1 with
    | ok text =>
      rw [List.filterMap_cons_some (b := text) (by rw [hx]; rfl)]
      dsimp only [Except.mapError]
      rw [Plan.accesses_bind, Plan.run_bind, haccesses]
      simp [hresult]
    | error f =>
      rw [List.filterMap_cons_none (by rw [hx]; rfl)]
      dsimp only [Except.mapError]
      rw [Plan.accesses_bind, Plan.run_bind, Plan.run_tell, haccesses, hresult]
      simp

theorem accesses_combine (target : Path) (rs : List FileResult) :
    ((combine target rs).run o t).accesses = ((sources (uniqueCss rs)).run o t).accesses := by
  unfold combine
  rw [Plan.accesses_bind]
  dsimp only
  split
  · simp
  · have htold (es : List Event) : (es.forM Plan.tell).Calls fun c => c.isAccess = false :=
      .forM fun e _ => .ask (c := .tell e) rfl
    rw [Plan.accesses_during, Plan.accesses_bind, (htold _).accesses_eq_nil]
    simp

/-- What it comes to that the stylesheets at some paths are put together. -/
structure Bundles (o : Outages) (t : FileTree) (ps : List Path) (x : Run (Option String)) : Prop where
  reads : x.accesses = ps.map fun p => ⟨.read p, (t.answer o (.read p)).1⟩
  none_iff : x.result = none ↔ ∀ text ∈ textsOf o t ps, ∀ c ∈ text.toList, Text.isBlank c = true
  some : x.result ≠ none →
    x.result = some (Stylesheet.render true (Stylesheet.bundle (textsOf o t ps)))
  tree : x.tree = t

theorem bundles_combine (target : Path) (rs : List FileResult) :
    Bundles o t (Path.firsts [] ((rs.flatMap css).map CssEntry.actual))
      ((combine target rs).run o t) := by
  have hpaths : (uniqueCss rs).map CssEntry.actual =
      Path.firsts [] ((rs.flatMap css).map CssEntry.actual) := map_actual_distinct [] _
  obtain ⟨haccesses, hresult⟩ := run_sources o t (uniqueCss rs)
  rw [hpaths] at haccesses hresult
  have htext := combine_result (o := o) (t := t) target rs
  simp only [hresult] at htext
  refine ⟨(accesses_combine target rs).trans haccesses, ?_, fun hsome => ?_,
    (combine_calls target rs).looks⟩
  · rw [htext]
    simp
  · rw [htext] at hsome ⊢
    split at hsome
    · exact absurd rfl hsome
    · next hblank => rw [if_neg hblank]

/-- The stylesheets that some results have embedded are read once each, in the order in which they come
first, and what can be read of them is put together in this order. To import one again changes nothing. -/
theorem combine_bundles (o : Outages) (t : FileTree) (target : Path) (rs : List FileResult) :
    let paths := (rs.flatMap css).map CssEntry.actual
    Bundles o t (Path.firsts [] paths) ((combine target rs).run o t) ∧
      (Path.firsts [] paths).Pairwise (fun p q => p.same q = false) ∧
      (∀ p ∈ paths, p.IsAmong (Path.firsts [] paths)) ∧
      ∀ (rs' : List FileResult) (es extra fs : List CssEntry), rs.flatMap css = es ++ fs →
        rs'.flatMap css = es ++ (extra ++ fs) →
        (∀ e ∈ extra, e.actual.IsAmong (es.map CssEntry.actual)) →
        combine target rs' = combine target rs := by
  refine ⟨bundles_combine target rs, Path.firsts_pairwise [] _, fun p hp => ?_, ?_⟩
  · exact (Path.isAmong_firsts hp).resolve_left fun ⟨_, hq, _⟩ => List.not_mem_nil hq
  · intro rs' es extra fs hrs hrs' hextra
    have hunique : uniqueCss rs' = uniqueCss rs := by
      unfold uniqueCss
      rw [hrs, hrs']
      exact distinct_again (by simpa using hextra)
    unfold combine
    rw [hunique]

namespace Again

def base : CssEntry := ⟨⟨"build/base.css"⟩, ⟨"build/base.css.proxy.js"⟩⟩

def theme : CssEntry := ⟨⟨"build/theme.css"⟩, ⟨"build/theme.css.proxy.js"⟩⟩

/-- The first stylesheet by another spelling. -/
def respelled : CssEntry := ⟨⟨"build/./base.css"⟩, ⟨"build/base.css.proxy.js"⟩⟩

def once : List FileResult := [⟨⟨"build/app.js"⟩, [base, theme]⟩]

def twice : List FileResult := once ++ [⟨⟨"build/main.js"⟩, [respelled, theme]⟩]

theorem combine_twice :
    combine ⟨"build/all.css"⟩ twice = combine ⟨"build/all.css"⟩ once := by
  have hseen : ∀ e ∈ [respelled, theme], e.actual.IsAmong [base.actual, theme.actual] := by
    intro e he
    rcases List.mem_cons.1 he with rfl | he
    · exact ⟨base.actual, by simp, by decide⟩
    · obtain rfl := List.mem_singleton.1 he
      exact Path.isAmong_of_mem (by simp)
  exact (combine_bundles {} .empty ⟨"build/all.css"⟩ once).2.2.2 twice [base, theme]
    [respelled, theme] [] rfl rfl hseen

end Again

end FileResult

end SiteBuild
