import SiteBuild.Proofs.Optimize.Clearing

/-! The end of a run: one stylesheet for all that were embedded, and then what it stands for goes. -/

namespace SiteBuild

open FileTree

variable {o : Outages} {t : FileTree}

namespace FileResult

theorem distinct_subset {seen : List Path} {es : List CssEntry} : distinct seen es ⊆ es := by
  induction es generalizing seen with
  | nil => exact fun _ h => h
  | cons e es ih =>
    unfold distinct
    split
    · exact fun x hx => List.mem_cons_of_mem _ (ih hx)
    · exact List.cons_subset_cons e ih

/-- Every stylesheet is among the distinct ones, unless it was seen before. -/
theorem exists_distinct {seen : List Path} {es : List CssEntry} {e : CssEntry} (he : e ∈ es) :
    seen.any e.actual.same = true ∨ ∃ x ∈ distinct seen es, e.actual.same x.actual = true := by
  induction es generalizing seen with
  | nil => cases he
  | cons d es ih =>
    unfold distinct
    split
    · next hd =>
      rcases List.mem_cons.1 he with rfl | he
      · exact .inl hd
      · exact ih he
    · rcases List.mem_cons.1 he with rfl | he
      · exact .inr ⟨e, List.mem_cons_self, Path.same_self _⟩
      · rcases @ih (d.actual :: seen) he with h | ⟨x, hx, h⟩
        · rw [List.any_cons, Bool.or_eq_true] at h
          rcases h with h | h
          · exact .inr ⟨d, List.mem_cons_self, h⟩
          · exact .inl h
        · exact .inr ⟨x, List.mem_cons_of_mem _ hx, h⟩

theorem mem_uniqueCss {rs : List FileResult} {e : CssEntry} (he : e ∈ rs.flatMap css) :
    ∃ x ∈ uniqueCss rs, e.actual.same x.actual = true :=
  (exists_distinct he).resolve_left (by simp)

theorem sources_calls (es : List CssEntry) : (sources es).Calls Looks := by
  induction es with
  | nil => exact .done []
  | cons e es ih =>
    refine Plan.Calls.bind (Job.Calls.read (P := Looks) trivial).attempt fun x => ?_
    cases x with
    | ok text => exact ih.bind fun _ => .done _
    | error f => exact (Plan.Calls.ask trivial).bind fun _ => ih

/-- The sources are the stylesheets that can be read. -/
theorem mem_sources {es : List CssEntry} {text : String} :
    text ∈ ((sources es).run o t).result ↔
      ∃ e ∈ es, o.read e.actual = none ∧ t.read e.actual = .ok text := by
  induction es with
  | nil => simp [sources]
  | cons e es ih =>
    have hr : (Job.read e.actual).attempt.run o t =
      ⟨(t.answer o (.read e.actual)).1.mapError .io, t, _⟩ := Job.run_read e.actual
    unfold sources
    rw [Plan.run_bind, hr]
    simp only [answer]
    cases ho : o.read e.actual with
    | some x =>
      have : ((Plan.tell (.styleSkipped e.actual (.io x)) >>= fun _ => sources es).run o t).result =
        ((sources es).run o t).result := rfl
      simp only [Except.mapError]
      rw [this, ih]
      simp [ho]
    | none =>
      cases ht : t.read e.actual with
      | error x =>
        have : ((Plan.tell (.styleSkipped e.actual (.io x)) >>= fun _ => sources es).run o t).result =
          ((sources es).run o t).result := rfl
        simp only [Except.mapError]
        rw [this, ih]
        simp [ht]
      | ok s =>
        simp only [Except.mapError]
        rw [Plan.run_bind]
        simp only [Plan.run_pure, List.mem_cons, ih]
        simp [ho, ht, eq_comm]

theorem combine_calls (target : Path) (rs : List FileResult) : (combine target rs).Calls Looks := by
  refine (sources_calls _).bind fun texts => ?_
  split
  · exact .done none
  · refine .during (fun _ => trivial) (Plan.Calls.bind ?_ fun _ => .done _)
    exact .forM fun _ _ => .ask trivial

/-- The combined stylesheet is made of the sources, if one of them holds anything. -/
theorem combine_result (target : Path) (rs : List FileResult) :
    ((combine target rs).run o t).result =
      let texts := ((sources (uniqueCss rs)).run o t).result
      if texts.all fun s => s.toList.all Text.isBlank then none
      else some (Stylesheet.render true (Stylesheet.bundle texts)) := by
  unfold combine
  rw [Plan.run_bind]
  simp only
  split
  · rfl
  · rw [Plan.run_during]
    dsimp only
    rw [Plan.run_bind]
    rfl

end FileResult

namespace Request

/-- Writes the combined stylesheet, where there is one. -/
def publish (r : Request) : Option String → Job (Option Path)
  | none => pure none
  | some text => do
    Job.write r.combinedPath text
    Job.tell (.combinedWritten r.combinedPath text.utf8ByteSize)
    return some r.combinedPath

theorem finishStyles_eq (r : Request) (rs : List FileResult) :
    r.finishStyles rs = Job.during .combining do
      let combined ← r.publish (← FileResult.combine r.combinedPath rs)
      let removed ← FileResult.removeCss rs
      Job.tell (.filesRemoved removed)
      return (combined, removed) := by
  unfold finishStyles publish
  congr 2
  funext text
  cases text with
  | none => rfl
  | some text => simp

theorem publish_calls (r : Request) (text : Option String) : (r.publish text).Calls Spares := by
  cases text with
  | none => exact .pure none
  | some text => exact .bind (.write trivial) fun _ => .bind (.tell trivial) fun _ => .pure _

end Request

end SiteBuild
