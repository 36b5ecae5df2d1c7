import SiteBuild.Proofs.Optimize.Stylesheets
import SiteBuild.Proofs.Plan.Replay

/-! All that a run changes. It writes over files that its survey found, it writes the combined
stylesheet and the manifest, and it removes what scripts have embedded. -/

namespace SiteBuild

open FileTree

variable {o : Outages} {t t' : FileTree} {p q : Path} {m : Minifier} {r : Request} {s : Survey}
  {rs : List FileResult} {fs : List Path}

/-- A path of an embedded stylesheet, or of its proxy. -/
def CssEntry.Has (e : CssEntry) (p : Path) : Prop := p = e.actual ∨ p = e.proxy

/-- The calls that write over some files and remove none. -/
def WritesOnly (fs : List Path) : Call → Prop
  | .write p _ => p ∈ fs
  | .remove _ => False
  | _ => True

/-- The calls of a run on some files, of which some stylesheets are embedded. -/
def Request.Changes (r : Request) (fs : List Path) (es : List CssEntry) : Call → Prop
  | .write p _ => p ∈ fs ∨ p = r.combinedPath ∨ p = r.manifestPath
  | .remove p => ∃ e ∈ es, e.Has p
  | _ => True

theorem Looks.changes {es : List CssEntry} {c : Call} (h : Looks c) : r.Changes fs es c := by
  cases c <;> first | exact trivial | cases h

theorem WritesOnly.changes {es : List CssEntry} {c : Call} (h : WritesOnly fs c) :
    r.Changes fs es c := by
  cases c <;> first | exact trivial | exact .inl h | cases h

theorem Looks.writesOnly {c : Call} (h : Looks c) : WritesOnly fs c := by
  cases c <;> first | exact trivial | cases h

/-- Where a run writes nothing and removes nothing at all, every file is as it was. -/
theorem Plan.bytes?_of_writesOnly {α : Type} {x : Plan α} {k : Place}
    (hx : ∀ e ∈ (x.run o t).exchanges, WritesOnly fs e.1)
    (hk : ∀ p ∈ fs, (x.run o t).tree.place? p ≠ some k) :
    (x.run o t).tree.bytes? k = t.bytes? k := by
  rw [bytes?_run x (.refl _)]
  generalize (x.run o t).tree = u at hk ⊢
  generalize t.bytes? k = b
  generalize (x.run o t).exchanges = es at hx
  induction es with
  | nil => rfl
  | cons e es ih =>
    have he : Exchange.effect u k b e = b := by
      have hw := hx e List.mem_cons_self
      unfold Exchange.effect
      split
      · next p text => rw [if_neg (hk p hw)]
      · cases hw
      · rfl
    rw [List.foldl_cons, he]
    exact ih fun e he => hx e (List.mem_cons_of_mem _ he)

theorem Plan.exchanges_bind {α β : Type} {P : Call → Prop} {x : Plan α} {f : α → Plan β}
    (hx : ∀ e ∈ (x.run o t).exchanges, P e.1)
    (hf : ∀ e ∈ ((f (x.run o t).result).run o (x.run o t).tree).exchanges, P e.1) :
    ∀ e ∈ ((x >>= f).run o t).exchanges, P e.1 := by
  rw [Plan.run_bind]
  intro e he
  rcases List.mem_append.1 he with he | he
  · exact hx e he
  · exact hf e he

namespace Setting

variable {s : Setting}

theorem optimizeAll_writes (fs : List Path) : (s.optimizeAll fs).Calls (WritesOnly fs) := by
  refine .during (fun _ => trivial) (.mapM fun g hg => Plan.Calls.bind ?_ fun _ => .done _)
  exact (optimize_calls (P := WritesOnly fs) (fun _ => trivial) trivial (fun _ _ _ => trivial)
    fun _ _ => hg).attempt

theorem optimizeAll_files :
    ∀ x ∈ ((s.optimizeAll fs).run o t).result, ∀ r, x = .ok r → r.file ∈ fs :=
  mem_optimizeAll fun _ hg _ _ hx => (optimize_ok hx).1 ▸ hg

end Setting

namespace Report

theorem minifyLeft_writes {x : Setting} (h : ∀ y ∈ rs, y.file ∈ fs) :
    (minifyLeft r x rs).Calls (WritesOnly fs) := by
  unfold minifyLeft
  split
  · refine minifyProxies_calls x (fun _ => trivial) (fun _ _ => trivial) fun p hp _ => ?_
    obtain ⟨y, hy, rfl⟩ := List.mem_map.1 (List.mem_filter.1 hp).1
    exact h y hy
  · exact .done []

/-- The work on files writes over these files. -/
theorem workOn_writes : ∀ x ∈ ((workOn m r s).run o t).exchanges, WritesOnly s.files x.1 := by
  have htell {α : Type} (l : List α) (f : α → Event) (t : FileTree) :
      ∀ x ∈ ((l.forM fun a => Plan.tell (f a)).run o t).exchanges, WritesOnly s.files x.1 :=
    (Plan.Calls.forM fun _ _ => .ask trivial).exchanges
  rw [workOn_eq]
  refine Plan.exchanges_bind (htell _ _ t) ?_
  refine Plan.exchanges_bind (Setting.optimizeAll_writes s.files).exchanges ?_
  refine Plan.exchanges_bind (htell _ _ _) ?_
  refine Plan.exchanges_bind (Plan.Calls.exchanges (minifyLeft_writes fun y hy => ?_)) ?_
  · exact Setting.optimizeAll_files _ (mem_resultsOf.1 hy) _ rfl
  · exact Plan.exchanges_bind (htell _ _ _) fun x hx => by cases hx

end Report

theorem FileResult.removeAll_calls {P : Call → Prop} {ps : List Path}
    (h : ∀ p ∈ ps, P (.remove p)) : (removeAll ps).Calls P := by
  induction ps with
  | nil => exact .pure 0
  | cons p ps ih =>
    refine .bind (.remove (h p List.mem_cons_self)) fun found => ?_
    exact .bind (ih fun q hq => h q (List.mem_cons_of_mem _ hq)) fun n => .pure _

namespace Request

theorem publish_changes (text : Option String) :
    (r.publish text).Calls (r.Changes fs (rs.flatMap FileResult.css)) := by
  cases text with
  | none => exact .pure none
  | some text =>
    exact .bind (.write (.inr (.inl rfl))) fun _ => .bind (.tell trivial) fun _ => .pure _

theorem finishStyles_changes (rs : List FileResult) :
    (r.finishStyles rs).Calls (r.Changes fs (rs.flatMap FileResult.css)) := by
  rw [finishStyles_eq]
  refine .during (fun _ => trivial) (.bind (.lift ?_) fun text => ?_)
  · exact (FileResult.combine_calls r.combinedPath rs).mono fun _ => Looks.changes
  · refine .bind (publish_changes text) fun combined => .bind ?_ fun n => ?_
    · refine FileResult.removeAll_calls fun p hp => ?_
      obtain ⟨e, he, hp⟩ := List.mem_flatMap.1 hp
      exact ⟨e, he, by simpa [CssEntry.Has] using hp⟩
    · exact .bind (.tell trivial) fun _ => .pure _

end Request

namespace Report

theorem conclude_changes (start : Nat) (failures : List Failure) :
    (conclude r s start rs failures).Calls (r.Changes fs (rs.flatMap FileResult.css)) := by
  unfold conclude
  refine .bind ?_ fun (combined, removed) => ?_
  · unfold finish
    split
    · exact r.finishStyles_changes rs
    · exact .pure _
  · refine .bind (.bind (.write (.inr (.inr rfl))) fun _ => .tell trivial) fun _ => ?_
    exact .bind (.lift (.ask trivial)) fun _ => .bind (.tell trivial) fun _ => .pure _

/-- All that a run changes. -/
theorem changes_of_survey (h : ((Survey.ofRequest r).attempt.run o t).result = .ok s) :
    ∀ x ∈ ((ofRequest m r).attempt.run o t).exchanges,
      r.Changes s.files (((workOn m r s).run o t).result.1.flatMap FileResult.css) x.1 := by
  obtain ⟨es, hes, hrun⟩ := run_ofRequest (m := m) h rfl
  rw [hrun]
  intro x hx
  rcases List.mem_append.1 hx with hx | hx
  · rcases List.mem_append.1 hx with hx | hx
    · exact (hes x hx).changes
    · exact (workOn_writes x hx).changes
  · exact (conclude_changes 0 _).attempt.exchanges x hx

/-- What a run writes: files of its survey, the combined stylesheet, and the manifest. -/
theorem mem_exchanges_write {text : String} {a : Except IoError Unit}
    (h : ⟨.write p text, a⟩ ∈ ((ofRequest m r).attempt.run o t).exchanges) :
    ∃ s, ((Survey.ofRequest r).attempt.run o t).result = .ok s ∧
      (p ∈ s.files ∨ p = r.combinedPath ∨ p = r.manifestPath) := by
  cases hs : ((Survey.ofRequest r).attempt.run o t).result with
  | error e => exact absurd ((run_ofRequest_of_error hs).2 _ h) id
  | ok s => exact ⟨s, rfl, changes_of_survey hs _ h⟩

/-- What a run removes: stylesheets and proxies of results that it reaches. -/
theorem mem_exchanges_remove {a : Except IoError Bool}
    (h : ⟨.remove p, a⟩ ∈ ((ofRequest m r).attempt.run o t).exchanges) :
    ∃ rs t', Reaches m r o t rs t' ∧ ∃ e ∈ rs.flatMap FileResult.css, e.Has p := by
  cases hs : ((Survey.ofRequest r).attempt.run o t).result with
  | error e => exact absurd ((run_ofRequest_of_error hs).2 _ h) id
  | ok s => exact ⟨_, _, ⟨s, hs, rfl, rfl⟩, changes_of_survey hs _ h⟩

end Report

end SiteBuild
