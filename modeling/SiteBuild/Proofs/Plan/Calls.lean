import SiteBuild.Plan.Run

/-! Which calls a plan may make, whatever it is answered, and what its runs keep on account of that. -/

namespace SiteBuild

variable {α β : Type} {P Q : Call → Prop} {o : Outages} {t t' : FileTree}

namespace FileTree

theorem answer_read_tree (o : Outages) (t : FileTree) (p : Path) :
    (t.answer o (.read p)).2 = t := by
  simp only [answer]
  cases o.read p <;> rfl

theorem answer_read_of_ok {p : Path} {text : String} (h : (t.answer o (.read p)).1 = .ok text) :
    o.read p = none ∧ t.read p = .ok text := by
  simp only [answer] at h
  cases hp : o.read p with
  | none =>
    rw [hp] at h
    exact ⟨rfl, h⟩
  | some e =>
    rw [hp] at h
    cases h

theorem answer_write_of_ok {p : Path} {text : String} (h : (t.answer o (.write p text)).1 = .ok ()) :
    o.write p = none := by
  simp only [answer] at h
  cases hp : o.write p with
  | none => rfl
  | some e =>
    rw [hp] at h
    cases h

end FileTree

namespace Plan

/-- All calls of a plan, whatever the answers are. -/
def Calls (P : Call → Prop) : Plan α → Prop
  | .done _ => True
  | .call c next => P c ∧ ∀ r, (next r).Calls P

namespace Calls

theorem done (a : α) : (Plan.done a).Calls P := trivial

theorem of_call {c : Call} {next : c.Answer → Plan α} (h : (Plan.call c next).Calls P) :
    P c ∧ ∀ r, (next r).Calls P := h

theorem ask {c : Call} (h : P c) : (Plan.ask c).Calls P := ⟨h, fun _ => trivial⟩

theorem mono {x : Plan α} (h : ∀ c, P c → Q c) (hx : x.Calls P) : x.Calls Q := by
  induction x with
  | done a => trivial
  | call c next ih => exact ⟨h c hx.1, fun r => ih r (hx.2 r)⟩

theorem bind {x : Plan α} {f : α → Plan β} (hx : x.Calls P) (hf : ∀ a, (f a).Calls P) :
    (x >>= f).Calls P := by
  induction x with
  | done a => exact hf a
  | call c next ih => exact ⟨hx.1, fun r => ih r (hx.2 r)⟩

theorem map {x : Plan α} (f : α → β) (hx : x.Calls P) : (f <$> x).Calls P := by
  rw [← bind_pure_comp]
  exact hx.bind fun _ => trivial

theorem forM {f : α → Plan Unit} {l : List α} (h : ∀ a ∈ l, (f a).Calls P) :
    (l.forM f).Calls P := by
  induction l with
  | nil => trivial
  | cons a l ih =>
    refine (h a List.mem_cons_self).bind fun _ => ih fun b hb => h b (List.mem_cons_of_mem _ hb)

theorem mapM {f : α → Plan β} {l : List α} (h : ∀ a ∈ l, (f a).Calls P) : (l.mapM f).Calls P := by
  induction l with
  | nil => trivial
  | cons a l ih =>
    rw [List.mapM_cons]
    refine (h a List.mem_cons_self).bind fun b => ?_
    exact (ih fun c hc => h c (List.mem_cons_of_mem _ hc)).bind fun _ => trivial

theorem during {a : Activity} {x : Plan α} (h : ∀ e, P (.tell e)) (hx : x.Calls P) :
    (Plan.during a x).Calls P :=
  (ask (h _)).bind fun _ => hx.bind fun _ => (ask (h _)).bind fun _ => trivial

/-- What every call keeps, a run keeps. -/
theorem keeps {I : FileTree → Prop} {x : Plan α} (hx : x.Calls P)
    (h : ∀ t c, P c → I t → I (t.answer o c).2) (ht : I t) : I (x.run o t).tree := by
  induction x generalizing t with
  | done a => exact ht
  | call c next ih => exact ih _ (hx.2 _) (h t c hx.1 ht)

/-- Trees between which no call tells a difference give a plan the same result. -/
theorem agree {R : FileTree → FileTree → Prop} {x : Plan α} (hx : x.Calls P)
    (h : ∀ t t' c, P c → R t t' →
      (t.answer o c).1 = (t'.answer o c).1 ∧ R (t.answer o c).2 (t'.answer o c).2)
    (ht : R t t') :
    (x.run o t).result = (x.run o t').result ∧ R (x.run o t).tree (x.run o t').tree := by
  induction x generalizing t t' with
  | done a => exact ⟨rfl, ht⟩
  | call c next ih =>
    obtain ⟨ha, hr⟩ := h t t' c hx.1 ht
    have := ih (t.answer o c).1 (hx.2 _) hr
    simp only [run]
    rw [← ha]
    exact this

/-- Outages that meet the calls of a plan alike give it one run. -/
theorem run_eq {o' : Outages} {x : Plan α} (hx : x.Calls P)
    (h : ∀ (t : FileTree) (c : Call), P c → t.answer o c = t.answer o' c) :
    x.run o t = x.run o' t := by
  induction x generalizing t with
  | done a => rfl
  | call c next ih =>
    simp only [run, h t c hx.1]
    rw [ih _ (hx.2 _)]

theorem exchanges {x : Plan α} (hx : x.Calls P) : ∀ e ∈ (x.run o t).exchanges, P e.1 := by
  induction x generalizing t with
  | done a => simp [run]
  | call c next ih =>
    intro e he
    rcases List.mem_cons.1 he with rfl | he
    · exact hx.1
    · exact ih _ (hx.2 _) e he

end Calls

@[simp] theorem run_done (a : α) : (Plan.done a).run o t = ⟨a, t, []⟩ := rfl

@[simp] theorem run_pure (a : α) : (pure a : Plan α).run o t = ⟨a, t, []⟩ := rfl

@[simp] theorem run_tell (e : Event) : (Plan.tell e).run o t = ⟨(), t, [⟨.tell e, ()⟩]⟩ := rfl

theorem run_map (f : α → β) (x : Plan α) :
    (f <$> x).run o t = ⟨f (x.run o t).result, (x.run o t).tree, (x.run o t).exchanges⟩ := by
  rw [← bind_pure_comp, run_bind]
  simp

theorem run_mapM_cons (o : Outages) (t : FileTree) (f : α → Plan β) (a : α) (l : List α) :
    ((a :: l).mapM f).run o t =
      let r := (f a).run o t
      let s := (l.mapM f).run o r.tree
      ⟨r.result :: s.result, s.tree, r.exchanges ++ s.exchanges⟩ := by
  rw [List.mapM_cons, run_bind]
  simp only
  rw [run_bind]
  simp

theorem run_during (a : Activity) (x : Plan α) :
    (during a x).run o t =
      { x.run o t with
        exchanges := ⟨.tell (.started a), ()⟩ ::
          ((x.run o t).exchanges ++ [⟨.tell (.finished a), ()⟩]) } := by
  unfold during
  rw [run_bind]
  simp only [run_tell]
  rw [run_bind]
  simp only
  rw [run_bind]
  simp

end Plan

/-- A result that is no fault was none before faults were renamed. -/
theorem eq_ok_of_mapError {ε ε' : Type} {f : ε → ε'} {x : Except ε α} {a : α}
    (h : x.mapError f = .ok a) : x = .ok a := by
  cases x with
  | error e => cases h
  | ok b =>
    cases h
    rfl

theorem exists_of_map {ε α β : Type} {f : α → β} {x : Except ε α} {b : β} (h : x.map f = .ok b) :
    ∃ a, x = .ok a ∧ f a = b := by
  cases x with
  | error e => cases h
  | ok a =>
    cases h
    exact ⟨a, rfl, rfl⟩

namespace Job

variable {x : Job α} {f : α → Job β}

theorem run_bind (o : Outages) (t : FileTree) (x : Job α) (f : α → Job β) :
    (x >>= f).attempt.run o t =
      let r := x.attempt.run o t
      match r.result with
      | .ok a =>
        let s := (f a).attempt.run o r.tree
        { s with exchanges := r.exchanges ++ s.exchanges }
      | .error e => ⟨.error e, r.tree, r.exchanges⟩ := by
  change (x.attempt >>= ExceptT.bindCont f).run o t = _
  rw [Plan.run_bind]
  simp only
  cases (x.attempt.run o t).result with
  | ok a => rfl
  | error e =>
    simp [ExceptT.bindCont]

/-- A run that no fault stopped went through all its parts. -/
theorem run_bind_ok {b : β} (h : ((x >>= f).attempt.run o t).result = .ok b) :
    ∃ a, (x.attempt.run o t).result = .ok a ∧
      ((f a).attempt.run o (x.attempt.run o t).tree).result = .ok b ∧
      ((x >>= f).attempt.run o t).tree = ((f a).attempt.run o (x.attempt.run o t).tree).tree := by
  rw [run_bind] at h ⊢
  cases hx : (x.attempt.run o t).result with
  | ok a =>
    simp only [hx] at h ⊢
    exact ⟨a, rfl, h, rfl⟩
  | error e =>
    simp only [hx] at h
    cases h

theorem run_bind_of_ok {a : α} (h : (x.attempt.run o t).result = .ok a) :
    (x >>= f).attempt.run o t =
      { (f a).attempt.run o (x.attempt.run o t).tree with
        exchanges := (x.attempt.run o t).exchanges ++
          ((f a).attempt.run o (x.attempt.run o t).tree).exchanges } := by
  rw [run_bind]
  simp only [h]

theorem run_bind_of_error {e : Fault} (h : (x.attempt.run o t).result = .error e) :
    (x >>= f).attempt.run o t =
      ⟨.error e, (x.attempt.run o t).tree, (x.attempt.run o t).exchanges⟩ := by
  rw [run_bind]
  simp only [h]

@[simp] theorem run_pure (a : α) : (pure a : Job α).attempt.run o t = ⟨.ok a, t, []⟩ := rfl

@[simp] theorem run_ofExcept (r : Except Fault α) :
    (ofExcept r).attempt.run o t = ⟨r, t, []⟩ := rfl

@[simp] theorem run_tell (e : Event) :
    (tell e).attempt.run o t = ⟨.ok (), t, [⟨.tell e, ()⟩]⟩ := rfl

theorem run_lift (x : Plan α) :
    (liftM x : Job α).attempt.run o t =
      ⟨.ok (x.run o t).result, (x.run o t).tree, (x.run o t).exchanges⟩ := by
  change ((Except.ok <$> x : Plan (Except Fault α))).run o t = _
  rw [Plan.run_map]

theorem run_read (p : Path) :
    (read p).attempt.run o t =
      ⟨(t.answer o (.read p)).1.mapError .io, t, [⟨.read p, (t.answer o (.read p)).1⟩]⟩ := by
  change (((·.mapError Fault.io) <$> Plan.ask (.read p)) : Plan _).run o t = _
  rw [Plan.run_map]
  simp [Plan.ask, Plan.run, FileTree.answer_read_tree]

theorem read_of_run_read {p : Path} {text : String}
    (h : ((read p).attempt.run o t).result = .ok text) :
    t.read p = .ok text := by
  rw [run_read] at h
  exact (FileTree.answer_read_of_ok (eq_ok_of_mapError h)).2

theorem run_write (p : Path) (text : String) :
    (write p text).attempt.run o t =
      ⟨(t.answer o (.write p text)).1.mapError .io, (t.answer o (.write p text)).2,
        [⟨.write p text, (t.answer o (.write p text)).1⟩]⟩ := by
  change (((·.mapError Fault.io) <$> Plan.ask (.write p text)) : Plan _).run o t = _
  rw [Plan.run_map]
  rfl

theorem run_remove (p : Path) :
    (remove p).attempt.run o t =
      ⟨(t.answer o (.remove p)).1.mapError .io, (t.answer o (.remove p)).2,
        [⟨.remove p, (t.answer o (.remove p)).1⟩]⟩ := by
  change (((·.mapError Fault.io) <$> Plan.ask (.remove p)) : Plan _).run o t = _
  rw [Plan.run_map]
  rfl

theorem run_during (a : Activity) (x : Job α) :
    (during a x).attempt.run o t =
      { x.attempt.run o t with
        exchanges := ⟨.tell (.started a), ()⟩ ::
          ((x.attempt.run o t).exchanges ++ [⟨.tell (.finished a), ()⟩]) } :=
  Plan.run_during a x.attempt

/-- The calls of a job. -/
def Calls (P : Call → Prop) (x : Job α) : Prop := x.attempt.Calls P

namespace Calls

theorem attempt (h : x.Calls P) : x.attempt.Calls P := h

theorem mono (h : ∀ c, P c → Q c) (hx : x.Calls P) : x.Calls Q := Plan.Calls.mono h hx

theorem pure (a : α) : (Pure.pure a : Job α).Calls P := trivial

theorem throw (e : Fault) : (MonadExcept.throw e : Job α).Calls P := trivial

theorem ofExcept (r : Except Fault α) : (Job.ofExcept r).Calls P := trivial

theorem bind (hx : x.Calls P) (hf : ∀ a, (f a).Calls P) : (x >>= f).Calls P :=
  Plan.Calls.bind hx fun r =>
    match r with
    | .ok a => hf a
    | .error _ => trivial

theorem map (g : α → β) (hx : x.Calls P) : (g <$> x : Job β).Calls P := by
  rw [← bind_pure_comp]
  exact hx.bind fun _ => trivial

theorem lift {x : Plan α} (hx : x.Calls P) : (liftM x : Job α).Calls P := hx.map Except.ok

theorem ofCall {x : Plan (Except IoError α)} (hx : x.Calls P) : (Job.ofCall x).Calls P :=
  hx.map _

theorem read {p : Path} (h : P (.read p)) : (Job.read p).Calls P := ofCall (.ask h)

theorem write {p : Path} {text : String} (h : P (.write p text)) : (Job.write p text).Calls P :=
  ofCall (.ask h)

theorem remove {p : Path} (h : P (.remove p)) : (Job.remove p).Calls P := ofCall (.ask h)

theorem inspect {p : Path} (h : P (.inspect p)) : (Job.inspect p).Calls P := ofCall (.ask h)

theorem list {p : Path} (h : P (.list p)) : (Job.list p).Calls P := ofCall (.ask h)

theorem tell {e : Event} (h : P (.tell e)) : (Job.tell e).Calls P := lift (.ask h)

theorem during {a : Activity} (h : ∀ e, P (.tell e)) (hx : x.Calls P) : (Job.during a x).Calls P :=
  Plan.Calls.during h hx

theorem forM {l : List β} {f : β → Job Unit} (h : ∀ a ∈ l, (f a).Calls P) : (l.forM f).Calls P := by
  induction l with
  | nil => trivial
  | cons a l ih =>
    exact (h a List.mem_cons_self).bind fun _ => ih fun b hb => h b (List.mem_cons_of_mem _ hb)

end Calls

end Job

-- What a plan calls is told by the lemmas above; unfolding it would walk through the whole plan.
attribute [irreducible] Plan.Calls Job.Calls

end SiteBuild
