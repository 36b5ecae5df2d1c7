import SiteBuild.Proofs.Optimize.Course

/-! Two plans side by side. They are in step on a tree if they leave it in one state and what they come
to is related; what they tell, and by which paths they reach into the tree, may differ. -/

namespace SiteBuild

variable {α α' β β' : Type} {o : Outages} {t : FileTree} {p q : Path}

/-- Results of which both are faults, or neither is and they are related. -/
inductive Except.Both {ε ε' : Type} (R : α → β → Prop) : Except ε α → Except ε' β → Prop
  | ok {a : α} {b : β} (h : R a b) : Both R (.ok a) (.ok b)
  | error (e : ε) (e' : ε') : Both R (.error e) (.error e')

namespace Except.Both

variable {ε ε' δ δ' : Type} {R S : α → β → Prop}

theorem refl (x : Except ε α) : Both Eq x x := by
  cases x with
  | ok a => exact .ok rfl
  | error e => exact .error e e

theorem mono {x : Except ε α} {y : Except ε' β} (h : Both R x y) (hs : ∀ a b, R a b → S a b) :
    Both S x y := by
  cases h with
  | ok h => exact .ok (hs _ _ h)
  | error e e' => exact .error e e'

theorem exists_ok {x : Except ε α} {b : β} (h : Both R x (.ok b : Except ε' β)) :
    ∃ a, x = .ok a ∧ R a b := by
  cases h with
  | ok h => exact ⟨_, rfl, h⟩

theorem mapError {f : ε → δ} {g : ε' → δ'} {x : Except ε α} {y : Except ε' β} (h : Both R x y) :
    Both R (x.mapError f) (y.mapError g) := by
  cases h with
  | ok h => exact .ok h
  | error e e' => exact .error (f e) (g e')

end Except.Both

namespace Plan

/-- On a tree, two plans leave the same tree and come to related results. -/
structure InStep (o : Outages) (t : FileTree) (R : α → β → Prop) (x : Plan α) (y : Plan β) : Prop where
  tree : (x.run o t).tree = (y.run o t).tree
  result : R (x.run o t).result (y.run o t).result

namespace InStep

variable {R S : α → β → Prop} {x : Plan α} {y : Plan β}

theorem done {a : α} {b : β} (h : R a b) : InStep o t R (.done a) (.done b) := ⟨rfl, h⟩

theorem refl (x : Plan α) : InStep o t Eq x x := ⟨rfl, rfl⟩

theorem mono (h : InStep o t R x y) (hs : ∀ a b, R a b → S a b) : InStep o t S x y :=
  ⟨h.tree, hs _ _ h.result⟩

/-- Plans in step go on from one tree, and the second from what it came to. -/
theorem bind_result {Q : α' → β' → Prop} {f : α → Plan α'} {g : β → Plan β'} (h : InStep o t R x y)
    (hf : ∀ a b, R a b → (y.run o t).result = b → InStep o (y.run o t).tree Q (f a) (g b)) :
    InStep o t Q (x >>= f) (y >>= g) := by
  obtain ⟨ht, hr⟩ := hf _ _ h.result rfl
  constructor
  · rw [run_bind, run_bind]
    dsimp only
    rw [h.tree]
    exact ht
  · rw [run_bind, run_bind]
    dsimp only
    rw [h.tree]
    exact hr

theorem bind {Q : α' → β' → Prop} {f : α → Plan α'} {g : β → Plan β'} (h : InStep o t R x y)
    (hf : ∀ a b t, R a b → InStep o t Q (f a) (g b)) : InStep o t Q (x >>= f) (y >>= g) :=
  h.bind_result fun a b hab _ => hf a b _ hab

/-- Plans that only look around leave a tree as it is. -/
theorem looks (hx : x.Calls Looks) (hy : y.Calls Looks) : InStep o t (fun _ _ => True) x y :=
  ⟨hx.looks.trans hy.looks.symm, trivial⟩

theorem map {Q : α' → β' → Prop} {f : α → α'} {g : β → β'} (h : InStep o t R x y)
    (hf : ∀ a b, R a b → Q (f a) (g b)) : InStep o t Q (f <$> x) (g <$> y) := by
  rw [← bind_pure_comp, ← bind_pure_comp]
  exact h.bind fun a b _ hab => done (hf a b hab)

theorem during {a a' : Activity} (h : InStep o t R x y) :
    InStep o t R (Plan.during a x) (Plan.during a' y) := by
  constructor
  · rw [run_during, run_during]
    exact h.tree
  · rw [run_during, run_during]
    exact h.result

/-- Two lists of plans are in step if each pair is on the tree that those before leave. -/
theorem mapM {γ γ' : Type} {Q : α' → β' → Prop} {I : List γ → FileTree → Prop} {e : γ → γ'}
    {f : γ' → Plan α'} {g : γ → Plan β'} {l : List γ}
    (h : ∀ a l t, I (a :: l) t → InStep o t Q (f (e a)) (g a) ∧ I l ((g a).run o t).tree)
    (hl : I l t) : InStep o t (List.Forall₂ Q) ((l.map e).mapM f) (l.mapM g) := by
  induction l generalizing t with
  | nil => exact .done .nil
  | cons a l ih =>
    obtain ⟨ha, hi⟩ := h a l t hl
    rw [List.map_cons, List.mapM_cons, List.mapM_cons]
    refine ha.bind_result fun b c hbc _ => ?_
    exact (ih hi).bind fun bs cs _ hbs => .done (.cons hbc hbs)

end InStep

end Plan

namespace Job

/-- On a tree, two jobs leave the same tree, and both are stopped by a fault or come to related
results. -/
def InStep (o : Outages) (t : FileTree) (R : α → β → Prop) (x : Job α) (y : Job β) : Prop :=
  Plan.InStep o t (Except.Both R) x.attempt y.attempt

namespace InStep

variable {R S : α → β → Prop} {x : Job α} {y : Job β}

theorem attempt (h : InStep o t R x y) : Plan.InStep o t (Except.Both R) x.attempt y.attempt := h

theorem pure {a : α} {b : β} (h : R a b) : InStep o t R (Pure.pure a) (Pure.pure b) := .done (.ok h)

theorem refl (x : Job α) : InStep o t Eq x x := by
  exact ⟨rfl, Except.Both.refl _⟩

theorem mono (h : InStep o t R x y) (hs : ∀ a b, R a b → S a b) : InStep o t S x y :=
  Plan.InStep.mono h fun _ _ hab => hab.mono hs

theorem bind_result {Q : α' → β' → Prop} {f : α → Job α'} {g : β → Job β'} (h : InStep o t R x y)
    (hf : ∀ a b, R a b → (y.attempt.run o t).result = .ok b →
      InStep o (y.attempt.run o t).tree Q (f a) (g b)) : InStep o t Q (x >>= f) (y >>= g) := by
  refine Plan.InStep.bind_result h fun a b hab hb => ?_
  cases hab with
  | ok hab => exact hf _ _ hab hb
  | error e e' => exact .done (.error e e')

theorem bind {Q : α' → β' → Prop} {f : α → Job α'} {g : β → Job β'} (h : InStep o t R x y)
    (hf : ∀ a b t, R a b → InStep o t Q (f a) (g b)) : InStep o t Q (x >>= f) (y >>= g) :=
  h.bind_result fun a b hab _ => hf a b _ hab

/-- Jobs that only look around in step leave the tree for what comes next. -/
theorem bind_looks {Q : α' → β' → Prop} {f : α → Job α'} {g : β → Job β'} (h : InStep o t R x y)
    (hy : y.Calls Looks)
    (hf : ∀ a b, R a b → (y.attempt.run o t).result = .ok b → InStep o t Q (f a) (g b)) :
    InStep o t Q (x >>= f) (y >>= g) := by
  refine h.bind_result fun a b hab hb => ?_
  rw [hy.attempt.looks]
  exact hf a b hab hb

theorem ite {c : Prop} [Decidable c] {x' : Job α} {y' : Job β} (h : c → InStep o t R x y)
    (h' : ¬c → InStep o t R x' y') : InStep o t R (if c then x else x') (if c then y else y') := by
  split
  · next hc => exact h hc
  · next hc => exact h' hc

theorem ofExcept {a : Except Fault α} {b : Except Fault β} (h : Except.Both R a b) :
    InStep o t R (Job.ofExcept a) (Job.ofExcept b) :=
  .done h

theorem lift {x : Plan α} {y : Plan β} (h : Plan.InStep o t R x y) :
    InStep o t R (liftM x : Job α) (liftM y : Job β) :=
  h.map (Q := Except.Both R) fun _ _ hab => .ok hab

theorem during {a a' : Activity} (h : InStep o t R x y) :
    InStep o t R (Job.during a x) (Job.during a' y) :=
  Plan.InStep.during h

/-- What is told makes no difference. -/
theorem tell (e e' : Event) : InStep o t (fun _ _ => True) (Job.tell e) (Job.tell e') :=
  lift ⟨rfl, trivial⟩

theorem forM_tell (es es' : List Event) :
    InStep o t (fun _ _ => True) (es.forM Job.tell) (es'.forM Job.tell) := by
  obtain ⟨hr, ht⟩ := run_forM_tell (o := o) (t := t) es
  obtain ⟨hr', ht'⟩ := run_forM_tell (o := o) (t := t) es'
  refine ⟨by rw [ht, ht'], ?_⟩
  rw [hr, hr']
  exact .ok trivial

theorem read (h : (t.answer o (.read p)).1 = (t.answer o (.read q)).1) :
    InStep o t Eq (Job.read p) (Job.read q) := by
  constructor
  · rw [run_read, run_read]
  · rw [run_read, run_read]
    dsimp only
    rw [h]
    exact Except.Both.refl _

theorem inspect (h : t.read p = t.read q) : InStep o t Eq (Job.inspect p) (Job.inspect q) := by
  refine ⟨rfl, ?_⟩
  change Except.Both Eq ((t.read p).mapError Fault.io) ((t.read q).mapError Fault.io)
  rw [h]
  exact .refl _

theorem list {R : List Path → List Path → Prop} (h : Except.Both R (t.list p) (t.list q)) :
    InStep o t R (Job.list p) (Job.list q) :=
  ⟨rfl, h.mapError⟩

theorem write {text : String} (h : t.answer o (.write p text) = t.answer o (.write q text)) :
    InStep o t Eq (Job.write p text) (Job.write q text) := by
  constructor
  · rw [run_write, run_write]
    exact congrArg Prod.snd h
  · rw [run_write, run_write]
    dsimp only
    rw [show (t.answer o (.write p text)).1 = (t.answer o (.write q text)).1 from congrArg Prod.fst h]
    exact Except.Both.refl _

end InStep

end Job

end SiteBuild
