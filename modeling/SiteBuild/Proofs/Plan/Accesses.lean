import SiteBuild.Proofs.Plan.Calls

/-! What a run asks of the files that account is kept of: its exchanges without what it tells and
without the looks that nobody counts. -/

namespace SiteBuild

variable {α β : Type} {o : Outages} {t : FileTree}

/-- Whether account is kept of a call. -/
def Call.isAccess : Call → Bool
  | .inspect _ => false
  | .tell _ => false
  | .now => false
  | _ => true

namespace Run

/-- The calls on files that account is kept of, with their answers. -/
def accesses (x : Run α) : List Exchange := x.exchanges.filter fun e => e.1.isAccess

@[simp] theorem accesses_nil (a : α) : (⟨a, t, []⟩ : Run α).accesses = [] := rfl

@[simp] theorem accesses_tell (a : α) (e : Event) :
    (⟨a, t, [⟨.tell e, ()⟩]⟩ : Run α).accesses = [] := rfl

end Run

namespace Plan

theorem accesses_bind (x : Plan α) (f : α → Plan β) :
    ((x >>= f).run o t).accesses = (x.run o t).accesses ++
      ((f (x.run o t).result).run o (x.run o t).tree).accesses := by
  rw [run_bind]
  exact List.filter_append ..

theorem accesses_during (a : Activity) (x : Plan α) :
    ((during a x).run o t).accesses = (x.run o t).accesses := by
  rw [run_during]
  simp [Run.accesses, Call.isAccess]

/-- A plan whose calls nobody keeps account of accesses nothing. -/
theorem Calls.accesses_eq_nil {x : Plan α} (h : x.Calls fun c => c.isAccess = false) :
    (x.run o t).accesses = [] :=
  List.filter_eq_nil_iff.2 fun e he => by simp [h.exchanges e he]

end Plan

namespace Job

variable {x : Job α} {f : α → Job β}

theorem accesses_bind_of_ok {a : α} (h : (x.attempt.run o t).result = .ok a) :
    ((x >>= f).attempt.run o t).accesses = (x.attempt.run o t).accesses ++
      ((f a).attempt.run o (x.attempt.run o t).tree).accesses := by
  rw [run_bind_of_ok h]
  exact List.filter_append ..

theorem accesses_bind_of_error {e : Fault} (h : (x.attempt.run o t).result = .error e) :
    ((x >>= f).attempt.run o t).accesses = (x.attempt.run o t).accesses := by
  rw [run_bind_of_error h]
  rfl

theorem accesses_read (p : Path) :
    ((read p).attempt.run o t).accesses = [⟨.read p, (t.answer o (.read p)).1⟩] := by
  rw [run_read]
  rfl

theorem run_read_of_answer {p : Path} {r : Except IoError String}
    (h : (t.answer o (.read p)).1 = r) :
    ((read p).attempt.run o t).result = r.mapError .io ∧ ((read p).attempt.run o t).tree = t ∧
      ((read p).attempt.run o t).accesses = [⟨.read p, r⟩] := by
  subst h
  rw [run_read]
  exact ⟨rfl, rfl, rfl⟩

theorem run_write_of_answer {p : Path} {text : String} {r : Except IoError Unit} {u : FileTree}
    (h : t.answer o (.write p text) = (r, u)) :
    ((write p text).attempt.run o t).result = r.mapError .io ∧
      ((write p text).attempt.run o t).tree = u ∧
        ((write p text).attempt.run o t).accesses = [⟨.write p text, r⟩] := by
  rw [run_write, h]
  exact ⟨rfl, rfl, rfl⟩

end Job

end SiteBuild
