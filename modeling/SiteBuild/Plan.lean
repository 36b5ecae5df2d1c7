import SiteBuild.Event

/-!
Plans: trees of calls on the files of a site, each with what follows on its answer. A plan says what
is done and in which order; who answers the calls is not its affair.
-/
namespace SiteBuild

inductive Call
  | read (p : Path)
  | write (p : Path) (text : String)
  | remove (p : Path)
  /-- A look at a file that nobody keeps account of. -/
  | inspect (p : Path)
  | isThere (p : Path)
  | isDirectory (p : Path)
  /-- The files below a directory. -/
  | list (p : Path)
  | tell (e : Event)
  /-- The time in nanoseconds. -/
  | now
  deriving DecidableEq, Repr

abbrev Call.Answer : Call → Type
  | .read _ => Except IoError String
  | .write _ _ => Except IoError Unit
  | .remove _ => Except IoError Bool
  | .inspect _ => Except IoError String
  | .isThere _ => Bool
  | .isDirectory _ => Bool
  | .list _ => Except IoError (List Path)
  | .tell _ => Unit
  | .now => Nat

inductive Plan (α : Type)
  | done (a : α)
  | call (c : Call) (next : c.Answer → Plan α)

namespace Plan

def bind : Plan α → (α → Plan β) → Plan β
  | .done a, f => f a
  | .call c next, f => .call c fun r => bind (next r) f

instance : Monad Plan where
  pure := .done
  bind := bind

@[simp] theorem pure_eq_done (a : α) : (pure a : Plan α) = .done a := rfl

@[simp] theorem done_bind (a : α) (f : α → Plan β) : (.done a : Plan α) >>= f = f a := rfl

@[simp] theorem call_bind (c : Call) (next : c.Answer → Plan α) (f : α → Plan β) :
    Plan.call c next >>= f = .call c fun r => next r >>= f := rfl

theorem bind_done (t : Plan α) : t >>= .done = t := by
  induction t with
  | done => rfl
  | call c next ih => exact congrArg (Plan.call c) (funext ih)

theorem bind_assoc (t : Plan α) (f : α → Plan β) (g : β → Plan γ) :
    t >>= f >>= g = t >>= fun a => f a >>= g := by
  induction t with
  | done => rfl
  | call c next ih => exact congrArg (Plan.call c) (funext ih)

instance : LawfulMonad Plan := LawfulMonad.mk' Plan
  (fun t => bind_done t)
  (fun _ _ => rfl)
  (fun t f g => bind_assoc t f g)

/-- One call. -/
def ask (c : Call) : Plan c.Answer := .call c .done

def tell (e : Event) : Plan Unit := ask (.tell e)

/-- A plan between two events that tell how long it took. -/
def during (a : Activity) (t : Plan α) : Plan α := do
  tell (.started a)
  let r ← t
  tell (.finished a)
  return r

end Plan

/-- A plan that a fault may stop. -/
abbrev Job := ExceptT Fault Plan

namespace Job

/-- What becomes of a job, fault or not. -/
def attempt (j : Job α) : Plan (Except Fault α) := j

def ofExcept (r : Except Fault α) : Job α := ExceptT.mk (.done r)

def ofCall (t : Plan (Except IoError α)) : Job α := ExceptT.mk ((·.mapError Fault.io) <$> t)

def read (p : Path) : Job String := ofCall (Plan.ask (.read p))

def write (p : Path) (text : String) : Job Unit := ofCall (Plan.ask (.write p text))

def remove (p : Path) : Job Bool := ofCall (Plan.ask (.remove p))

def inspect (p : Path) : Job String := ofCall (Plan.ask (.inspect p))

def list (p : Path) : Job (List Path) := ofCall (Plan.ask (.list p))

def tell (e : Event) : Job Unit := (Plan.tell e : Plan Unit)

def during (a : Activity) (j : Job α) : Job α := ExceptT.mk (Plan.during a j.attempt)

end Job

end SiteBuild
