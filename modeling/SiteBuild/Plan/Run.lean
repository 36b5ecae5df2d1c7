import SiteBuild.FileTree.Access
import SiteBuild.Plan

/-!
Running plans on a tree of files. Some calls may be made to fail before they touch the tree. Time
stands still.
-/
namespace SiteBuild

/-- The faults that meet the calls on some paths. -/
structure Outages where
  read : Path → Option IoError := fun _ => none
  write : Path → Option IoError := fun _ => none
  remove : Path → Option IoError := fun _ => none

/-- A call and its answer. -/
abbrev Exchange := (c : Call) × c.Answer

/-- What a plan comes to: its result, the tree it leaves, and what was called in which order. -/
structure Run (α : Type) where
  result : α
  tree : FileTree
  exchanges : List Exchange

/-- The answer to a call, and the tree after it. -/
def FileTree.answer (o : Outages) (t : FileTree) : (c : Call) → c.Answer × FileTree
  | .read p =>
    match o.read p with
    | some e => (.error e, t)
    | none => (t.read p, t)
  | .write p text =>
    match o.write p with
    | some e => (.error e, t)
    | none => (t.write p text.toUTF8).swap
  | .remove p =>
    match o.remove p with
    | some e => (.error e, t)
    | none => (t.remove p).swap
  | .inspect p => (t.read p, t)
  | .isThere p => (t.isThere p, t)
  | .isDirectory p => (t.isDirectory p, t)
  | .list p => (t.list p, t)
  | .tell _ => ((), t)
  | .now => (0, t)

namespace Plan

def run (o : Outages) (t : FileTree) : Plan α → Run α
  | .done a => ⟨a, t, []⟩
  | .call c next =>
    let (r, t) := t.answer o c
    let rest := run o t (next r)
    { rest with exchanges := ⟨c, r⟩ :: rest.exchanges }

/-- Running one plan after another. -/
theorem run_bind (o : Outages) (t : FileTree) (x : Plan α) (f : α → Plan β) :
    (x >>= f).run o t =
      let r := x.run o t
      let s := (f r.result).run o r.tree
      { s with exchanges := r.exchanges ++ s.exchanges } := by
  induction x generalizing t with
  | done => rfl
  | call c next ih => simp [run, ih]

end Plan

namespace Run

/-- What a run told. -/
def events (r : Run α) : List Event :=
  r.exchanges.filterMap fun x =>
    match x.1 with
    | .tell e => some e
    | _ => none

end Run

end SiteBuild
