import SiteBuild.Fault
import SiteBuild.Naming
import SiteBuild.Script.Module

/-!
Which modules of a site load which others, and what has to be loaded for a page's entries. A walk
ends because every step with something to find leaves less to be found.
-/
namespace SiteBuild

@[simp] theorem Path.same_self (p : Path) : p.same p = true := by simp [Path.same]

/-- What came of reading a file. -/
structure Reading where
  file : Path
  text : Except IoError String

/-- For each module that could be read, the modules that it loads. -/
structure ModuleGraph where
  root : Path
  edges : List (Path × List Path)

namespace ModuleGraph

/-- The modules that a file's text loads, among those that are known. -/
def targets (root : Path) (known : List Path) (n : Naming) (file : Path) (m : Script.Module) :
    List Path :=
  (m.parts.map fun p => String.ofList p.1.specifier).filter (!n.isCssProxy ·)
    |>.filterMap (resolveLocal? root file) |>.filter fun p => known.any p.same

/-- The graph of some files, of which some may not be readable as modules. -/
def ofReadings (root : Path) (n : Naming) (readings : List Reading) : ModuleGraph :=
  ⟨root, readings.filterMap fun r =>
    match r.text with
    | .error _ => none
    | .ok text =>
      (Script.Module.read? text.toList).map fun m =>
        (r.file, targets root (readings.map Reading.file) n r.file m)⟩

/-- What a module loads; of two readings of one file the later counts. -/
def edges? (g : ModuleGraph) (p : Path) : Option (List Path) :=
  (g.edges.reverse.find? fun e => e.1.same p).map Prod.snd

/-- The modules of a list that are not seen yet, each once. -/
def discover (seen : List Path) : List Path → List Path
  | [] => []
  | p :: ps => if seen.any p.same then discover seen ps else p :: discover (p :: seen) ps

/-- Everything that some module of the graph loads. -/
def allTargets (g : ModuleGraph) : List Path := g.edges.flatMap Prod.snd

/-- The targets of the graph that are not seen yet. -/
def unseen (g : ModuleGraph) (seen : List Path) : List Path :=
  g.allTargets.filter fun p => !seen.any p.same

theorem mem_of_mem_discover {p : Path} {seen ps : List Path} (h : p ∈ discover seen ps) :
    p ∈ ps ∧ seen.any p.same = false := by
  induction ps generalizing seen with
  | nil => simp [discover] at h
  | cons q ps ih =>
    unfold discover at h
    split at h
    · exact (ih h).imp (List.mem_cons_of_mem q) id
    · next hq =>
      rcases List.mem_cons.1 h with rfl | h
      · exact ⟨List.mem_cons_self, by simpa using hq⟩
      · have := ih h
        simp only [List.any_cons, Bool.or_eq_false_iff] at this
        exact ⟨List.mem_cons_of_mem q this.1, this.2.2⟩

theorem mem_allTargets_of_edges? {g : ModuleGraph} {p q : Path} {ps : List Path}
    (h : g.edges? p = some ps) (hq : q ∈ ps) : q ∈ g.allTargets := by
  obtain ⟨e, he, rfl⟩ := Option.map_eq_some_iff.1 h
  exact List.mem_flatMap.2 ⟨e, List.mem_reverse.1 (List.mem_of_find?_eq_some he), hq⟩

theorem length_filter_lt {α : Type} {p q : α → Bool} {l : List α} (h : ∀ a, p a → q a) {a : α}
    (ha : a ∈ l) (hq : q a = true) (hp : p a = false) :
    (l.filter p).length < (l.filter q).length := by
  rw [← List.countP_eq_length_filter, ← List.countP_eq_length_filter]
  induction l with
  | nil => simp at ha
  | cons b l ih =>
    have hle : l.countP p ≤ l.countP q := List.countP_mono_left fun c _ => h c
    rw [List.countP_cons, List.countP_cons]
    rcases List.mem_cons.1 ha with rfl | ha
    · simp [hp, hq]
      omega
    · have := ih ha
      by_cases hb : p b = true
      · simp [hb, h b hb, this]
      · simp [hb]
        omega

theorem unseen_lt {g : ModuleGraph} {seen : List Path} {p : Path}
    (h : discover seen ((g.edges? p).getD []) ≠ []) :
    (g.unseen ((discover seen ((g.edges? p).getD [])).reverse ++ seen)).length <
      (g.unseen seen).length := by
  obtain ⟨q, hq⟩ := List.exists_mem_of_ne_nil _ h
  obtain ⟨hm, hs⟩ := mem_of_mem_discover hq
  apply length_filter_lt (a := q)
  · intro a
    simp only [List.any_append, Bool.not_or, Bool.and_eq_true]
    exact And.right
  · cases he : g.edges? p with
    | none => simp [he] at hm
    | some ps => exact mem_allTargets_of_edges? he (by simpa [he] using hm)
  · simp [hs]
  · simp only [List.any_append, Bool.not_eq_false', Bool.or_eq_true, List.any_eq_true]
    exact Or.inl ⟨q, List.mem_reverse.2 hq, Path.same_self q⟩

/-- The modules found from those on the stack, in the order of their discovery. The first module
that one loads is visited first. -/
def visit (g : ModuleGraph) (seen : List Path) : List Path → List Path
  | [] => []
  | p :: stack =>
    let found := discover seen ((g.edges? p).getD [])
    if _h : found = [] then visit g seen stack
    else found ++ visit g (found.reverse ++ seen) (found ++ stack)
  termination_by stack => ((g.unseen seen).length, stack.length)
  decreasing_by
    · exact Prod.Lex.right _ (Nat.lt_succ_self _)
    · exact Prod.Lex.left _ _ (unseen_lt _h)

/-- Every module that the entries lead to, the entries left out. -/
def preloadList (g : ModuleGraph) (entries : List Path) : List Path := g.visit entries entries

end ModuleGraph

end SiteBuild
