import SiteBuild.Proofs.Optimize.Bundling

/-! The walk from the entries as a recursion: to visit a module is to take in all that it loads and that is
not seen yet, and then to visit each of these. The stack of a walk holds the visits that are still to be
made, so that both find the same modules in the same order. -/

namespace SiteBuild.ModuleGraph

variable {g : ModuleGraph} {p : Path} {seen seen' stack ps : List Path}

theorem discover_eq_firsts (seen ps : List Path) : discover seen ps = Path.firsts seen ps := by
  induction ps generalizing seen with
  | nil => rfl
  | cons p ps ih => rw [discover, Path.firsts_cons_eq, ih, ih]

theorem discover_congr (h : ∀ q : Path, seen.any q.same = seen'.any q.same) (ps : List Path) :
    discover seen' ps = discover seen ps := by
  rw [discover_eq_firsts, discover_eq_firsts, Path.firsts_congr h]

/-- What a module loads that is not seen yet, each once, in the order of the module's imports. -/
def fresh (g : ModuleGraph) (seen : List Path) (p : Path) : List Path :=
  Path.firsts seen ((g.edges? p).getD [])

theorem unseen_congr (h : ∀ q : Path, seen.any q.same = seen'.any q.same) :
    g.unseen seen = g.unseen seen' := by
  simp only [unseen, h]

theorem any_reverse_append (found seen : List Path) (q : Path) :
    (found.reverse ++ seen).any q.same = (seen ++ found).any q.same := by
  rw [List.any_append, List.any_append, List.any_reverse, Bool.or_comm]

/-- What is found leaves less to be found. -/
theorem length_unseen_lt (h : g.fresh seen p ≠ []) :
    (g.unseen (seen ++ g.fresh seen p)).length < (g.unseen seen).length := by
  unfold fresh at h ⊢
  rw [← discover_eq_firsts] at h ⊢
  rw [← unseen_congr (any_reverse_append _ seen)]
  exact unseen_lt h

theorem length_unseen_append_le (g : ModuleGraph) (seen found : List Path) :
    (g.unseen (seen ++ found)).length ≤ (g.unseen seen).length := by
  unfold unseen
  simp only [List.any_append, Bool.not_or, ← List.filter_filter]
  exact (List.filter_sublist.filter _).length_le

/-- With more modules seen as much is left to be found, and fewer visits to make, or else less is left. -/
theorem lex_of_lt (g : ModuleGraph) (seen found : List Path) {m n : Nat} (h : m < n) :
    Prod.Lex (· < ·) (· < ·) ((g.unseen (seen ++ found)).length, m) ((g.unseen seen).length, n) := by
  rcases Nat.lt_or_eq_of_le (length_unseen_append_le g seen found) with hfound | hfound
  · exact .left _ _ hfound
  · rw [hfound]
    exact .right _ h

theorem lex_fresh (g : ModuleGraph) (seen : List Path) (p : Path) :
    Prod.Lex (· < ·) (· < ·)
      ((g.unseen (seen ++ g.fresh seen p)).length, 2 * (g.fresh seen p).length)
      ((g.unseen seen).length, 1) := by
  by_cases h : g.fresh seen p = []
  · rw [h]
    exact lex_of_lt g seen [] Nat.zero_lt_one
  · exact .left _ _ (length_unseen_lt h)

mutual

/-- What is found by a visit to a module: what it loads and is not seen yet, and then what is found by
visits to these. -/
def descend (g : ModuleGraph) (seen : List Path) (p : Path) : List Path :=
  g.fresh seen p ++ descendAll g (seen ++ g.fresh seen p) (g.fresh seen p)
  termination_by ((g.unseen seen).length, 1)
  decreasing_by exact lex_fresh g seen p

/-- What is found by visits to some modules, one after the other. -/
def descendAll (g : ModuleGraph) (seen : List Path) : List Path → List Path
  | [] => []
  | p :: ps => descend g seen p ++ descendAll g (seen ++ descend g seen p) ps
  termination_by ps => ((g.unseen seen).length, 2 * ps.length)
  decreasing_by
    · exact Prod.Lex.right _ (by rw [List.length_cons]; omega)
    · exact lex_of_lt g seen _ (by rw [List.length_cons]; omega)

end

/-- Of what was seen it does not matter in which order and how it is spelled. -/
theorem visit_congr (g : ModuleGraph) (seen seen' stack : List Path)
    (h : ∀ q : Path, seen.any q.same = seen'.any q.same) :
    g.visit seen stack = g.visit seen' stack := by
  fun_induction visit g seen stack generalizing seen' with
  | case1 seen => rw [visit]
  | case2 seen p stack found hnone ih =>
    rw [visit, discover_congr h, dif_pos hnone]
    exact ih seen' h
  | case3 seen p stack found hsome ih =>
    rw [visit, discover_congr h, dif_neg hsome]
    refine congrArg _ (ih _ fun q => ?_)
    rw [List.any_append, List.any_append, h]

/-- A module on top of the stack is visited, and what it leads to at once comes in its place. -/
theorem visit_cons (g : ModuleGraph) (seen : List Path) (p : Path) (stack : List Path) :
    g.visit seen (p :: stack) =
      g.fresh seen p ++ g.visit (seen ++ g.fresh seen p) (g.fresh seen p ++ stack) := by
  rw [visit, discover_eq_firsts, ← fresh]
  by_cases h : g.fresh seen p = []
  · rw [dif_pos h, h, List.nil_append, List.append_nil, List.nil_append]
  · rw [dif_neg h, visit_congr g _ _ _ (any_reverse_append _ seen)]

/-- The modules on top of a stack are visited one after the other, each with all that it leads to, before
the walk comes to those below. -/
theorem visit_append (g : ModuleGraph) (seen ps stack : List Path) :
    g.visit seen (ps ++ stack) =
      g.descendAll seen ps ++ g.visit (seen ++ g.descendAll seen ps) stack := by
  induction seen, ps using descendAll.induct g (fun seen p => ∀ stack, g.visit seen (p :: stack) =
      g.descend seen p ++ g.visit (seen ++ g.descend seen p) stack) generalizing stack with
  | case1 seen p ih =>
    rw [visit_cons, ih, descend, List.append_assoc, List.append_assoc]
  | case2 seen => simp [descendAll]
  | case3 seen p ps ihp ihps =>
    rw [List.cons_append, ihp, ihps, descendAll, List.append_assoc, List.append_assoc]

/-- The walk over a stack finds what the recursion finds that visits the entries in their order, once all
of them are seen: the same modules, and in the same order. -/
theorem preloadList_eq_descendAll (g : ModuleGraph) (entries : List Path) :
    g.preloadList entries = g.descendAll entries entries := by
  have h := visit_append g entries entries []
  rwa [List.append_nil, visit, List.append_nil] at h

end SiteBuild.ModuleGraph
