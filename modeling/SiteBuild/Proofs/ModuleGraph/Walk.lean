import Mathlib.Logic.Relation
import SiteBuild.ModuleGraph
import SiteBuild.Proofs.Path.Spelling

/-! The walk from the entries of a page. It finds a module once, behind one that loads it, and comes to
an end only where nothing is left to be found; what it finds is what the entries lead to. -/

namespace SiteBuild

namespace Path

variable {p q : Path} {ps qs : List Path}

theorem same_symm (h : p.same q = true) : q.same p = true :=
  same_eq_true.2 (same_eq_true.1 h).symm

theorem same_trans {r : Path} (h : p.same q = true) (h' : q.same r = true) : p.same r = true :=
  same_eq_true.2 ((same_eq_true.1 h).trans (same_eq_true.1 h'))

/-- Whether a path is one of some, by whatever spelling. -/
def IsAmong (p : Path) (ps : List Path) : Prop := ∃ q ∈ ps, p.same q = true

theorem any_same : ps.any p.same = true ↔ p.IsAmong ps := List.any_eq_true

theorem any_same_eq_false : ps.any p.same = false ↔ ¬p.IsAmong ps := by
  rw [← any_same, Bool.not_eq_true]

theorem isAmong_of_mem (h : p ∈ ps) : p.IsAmong ps := ⟨p, h, same_self p⟩

theorem IsAmong.mono (h : p.IsAmong ps) (hs : ps ⊆ qs) : p.IsAmong qs :=
  h.imp fun _ hq => ⟨hs hq.1, hq.2⟩

theorem IsAmong.of_same (h : q.IsAmong ps) (hs : p.same q = true) : p.IsAmong ps :=
  h.imp fun _ hq => ⟨hq.1, same_trans hs hq.2⟩

@[simp] theorem isAmong_append : p.IsAmong (ps ++ qs) ↔ p.IsAmong ps ∨ p.IsAmong qs := by
  simp [IsAmong, or_and_right, exists_or]

end Path

namespace ModuleGraph

variable {g : ModuleGraph} {p q : Path} {seen stack entries ps : List Path}

/-- Whether a module loads another one. -/
def Loads (g : ModuleGraph) (p q : Path) : Prop := q ∈ (g.edges? p).getD []

/-- Whether a module leads to another one, over any number of others. -/
def LeadsTo (g : ModuleGraph) : Path → Path → Prop :=
  Relation.TransGen fun p q => ∃ x, g.Loads p x ∧ x.same q = true

theorem edges?_of_same (h : p.same q = true) : g.edges? p = g.edges? q := by
  have hsame (x : Path) : x.same p = x.same q := by
    simp [Path.same, Path.same_eq_true.1 h]
  simp only [edges?, hsame]

theorem Loads.of_same {x : Path} (h : g.Loads p x) (hs : p.same q = true) : g.Loads q x := by
  rwa [Loads, ← edges?_of_same hs]

section discover

theorem discover_pairwise (seen ps : List Path) :
    (discover seen ps).Pairwise fun p q => ¬q.same p = true := by
  induction ps generalizing seen with
  | nil => exact .nil
  | cons p ps ih =>
    unfold discover
    split
    · exact ih seen
    · refine List.pairwise_cons.2 ⟨fun q hq hs => ?_, ih _⟩
      have := (mem_of_mem_discover hq).2
      simp [hs] at this

theorem not_isAmong_of_mem_discover (h : p ∈ discover seen ps) : ¬p.IsAmong seen :=
  Path.any_same_eq_false.1 (mem_of_mem_discover h).2

theorem isAmong_discover (h : p ∈ ps) : p.IsAmong (discover seen ps ++ seen) := by
  induction ps generalizing seen with
  | nil => cases h
  | cons q ps ih =>
    unfold discover
    split
    · next hq =>
      rcases List.mem_cons.1 h with rfl | h
      · exact (Path.any_same.1 hq).mono (List.subset_append_right _ _)
      · exact ih h
    · rcases List.mem_cons.1 h with rfl | h
      · exact Path.isAmong_of_mem (by simp)
      · have ih : p.IsAmong (discover (q :: seen) ps ++ q :: seen) := ih h
        exact ih.mono (by simp)

end discover

/-- What a walk finds, each module by one path, it has not seen before. -/
theorem visit_pairwise (g : ModuleGraph) (seen stack : List Path) :
    (g.visit seen stack).Pairwise (fun p q => ¬q.same p = true) ∧
      ∀ p ∈ g.visit seen stack, ¬p.IsAmong seen := by
  fun_induction visit g seen stack with
  | case1 => simp
  | case2 _ _ _ _ _ ih => exact ih
  | case3 seen p stack found _ ih =>
    obtain ⟨hpair, hnew⟩ := ih
    refine ⟨List.pairwise_append.2 ⟨discover_pairwise _ _, hpair, fun x hx y hy hs => ?_⟩, fun x hx => ?_⟩
    · exact hnew y hy ⟨x, by simp [hx], hs⟩
    · rcases List.mem_append.1 hx with hx | hx
      · exact not_isAmong_of_mem_discover hx
      · exact fun ha => hnew x hx (ha.mono (by simp))

/-- What a walk finds is loaded by what it started from, or by what it has found before. -/
theorem exists_loads_of_visit (g : ModuleGraph) (seen stack : List Path) :
    ∀ l p r, g.visit seen stack = l ++ p :: r → ∃ q, (q ∈ stack ∨ q ∈ l) ∧ g.Loads q p := by
  fun_induction visit g seen stack with
  | case1 seen => simp
  | case2 seen x stack found _ ih =>
    intro l p r h
    obtain ⟨q, hq, hl⟩ := ih l p r h
    exact ⟨q, hq.imp (List.mem_cons_of_mem _) id, hl⟩
  | case3 seen x stack found _ ih =>
    intro l p r h
    rcases List.append_eq_append_iff.1 h with ⟨l', rfl, hrest⟩ | ⟨r', hfound, hrest⟩
    · obtain ⟨q, hq, hl⟩ := ih l' p r hrest
      refine ⟨q, ?_, hl⟩
      rcases hq with hq | hq
      · rcases List.mem_append.1 hq with hq | hq
        · exact .inr (List.mem_append_left _ hq)
        · exact .inl (List.mem_cons_of_mem _ hq)
      · exact .inr (List.mem_append_right _ hq)
    · cases r' with
      | nil =>
        obtain ⟨q, hq, hl⟩ := ih [] p r hrest.symm
        rw [List.append_nil] at hfound
        refine ⟨q, ?_, hl⟩
        rcases hq with hq | hq
        · rcases List.mem_append.1 hq with hq | hq
          · exact .inr (hfound ▸ hq)
          · exact .inl (List.mem_cons_of_mem _ hq)
        · cases hq
      | cons y r' =>
        obtain ⟨rfl, -⟩ := List.cons.inj hrest
        have hm : p ∈ found := by simp [hfound]
        exact ⟨x, .inl List.mem_cons_self, (mem_of_mem_discover hm).1⟩

/-- A walk does not end before all is found that what it has seen loads. The modules that are seen stand
on the stack, or what they load is seen. -/
theorem isAmong_visit (h : ∀ p ∈ seen, p.IsAmong stack ∨ ∀ q, g.Loads p q → q.IsAmong seen) :
    ∀ p ∈ seen ++ g.visit seen stack, ∀ q, g.Loads p q → q.IsAmong (seen ++ g.visit seen stack) := by
  fun_induction visit g seen stack with
  | case1 seen =>
    intro p hp q hq
    rw [List.append_nil] at hp ⊢
    rcases h p hp with ⟨x, hx, -⟩ | h
    · cases hx
    · exact h q hq
  | case2 seen x stack found hfound ih =>
    refine ih fun p hp => ?_
    rcases h p hp with ⟨y, hy, hs⟩ | h
    · rcases List.mem_cons.1 hy with rfl | hy
      · right
        intro q hq
        have hq : q.IsAmong (found ++ seen) := isAmong_discover (hq.of_same hs)
        simpa [hfound] using hq
      · exact .inl ⟨y, hy, hs⟩
    · exact .inr h
  | case3 seen x stack found _ ih =>
    have hstep : ∀ p ∈ found.reverse ++ seen,
        p.IsAmong (found ++ stack) ∨ ∀ q, g.Loads p q → q.IsAmong (found.reverse ++ seen) := by
      intro p hp
      rcases List.mem_append.1 hp with hp | hp
      · exact .inl (Path.isAmong_of_mem (by simpa using .inl (List.mem_reverse.1 hp)))
      rcases h p hp with ⟨y, hy, hs⟩ | h
      · rcases List.mem_cons.1 hy with rfl | hy
        · right
          intro q hq
          have hq : q.IsAmong (found ++ seen) := isAmong_discover (hq.of_same hs)
          exact hq.mono (by simp)
        · exact .inl ⟨y, by simp [hy], hs⟩
      · exact .inr fun q hq => (h q hq).mono (by simp)
    intro p hp q hq
    exact (ih hstep p (by simpa [or_assoc, or_left_comm] using hp) q hq).mono
      (by simp)

/-- A walk finds nothing but what its entries lead to. -/
theorem leadsTo_of_mem_preloadList (h : p ∈ g.preloadList entries) :
    ∃ e ∈ entries, g.LeadsTo e p := by
  obtain ⟨l, r, hs⟩ := List.append_of_mem h
  clear h
  induction hn : l.length using Nat.strongRecOn generalizing l p r with
  | ind n ih =>
    obtain ⟨q, hq | hq, hl⟩ := exists_loads_of_visit g entries entries l p r hs
    · exact ⟨q, hq, .single ⟨p, hl, Path.same_self p⟩⟩
    · obtain ⟨l', r', rfl⟩ := List.append_of_mem hq
      rw [List.append_assoc, List.cons_append] at hs
      have hlt : l'.length < n := by
        rw [← hn, List.length_append, List.length_cons]
        omega
      obtain ⟨e, he, hlead⟩ := ih l'.length hlt l' (r' ++ p :: r) hs rfl
      exact ⟨e, he, hlead.tail ⟨p, hl, Path.same_self p⟩⟩

/-- A walk finds everything that its entries lead to. -/
theorem isAmong_of_leadsTo {e : Path} (he : e ∈ entries) (h : g.LeadsTo e p) :
    p.IsAmong (entries ++ g.preloadList entries) := by
  have hclosed : ∀ p ∈ entries ++ g.preloadList entries, ∀ q, g.Loads p q →
      q.IsAmong (entries ++ g.preloadList entries) :=
    isAmong_visit fun p hp => .inl (Path.isAmong_of_mem hp)
  induction h with
  | single h =>
    obtain ⟨x, hx, hs⟩ := h
    exact (hclosed e (List.mem_append_left _ he) x hx).of_same (Path.same_symm hs)
  | tail _ h ih =>
    obtain ⟨y, hy, hs⟩ := ih
    obtain ⟨x, hx, hs'⟩ := h
    exact (hclosed y hy x (hx.of_same hs)).of_same (Path.same_symm hs')

/-- Up to their spelling, a walk finds just the modules that its entries lead to and are no entries. -/
theorem isAmong_preloadList_iff :
    p.IsAmong (g.preloadList entries) ↔ ¬p.IsAmong entries ∧ ∃ e ∈ entries, g.LeadsTo e p := by
  constructor
  · rintro ⟨q, hq, hs⟩
    refine ⟨fun hp => ?_, ?_⟩
    · exact (visit_pairwise g entries entries).2 q hq (hp.of_same (Path.same_symm hs))
    · obtain ⟨e, he, hlead⟩ := leadsTo_of_mem_preloadList hq
      refine ⟨e, he, ?_⟩
      -- the last step may end at the other spelling as well
      obtain ⟨x, hx, hlast⟩ := Relation.TransGen.tail'_iff.1 hlead
      obtain ⟨y, hy, hys⟩ := hlast
      exact Relation.TransGen.tail' hx ⟨y, hy, Path.same_trans hys (Path.same_symm hs)⟩
  · rintro ⟨hp, e, he, hlead⟩
    exact (Path.isAmong_append.1 (isAmong_of_leadsTo he hlead)).resolve_left hp

end ModuleGraph

end SiteBuild
