import SiteBuild.FileTree.Access
import SiteBuild.Proofs.Path.Resolution

/-! Where paths lead. A walk asks of a tree only which places are directories, so that trees with the
same directories are walked alike, and a path that leads to a file names it by its last component. -/

namespace SiteBuild

namespace FileTree

def enterAll (t : FileTree) (k : Place) (cs : List Component) : Except IoError Place :=
  cs.foldlM t.enter k

@[simp] theorem enterAll_nil (t : FileTree) (k : Place) : t.enterAll k [] = .ok k := rfl

theorem enterAll_cons (t : FileTree) (k : Place) (c : Component) (cs : List Component) :
    t.enterAll k (c :: cs) = t.enter k c >>= fun k => t.enterAll k cs := rfl

theorem enterAll_append (t : FileTree) (k : Place) (cs ds : List Component) :
    t.enterAll k (cs ++ ds) = t.enterAll k cs >>= fun k => t.enterAll k ds := by
  simp [enterAll]

/-- The last step of a walk. -/
def arrive (t : FileTree) (k : Place) : Component → Except IoError Target
  | .name n => if isTooLong n then .error .nameTooLong else .ok (.entry k n)
  | c => .directory <$> t.enter k c

theorem walk_append (t : FileTree) (k : Place) (cs : List Component) (c : Component) :
    t.walk k (cs ++ [c]) = t.enterAll k cs >>= fun k => t.arrive k c := by
  induction cs generalizing k with
  | nil =>
    cases c with
    | name n => rfl
    | root => rfl
    | here => rfl
    | up =>
      change t.enter k .up >>= _ = Target.directory <$> t.enter k .up
      cases t.enter k .up <;> rfl
  | cons d cs ih =>
    have h : t.walk k (d :: (cs ++ [c])) = t.enter k d >>= fun k => t.walk k (cs ++ [c]) := by
      cases d with
      | name n =>
        cases hcs : cs ++ [c] with
        | nil => simp at hcs
        | cons e es => rfl
      | root => rfl
      | here => rfl
      | up => rfl
    rw [List.cons_append, h, enterAll_cons, bind_assoc]
    congr 1
    funext k
    exact ih k

end FileTree

namespace Path

theorem steps_of_component? {p : Path} {ss : List (List Char)} {s : List Char} {c : Component}
    (h : segments p.text.toList = ss ++ [s]) (hc : component? s = some c) :
    p.steps = p.components := by
  have hs : s ≠ [] := by
    rintro rfl
    cases hc
  have hd : s ≠ ['.'] := by
    rintro rfl
    cases hc
  simp [steps, h, hs, hd]

/-- The walk of a path that ends at a name. -/
theorem exists_of_steps {p : Path} {cs : List Component} {n : String}
    (h : p.steps = cs ++ [.name n]) : p.components = cs ++ [.name n] := by
  unfold steps at h
  split at h
  · have := congrArg List.getLast? h
    simp at this
  · simpa using h

end Path

namespace FileTree

variable {t t' : FileTree} {p q : Path} {k : Place} {n : String}

theorem arrive_eq_entry {j : Place} {c : Component} (h : t.arrive j c = .ok (.entry k n)) :
    c = .name n ∧ j = k ∧ isTooLong n = false := by
  have hd {x : Except IoError Place} : Target.directory <$> x ≠ .ok (.entry k n) := by
    intro h
    cases x <;> cases h
  cases c with
  | name m =>
    by_cases hl : isTooLong m = true
    · simp [arrive, hl] at h
    · simp [arrive, hl] at h
      simpa [h] using hl
  | root => exact absurd h hd
  | here => exact absurd h hd
  | up => exact absurd h hd

theorem walk_eq_entry {j : Place} {cs : List Component} (h : t.walk j cs = .ok (.entry k n)) :
    ∃ ds, cs = ds ++ [.name n] ∧ t.enterAll j ds = .ok k ∧ isTooLong n = false := by
  induction cs using List.reverseRecOn with
  | nil => cases h
  | append_singleton ds c =>
    rw [walk_append] at h
    cases hd : t.enterAll j ds with
    | error e =>
      rw [hd] at h
      cases h
    | ok k' =>
      rw [hd] at h
      obtain ⟨rfl, rfl, hl⟩ := arrive_eq_entry h
      exact ⟨ds, rfl, hd, hl⟩

theorem target_eq_walk (h : t.target p = .ok x) :
    '\x00' ∉ p.text.toList ∧ p.steps ≠ [] ∧ t.walk [] p.steps = .ok x := by
  unfold target at h
  split at h
  · cases h
  · next h0 =>
    have h0 : '\x00' ∉ p.text.toList := by simpa using h0
    split at h
    · cases h
    · next hs => exact ⟨h0, hs, h⟩

theorem target_of_walk (h0 : '\x00' ∉ p.text.toList) (hs : p.steps ≠ [])
    (h : t.walk [] p.steps = .ok x) : t.target p = .ok x := by
  unfold target
  rw [if_neg (by simpa using h0)]
  split
  · next hn => exact absurd hn hs
  · exact h

theorem target_eq_entry (h : t.target p = .ok (.entry k n)) :
    ∃ cs, p.components = cs ++ [.name n] ∧ t.enterAll [] cs = .ok k := by
  obtain ⟨-, -, hw⟩ := target_eq_walk h
  obtain ⟨cs, hs, hk, -⟩ := walk_eq_entry hw
  exact ⟨cs, Path.exists_of_steps hs, hk⟩

/-- A path to a file or to where one may be put names it. -/
theorem fileName?_of_target (h : t.target p = .ok (.entry k n)) : p.fileName? = some n := by
  obtain ⟨cs, hc, -⟩ := target_eq_entry h
  simp [Path.fileName?, hc]

theorem isFileName_of_target (h : t.target p = .ok (.entry k n)) : IsFileName n := by
  obtain ⟨h0, -, hw⟩ := target_eq_walk h
  obtain ⟨cs, hs, -, hl⟩ := walk_eq_entry hw
  have hc := Path.exists_of_steps hs
  have hm : Component.name n ∈ p.components := by simp [hc]
  obtain ⟨h1, h2⟩ := Path.isLevel_of_name hm
  refine ⟨h1, h2, fun hn => h0 (Path.mem_of_mem_name hm hn), hl⟩

end FileTree

end SiteBuild
