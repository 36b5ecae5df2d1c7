import SiteBuild.Proofs.Path.Spelling

/-! What paths mean. A path leads up some levels and then down by names. Resolving it keeps the names,
but of two levels up that are left over it takes the second for a way back from the first. -/

namespace SiteBuild

namespace Path

/-- What a path means: whether it starts at the root, how many levels it leads up from where it starts,
and the names that it leads down by from there. -/
structure Meaning where
  rooted : Bool := false
  up : Nat := 0
  names : List String := []
  deriving DecidableEq, Repr

namespace Meaning

variable {m : Meaning} {c : Component} {done cs front : List Component}

/-- What a path means with one component more. A level up takes the last name back, and there is none
above the root. -/
def step (m : Meaning) : Component → Meaning
  | .root => { rooted := true }
  | .here => m
  | .name n => { m with names := m.names ++ [n] }
  | .up =>
    if m.names ≠ [] then { m with names := m.names.dropLast }
    else if m.rooted then m
    else { m with up := m.up + 1 }

@[simp] theorem step_here (m : Meaning) : m.step .here = m := rfl

@[simp] theorem step_name (m : Meaning) (n : String) :
    m.step (.name n) = { m with names := m.names ++ [n] } := rfl

theorem step_up_of_nil (h : m.names = []) :
    m.step .up = if m.rooted then m else { m with up := m.up + 1 } := by
  simp [step, h]

theorem step_up_of_concat {names : List String} {n : String} (h : m.names = names ++ [n]) :
    m.step .up = { m with names := names } := by
  simp [step, h]

theorem names_step_up (h : m.names = []) : (m.step .up).names = [] := by
  rw [step_up_of_nil h]
  split <;> exact h

theorem foldl_step_names (m : Meaning) (names : List String) :
    (names.map Component.name).foldl step m = { m with names := m.names ++ names } := by
  induction names generalizing m with
  | nil => simp
  | cons n names ih => simp [ih]

theorem rooted_step (hc : c ≠ .root) : (m.step c).rooted = m.rooted := by
  cases c with
  | root => exact absurd rfl hc
  | here => rfl
  | name n => rfl
  | up =>
    simp only [step]
    split
    · rfl
    · split <;> rfl

theorem rooted_foldl_step (hc : .root ∉ cs) : (cs.foldl step m).rooted = m.rooted := by
  induction cs generalizing m with
  | nil => rfl
  | cons c cs ih =>
    simp only [List.mem_cons, not_or] at hc
    rw [List.foldl_cons, ih hc.2, rooted_step (Ne.symm hc.1)]

/-- What a path means as seen from where another one leads. -/
def follow (m : Meaning) (p : Path) : Meaning := p.components.foldl step m

/-- The components that are left in front of the names once a path is resolved. -/
inductive Front : Meaning → List Component → Prop
  | even {up : Nat} {names : List String} (h : up % 2 = 0) : Front ⟨false, up, names⟩ []
  | odd {up : Nat} {names : List String} (h : up % 2 = 1) : Front ⟨false, up, names⟩ [.up]
  | root {names : List String} : Front ⟨true, 0, names⟩ [.root]
  | aboveRoot {names : List String} : Front ⟨true, 0, names⟩ [.root, .up]

namespace Front

theorem withNames (h : Front m front) (names : List String) :
    Front { m with names := names } front := by
  cases h with
  | even h => exact .even h
  | odd h => exact .odd h
  | root => exact .root
  | aboveRoot => exact .aboveRoot

/-- A level up where no name is left to be taken back. -/
theorem up (h : Front m front) (hm : m.names = []) :
    Front (m.step .up) (resolveStep front.reverse .up).reverse := by
  rw [step_up_of_nil hm]
  cases h with
  | even h => exact .odd (by dsimp only; omega)
  | odd h => exact .even (by dsimp only; omega)
  | root => exact .aboveRoot
  | aboveRoot => exact .root

theorem up_eq_zero (h : Front m front) (hm : m.rooted = true) : m.up = 0 := by
  cases h with
  | even h => cases hm
  | odd h => cases hm
  | root => rfl
  | aboveRoot => rfl

theorem foldl_step (h : Front m front) :
    front.foldl step {} = { m with up := m.up % 2, names := [] } := by
  cases h with
  | even h => simp [h]
  | odd h => simp [h, step]
  | root => rfl
  | aboveRoot => rfl

end Front

/-- Components that spell a meaning, but for pairs of levels up. -/
def SpelledBy (m : Meaning) (cs : List Component) : Prop :=
  ∃ front, Front m front ∧ cs = front ++ m.names.map .name

theorem spelledBy_nil : SpelledBy {} [] := ⟨[], .even rfl, rfl⟩

/-- One step of resolution goes along with the meaning. -/
theorem SpelledBy.step (h : m.SpelledBy done.reverse) (hc : c ≠ .root) :
    (m.step c).SpelledBy (resolveStep done c).reverse := by
  obtain ⟨front, hfront, hdone⟩ := h
  have hdone : done = (m.names.map .name).reverse ++ front.reverse := by
    rw [← List.reverse_append, ← hdone, List.reverse_reverse]
  cases c with
  | root => exact absurd rfl hc
  | here => exact ⟨front, hfront, by simp [resolveStep, hdone]⟩
  | name n => exact ⟨front, hfront.withNames _, by simp [hdone]⟩
  | up =>
    rcases List.eq_nil_or_concat m.names with hm | ⟨names, n, hm⟩
    · exact ⟨_, hfront.up hm, by simp [hdone, hm, names_step_up hm]⟩
    · rw [List.concat_eq_append] at hm
      rw [step_up_of_concat hm]
      exact ⟨front, hfront.withNames _, by simp [hdone, hm, resolveStep]⟩

theorem SpelledBy.foldl (h : m.SpelledBy done.reverse) (hc : .root ∉ cs) :
    (cs.foldl Meaning.step m).SpelledBy (cs.foldl resolveStep done).reverse := by
  induction cs generalizing m done with
  | nil => exact h
  | cons c cs ih =>
    simp only [List.mem_cons, not_or] at hc
    exact ih (h.step (Ne.symm hc.1)) hc.2

theorem SpelledBy.foldl_step (h : m.SpelledBy cs) :
    cs.foldl Meaning.step {} = { m with up := m.up % 2 } := by
  obtain ⟨front, hfront, rfl⟩ := h
  rw [List.foldl_append, hfront.foldl_step, foldl_step_names]
  simp

end Meaning

variable {p q : Path}

/-- What a path means, read off its components from left to right. -/
def meaning (p : Path) : Meaning := Meaning.follow {} p

theorem Meaning.follow_of_isAbsolute (m : Meaning) (hp : p.isAbsolute = true) :
    m.follow p = (levels p.text).foldl step { rooted := true } := by
  rw [follow, components_of_isAbsolute hp]
  rfl

theorem Meaning.follow_of_isRelative (m : Meaning) (hp : p.isAbsolute = false) :
    m.follow p = (levels p.text).foldl step m := by
  rcases components_of_isRelative hp with hc | hc <;> rw [follow, hc]
  rfl

/-- A path joined to another one is read on from there. -/
theorem meaning_join (p q : Path) : (p.join q).meaning = p.meaning.follow q := by
  by_cases hq : q.isAbsolute = true
  · have hj : p.join q = q := by simp [join, hq]
    rw [hj, meaning, Meaning.follow_of_isAbsolute _ hq, Meaning.follow_of_isAbsolute _ hq]
  · rw [Bool.not_eq_true] at hq
    rw [Meaning.follow_of_isRelative _ hq]
    by_cases hp : p.text = ""
    · rw [join_empty hp, meaning, Meaning.follow_of_isRelative _ hq, meaning, Meaning.follow,
        components_empty hp]
      rfl
    · rw [meaning, Meaning.follow, components_join hp hq, List.foldl_append]
      rfl

theorem root_not_mem_levels (s : String) : .root ∉ levels s :=
  fun h => not_isLevel_root (isLevel_of_mem_levels h)

theorem rooted_meaning (p : Path) : p.meaning.rooted = p.isAbsolute := by
  by_cases hp : p.isAbsolute = true
  · rw [meaning, Meaning.follow_of_isAbsolute _ hp, Meaning.rooted_foldl_step (root_not_mem_levels _), hp]
  · rw [Bool.not_eq_true] at hp
    rw [meaning, Meaning.follow_of_isRelative _ hp, Meaning.rooted_foldl_step (root_not_mem_levels _), hp]

/-- Resolved components spell what the path means, but for pairs of levels up. -/
theorem resolve_spelledBy (p : Path) : p.meaning.SpelledBy (resolve p.components) := by
  by_cases hp : p.isAbsolute = true
  · rw [meaning, Meaning.follow_of_isAbsolute _ hp, components_of_isAbsolute hp]
    have hroot : Meaning.SpelledBy { rooted := true } [Component.root].reverse := ⟨_, .root, rfl⟩
    exact hroot.foldl (root_not_mem_levels _)
  · rw [Bool.not_eq_true] at hp
    rw [meaning, Meaning.follow_of_isRelative _ hp, resolve_components hp]
    exact Meaning.spelledBy_nil.foldl (root_not_mem_levels _)

theorem meaning_normalize (p : Path) :
    p.normalize.meaning = { p.meaning with up := p.meaning.up % 2 } := by
  rw [meaning, Meaning.follow, components_normalize]
  exact (resolve_spelledBy p).foldl_step

theorem meaning_normalize_eq_iff :
    p.normalize.meaning = p.meaning ↔ p.meaning.rooted = true ∨ p.meaning.up ≤ 1 := by
  obtain ⟨front, hfront, -⟩ := resolve_spelledBy p
  have hup : p.normalize.meaning = p.meaning ↔ p.meaning.up % 2 = p.meaning.up := by
    rw [meaning_normalize]
    exact ⟨fun h => congrArg Meaning.up h, fun h => by rw [h]⟩
  rw [hup]
  constructor
  · exact fun h => .inr (by omega)
  · rintro (h | h)
    · rw [hfront.up_eq_zero h]
    · omega

/-- A path that is resolved keeps its meaning just if it is absolute or leads up one level at most: of all
levels up that are left over, it keeps one if their number is odd, and none otherwise. The same goes for a
specifier that is resolved from the directory of a file. -/
theorem keeps_meaning_iff (p file : Path) (s : String) :
    (p.meaning.rooted = p.isAbsolute ∧
      p.normalize.meaning = { p.meaning with up := p.meaning.up % 2 } ∧
      (p.normalize.meaning = p.meaning ↔ p.isAbsolute = true ∨ p.meaning.up ≤ 1)) ∧
    let m := file.directory.meaning.follow ⟨s⟩
    (file.directory.join ⟨s⟩).meaning = m ∧
      ((file.resolveFrom s).meaning = m ↔ m.rooted = true ∨ m.up ≤ 1) := by
  constructor
  · exact ⟨rooted_meaning p, meaning_normalize p, rooted_meaning p ▸ meaning_normalize_eq_iff⟩
  · intro m
    have hjoin : (file.directory.join ⟨s⟩).meaning = m := meaning_join file.directory ⟨s⟩
    rw [← hjoin]
    exact ⟨rfl, meaning_normalize_eq_iff⟩

/-- Two levels up are lost, by resolving a path and by resolving a specifier from a file. -/
theorem loses_two_levels_up :
    meaning ⟨"../../a"⟩ = ⟨false, 2, ["a"]⟩ ∧ (normalize ⟨"../../a"⟩).meaning = ⟨false, 0, ["a"]⟩ ∧
    (directory ⟨"app.js"⟩).meaning.follow ⟨"../../a"⟩ = ⟨false, 2, ["a"]⟩ ∧
    (resolveFrom ⟨"app.js"⟩ "../../a").meaning = ⟨false, 0, ["a"]⟩ := by
  decide +kernel

end Path

end SiteBuild
