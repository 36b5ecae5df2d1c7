import SiteBuild.Script.Lexer

/-!
Reading loses nothing: a token with its gap and the rest make up the text, and a token takes at least
one character.
-/
namespace SiteBuild.Script

theorem nextBehind_source {goal : Goal} {gap s r : List Char} {b : Bool} {l : Lexeme}
    (h : nextBehind goal gap b s = some (l, r)) : l.source ++ r = gap ++ s := by
  unfold nextBehind at h
  split at h
  · cases h
    simp [Lexeme.source]
  · obtain ⟨_, _, h⟩ := Option.map_eq_some_iff.1 h
    cases h
    simp [Lexeme.source]

theorem next_source {goal : Goal} {s r : List Char} {l : Lexeme} (h : next goal s = some (l, r)) :
    l.source ++ r = s := by
  obtain ⟨_, _, h⟩ := Option.bind_eq_some_iff.1 h
  rw [nextBehind_source h, List.take_append_drop]

theorem nextBehind_length {goal : Goal} {gap s r : List Char} {b : Bool} {l : Lexeme}
    (h : nextBehind goal gap b s = some (l, r)) (ht : l.token ≠ .finish) : r.length < s.length := by
  unfold nextBehind at h
  split at h
  · cases h
    exact absurd rfl ht
  · obtain ⟨_, _, h⟩ := Option.map_eq_some_iff.1 h
    cases h
    simp only [List.length_drop, List.length_cons]
    omega

theorem next_length {goal : Goal} {s r : List Char} {l : Lexeme} (h : next goal s = some (l, r))
    (ht : l.token ≠ .finish) : r.length < s.length := by
  obtain ⟨_, _, h⟩ := Option.bind_eq_some_iff.1 h
  exact Nat.lt_of_lt_of_le (nextBehind_length h ht) (by simp)

theorem nextBehind_broken {goal : Goal} {gap s r : List Char} {b : Bool} {l : Lexeme}
    (h : nextBehind goal gap b s = some (l, r)) : l.broken = b := by
  unfold nextBehind at h
  split at h
  · cases h
    rfl
  · obtain ⟨_, _, h⟩ := Option.map_eq_some_iff.1 h
    cases h
    rfl

theorem lineEnds_of_next {goal : Goal} {s r : List Char} {l : Lexeme} (h : next goal s = some (l, r)) :
    lineEnds s = l.broken := by
  obtain ⟨_, hg, h⟩ := Option.bind_eq_some_iff.1 h
  simp [lineEnds, hg, nextBehind_broken h]

end SiteBuild.Script
