import SiteBuild.Proofs.Script.Lexing
import SiteBuild.Script.Module

/-! Reading a text that is spelled out, token by token: how what is expected changes, up to what is
expected of the rest. -/

namespace SiteBuild.Script

variable {g h s s' s'' w : List Char} {b : Bool} {t : Token} {e : Expectation}
  {st st' st'' more : List Expectation}

/-- Reading a text comes down to reading a suffix of it against other expectations. -/
def Reads (st : List Expectation) (s : List Char) (st' : List Expectation) (s' : List Char) : Prop :=
  ∃ ps, source ps ++ s' = s ∧ read st .value s = (read st' .value s').map (·.behind ps)

namespace Reads

theorem refl (st : List Expectation) (s : List Char) : Reads st s st s :=
  ⟨[], rfl, by simp [Passage.behind_nil]⟩

theorem trans (h : Reads st s st' s') (h' : Reads st' s' st'' s'') : Reads st s st'' s'' := by
  obtain ⟨ps, hs, hr⟩ := h
  obtain ⟨qs, hs', hr'⟩ := h'
  refine ⟨ps ++ qs, by rw [source_append, List.append_assoc, hs', hs], ?_⟩
  rw [hr, hr', Option.map_map]
  congr 1
  funext d
  exact Passage.behind_behind ps qs d

/-- A token that is taken. -/
theorem take (hg : IsClosed g b) (hw : IsToken (e.goal b) w t s)
    (hm : e.move .value b t = .take more) (ht : t ≠ .finish) (st : List Expectation) :
    Reads (e :: st) (g ++ (w ++ s)) (more ++ st) s := by
  have hn := next_of_isToken hg hw
  refine ⟨[.lexeme ⟨g, b, t, w⟩], by simp [Piece.source, Lexeme.source], ?_⟩
  exact read_of_take (by rw [lineEnds_of_next hn, hn]) hm ht st

/-- A token that is left to what is expected below. -/
theorem leave (hg : IsClosed g b) (hw : IsToken (e.goal b) w t s)
    (hm : e.move .value b t = .leave .value) (st : List Expectation) :
    Reads (e :: st) (g ++ (w ++ s)) st (g ++ (w ++ s)) := by
  have hn := next_of_isToken hg hw
  refine ⟨left e, by simp, ?_⟩
  exact read_of_leave (by rw [lineEnds_of_next hn, hn]) hm st

/-- A token that is left with the shape of what was read, and taken by what is expected below. -/
theorem leave_take {f : Expectation} {shape : Shape} (hg : IsClosed g b)
    (hw : IsToken (e.goal b) w t s) (hm : e.move .value b t = .leave shape)
    (hw' : IsToken (f.goal b) w t s) (hm' : f.move shape b t = .take more) (ht : t ≠ .finish)
    (st : List Expectation) :
    Reads (e :: f :: st) (g ++ (w ++ s)) (more ++ st) s := by
  have hn := next_of_isToken hg hw
  have hn' := next_of_isToken hg hw'
  refine ⟨left e ++ [.lexeme ⟨g, b, t, w⟩], by simp [Piece.source, Lexeme.source], ?_⟩
  rw [read_of_leave (by rw [lineEnds_of_next hn, hn]) hm,
    read_of_take (by rw [lineEnds_of_next hn', hn']) hm' ht, Option.map_map]
  exact congrArg (Option.map · _) (funext fun d => Passage.behind_behind _ _ d)

theorem read_eq (h : Reads st s [] s') :
    ∃ ps, source ps ++ s' = s ∧ read st .value s = some ⟨ps, .value, s'⟩ := by
  obtain ⟨ps, hs, hr⟩ := h
  refine ⟨ps, hs, ?_⟩
  rw [hr, read_nil]
  simp [Passage.behind]

end Reads

theorem read_of_none {shape : Shape} (hn : next (e.goal (lineEnds s)) s = none) (st : List Expectation) :
    read (e :: st) shape s = none := by
  rw [read]
  split
  · rfl
  · next h =>
    rw [hn] at h
    cases h

theorem read_of_fail {shape : Shape} {l : Lexeme} {r : List Char}
    (hn : next (e.goal (lineEnds s)) s = some (l, r)) (hm : e.move shape l.broken l.token = .fail)
    (st : List Expectation) : read (e :: st) shape s = none := by
  rw [read]
  split
  · rfl
  · next l' r' h =>
    obtain ⟨rfl, rfl⟩ : l = l' ∧ r = r' := by simpa using hn.symm.trans h
    simp [hm]

/-- What is expected first takes a token, or leaves it. -/
theorem read_cons_cases {shape : Shape} {d : Passage}
    (h : read (e :: st) shape s = some d) :
    ∃ l y, next (e.goal l.broken) s = some (l, y) ∧
      ((∃ more shape' d', e.move shape l.broken l.token = .moveOn more shape' ∧ l.token ≠ .finish ∧
          read (more ++ st) shape' y = some d' ∧ d = d'.behind [.lexeme l]) ∨
        ∃ shape' d', e.move shape l.broken l.token = .leave shape' ∧ read st shape' s = some d' ∧
          d = d'.behind (left e)) := by
  rw [read] at h
  split at h
  · cases h
  next l y hn =>
  rw [lineEnds_of_next hn] at hn
  refine ⟨l, y, hn, ?_⟩
  split at h
  · next more shape' hm =>
    split at h
    · cases h
    next hf =>
    obtain ⟨d', hd, rfl⟩ := Option.map_eq_some_iff.1 h
    exact .inl ⟨more, shape', d', hm, hf, hd, rfl⟩
  · next shape' hm =>
    obtain ⟨d', hd, rfl⟩ := Option.map_eq_some_iff.1 h
    exact .inr ⟨shape', d', hm, hd, rfl⟩
  · cases h

/-- Names of letters and digits that are no words of the language. -/
structure IsIdentifier (w : List Char) : Prop where
  start : w.head?.any Char.isAlpha = true
  all : ∀ c ∈ w, c.isAlphanum = true
  free : String.ofList w ∉ "await" :: keywords

namespace IsIdentifier

instance (w : List Char) : Decidable (IsIdentifier w) :=
  decidable_of_iff (w.head?.any Char.isAlpha = true ∧ w.all Char.isAlphanum = true ∧
      String.ofList w ∉ "await" :: keywords)
    ⟨fun ⟨hs, ha, hf⟩ => ⟨hs, List.all_eq_true.1 ha, hf⟩,
      fun ⟨hs, ha, hf⟩ => ⟨hs, List.all_eq_true.2 ha, hf⟩⟩

theorem isWord (hw : IsIdentifier w) : IsWord w := ⟨hw.start, hw.all⟩

theorem token (hw : IsIdentifier w) : Spelling.token ⟨w, false⟩ = .name (String.ofList w) := by
  have hc : String.ofList w ∉ keywords := fun h => hw.free (List.mem_cons_of_mem _ h)
  simp [Spelling.token, hc]

theorem isToken (hw : IsIdentifier w) {goal : Goal} (hs : EndsName s) :
    IsToken goal w (.name (String.ofList w)) s :=
  hw.token ▸ isToken_word hw.isWord hs

theorem isNameIn (hw : IsIdentifier w) : (Token.name (String.ofList w)).isNameIn .module = true := by
  have h : String.ofList w ≠ "await" := fun h => hw.free (h ▸ List.mem_cons_self)
  simp [Token.isNameIn, Script.isNameIn, Scope.module, h]

end IsIdentifier

/-- A word that is no name of the script's own. -/
theorem isToken_keyword {goal : Goal} {x : String} (hx : IsWord x.toList)
    (ht : Spelling.token ⟨x.toList, false⟩ = t) (hs : EndsName s) :
    IsToken goal x.toList t s :=
  ht ▸ isToken_word hx hs

end SiteBuild.Script
