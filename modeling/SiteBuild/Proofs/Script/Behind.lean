import SiteBuild.Proofs.Script.Gaps
import SiteBuild.Script.Module

/-! What is read of a text is the same in front of another text, if that one looks alike and the
expectations that leave the next token of the one leave that of the other. -/

namespace SiteBuild.Script

variable {x s s' r : List Char} {b : Bool} {t : Token} {e : Expectation} {st : List Expectation}
  {shape shape' : Shape} {ps : List Piece}

section goals

/-- No regular expression is left to the expectation below. -/
theorem goal_of_leave_regex (h : e.move shape b .regex = .leave shape') : e.goal b = .operator := by
  cases e with
  | entries l _ => cases l <;> cases h
  | covered c _ _ => cases c <;> cases h
  | exportName l => cases l <;> cases h
  | classHead named _ => cases named <;> cases h
  | cases inside _ => cases inside <;> cases h
  | declarator d =>
    obtain ⟨_, _, disposed, _, _⟩ := d
    cases disposed <;> cases h
  -- what a line's end in front of the token leads to
  | yielded _ => cases b <;> first | rfl | cases h
  | optionalValue _ => cases b <;> first | rfl | cases h
  | sameLineValue _ => cases b <;> cases h
  | memberAccessor _ _ _ => cases b <;> cases h
  | memberAsync _ _ => cases b <;> cases h
  | memberStatic _ => cases b <;> cases h
  | _ => first | rfl | cases h

theorem goal_ne_template_of_leave (h : e.move shape b t = .leave shape') :
    e.goal b ≠ .template := by
  cases e with
  | template _ _ =>
    simp only [Expectation.move, moveTemplate] at h
    split at h
    · split at h <;> cases h
    · cases h
  | yielded _ => cases b <;> nofun
  | optionalValue _ => cases b <;> nofun
  | _ => nofun

/-- What leaves the one word to the expectation below leaves the other. -/
theorem leave_const_of_leave_import (h : e.move shape b (.keyword "import") = .leave shape') :
    e.move shape b (.keyword "const") = .leave shape' := by
  cases e with
  | mark _ =>
    simp only [Expectation.move] at h
    split at h <;> cases h
  | entries l _ => cases l <;> cases h
  | more l _ => cases l <;> cases h
  | initial l _ => cases l <;> cases h
  | covered c _ _ => cases c <;> cases h
  | coveredMore c _ _ _ => cases c <;> cases h
  | exportName l => cases l <;> cases h
  | cases inside _ => cases inside <;> cases h
  -- what a line's end in front of the token leads to
  | yielded _ => cases b <;> first | exact h | cases h
  | optionalValue _ => cases b <;> first | exact h | cases h
  | sameLineValue _ => cases b <;> cases h
  | _ => first | exact h | cases h

end goals

/-- A text that may stand in the place of another one behind what was read. -/
structure ReplacedBy (s s' : List Char) : Prop where
  alike : LookAlike s s'
  leave {e : Expectation} {shape shape' : Shape} {l : Lexeme} {r : List Char}
    (hn : next (e.goal l.broken) s = some (l, r))
    (hm : e.move shape l.broken l.token = .leave shape') :
    ∃ l' r', next (e.goal l'.broken) s' = some (l', r') ∧
      e.move shape l'.broken l'.token = .leave shape'

namespace ReplacedBy

theorem refl (s : List Char) : ReplacedBy s s := ⟨.refl s, fun hn hm => ⟨_, _, hn, hm⟩⟩

/-- A text that begins with the same token may stand in the place of another one. -/
theorem of_next {goal : Goal} {l : Lexeme} {r r' : List Char} (ha : LookAlike s s')
    (hn : next goal s = some (l, r)) (hn' : next goal s' = some (l, r')) (hf : l.token ≠ .finish) :
    ReplacedBy s s' where
  alike := ha
  leave {e} {_} {_} {k} {_} hk hm := by
    have htemplate := goal_ne_template_of_leave hm
    have hregex : k.token = .regex → e.goal k.broken = .operator := fun h =>
      goal_of_leave_regex (h ▸ hm)
    cases hg : e.goal k.broken with
    | template => exact absurd hg htemplate
    | operator =>
      rw [hg] at hk
      obtain ⟨q, hq⟩ := next_operator_of_next hn hn' hf hk
      exact ⟨k, q, by rw [hg, hq], hm⟩
    | operand =>
      rw [hg] at hk hregex
      obtain ⟨q, hq⟩ := next_operand_of_next hn hn' hf hk fun h => by cases hregex h
      exact ⟨k, q, by rw [hg, hq], hm⟩

/-- Where an import begins, a constant may begin in its place. -/
theorem of_import {goal : Goal} {l : Lexeme} {r : List Char} (hn : next goal s = some (l, r))
    (hf : l.token ≠ .finish) (ht : l.text = "import".toList) (v : List Char) :
    ReplacedBy s (l.gap ++ ("const".toList ++ ' ' :: v)) where
  alike := by
    have h : LookAlike ("import".toList ++ r) ("const".toList ++ ' ' :: v) :=
      ⟨rfl, fun h => absurd (Option.some.inj h) (by decide)⟩
    rw [← next_source hn, Lexeme.source, ht, List.append_assoc]
    exact h.append l.gap
  leave {e} {_} {_} {k} {_} hk hm := by
    have hw : IsWord l.text := ht ▸ .of_all (by decide) (by decide)
    obtain ⟨hl, hk'⟩ := next_of_word hn hf hw (e.goal k.broken)
    obtain ⟨rfl, -⟩ := Prod.mk.inj (Option.some.inj (hk'.symm.trans hk))
    have hl : l.token = .keyword "import" := by
      rw [hl, ht]
      decide
    refine ⟨⟨l.gap, l.broken, .keyword "const", "const".toList⟩, ' ' :: v, ?_,
      leave_const_of_leave_import (hl ▸ hm)⟩
    have hconst : Spelling.token ⟨"const".toList, false⟩ = .keyword "const" := by decide
    exact next_of_isToken (isClosed_of_next hn hf)
      (hconst ▸ isToken_word (.of_all (by decide) (by decide)) (endsName_blank v))

end ReplacedBy

/-- A text that is read begins with a token. -/
theorem exists_next_of_read (h : read st shape (x ++ s) = some ⟨ps, shape', s⟩) (hx : x ≠ []) :
    ∃ goal l y, next goal (x ++ s) = some (l, y ++ s) ∧ x = l.source ++ y ∧ l.token ≠ .finish := by
  generalize hu : x ++ s = u at h
  fun_induction read st shape u generalizing ps with
  | case1 shape u =>
    cases h
    exact absurd (List.append_left_eq_self.1 hu) hx
  | case2 => cases h
  | case3 => cases h
  | case4 e st shape u l r hn more shape₁ hm ht _ ih =>
    obtain ⟨d, hd, hp⟩ := Option.map_eq_some_iff.1 h
    obtain ⟨qs, shape₂, rest⟩ := d
    cases hp
    have hr := read_source hd
    refine ⟨_, l, source qs, hr ▸ hn, ?_, ht⟩
    have hs := next_source hn
    rw [← hu, ← hr, ← List.append_assoc] at hs
    exact (List.append_cancel_right hs).symm
  | case5 e st shape u l r hn shape₁ hm ih =>
    obtain ⟨d, hd, hp⟩ := Option.map_eq_some_iff.1 h
    obtain ⟨qs, shape₂, rest⟩ := d
    cases hp
    exact ih hu hd
  | case6 => cases h

theorem read_of_replacedBy (hs : ReplacedBy s s')
    (h : read st shape (x ++ s) = some ⟨ps, shape', s⟩) :
    read st shape (x ++ s') = some ⟨ps, shape', s'⟩ := by
  generalize hu : x ++ s = u at h
  fun_induction read st shape u generalizing x ps with
  | case1 shape u =>
    cases h
    obtain rfl := List.append_left_eq_self.1 hu
    exact read_nil _ s'
  | case2 => cases h
  | case3 => cases h
  | case4 e st shape u l r hn more shape₁ hm ht _ ih =>
    obtain ⟨d, hd, hp⟩ := Option.map_eq_some_iff.1 h
    obtain ⟨qs, shape₂, rest⟩ := d
    cases hp
    have hr := read_source hd
    have hx : x = l.source ++ source qs := by
      have hs := next_source hn
      rw [← hu, ← hr, ← List.append_assoc] at hs
      exact (List.append_cancel_right hs).symm
    have hn' : next (e.goal (lineEnds u)) (x ++ s') = some (l, source qs ++ s') := by
      rw [hx, List.append_assoc]
      exact next_of_lookAlike (hr ▸ hn) ht (hs.alike.append _)
    have hb : lineEnds (x ++ s') = lineEnds u := by
      rw [lineEnds_of_next hn, lineEnds_of_next hn']
    rw [read_of_take (hb ▸ hn') hm ht, ih hr hd]
    rfl
  | case5 e st shape u l r hn shape₁ hm ih =>
    obtain ⟨d, hd, hp⟩ := Option.map_eq_some_iff.1 h
    obtain ⟨qs, shape₂, rest⟩ := d
    cases hp
    rw [lineEnds_of_next hn] at hn
    obtain ⟨l', r', hn', hm'⟩ : ∃ l' r', next (e.goal l'.broken) (x ++ s') = some (l', r') ∧
        e.move shape l'.broken l'.token = .leave shape₁ := by
      by_cases hx : x = []
      · subst hx hu
        exact hs.leave hn hm
      · -- the token that is left is read again where it is taken
        subst hu
        obtain ⟨goal, k, y, hk, rfl, hf⟩ := exists_next_of_read hd hx
        have hk' : next goal (k.source ++ y ++ s') = some (k, y ++ s') := by
          rw [List.append_assoc]
          exact next_of_lookAlike hk hf (hs.alike.append y)
        exact (ReplacedBy.of_next (hs.alike.append _) hk hk' hf).leave hn hm
    rw [← lineEnds_of_next hn'] at hn'
    rw [read_of_leave hn' hm', ih hu hd]
    rfl
  | case6 => cases h

end SiteBuild.Script
