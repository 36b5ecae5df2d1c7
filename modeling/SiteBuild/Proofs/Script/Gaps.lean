import SiteBuild.Proofs.Script.Sight

/-! The next token of a text, with the gap in front of it: it is the same in front of texts that look
alike, and more of a gap in front of it is all that changes when a text is put behind one. -/

namespace SiteBuild.Script

variable {goal : Goal} {c : Char} {n : Nat} {g s s' w : List Char} {t : Token} {b d : Bool}

section gaps

variable {p p' : GapPlace} {m : Nat} {x : Option Char}

theorem le_gapLength (h : gapLength p n b s = some (m, d)) : n ≤ m := by
  induction s generalizing p n b with
  | nil => cases p <;> cases h <;> exact Nat.le_refl _
  | cons c s ih =>
    rw [gapLength] at h
    split at h
    · exact Nat.le_of_succ_le (ih h)
    · cases h
      exact Nat.le_refl _

theorem gapLength_le (h : gapLength p n b s = some (m, d)) : m ≤ n + s.length := by
  induction s generalizing p n b with
  | nil => cases p <;> cases h <;> exact Nat.le_refl _
  | cons c s ih =>
    rw [List.length_cons]
    rw [gapLength] at h
    split at h
    · have := ih h
      omega
    · cases h
      exact Nat.le_add_right _ _

theorem gapStep_of_gapLength (h : gapLength p n b (c :: s) = some (n, d)) :
    gapStep p c s.head? = none ∧ d = b := by
  rw [gapLength] at h
  split at h
  · exact absurd (le_gapLength h) (Nat.not_succ_le_self n)
  · cases h
    exact ⟨‹_›, rfl⟩

/-- A gap ends in front of a character that is no blank and opens no comment. -/
theorem gapStep_eq_none :
    gapStep p c x = none ↔ p = .plain ∧ isGap c = false ∧ ¬(c = '/' ∧ x = some '/') ∧
      ¬(c = '/' ∧ x = some '*') := by
  cases p with
  | plain =>
    simp only [gapStep, Bool.and_eq_true, decide_eq_true_eq]
    constructor
    · intro h
      split at h
      · cases h
      split at h
      · cases h
      split at h
      · cases h
      · exact ⟨trivial, Bool.eq_false_iff.2 ‹_›, ‹_›, ‹_›⟩
    · rintro ⟨-, hg, h1, h2⟩
      rw [if_neg h1, if_neg h2, if_neg (Bool.eq_false_iff.1 hg)]
  | _ => simp [gapStep]

/-- Where a blank or the end of a line leads to the outside of comments, what follows does not matter. -/
theorem gapStep_of_plain (h : gapStep p c x = some (.plain, d)) (y : Option Char) :
    gapStep p c y = some (.plain, d) := by
  cases p with
  | plain =>
    simp only [gapStep] at h ⊢
    split at h
    · cases h
    split at h
    · cases h
    split at h
    · next hg =>
      have hc : c ≠ '/' := by
        rintro rfl
        exact absurd hg (by decide)
      simpa [hc, hg] using h
    · cases h
  | comment =>
    simp only [gapStep] at h
    split at h <;> cases h
  | _ => exact h

theorem head?_append_cons (g : List Char) (c : Char) (s s' : List Char) :
    (g ++ c :: s).head? = (g ++ c :: s').head? := by
  cases g <;> rfl

/-- A gap in front of a character is one in front of all texts that begin alike with it. -/
theorem gapLength_of_sight (hs : sight s = sight s')
    (h : gapLength p n b (g ++ c :: s) = some (n + g.length, d)) :
    gapLength p n b (g ++ c :: s') = some (n + g.length, d) := by
  induction g generalizing p n b with
  | nil =>
    obtain ⟨hstep, rfl⟩ := gapStep_of_gapLength h
    obtain ⟨hp, hg, h1, h2⟩ := gapStep_eq_none.1 hstep
    have hstep : gapStep p c s'.head? = none :=
      gapStep_eq_none.2 ⟨hp, hg, fun h => h1 ⟨h.1, head?_of_sight hs.symm h.2 rfl⟩,
        fun h => h2 ⟨h.1, head?_of_sight hs.symm h.2 rfl⟩⟩
    rw [List.nil_append, gapLength, hstep]
    rfl
  | cons a g ih =>
    have hn : n + (a :: g).length = n + 1 + g.length := by
      rw [List.length_cons]
      omega
    rw [hn, List.cons_append, gapLength] at h ⊢
    rw [head?_append_cons g c s' s]
    split at h
    · exact ih h
    · have : n = n + 1 + g.length := congrArg Prod.fst (Option.some.inj h)
      omega

/-- What is a gap in front of a token is one in front of every text. -/
theorem closed_of_gapLength (h : gapLength p n b (g ++ c :: s) = some (n + g.length, d)) :
    ∃ e, d = (b || e) ∧ ∀ n b s,
      gapLength p n b (g ++ s) = gapLength .plain (n + g.length) (b || e) s := by
  induction g generalizing p n b with
  | nil =>
    obtain ⟨hstep, rfl⟩ := gapStep_of_gapLength h
    obtain ⟨rfl, -⟩ := gapStep_eq_none.1 hstep
    exact ⟨false, by simp, by simp⟩
  | cons a g ih =>
    have hn (n : Nat) : n + (a :: g).length = n + 1 + g.length := by
      rw [List.length_cons]
      omega
    rw [hn, List.cons_append, gapLength] at h
    split at h
    · next p' e hstep =>
      obtain ⟨e', rfl, he⟩ := ih h
      refine ⟨e || e', Bool.or_assoc b e e', fun n b s' => ?_⟩
      have hstep : gapStep p a (g ++ s').head? = some (p', e) := by
        cases g with
        | nil =>
          obtain ⟨hstop, -⟩ := gapStep_of_gapLength h
          obtain ⟨rfl, -⟩ := gapStep_eq_none.1 hstop
          exact gapStep_of_plain hstep _
        | cons _ _ => exact hstep
      rw [hn, List.cons_append, gapLength, hstep]
      exact (he _ _ s').trans (by rw [Bool.or_assoc])
    · have : n = n + 1 + g.length := congrArg Prod.fst (Option.some.inj h)
      omega

theorem gapLength_shift (k n : Nat) (b d : Bool) (s : List Char) :
    gapLength p (k + n) (b || d) s = (gapLength p n d s).map fun x => (k + x.1, b || x.2) := by
  induction s generalizing p n d with
  | nil => cases p <;> rfl
  | cons c s ih =>
    rw [gapLength, gapLength]
    split
    · rw [Nat.add_assoc, Bool.or_assoc, ih]
    · rfl

end gaps

section tokens

variable {r r' : List Char} {l : Lexeme}

theorem munch_le {σ : Type} (step : σ → Char → Option σ) (p : σ) (n : Nat) (s : List Char) :
    (munch step p n s).2 ≤ n + s.length := by
  induction s generalizing p n with
  | nil => exact Nat.le_refl n
  | cons c s ih =>
    rw [munch]
    split
    · next p' _ =>
      have := ih p' (n + 1)
      rw [List.length_cons]
      omega
    · exact Nat.le_add_right n _

theorem readTo_length {σ α : Type} {step : σ → Char → Option σ} {give : σ → Option α} {p : σ} {a : α}
    {m : Nat} (h : readTo step give p n s = some (a, m)) : n ≤ m ∧ m ≤ n + s.length := by
  obtain ⟨_, -, h⟩ := Option.map_eq_some_iff.1 h
  obtain ⟨-, rfl⟩ := Prod.mk.inj h
  exact ⟨le_munch _ _ _ _, munch_le _ _ _ _⟩

theorem readMark_length (h : readMark s = some (t, n)) : 1 ≤ n ∧ n ≤ s.length := by
  obtain ⟨m, hm, h⟩ := Option.map_eq_some_iff.1 h
  obtain ⟨-, rfl⟩ : m.2 = t ∧ m.1.length = n := Prod.mk.inj h
  have hp := (startsWith_iff.1 (List.find?_some hm)).1
  have hne : ∀ m ∈ marks, 1 ≤ m.1.length := by decide
  refine ⟨hne m (List.mem_of_find?_eq_some hm), ?_⟩
  rw [← String.length_toList]
  exact hp.length_le

theorem readToken_length (h : readToken goal c s = some (t, n)) : 1 ≤ n ∧ n ≤ 1 + s.length := by
  unfold readToken at h
  split at h
  · exact readTo_length h
  split at h
  · exact readTo_length h
  split at h
  · exact readTo_length h
  split at h
  · exact readTo_length h
  split at h
  · exact readTo_length h
  split at h
  · have hl := readTo_length h
    rw [List.length_cons] at hl
    refine ⟨?_, by omega⟩
    -- a name has a first character
    rcases Nat.eq_zero_or_pos n with rfl | hn
    · obtain ⟨q, hq, ht, -⟩ := readTo_eq_iff (w := []) (n := 0) |>.1 h
      cases hq
      cases ht
    · exact hn
  · have hl := readMark_length h
    rw [List.length_cons] at hl
    omega

theorem next_of_readToken (hg : gapLength .plain 0 false (g ++ c :: (w ++ r)) = some (g.length, b))
    (ht : readToken goal c (w ++ r) = some (t, 1 + w.length)) :
    next goal (g ++ c :: (w ++ r)) = some (⟨g, b, t, c :: w⟩, r) := by
  simp [next, hg, nextBehind, ht]

theorem nextBehind_eq_some (h : nextBehind goal g b s = some (l, r)) (hf : l.token ≠ .finish) :
    ∃ c w, s = c :: (w ++ r) ∧ l = ⟨g, b, l.token, c :: w⟩ ∧
      readToken goal c (w ++ r) = some (l.token, 1 + w.length) := by
  unfold nextBehind at h
  split at h
  · cases h
    exact absurd rfl hf
  · next c u =>
    obtain ⟨⟨t, n⟩, ht, hl⟩ := Option.map_eq_some_iff.1 h
    cases hl
    obtain ⟨hn, hle⟩ := readToken_length ht
    refine ⟨c, u.take (n - 1), by rw [List.take_append_drop], rfl, ?_⟩
    rw [List.take_append_drop, ht, List.length_take, Nat.min_eq_left (by omega)]
    congr 2
    omega

/-- A token with its gap, cut out of a text. -/
theorem next_eq_some (h : next goal s = some (l, r)) (hf : l.token ≠ .finish) :
    ∃ c w, l.text = c :: w ∧ s = l.gap ++ c :: (w ++ r) ∧
      gapLength .plain 0 false s = some (l.gap.length, l.broken) ∧
      readToken goal c (w ++ r) = some (l.token, 1 + w.length) := by
  obtain ⟨⟨n, b⟩, hg, hn⟩ := Option.bind_eq_some_iff.1 h
  obtain ⟨c, w, hs, hl, ht⟩ := nextBehind_eq_some hn hf
  have hle : n ≤ s.length := by
    have := gapLength_le hg
    omega
  have hgap : l.gap.length = n := by
    rw [hl, List.length_take, Nat.min_eq_left hle]
  have htext := congrArg Lexeme.text hl
  refine ⟨c, w, htext, ?_, ?_, ht⟩
  · rw [← hs, hl, List.take_append_drop]
  · rw [hg, hgap, nextBehind_broken hn]

/-- A token is the same in front of texts that look alike. -/
theorem next_of_lookAlike (h : next goal s = some (l, r)) (hf : l.token ≠ .finish)
    (ha : LookAlike r r') : next goal (l.source ++ r') = some (l, r') := by
  obtain ⟨c, w, hl, hs, hg, ht⟩ := next_eq_some h hf
  rw [hs, ← Nat.zero_add l.gap.length] at hg
  have hg := gapLength_of_sight (ha.append w).first hg
  have ht := readToken_of_lookAlike ht ha
  have hn := next_of_readToken (Nat.zero_add l.gap.length ▸ hg) ht
  rw [Lexeme.source, hl, List.append_assoc, List.cons_append, hn, ← hl]

theorem isClosed_of_next (h : next goal s = some (l, r)) (hf : l.token ≠ .finish) :
    IsClosed l.gap l.broken := by
  obtain ⟨c, w, -, hs, hg, -⟩ := next_eq_some h hf
  rw [hs, ← Nat.zero_add l.gap.length] at hg
  obtain ⟨e, hb, he⟩ := closed_of_gapLength hg
  rw [Bool.false_or] at hb
  exact hb ▸ he

/-- A dot by itself is the mark. -/
theorem token_of_dot (h : readToken goal '.' s = some (t, 1)) : t = .dot := by
  have hmark : readMark ('.' :: s) = some (t, 1) → t = .dot := by
    intro h
    obtain ⟨m, hm, hp⟩ := Option.map_eq_some_iff.1 h
    obtain ⟨rfl, hl⟩ : m.2 = t ∧ m.1.length = 1 := Prod.mk.inj hp
    have hdot : ∀ m ∈ marks, m.1.length = 1 → m.1.toList.head? = some '.' → m.2 = .dot := by
      decide
    refine hdot m (List.mem_of_find?_eq_some hm) hl ?_
    obtain ⟨u, hu⟩ := (startsWith_iff.1 (List.find?_some hm)).1
    cases hc : m.1.toList with
    | nil =>
      have := String.length_toList (s := m.1)
      rw [hc, hl] at this
      cases this
    | cons c v =>
      rw [hc] at hu
      exact congrArg some (List.cons.inj hu).1
  have hstart : Text.isIdentifierStart '.' = false := by decide
  unfold readToken at h
  simp [hstart] at h
  split at h
  · next hd =>
    -- a number takes the digit behind it along
    obtain ⟨q, hq, -, hstop⟩ := readTo_eq_iff (w := []) (n := 1) |>.1 h
    obtain rfl : NumberPlace.point = q := Option.some.inj hq
    obtain ⟨d, hs, hd⟩ := (Option.any_eq_true _ _).1 hd
    have := hstop d hs
    simp [NumberPlace.step, hd] at this
  · exact hmark h

/-- Behind a token that is no dot other text looks alike. -/
theorem LookAlike.of_source (hn : next goal s = some (l, r)) (hf : l.token ≠ .finish)
    (hd : l.token ≠ .dot) (r' : List Char) : LookAlike (l.source ++ r) (l.source ++ r') := by
  obtain ⟨c, w, hl, -, -, ht⟩ := next_eq_some hn hf
  rw [Lexeme.source, hl]
  cases hgap : l.gap with
  | cons d g => exact ⟨rfl, fun _ => by cases g <;> rfl⟩
  | nil =>
    refine ⟨rfl, fun hc => ?_⟩
    obtain rfl : c = '.' := Option.some.inj hc
    cases w with
    | nil => exact absurd (token_of_dot ht) hd
    | cons d w => rfl

/-- Texts that begin with the same token look alike. -/
theorem LookAlike.of_next (hn : next goal s = some (l, r)) (hn' : next goal s' = some (l, r'))
    (hf : l.token ≠ .finish) (hd : l.token ≠ .dot) : LookAlike s s' := by
  rw [← next_source hn, ← next_source hn']
  exact .of_source hn hf hd r'

/-- A word is read alike whatever is expected. -/
theorem next_of_word (hn : next goal s = some (l, r)) (hf : l.token ≠ .finish) (hw : IsWord l.text)
    (goal' : Goal) :
    l.token = Spelling.token ⟨l.text, false⟩ ∧ next goal' s = some (l, r) := by
  obtain ⟨c, w, hl, rfl, hg, hr⟩ := next_eq_some hn hf
  have hw' := hl ▸ hw
  have hc : c.isAlpha = true := by simpa using hw'.start
  rw [readToken_of_isAlpha hc] at hr
  have hlen : 1 + w.length = 0 + (c :: w).length := by
    rw [List.length_cons]
    omega
  rw [hlen, ← List.cons_append] at hr
  obtain ⟨q, hq, ht, -⟩ := readTo_eq_iff.1 hr
  obtain ⟨q', hq', -, ht'⟩ := hw'.foldlM
  obtain rfl : q' = q := Option.some.inj (hq'.symm.trans hq)
  refine ⟨hl ▸ Option.some.inj (ht.symm.trans ht'), ?_⟩
  rw [next_of_readToken hg (by rw [readToken_of_isAlpha hc, ← List.cons_append, hr, hlen]), ← hl]

/-- More of a gap in front of a lexeme. -/
def Lexeme.behindGap (g : List Char) (b : Bool) (l : Lexeme) : Lexeme :=
  { l with gap := g ++ l.gap, broken := b || l.broken }

theorem next_append (hg : IsClosed g b) (s : List Char) :
    next goal (g ++ s) = (next goal s).map fun x => (x.1.behindGap g b, x.2) := by
  have hl : gapLength .plain 0 false (g ++ s) =
      (gapLength .plain 0 false s).map fun x => (g.length + x.1, b || x.2) := by
    rw [hg, ← gapLength_shift]
    simp
  unfold next
  rw [hl]
  cases gapLength .plain 0 false s with
  | none => rfl
  | some x =>
    obtain ⟨n, d⟩ := x
    simp only [Option.map_some, Option.bind_some, List.take_length_add_append,
      List.drop_length_add_append]
    unfold nextBehind
    split
    · rfl
    · simp [Option.map_map, Function.comp_def, Lexeme.behindGap]

/-- Only a slash and a closing brace are read as the place asks. -/
theorem readToken_goal (hb : c = '\x7d' → goal ≠ .template) (hs : c = '/' → goal ≠ .operand) :
    readToken goal c s = readToken .operator c s := by
  have hb : (c = '\x7d' && goal = .template) = false := by simpa using hb
  have hs : (c = '/' && goal = .operand) = false := by simpa using hs
  simp only [readToken, hb, hs]
  simp

theorem readMark_closeBrace (s : List Char) : readMark ('\x7d' :: s) = some (.closeBrace, 1) := by
  simp [readMark, marks, startsWith]
  rfl

/-- Two characters tell the marks apart that begin with a slash. -/
theorem readMark_slash (a : Char) (s : List Char) :
    readMark ('/' :: a :: s) = some (if a = '=' then (.update, 2) else (.binary .tight, 1)) := by
  by_cases ha : a = '='
  · subst ha
    simp [readMark, marks, startsWith]
    rfl
  · have ha' : '=' ≠ a := Ne.symm ha
    simp [readMark, marks, startsWith, ha, ha']
    rfl

/-- Where an operator is expected, the text of a token is read the same whatever follows it, if the
token is. -/
theorem readToken_operator (h : readToken goal c (w ++ r) = some (t, 1 + w.length))
    (h' : readToken goal c (w ++ r') = some (t, 1 + w.length)) :
    ∃ k n, n ≤ 1 + w.length ∧ readToken .operator c (w ++ r) = some (k, n) ∧
      readToken .operator c (w ++ r') = some (k, n) := by
  by_cases hb : c = '\x7d' ∧ goal = .template
  · obtain ⟨rfl, rfl⟩ := hb
    have hbrace (s : List Char) : readToken .operator '\x7d' s = some (.closeBrace, 1) :=
      readMark_closeBrace s
    exact ⟨_, _, Nat.le_add_right 1 _, hbrace _, hbrace _⟩
  by_cases hs : c = '/' ∧ goal = .operand
  · obtain ⟨rfl, rfl⟩ := hs
    -- a regular expression has a second character
    have hregex : readTo RegexPlace.step RegexPlace.token? (.body false) 1 (w ++ r) =
        some (t, 1 + w.length) := h
    obtain ⟨q, hw, ht, -⟩ := readTo_eq_iff.1 hregex
    cases w with
    | nil =>
      cases hw
      cases ht
    | cons a w =>
      have hslash (s : List Char) : readToken .operator '/' (a :: s) =
          some (if a = '=' then (.update, 2) else (.binary .tight, 1)) := readMark_slash a s
      by_cases ha : a = '='
      · simp only [if_pos ha] at hslash
        exact ⟨_, _, by rw [List.length_cons]; omega, hslash _, hslash _⟩
      · simp only [if_neg ha] at hslash
        exact ⟨_, _, by rw [List.length_cons]; omega, hslash _, hslash _⟩
  · have hg (s : List Char) : readToken goal c s = readToken .operator c s :=
      readToken_goal (fun h h' => hb ⟨h, h'⟩) fun h h' => hs ⟨h, h'⟩
    exact ⟨t, _, Nat.le_refl _, hg _ ▸ h, hg _ ▸ h'⟩

theorem next_of_gap (hg : gapLength .plain 0 false (g ++ c :: s) = some (g.length, b)) :
    next goal (g ++ c :: s) = (readToken goal c s).map fun x =>
      (⟨g, b, x.1, c :: s.take (x.2 - 1)⟩, s.drop (x.2 - 1)) := by
  simp [next, hg, nextBehind]

/-- What is read before a token is taken is the same where the token is. -/
theorem next_operator_of_next {k : Lexeme} {q : List Char} (h : next goal s = some (l, r))
    (h' : next goal s' = some (l, r')) (hf : l.token ≠ .finish)
    (hk : next .operator s = some (k, q)) : ∃ q', next .operator s' = some (k, q') := by
  obtain ⟨c, w, hl, rfl, hg, ht⟩ := next_eq_some h hf
  obtain ⟨c', w', hl', rfl, hg', ht'⟩ := next_eq_some h' hf
  obtain ⟨rfl, rfl⟩ : c = c' ∧ w = w' := List.cons_eq_cons.1 (hl.symm.trans hl')
  obtain ⟨t, n, hn, hop, hop'⟩ := readToken_operator ht ht'
  rw [next_of_gap hg, hop] at hk
  rw [next_of_gap hg', hop']
  obtain ⟨rfl, -⟩ := Prod.mk.inj (Option.some.inj hk)
  have htake (r : List Char) : (w ++ r).take (n - 1) = w.take (n - 1) := by
    rw [List.take_append_of_le_length (by omega)]
  exact ⟨(w ++ r').drop (n - 1), by simp [htake]⟩

theorem token_of_slash (h : readToken .operand '/' s = some (t, n)) : t = .regex := by
  have h : readTo RegexPlace.step RegexPlace.token? (.body false) 1 s = some (t, n) := h
  obtain ⟨t', ht, hp⟩ := Option.map_eq_some_iff.1 h
  obtain ⟨rfl, -⟩ := Prod.mk.inj hp
  unfold RegexPlace.token? at ht
  split at ht
  · split at ht
    · exact (Option.some.inj ht).symm
    · cases ht
  · cases ht

theorem next_operand_of_next {k : Lexeme} {q : List Char} (h : next goal s = some (l, r))
    (h' : next goal s' = some (l, r')) (hf : l.token ≠ .finish)
    (hk : next .operand s = some (k, q)) (hr : k.token ≠ .regex) :
    ∃ q', next .operand s' = some (k, q') := by
  obtain ⟨c, w, hl, hs, hg, -⟩ := next_eq_some h hf
  obtain ⟨c', w', hl', hs', hg', -⟩ := next_eq_some h' hf
  obtain ⟨rfl, rfl⟩ : c = c' ∧ w = w' := List.cons_eq_cons.1 (hl.symm.trans hl')
  rw [hs] at hg hk
  rw [hs'] at hg'
  have hc : c ≠ '/' := by
    rintro rfl
    rw [next_of_gap hg] at hk
    obtain ⟨_, ht, hp⟩ := Option.map_eq_some_iff.1 hk
    obtain ⟨rfl, -⟩ := Prod.mk.inj hp
    exact hr (token_of_slash ht)
  -- both goals read the text alike
  have hgoal {u : List Char}
      (hg : gapLength .plain 0 false (l.gap ++ c :: u) = some (l.gap.length, l.broken)) :
      next .operand (l.gap ++ c :: u) = next .operator (l.gap ++ c :: u) := by
    rw [next_of_gap hg, next_of_gap hg, readToken_goal (fun _ => by decide) fun h => absurd h hc]
  rw [hgoal hg, ← hs] at hk
  obtain ⟨q', hq⟩ := next_operator_of_next h h' hf hk
  exact ⟨q', by rw [hs', hgoal hg', ← hs', hq]⟩

end tokens

end SiteBuild.Script
