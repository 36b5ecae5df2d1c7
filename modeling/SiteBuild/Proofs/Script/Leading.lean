import SiteBuild.Proofs.Script.Dependencies

/-! The dependency that a text leads with, where nothing but semicolons may stand in front of it. What
stood in front of other text before leads with no import that it is not itself. -/

namespace SiteBuild.Script

variable {goal : Goal} {c : Char} {s r r' z y w g gap : List Char} {b : Bool} {t : Token} {n : Nat}
  {l k : Lexeme} {i j : Item} {is : List Item} {d e : Dependency}

section tokens

/-- A slash in front of an operand is no token by itself. -/
theorem ne_slash_of_readToken (h : readToken .operand c s = some (t, 1)) : c ≠ '/' := by
  rintro rfl
  have h : readTo RegexPlace.step RegexPlace.token? (.body false) 1 s = some (t, 1) := h
  obtain ⟨t', ht, hp⟩ := Option.map_eq_some_iff.1 h
  obtain ⟨-, hn⟩ := Prod.mk.inj hp
  have hq := (munch_stop (Prod.ext rfl hn)).1
  have ht : RegexPlace.token? (.body false) = some t' := hq ▸ ht
  cases ht

/-- The gap in front of a token is the same in front of any other text. -/
theorem gap_of_source (hn : next .operand s = some (l, r)) (hf : l.token ≠ .finish)
    (hk : next .operand (l.source ++ z) = some (k, y)) : k.gap = l.gap := by
  obtain ⟨c, w, hl, rfl, hg, ht⟩ := next_eq_some hn hf
  have hg' : gapLength .plain 0 false (l.gap ++ c :: (w ++ z)) = some (l.gap.length, l.broken) := by
    rw [← Nat.zero_add l.gap.length] at hg ⊢
    cases w with
    | cons x w => exact gapLength_of_sight (s := x :: w ++ r) rfl hg
    | nil =>
      rw [List.nil_append] at hg ht ⊢
      obtain ⟨e, he, hclosed⟩ := closed_of_gapLength hg
      have hstop := hclosed 0 false (c :: r)
      rw [hg, he] at hstop
      have hgap := (gapStep_eq_none.1 (gapStep_of_gapLength hstop.symm).1).2.1
      rw [hclosed 0 false, gapLength_of_ne hgap (ne_slash_of_readToken ht), he]
  rw [Lexeme.source, hl, List.append_assoc, List.cons_append, next_of_gap hg'] at hk
  obtain ⟨x, -, hp⟩ := Option.map_eq_some_iff.1 hk
  rw [← (Prod.mk.inj hp).1]

/-- Of two words that are read from one text and from another with the same beginning, both are the same
or the first one goes on in the other text. -/
theorem word_of_append {x v : List Char} {t' : Token}
    (hw : readTo NameReader.step NameReader.token? .start 0 (w ++ r) = some (t, 0 + w.length))
    (hx : readTo NameReader.step NameReader.token? .start 0 (x ++ v) = some (t', 0 + x.length))
    (h : w ++ z = x ++ v) : w = x ∨ ∃ c u, x = w ++ c :: u ∧ z.head? = some c ∧ r.head? ≠ some c := by
  obtain ⟨q, hq, -, hstop⟩ := readTo_eq_iff.1 hw
  obtain ⟨q', hq', -, hstop'⟩ := readTo_eq_iff.1 hx
  have hgo {a u : List Char} {c : Char} {p p' : NameReader}
      (ha : a.foldlM NameReader.step .start = some p)
      (hc : (a ++ c :: u).foldlM NameReader.step .start = some p') : NameReader.step p c ≠ none := by
    intro hn
    rw [List.foldlM_append, ha] at hc
    simp [hn] at hc
  rcases List.append_eq_append_iff.1 h with ⟨a, rfl, rfl⟩ | ⟨a, rfl, rfl⟩
  · cases a with
    | nil => exact .inl (List.append_nil w).symm
    | cons c u => exact .inr ⟨c, u, rfl, rfl, fun hc => hgo hq hq' (hstop c hc)⟩
  · cases a with
    | nil => exact .inl (List.append_nil x)
    | cons c u => exact absurd (hstop' c rfl) (hgo hq' hq)

end tokens

section statements

theorem LookAlike.of_length (h : 2 ≤ w.length) (s s' : List Char) : LookAlike (w ++ s) (w ++ s') := by
  rcases w with _ | ⟨c, _ | ⟨c', w⟩⟩
  · exact absurd h (by simp)
  · exact absurd h (by simp)
  · exact ⟨rfl, fun _ => rfl⟩

theorem opens_operand (k : Level) : Expectation.Opens (.operand k) where
  goal _ := rfl
  move _ _ _ _ := rfl
  leave _ _ _ t := moveOperand_ne_leave k t
  finish _ _ := rfl
  dot _ _ := rfl

theorem opens_importedMember (scope : Scope) : Expectation.Opens (.importedMember scope) where
  goal _ := rfl
  move _ _ _ _ := rfl
  leave _ _ _ t := by
    intro h
    change moveImportedMember scope t = _ at h
    unfold moveImportedMember at h
    split at h <;> cases h
  finish _ _ := rfl
  dot _ _ := rfl

/-- A statement that begins like an import goes on with two tokens, of which the first one follows that
word in no dependency. -/
theorem exists_next_of_import {x : Passage} (h : read [.item] .value s = some x)
    (hn : next .operand s = some (l, y)) (hl : l.token = .keyword "import") :
    ∃ k u m v, next .operand y = some (k, u) ∧ k.token ≠ .finish ∧ moveImportClause k.token = .fail ∧
      next .operand u = some (m, v) ∧ m.token ≠ .finish ∧ m.token ≠ .dot ∧
      x.rest.length ≤ v.length := by
  obtain ⟨l', y', more, shape, x', hn', -, -, hm, hr, rfl⟩ := opens_item.of_read h
  obtain ⟨rfl, rfl⟩ := Prod.mk.inj (Option.some.inj (hn.symm.trans hn'))
  rw [hl] at hm
  cases hm
  obtain ⟨k, u, hk, ⟨more, shape, x, hm, hf, hr, rfl⟩ | ⟨_, _, hm, _⟩⟩ := read_cons_cases hr
  · change moveImported .module k.token = _ at hm
    have hmoves : moveImported .module k.token ≠ .fail := by simp [hm]
    have hclause := moveImportClause_of_moveImported hmoves
    obtain ⟨e, st, rfl, he⟩ : ∃ e st, more = e :: st ∧ e.Opens := by
      unfold moveImported at hm
      split at hm
      · cases hm
        exact ⟨_, _, rfl, opens_operand _⟩
      · cases hm
        exact ⟨_, _, rfl, opens_importedMember _⟩
      · cases hm
    obtain ⟨m, v, _, _, x, hn, hf', hd, -, hend, rfl⟩ := he.of_read hr
    refine ⟨k, u, m, v, hk, hf, hclause, hn, hf', hd, ?_⟩
    have hlen := congrArg List.length (read_source hend)
    simp only [Passage.behind, List.length_append] at hlen ⊢
    omega
  · change moveImported .module k.token = _ at hm
    unfold moveImported at hm
    split at hm <;> cases hm

/-- Such a statement begins no dependency in front of any text. -/
theorem read_dependency_of_import {x : Passage} (h : read [.item] .value (w ++ r) = some x)
    (hx : x.rest = r) (hn : next .operand (w ++ r) = some (l, y)) (hl : l.token = .keyword "import")
    (z : List Char) : read [.dependency] .value (w ++ z) = none := by
  obtain ⟨k, u, m, v, hk, hkf, hclause, hm, hmf, hmd, hlen⟩ := exists_next_of_import h hn hl
  rw [hx] at hlen
  have hy := next_source hk
  have hu := next_source hm
  have hw := next_source hn
  obtain ⟨v, rfl⟩ : ∃ v', v = v' ++ r := by
    obtain ⟨v', hv⟩ := List.suffix_of_suffix_length_le (List.suffix_append w r)
      (show v <:+ w ++ r by
        rw [← hw, ← hy, ← hu]
        exact ⟨l.source ++ (k.source ++ m.source), by simp⟩) hlen
    exact ⟨v', hv.symm⟩
  obtain rfl : w = l.source ++ (k.source ++ (m.source ++ v)) := by
    rw [← hy, ← hu] at hw
    exact (List.append_cancel_right (by simpa using hw)).symm
  have hpos {l : Lexeme} {s r : List Char} (h : next .operand s = some (l, r)) (hf : l.token ≠ .finish) :
      1 ≤ l.source.length := by
    have := next_length h hf
    have := congrArg List.length (next_source h)
    simp only [List.length_append] at this
    omega
  have hn' : next .operand (l.source ++ (k.source ++ (m.source ++ (v ++ z)))) =
      some (l, k.source ++ (m.source ++ (v ++ z))) := by
    have hlen : 2 ≤ (k.source ++ m.source).length := by
      have := hpos hk hkf
      have := hpos hm hmf
      rw [List.length_append]
      omega
    refine next_of_lookAlike hn (by simp [hl]) ?_
    rw [← hy, ← hu]
    simpa using LookAlike.of_length hlen (v ++ r) (v ++ z)
  have hk' : next .operand (k.source ++ (m.source ++ (v ++ z))) = some (k, m.source ++ (v ++ z)) := by
    refine next_of_lookAlike hk hkf ?_
    rw [← hu]
    exact .of_source hm hmf hmd _
  simp only [List.append_assoc]
  rw [read_of_take (e := .dependency) hn' (by rw [hl]; rfl) (by simp [hl]), List.append_nil,
    read_of_fail (e := .importClause) hk' hclause]
  rfl

theorem Item.ne_closeBrace_of_read? (h : Item.read? s = some (i, r))
    (hn : next .operand s = some (l, y)) : l.token ≠ .closeBrace := by
  intro hl
  rcases Option.or_eq_some_iff.1 h with h | ⟨-, h⟩
  · obtain ⟨x, hx, -⟩ := Option.bind_eq_some_iff.1 h
    obtain ⟨l', _, _, _, _, hn', -, -, hm, -⟩ := opens_dependency.of_read hx
    obtain ⟨rfl, -⟩ := Prod.mk.inj (Option.some.inj (hn.symm.trans hn'))
    rw [hl] at hm
    cases hm
  · obtain ⟨x, hx, -⟩ := Option.map_eq_some_iff.1 h
    obtain ⟨l', _, _, _, _, hn', -, -, hm, -⟩ := opens_item.of_read hx
    obtain ⟨rfl, -⟩ := Prod.mk.inj (Option.some.inj (hn.symm.trans hn'))
    rw [hl] at hm
    cases hm

/-- Where a name that begins a statement is left, a line or a block ends, or the text. -/
theorem broken_of_leave_labelled {scope : Scope} {shape : Shape}
    (h : moveLabelled scope b t = .leave shape) : b = true ∨ t = .closeBrace ∨ t = .finish := by
  unfold moveLabelled at h
  split at h
  · cases h
  unfold moveNameRest Move.ended Move.orElse at h
  split at h
  · unfold moveEnding at h
    split at h
    · cases h
    · exact .inr (.inl rfl)
    · exact .inr (.inr rfl)
    · cases b with
      | true => exact .inl rfl
      | false => cases h
  · next hm => exact (hm shape h).elim

/-- The beginning of a word that items begin with is a name. -/
theorem moveItem_of_beginning {u : List Char} (hw : w ≠ []) (h : "import".toList = w ++ c :: u) :
    IsWord w ∧ moveItem (Spelling.token ⟨w, false⟩) = .take [.labelled .module] := by
  have hlen : w.length < 6 := by
    have := congrArg List.length h
    simp at this
    omega
  have hpos : 0 < w.length := List.length_pos_iff.2 hw
  have htake : w = "import".toList.take w.length := by
    rw [h]
    simp
  generalize w.length = n at hlen hpos htake
  subst htake
  obtain rfl | rfl | rfl | rfl | rfl : n = 1 ∨ n = 2 ∨ n = 3 ∨ n = 4 ∨ n = 5 := by omega
  all_goals exact ⟨.of_all (by decide) (by decide), rfl⟩

/-- What is no slash is the same token in front of an operand and behind one. -/
theorem next_operand_of_operator (hn : next .operator s = some (l, r))
    (hn' : next .operand s = some (k, y)) (hk : k.token ≠ .finish)
    (hl : l.token = .closeBrace ∨ l.token = .finish) : k = l := by
  obtain ⟨c, w, hw, rfl, hg, ht⟩ := next_eq_some hn' hk
  rw [next_of_gap hg] at hn hn'
  by_cases hc : c = '/'
  · subst hc
    cases w with
    | nil => exact absurd rfl (ne_slash_of_readToken ht)
    | cons a w =>
      have hslash : readToken .operator '/' (a :: w ++ y) = readMark ('/' :: a :: (w ++ y)) := rfl
      rw [hslash, readMark_slash] at hn
      obtain ⟨rfl, -⟩ := Prod.mk.inj (Option.some.inj hn)
      split at hl <;> simp at hl
  · rw [readToken_goal (by simp) fun h => absurd h hc] at hn'
    exact (Prod.mk.inj (Option.some.inj (hn'.symm.trans hn))).1

/-- A name that is a statement by itself ends where a line does, or the text. -/
theorem ends_of_name {x : Passage} (h : read [.item] .value s = some x)
    (hn : next .operand s = some (l, x.rest)) (hl : moveItem l.token = .take [.labelled .module])
    (hr : (Item.readAll? x.rest).isSome) :
    ∃ k y, next .operand x.rest = some (k, y) ∧ (k.broken = true ∨ k.token = .finish) := by
  obtain ⟨l', y, more, shape, x', hn', -, -, hm, hread, rfl⟩ := opens_item.of_read h
  obtain ⟨rfl, rfl⟩ := Prod.mk.inj (Option.some.inj (hn.symm.trans hn'))
  obtain ⟨rfl, rfl⟩ := Move.moveOn.inj (hl.symm.trans hm)
  obtain ⟨k, u, hk, ⟨_, _, x, -, hf, hd, rfl⟩ | ⟨_, _, hm, -⟩⟩ := read_cons_cases hread
  · -- no token was taken
    have hlen := next_length hk hf
    have hsource := congrArg List.length (read_source hd)
    simp only [Passage.behind, List.length_append] at hlen hsource
    omega
  · obtain ⟨⟨is, gap⟩, hall⟩ := Option.isSome_iff_exists.1 hr
    rcases Item.readAll?_cases hall with ⟨-, -, k', y', hk', hf'⟩ | ⟨i, r, _, -, hi, -⟩
    · exact ⟨k', y', hk', .inr hf'⟩
    · obtain ⟨k', y', -, hk', hf', -⟩ := Item.next_of_read? hi
      refine ⟨k', y', hk', .inl ?_⟩
      rw [← lineEnds_of_next hk', lineEnds_of_next hk]
      refine (broken_of_leave_labelled hm).resolve_right fun hend => ?_
      obtain rfl := next_operand_of_operator hk hk' hf' hend
      rcases hend with hend | hend
      · exact Item.ne_closeBrace_of_read? hi hk' hend
      · exact hf' hend

end statements

/-- That a text ends where another one does, and goes on with the same gap. -/
structure Resumes (r z : List Char) : Prop where
  finish {l : Lexeme} {y : List Char} (hn : next .operand r = some (l, y)) (hl : l.token = .finish) :
    z = r
  gap {l : Lexeme} {y : List Char} (hn : next .operand r = some (l, y)) : l.gap <+: z

theorem Resumes.head?_eq (h : Resumes r z) (hn : next .operand r = some (l, y))
    (hl : l.broken = true ∨ l.token = .finish) : z.head? = r.head? := by
  by_cases hf : l.token = .finish
  · rw [h.finish hn hf]
  obtain ⟨c, w, -, hr, hg, -⟩ := next_eq_some hn hf
  obtain ⟨v, hv⟩ := h.gap hn
  cases hgap : l.gap with
  | cons a g =>
    rw [← hv, hr, hgap]
    rfl
  | nil =>
    rw [hr, hgap] at hg
    have hb := (gapStep_of_gapLength hg).2
    rw [hb] at hl
    exact absurd (hl.resolve_right hf) (by simp)

namespace Item

theorem exists_dependency? (h : readDependency? s = some (i, r)) : ∃ d, i.dependency? = some d := by
  obtain ⟨x, hx, h⟩ := Option.bind_eq_some_iff.1 h
  obtain ⟨l, _, _, _, _, -, -, -, -, -, rfl⟩ := opens_dependency.of_read hx
  obtain ⟨⟨quoted, rest⟩, -, h⟩ := Option.bind_eq_some_iff.1 h
  simp only at h
  split at h
  · obtain ⟨tail, -, h⟩ := Option.bind_eq_some_iff.1 h
    cases h
    exact ⟨_, rfl⟩
  · cases h

theorem read_item_of_none (h : read? s = some (i, r)) (hi : i.dependency? = none) :
    ∃ ps shape, read [.item] .value s = some ⟨ps, shape, r⟩ ∧ i = .statement ps := by
  rcases Option.or_eq_some_iff.1 h with h | ⟨-, h⟩
  · obtain ⟨d, hd⟩ := exists_dependency? h
    rw [hi] at hd
    cases hd
  · obtain ⟨⟨ps, shape, r⟩, hx, h⟩ := Option.map_eq_some_iff.1 h
    cases h
    exact ⟨ps, shape, hx, rfl⟩

theorem readDependency?_of_some (h : read? s = some (i, r)) (hi : i.dependency? = some d) :
    readDependency? s = some (i, r) := by
  rcases Option.or_eq_some_iff.1 h with h | ⟨-, h⟩
  · exact h
  · obtain ⟨x, -, h⟩ := Option.map_eq_some_iff.1 h
    cases h
    cases hi

/-- Behind its first token an item goes on, and then what follows it. -/
theorem exists_source_of_read? (h : read? (i.source ++ r) = some (i, r))
    (hl : i.first? = some l) :
    ∃ v, i.source = l.source ++ v ∧ next .operand (i.source ++ r) = some (l, v ++ r) ∧
      l.token ≠ .finish := by
  obtain ⟨l', y, hl', hn, hf, -, hlen⟩ := next_of_read? h
  obtain rfl : l = l' := Option.some.inj (hl.symm.trans hl')
  have hs := next_source hn
  obtain ⟨v, rfl⟩ : ∃ v, v ++ r = y :=
    List.suffix_of_suffix_length_le (List.suffix_append _ r) ⟨_, hs⟩ hlen
  refine ⟨v, ?_, hn, hf⟩
  exact (List.append_cancel_right (by simpa using hs)).symm

/-- A statement begins no import, also in front of a text that resumes the one behind it. -/
theorem ne_import_of_statement (hi : read? (i.source ++ r) = some (i, r)) (hd : i.dependency? = none)
    (hr : (readAll? r).isSome) (hz : Resumes r z) (hj : read? (i.source ++ z) = some (j, r'))
    (he : j.dependency? = some e) : e.keyword ≠ "import".toList := by
  intro himport
  obtain ⟨ps, shape, hx, rfl⟩ := read_item_of_none hi hd
  obtain ⟨l, -, hl, -⟩ := next_of_read? hi
  obtain ⟨v, hsource, hn, hf⟩ := exists_source_of_read? hi hl
  obtain ⟨k, hk, hkey, -, -⟩ := Module.addItem_of_some he
  obtain ⟨k', y, hk', hn', hf', -⟩ := next_of_read? hj
  obtain rfl : k = k' := Option.some.inj (hk.symm.trans hk')
  have htext : k.text = "import".toList := hkey.trans himport
  have hword : IsWord k.text := htext ▸ .of_all (by decide) (by decide)
  have hs := next_source hn'
  rw [hsource, List.append_assoc] at hn' hs
  have hgap := gap_of_source hn hf hn'
  rw [Lexeme.source, Lexeme.source, hgap, List.append_assoc, List.append_assoc,
    List.append_cancel_left_eq] at hs
  obtain ⟨c, w, hw, -, -, ht⟩ := next_eq_some hn hf
  obtain ⟨c', w', hw', -, -, ht'⟩ := next_eq_some hn' hf'
  obtain rfl : c = c' := by
    rw [hw, hw'] at hs
    exact (List.cons.inj hs).1.symm
  have hc : c.isAlpha = true := by
    rw [htext] at hw'
    rw [← (List.cons.inj hw').1]
    decide
  have hlen (w : List Char) : 1 + w.length = 0 + (c :: w).length := by
    rw [List.length_cons]
    omega
  rw [readToken_of_isAlpha hc, hlen, ← List.cons_append, ← hw] at ht
  rw [readToken_of_isAlpha hc, hlen, ← List.cons_append, ← hw'] at ht'
  rcases word_of_append ht ht' hs.symm with heq | ⟨a, u, hgo, hz', hr'⟩
  · -- the word itself, which goes on as no dependency does
    have hl : l.token = .keyword "import" := by
      rw [(next_of_word hn hf (heq ▸ hword) .operand).1, heq, htext]
      decide
    obtain ⟨x, hdep, -⟩ := Option.bind_eq_some_iff.1 (readDependency?_of_some hj he)
    rw [read_dependency_of_import hx rfl hn hl z] at hdep
    cases hdep
  · -- a name that the text behind it makes longer
    cases v with
    | cons _ _ => exact hr' hz'
    | nil =>
      have hname : moveItem l.token = .take [.labelled .module] := by
        obtain ⟨hword, hmove⟩ := moveItem_of_beginning (by simp [hw]) (htext.symm.trans hgo)
        rw [(next_of_word hn hf hword .operand).1, hmove]
      obtain ⟨k, y, hk, hend⟩ := ends_of_name hx hn hname hr
      exact hr' ((hz.head?_eq hk hend).symm.trans hz')

/-- A dependency stays what it is in front of other text, if one is read there, up to what follows its
source. -/
theorem dependency_eq (hi : read? (i.source ++ r) = some (i, r)) (hd : i.dependency? = some d)
    (hj : read? (i.source ++ z) = some (j, r')) (he : j.dependency? = some e) :
    e.keyword = d.keyword ∧ e.clause = d.clause ∧ e.quoted = d.quoted := by
  obtain ⟨clause, quoted, tail, shape, -, rfl, ht, hc, hq, -⟩ :=
    readDependency?_cases (readDependency?_of_some hi hd)
  obtain ⟨clause', quoted', tail', shape', -, rfl, -, hc', hq', -⟩ :=
    readDependency?_cases (readDependency?_of_some hj he)
  have hf : quoted.token ≠ .finish := by simp [ht]
  -- a source in quotes ends by itself
  have hn : next .operand (quoted.source ++ (Script.source tail ++ z)) =
      some (quoted, Script.source tail ++ z) := by
    obtain ⟨q, v, hquote, htext, hsteps⟩ := isQuoted_of_next hq ht
    have hquoted : quoted = ⟨quoted.gap, quoted.broken, .string, q :: v ++ [q]⟩ := by
      rw [← ht, ← htext]
    have htoken : IsToken .operand (q :: v ++ [q]) .string (Script.source tail ++ z) :=
      isToken_of_foldlM hquote hsteps _
    have hn := next_of_isToken (isClosed_of_next hq hf) htoken
    rw [Lexeme.source, List.append_assoc, htext, hn, ← hquoted]
  have hbehind : ReplacedBy (quoted.source ++ (Script.source tail ++ r))
      (quoted.source ++ (Script.source tail ++ z)) :=
    .of_next (.of_source hq hf (by simp [ht]) _) hq hn hf
  have hread := read_of_replacedBy (x := Script.source clause) hbehind
    (by simpa [Item.source] using hc)
  simp only [Item.source, List.append_assoc] at hc'
  rw [hread] at hc'
  obtain ⟨rfl, -, hrest⟩ := Passage.mk.inj (Option.some.inj hc')
  rw [← hrest] at hq'
  obtain rfl := (Prod.mk.inj (Option.some.inj (hn.symm.trans hq'))).1
  rcases clause with _ | ⟨l | _, clause⟩
  · cases hd
  · cases hd
    cases he
    exact ⟨rfl, rfl, rfl⟩
  · cases hd

/-- A semicolon is an item by itself. -/
theorem source_of_semicolon (hi : read? (i.source ++ r) = some (i, r)) (hl : i.first? = some l)
    (ht : l.text = [';']) : i.source = l.gap ++ [';'] := by
  obtain ⟨v, hsource, hn, hf⟩ := exists_source_of_read? hi hl
  have hr : Reads [.item] ([] ++ ([';'] ++ (v ++ r))) [] (v ++ r) :=
    Reads.take (e := .item) isClosed_nil (isToken_mark ';' .semicolon (by simp) (by decide) _) rfl
      (by simp) []
  obtain ⟨ps, hread⟩ := read?_of_reads (s := ';' :: (v ++ r)) hr
  have hsemi : l.gap ++ ';' :: (v ++ r) = i.source ++ r := by
    rw [hsource, Lexeme.source, ht]
    simp
  rw [← hsemi, read?_append (isClosed_of_next hn hf), hread] at hi
  obtain ⟨-, hv⟩ := Prod.mk.inj (Option.some.inj hi)
  obtain rfl : v = [] := List.append_left_eq_self.1 hv
  rw [hsource, Lexeme.source, ht, List.append_nil]

/-- What begins with more than a semicolon does so in front of any other text. -/
theorem ne_semicolon (hi : read? (i.source ++ r) = some (i, r)) (hl : i.first? = some l)
    (hj : read? (i.source ++ z) = some (j, r')) (hk : j.first? = some k) (ht : l.text ≠ [';']) :
    k.text ≠ [';'] := by
  intro htext
  obtain ⟨v, hsource, hn, hf⟩ := exists_source_of_read? hi hl
  obtain ⟨_, hsource', hn', hf'⟩ : ∃ y, k.source ++ y = i.source ++ z ∧
      next .operand (i.source ++ z) = some (k, y) ∧ k.token ≠ .finish := by
    obtain ⟨k', y, hk', hn', hf', -⟩ := next_of_read? hj
    obtain rfl : k = k' := Option.some.inj (hk.symm.trans hk')
    exact ⟨y, next_source hn', hn', hf'⟩
  rw [hsource, List.append_assoc] at hn' hsource'
  rw [Lexeme.source, Lexeme.source, gap_of_source hn hf hn', List.append_assoc, List.append_assoc,
    List.append_cancel_left_eq, htext] at hsource'
  obtain ⟨c, w, hw, -, -, hread⟩ := next_eq_some hn hf
  rw [hw] at hsource' ht
  obtain rfl : ';' = c := (List.cons.inj hsource').1
  have hread' : readToken .operand ';' (w ++ (v ++ r)) = some (.semicolon, 1) := rfl
  have hlen := (Prod.mk.inj (Option.some.inj (hread'.symm.trans hread))).2
  obtain rfl : w = [] := List.eq_nil_of_length_eq_zero (by omega)
  exact ht rfl

end Item

/-- The dependency that a text begins with, or has behind semicolons alone. -/
def leading? (s : List Char) : Option Dependency :=
  (Item.readAll? s).bind fun x =>
    (x.1.find? fun i => i.first?.any fun l => l.text ≠ [';']).bind Item.dependency?

theorem leading?_of_read? (h : Item.read? s = some (i, r)) (hl : i.first? = some l) :
    leading? s = if l.text = [';'] then leading? r
      else if (Item.readAll? r).isSome then i.dependency? else none := by
  rw [leading?, leading?, Item.readAll?_cons h]
  cases Item.readAll? r with
  | none => simp
  | some x => by_cases ht : l.text = [';'] <;> simp [hl, ht]

/-- A text that leads with a dependency and begins with no semicolon begins with that dependency. -/
theorem exists_read?_of_leading? (h : leading? s = some d) :
    ∃ i r l y, Item.read? s = some (i, r) ∧ i.first? = some l ∧ next .operand s = some (l, y) ∧
      (l.text ≠ [';'] → i.dependency? = some d ∧ d.keyword = l.text) := by
  obtain ⟨⟨is, gap⟩, hall, h'⟩ := Option.bind_eq_some_iff.1 h
  rcases Item.readAll?_cases hall with ⟨rfl, -⟩ | ⟨i, r, _, -, hi, -⟩
  · cases h'
  · obtain ⟨l, y, hl, hn, -⟩ := Item.next_of_read? hi
    refine ⟨i, r, l, y, hi, hl, hn, fun ht => ?_⟩
    rw [leading?_of_read? hi hl, if_neg ht] at h
    split at h
    · obtain ⟨l', hl', hkey, -⟩ := Module.addItem_of_some h
      obtain rfl : l = l' := Option.some.inj (hl.symm.trans hl')
      exact ⟨h, hkey.symm⟩
    · cases h

theorem Item.first?_behindGap (g : List Char) (b : Bool) (i : Item) :
    (i.behindGap g b).first? = i.first?.map (Lexeme.behindGap g b) := by
  cases i with
  | statement ps =>
    rcases ps with _ | ⟨_ | _, _⟩
    all_goals rfl
  | dependency clause _ _ =>
    rcases clause with _ | ⟨_ | _, _⟩
    all_goals rfl

theorem leading?_append (hg : IsClosed g b) (s : List Char) : leading? (g ++ s) = leading? s := by
  rw [leading?, leading?, Item.readAll?_append hg]
  rcases Item.readAll? s with _ | ⟨_ | ⟨i, is⟩, gap⟩
  · rfl
  · rfl
  · have htext : ((i.behindGap g b).first?.any fun l => l.text ≠ [';']) =
        i.first?.any fun l => l.text ≠ [';'] := by
      rw [Item.first?_behindGap, Option.any_map]
      rfl
    simp only [Option.map_some, Option.bind_some, Item.behindGapAll, List.find?_cons, htext]
    split <;> simp

theorem leading?_semicolon (s : List Char) : leading? (';' :: s) = leading? s := by
  have ht : IsToken .operand [';'] .semicolon s :=
    isToken_mark ';' .semicolon (by simp) (by decide) s
  have hr : Reads [.item] ([] ++ ([';'] ++ s)) [] s :=
    Reads.take (e := .item) isClosed_nil ht rfl (by simp) []
  obtain ⟨ps, hi⟩ := read?_of_reads hr
  exact (leading?_of_read? hi (Item.first?_of_isToken isClosed_nil ht hi)).trans (if_pos rfl)

end SiteBuild.Script
