import SiteBuild.Proofs.Script.Munch
import SiteBuild.Script.Lexer.Lemmas

/-! Reading tokens that are spelled out. A gap that is closed is read alike in front of every text, and
so is a token that the text behind it cannot make longer. -/

namespace SiteBuild.Script

variable {goal : Goal} {g h s w : List Char} {b d : Bool} {c q : Char} {t : Token}

/-- A gap that is one in front of every text; `broken` if a line ends in it. -/
def IsClosed (g : List Char) (broken : Bool) : Prop :=
  ∀ n b s, gapLength .plain n b (g ++ s) = gapLength .plain (n + g.length) (b || broken) s

theorem isClosed_nil : IsClosed [] false := by
  intro n b s
  simp

theorem isClosed_append (hg : IsClosed g b) (hh : IsClosed h d) : IsClosed (g ++ h) (b || d) := by
  intro n b' s
  rw [List.append_assoc, hg, hh, List.length_append, Nat.add_assoc, Bool.or_assoc]

theorem isClosed_blank : IsClosed [' '] false := by
  intro n b s
  rfl

theorem isClosed_newline : IsClosed ['\n'] true := by
  intro n b s
  rfl

theorem gapLength_lineComment (hw : ∀ c ∈ w, isLineBreak c = false) (n : Nat) (b : Bool)
    (s : List Char) :
    gapLength .lineComment n b (w ++ '\n' :: s) = gapLength .plain (n + w.length + 1) true s := by
  induction w generalizing n b with
  | nil =>
    rw [List.nil_append, gapLength, gapStep, if_pos (by decide)]
    simp
  | cons c w ih =>
    rw [List.cons_append, gapLength, gapStep, if_neg (by simp [hw c List.mem_cons_self])]
    simp only
    rw [ih fun x hx => hw x (List.mem_cons_of_mem _ hx)]
    simp only [List.length_cons]
    congr 1
    omega

theorem isClosed_lineComment (hw : ∀ c ∈ w, isLineBreak c = false) :
    IsClosed ('/' :: '/' :: w ++ ['\n']) true := by
  intro n b s
  have hl : '/' :: '/' :: w ++ ['\n'] ++ s = '/' :: (('/' :: w) ++ '\n' :: s) := by simp
  rw [hl, gapLength, gapStep, if_pos (by simp)]
  simp only
  rw [gapLength_lineComment]
  · simp only [List.length_cons, List.length_append, List.length_nil, Bool.or_true]
    congr 1
    omega
  · intro c hc
    rcases List.mem_cons.1 hc with rfl | hc
    · rfl
    · exact hw c hc

theorem gapLength_comment (hw : ¬['*', '/'] <:+: w) (n : Nat) (b : Bool) (s : List Char) :
    gapLength .comment n b (w ++ '*' :: '/' :: s) =
      gapLength .plain (n + w.length + 2) (b || w.any isLineBreak) s := by
  induction w generalizing n b with
  | nil => simp [gapLength, gapStep]
  | cons c w ih =>
    have hclose : ¬(c = '*' ∧ (w ++ '*' :: '/' :: s).head? = some '/') := by
      rintro ⟨rfl, hhead⟩
      cases w with
      | nil => cases hhead
      | cons d w =>
        obtain rfl : d = '/' := by simpa using hhead
        exact hw ⟨[], w, rfl⟩
    have hw : ¬['*', '/'] <:+: w := fun h => hw (h.trans (List.suffix_cons c w).isInfix)
    rw [List.cons_append, gapLength, gapStep, if_neg (by simpa using hclose)]
    simp only
    rw [ih hw, List.length_cons, List.any_cons, Bool.or_assoc]
    congr 1
    omega

theorem isClosed_blockComment (hw : ¬['*', '/'] <:+: w) :
    IsClosed ('/' :: '*' :: w ++ ['*', '/']) (w.any isLineBreak) := by
  intro n b s
  have ht : '/' :: '*' :: w ++ ['*', '/'] ++ s = '/' :: '*' :: (w ++ '*' :: '/' :: s) := by simp
  rw [ht, gapLength, gapStep, if_neg (by simp), if_pos (by simp)]
  simp only
  rw [gapLength, gapStep]
  simp only
  rw [gapLength_comment hw]
  simp only [Bool.or_false, List.length_cons, List.length_append, List.length_nil]
  congr 1
  omega

/-- A gap in front of what is none. -/
theorem gapLength_of_ne (hc : isGap c = false) (hs : c ≠ '/') (n : Nat) (b : Bool) (s : List Char) :
    gapLength .plain n b (c :: s) = some (n, b) := by
  simp [gapLength, gapStep, hc, hs]

/-- A text that is read as one token in front of another text. -/
def IsToken (goal : Goal) (w : List Char) (t : Token) (s : List Char) : Prop :=
  ∃ c cs, w = c :: cs ∧ isGap c = false ∧ c ≠ '/' ∧ readToken goal c (cs ++ s) = some (t, w.length)

theorem next_of_isToken (hg : IsClosed g b) (hw : IsToken goal w t s) :
    next goal (g ++ (w ++ s)) = some (⟨g, b, t, w⟩, s) := by
  obtain ⟨c, cs, rfl, hc, hne, hr⟩ := hw
  unfold next
  rw [hg, List.cons_append, gapLength_of_ne hc hne]
  simp [nextBehind, hr]

/-- The end of the text behind a gap. -/
theorem next_of_isClosed (hg : IsClosed g b) : next goal g = some (⟨g, b, .finish, []⟩, []) := by
  have := hg 0 false []
  rw [List.append_nil] at this
  simp only [next, this, gapLength]
  simp [nextBehind]

section word

/-- A text that cannot go on with a name. -/
def EndsName (s : List Char) : Prop :=
  ∀ c, s.head? = some c → Text.isIdentifierPart c = false ∧ c ≠ '\\'

theorem EndsName.stopsAt {r : NameReader} (hs : EndsName s) (hr : r.place = .plain) :
    StopsAt NameReader.step r s := by
  intro c hc
  obtain ⟨hp, hb⟩ := hs c hc
  simp [NameReader.step, hr, hp, hb]

/-- The steps over the characters of a name. -/
theorem foldlM_nameReader (hw : ∀ c ∈ w, Text.isIdentifierPart c = true) (r : List Char) :
    w.foldlM NameReader.step ⟨.plain, r, false⟩ = some ⟨.plain, w.reverse ++ r, false⟩ := by
  induction w generalizing r with
  | nil => rfl
  | cons c w ih =>
    have hc : NameReader.step ⟨.plain, r, false⟩ c = some ⟨.plain, c :: r, false⟩ := by
      simp [NameReader.step, hw c List.mem_cons_self]
    rw [List.foldlM_cons, hc]
    change w.foldlM NameReader.step ⟨.plain, c :: r, false⟩ = _
    rw [ih fun x hx => hw x (List.mem_cons_of_mem _ hx)]
    simp

/-- Words of letters and digits. -/
structure IsWord (w : List Char) : Prop where
  start : w.head?.any Char.isAlpha = true
  all : ∀ c ∈ w, c.isAlphanum = true

theorem IsWord.of_all (hs : w.head?.any Char.isAlpha = true) (ha : w.all Char.isAlphanum = true) :
    IsWord w := ⟨hs, List.all_eq_true.1 ha⟩

theorem isAlpha_iff :
    c.isAlpha = true ↔ 65 ≤ c.toNat ∧ c.toNat ≤ 90 ∨ 97 ≤ c.toNat ∧ c.toNat ≤ 122 := by
  change (decide (65 ≤ c.val ∧ c.val ≤ 90) ||
    decide (97 ≤ c.val) && decide (c.val ≤ 122)) = true ↔ _
  simp only [Bool.or_eq_true, Bool.and_eq_true, decide_eq_true_eq, UInt32.le_iff_toNat_le]
  exact Iff.rfl

theorem isDigit_iff : c.isDigit = true ↔ 48 ≤ c.toNat ∧ c.toNat ≤ 57 := by
  change (decide (48 ≤ c.val) && decide (c.val ≤ 57)) = true ↔ _
  simp only [Bool.and_eq_true, decide_eq_true_eq, UInt32.le_iff_toNat_le]
  exact Iff.rfl

theorem isDigit_of_isAlpha (hc : c.isAlpha = true) : c.isDigit = false := by
  rw [isAlpha_iff] at hc
  rw [Bool.eq_false_iff, ne_eq, isDigit_iff]
  omega

theorem isGap_of_isAlphanum (hc : c.isAlphanum = true) : isGap c = false := by
  have hn : 48 ≤ c.toNat ∧ c.toNat ≤ 57 ∨ 65 ≤ c.toNat ∧ c.toNat ≤ 90 ∨
      97 ≤ c.toNat ∧ c.toNat ≤ 122 := by
    rw [Char.isAlphanum, Bool.or_eq_true, isAlpha_iff, isDigit_iff] at hc
    exact hc.symm
  have hne (x : Char) (hx : ¬(48 ≤ x.toNat ∧ x.toNat ≤ 57 ∨ 65 ≤ x.toNat ∧ x.toNat ≤ 90 ∨
      97 ≤ x.toNat ∧ x.toNat ≤ 122)) : c ≠ x := by
    rintro rfl
    exact hx hn
  have hout (x y : Char) (hy : y.toNat < 48 ∨ 122 < x.toNat) : (x ≤ c && c ≤ y) = false := by
    rw [Bool.and_eq_false_iff, decide_eq_false_iff_not, decide_eq_false_iff_not, Char.le_def,
      Char.le_def, UInt32.le_iff_toNat_le, UInt32.le_iff_toNat_le]
    change ¬x.toNat ≤ c.toNat ∨ ¬c.toNat ≤ y.toNat
    omega
  simp only [isGap, Text.isBlank, Bool.or_eq_false_iff, decide_eq_false_iff_not]
  repeat' apply And.intro
  all_goals first | exact hne _ (by decide) | exact hout _ _ (by decide)

theorem IsWord.exists_cons (hw : IsWord w) : ∃ c cs, w = c :: cs ∧ c.isAlpha = true := by
  cases w with
  | nil => exact absurd hw.start (by simp)
  | cons c cs => exact ⟨c, cs, rfl, by simpa using hw.start⟩

theorem ne_of_isAlpha (hc : c.isAlpha = true) (hq : q.isAlpha = false) : c ≠ q := by
  rintro rfl
  rw [hc] at hq
  cases hq

/-- A letter begins a name, whatever is expected. -/
theorem readToken_of_isAlpha (hc : c.isAlpha = true) (s : List Char) :
    readToken goal c s = readTo NameReader.step NameReader.token? .start 0 (c :: s) := by
  have hne {q : Char} (hq : q.isAlpha = false) : c ≠ q := ne_of_isAlpha hc hq
  unfold readToken
  simp only [hne (show '\x27'.isAlpha = false by decide),
    hne (show '\x22'.isAlpha = false by decide), hne (show '\x60'.isAlpha = false by decide),
    hne (show '\x7d'.isAlpha = false by decide), hne (show '.'.isAlpha = false by decide),
    hne (show '/'.isAlpha = false by decide), hne (show '#'.isAlpha = false by decide),
    isDigit_of_isAlpha hc, Text.isIdentifierStart_of_isAlpha hc]
  simp

/-- The steps over the characters of a word. -/
theorem IsWord.foldlM (hw : IsWord w) :
    ∃ r : NameReader, w.foldlM NameReader.step .start = some r ∧ r.place = .plain ∧
      r.token? = some (Spelling.token ⟨w, false⟩) := by
  have hsteps := foldlM_nameReader (fun x hx => Text.isIdentifierPart_of_isAlphanum (hw.all x hx)) []
  obtain ⟨c, cs, rfl, hc⟩ := hw.exists_cons
  refine ⟨_, hsteps, rfl, ?_⟩
  simp [NameReader.token?, NameReader.spelling?, Text.isIdentifierStart_of_isAlpha hc]

theorem isToken_word (hw : IsWord w) (hs : EndsName s) :
    IsToken goal w (Spelling.token ⟨w, false⟩) s := by
  obtain ⟨r, hsteps, hplain, ht⟩ := hw.foldlM
  obtain ⟨c, cs, rfl, hc⟩ := hw.exists_cons
  have hread : readTo NameReader.step NameReader.token? .start 0 (c :: (cs ++ s)) =
      some (Spelling.token ⟨c :: cs, false⟩, 0 + (c :: cs).length) :=
    readTo_eq_iff.2 ⟨r, hsteps, ht, hs.stopsAt hplain⟩
  refine ⟨c, cs, rfl, isGap_of_isAlphanum (hw.all c List.mem_cons_self),
    ne_of_isAlpha hc (by decide), ?_⟩
  rw [readToken_of_isAlpha hc, hread, Nat.zero_add]

end word

theorem endsName_cons (hc : Text.isIdentifierPart c = false) (hb : c ≠ '\\') (s : List Char) :
    EndsName (c :: s) := by
  intro x hx
  obtain rfl : c = x := by simpa using hx
  exact ⟨hc, hb⟩

theorem endsName_blank (s : List Char) : EndsName (' ' :: s) := endsName_cons (by decide) (by decide) s

section quoted

/-- A text that may stand between quotes as it is. -/
def IsPlainIn (q : Char) (w : List Char) : Prop :=
  ∀ c ∈ w, c ≠ q ∧ c ≠ '\\' ∧ c ≠ '\n' ∧ c ≠ '\r'

/-- The steps over a text and the quote that closes it. -/
theorem foldlM_quotePlace (hw : IsPlainIn q w) (hq : q ≠ '\\') :
    (w ++ [q]).foldlM (QuotePlace.step q) .text = some .closed := by
  induction w with
  | nil => simp [QuotePlace.step, QuotePlace.textStep, hq]
  | cons c w ih =>
    obtain ⟨h1, h2, h3, h4⟩ := hw c List.mem_cons_self
    have hc : QuotePlace.step q .text c = some .text := by
      simp [QuotePlace.step, QuotePlace.textStep, h1, h2, h3, h4]
    rw [List.cons_append, List.foldlM_cons, hc]
    exact ih fun x hx => hw x (List.mem_cons_of_mem _ hx)

/-- A text up to the quote that closes it. -/
theorem isToken_of_foldlM (hq : q = '\x27' ∨ q = '\x22')
    (hw : (w ++ [q]).foldlM (QuotePlace.step q) .text = some .closed) (s : List Char) :
    IsToken goal (q :: w ++ [q]) .string s := by
  refine ⟨q, w ++ [q], rfl, ?_, ?_, ?_⟩
  · rcases hq with rfl | rfl <;> decide
  · rcases hq with rfl | rfl <;> decide
  · unfold readToken
    rw [if_pos (by simpa using hq)]
    have hread : readTo (QuotePlace.step q) QuotePlace.token? .text 1 (w ++ [q] ++ s) =
        some (.string, 1 + (w ++ [q]).length) :=
      readTo_eq_iff.2 ⟨_, hw, rfl, fun _ _ => rfl⟩
    rw [hread]
    simp [Nat.add_comm]

theorem isToken_quoted (hq : q = '\x27' ∨ q = '\x22') (hw : IsPlainIn q w) (s : List Char) :
    IsToken goal (q :: w ++ [q]) .string s :=
  isToken_of_foldlM hq (foldlM_quotePlace hw (by rcases hq with rfl | rfl <;> decide)) s

/-- A template with nothing put in. -/
theorem isToken_template (hw : ∀ c ∈ w, c ≠ '\x60' ∧ c ≠ '\\' ∧ c ≠ '$') (s : List Char) :
    IsToken .operand ('\x60' :: w ++ ['\x60']) (.template false true) s := by
  have hsteps : (w ++ ['\x60']).foldlM TemplatePlace.step (.text true) =
      some (.closed false true) := by
    induction w with
    | nil => rfl
    | cons c w ih =>
      obtain ⟨h1, h2, h3⟩ := hw c List.mem_cons_self
      have hc : TemplatePlace.step (.text true) c = some (.text true) := by
        simp [TemplatePlace.step, TemplatePlace.textStep, h1, h2, h3]
      rw [List.cons_append, List.foldlM_cons, hc]
      exact ih fun x hx => hw x (List.mem_cons_of_mem _ hx)
  have hread : readTo TemplatePlace.step TemplatePlace.token? (.text true) 1 (w ++ ['\x60'] ++ s) =
      some (.template false true, 1 + (w ++ ['\x60']).length) :=
    readTo_eq_iff.2 ⟨_, hsteps, rfl, fun _ _ => rfl⟩
  refine ⟨'\x60', w ++ ['\x60'], rfl, by decide, by decide, ?_⟩
  rw [readToken, if_neg (by decide), if_pos (by decide), hread]
  simp [Nat.add_comm]

end quoted

/-- Marks that no other mark begins with. -/
theorem isToken_mark (c : Char) (t : Token)
    (h : (c, t) ∈ [('(', Token.openParen), (')', .closeParen), (';', .semicolon), (',', .comma),
      ('\x7b', .openBrace), ('\x7d', .closeBrace)])
    (hg : goal ≠ .template) (s : List Char) : IsToken goal [c] t s := by
  simp only [List.mem_cons, Prod.mk.injEq, List.not_mem_nil, or_false] at h
  rcases h with ⟨rfl, rfl⟩ | ⟨rfl, rfl⟩ | ⟨rfl, rfl⟩ | ⟨rfl, rfl⟩ | ⟨rfl, rfl⟩ | ⟨rfl, rfl⟩
  all_goals
    refine ⟨_, _, rfl, by decide, by decide, ?_⟩
    simp [readToken, hg]
    rfl

theorem isToken_star (s : List Char) :
    IsToken goal ['*'] .star (' ' :: s) := by
  refine ⟨_, _, rfl, by decide, by decide, ?_⟩
  rfl

theorem isToken_assign (s : List Char) : IsToken goal ['='] .assign (' ' :: s) := by
  refine ⟨_, _, rfl, by decide, by decide, ?_⟩
  rfl

theorem isToken_one (s : List Char) : IsToken .operand ['1'] .number (';' :: s) :=
  ⟨'1', [], rfl, by decide, by decide, rfl⟩

theorem isToken_dot {c : Char} (hc : c = 'm' ∨ c = 'u') (s : List Char) :
    IsToken goal ['.'] .dot (c :: s) := by
  rcases hc with rfl | rfl
  all_goals exact ⟨'.', [], rfl, by decide, by decide, rfl⟩

end SiteBuild.Script
