import SiteBuild.Proofs.Script.Lexing

/-! A token is the same in front of texts that look alike to it. All that it sees of them is the first
character, of which it cannot tell one letter from another, and two where the first one is a dot. -/

namespace SiteBuild.Script

variable {goal : Goal} {c : Char} {n : Nat} {g s s' u w : List Char} {t : Token} {b d : Bool}

/-- The first character of a text, as what stands in front of it sees it. -/
def sight (s : List Char) : Option Char := s.head?.map fun c => if c.isAlpha then 'a' else c

structure LookAlike (s s' : List Char) : Prop where
  first : sight s = sight s'
  second : s.head? = some '.' → sight s.tail = sight s'.tail

namespace LookAlike

theorem refl (s : List Char) : LookAlike s s := ⟨rfl, fun _ => rfl⟩

end LookAlike

theorem head?_of_sight (h : sight s = sight s') (hs : s.head? = some c) (hc : c.isAlpha = false) :
    s'.head? = some c := by
  cases s' with
  | nil => simp [sight, hs] at h
  | cons c' s' =>
    have h : c = if c'.isAlpha then 'a' else c' := by simpa [sight, hs, hc] using h
    split at h
    · subst h
      cases hc
    · rw [h]
      rfl

theorem any_head?_of_sight {p : Char → Bool} (hp : ∀ c, p c = true → c.isAlpha = false)
    (h : sight s = sight s') : s.head?.any p = s'.head?.any p := by
  rw [Bool.eq_iff_iff, Option.any_eq_true, Option.any_eq_true]
  constructor
  · rintro ⟨c, hs, hc⟩
    exact ⟨c, head?_of_sight h hs (hp c hc), hc⟩
  · rintro ⟨c, hs, hc⟩
    exact ⟨c, head?_of_sight h.symm hs (hp c hc), hc⟩

theorem isAlpha_of_isDigit (hc : c.isDigit = true) : c.isAlpha = false := by
  cases h : c.isAlpha with
  | false => rfl
  | true => rw [isDigit_of_isAlpha h] at hc; cases hc

/-- What stands in front of texts that look alike makes them look alike. -/
theorem LookAlike.append (h : LookAlike s s') (w : List Char) : LookAlike (w ++ s) (w ++ s') := by
  cases w with
  | nil => exact h
  | cons c w =>
    refine ⟨rfl, fun _ => ?_⟩
    cases w with
    | nil => exact h.first
    | cons _ _ => rfl

section readers

variable {σ α : Type} {step : σ → Char → Option σ} {give : σ → Option α} {p q : σ} {a : α}

/-- A place that every letter leads away from, unless it is the last one of all. -/
def SeesLetters (step : σ → Char → Option σ) (q : σ) : Prop :=
  (∀ c, c.isAlpha = true → step q c ≠ none) ∨ ∀ c, step q c = none

theorem StopsAt.of_sight (h : StopsAt step q s) (hq : SeesLetters step q)
    (hs : sight s = sight s') : StopsAt step q s' := by
  intro c hc
  rcases hq with hq | hq
  · cases ha : c.isAlpha with
    | false => exact h c (head?_of_sight hs.symm hc ha)
    | true =>
      -- the other text begins with a letter too
      exfalso
      cases s with
      | nil => simp [sight, hc] at hs
      | cons x s =>
        have hx : x.isAlpha = true := by
          cases hx : x.isAlpha with
          | true => rfl
          | false =>
            have := head?_of_sight hs rfl hx
            rw [hc] at this
            cases this
            rw [ha] at hx
            cases hx
        exact hq x hx (h x rfl)
  · exact hq c

theorem readTo_of_sight (hg : ∀ q, give q ≠ none → SeesLetters step q)
    (h : readTo step give p n (w ++ s) = some (a, n + w.length)) (hs : sight s = sight s') :
    readTo step give p n (w ++ s') = some (a, n + w.length) := by
  obtain ⟨q, hw, ha, hq⟩ := readTo_eq_iff.1 h
  have : SeesLetters step q := hg q (by rw [ha]; exact Option.some_ne_none a)
  exact readTo_eq_iff.2 ⟨q, hw, ha, hq.of_sight this hs⟩

theorem seesLetters_quote {quote : Char} {q : QuotePlace} (hq : q.token? ≠ none) :
    SeesLetters (QuotePlace.step quote) q := by
  cases q with
  | closed => exact .inr fun _ => rfl
  | _ => exact absurd rfl hq

theorem seesLetters_template {q : TemplatePlace} (hq : q.token? ≠ none) :
    SeesLetters TemplatePlace.step q := by
  cases q with
  | closed _ _ => exact .inr fun _ => rfl
  | _ => exact absurd rfl hq

theorem seesLetters_regex {q : RegexPlace} (hq : q.token? ≠ none) :
    SeesLetters RegexPlace.step q := by
  cases q with
  | flags w =>
    refine .inl fun c hc => ?_
    have hp : Text.isIdentifierPart c = true :=
      Text.isIdentifierPart_of_isAlphanum (by simp [Char.isAlphanum, hc])
    simp [RegexPlace.step, hp]
  | _ => exact absurd rfl hq

theorem endStep_of_isAlpha (hc : c.isAlpha = true) : NumberPlace.endStep c ≠ none := by
  simp [NumberPlace.endStep, Text.isIdentifierStart_of_isAlpha hc]

theorem tailStep_of_isAlpha (hc : c.isAlpha = true) : NumberPlace.tailStep c ≠ none := by
  unfold NumberPlace.tailStep
  repeat' split
  all_goals first | exact Option.some_ne_none _ | exact endStep_of_isAlpha hc

theorem seesLetters_number {q : NumberPlace} (hq : q.token? ≠ none) :
    SeesLetters NumberPlace.step q := by
  refine .inl fun c hc => ?_
  have he := endStep_of_isAlpha hc
  have ht := tailStep_of_isAlpha hc
  cases q with
  | owing _ => exact absurd rfl hq
  | power => exact absurd rfl hq
  | spoiled => exact absurd rfl hq
  | _ =>
    simp only [NumberPlace.step, NumberPlace.runStep]
    repeat' split
    all_goals first | exact Option.some_ne_none _ | exact he | exact ht

theorem seesLetters_name {q : NameReader} (hq : q.spelling? ≠ none) :
    SeesLetters NameReader.step q := by
  refine .inl fun c hc => ?_
  have hp : q.place = .plain := by
    unfold NameReader.spelling? at hq
    split at hq
    · next h => exact of_decide_eq_true (Bool.and_eq_true_iff.1 h).1
    · exact absurd rfl hq
  have hc : Text.isIdentifierPart c = true :=
    Text.isIdentifierPart_of_isAlphanum (by simp [Char.isAlphanum, hc])
  simp [NameReader.step, hp, hc]

end readers

section marks

/-- A mark stands in front of the marks that it begins with. -/
theorem marks_pairwise : marks.Pairwise fun m m' => ¬m.1.toList <+: m'.1.toList := by decide

/-- A mark grows into longer ones through a mark at each character, but for dots. -/
theorem marks_extend : ∀ m ∈ marks, ∀ m' ∈ marks, m.1.toList <+: m'.1.toList → m.1 ≠ m'.1 →
    m.1 = "." ∧ m'.1 = "..." ∨ m.1 = "?" ∧ m'.1 = "?." ∨ ∃ m'' ∈ marks, m''.2 ≠ .optionalDot ∧
      m''.1.toList = m'.1.toList.take (m.1.toList.length + 1) := by decide

theorem marks_letters : ∀ m ∈ marks, ∀ c ∈ m.1.toList, c.isAlpha = false := by
  have h : ∀ m ∈ marks, m.1.toList.all (fun c => !c.isAlpha) = true := by decide
  intro m hm c hc
  simpa using List.all_eq_true.1 (h m hm) c hc

theorem startsWith_iff {m : String × Token} :
    startsWith s m = true ↔ m.1.toList <+: s ∧
      (m.2 = .optionalDot → (s.drop 2).head?.any Char.isDigit = false) := by
  simp only [startsWith, Bool.and_eq_true, List.isPrefixOf_iff_prefix, Bool.not_eq_true',
    Bool.and_eq_false_iff, decide_eq_false_iff_not]
  constructor
  · rintro ⟨hp, h⟩
    exact ⟨hp, fun hm => h.resolve_left fun hn => hn hm⟩
  · rintro ⟨hp, h⟩
    refine ⟨hp, ?_⟩
    by_cases hm : m.2 = .optionalDot
    · exact .inr (h hm)
    · exact .inl hm

theorem marks_optionalDot : ∀ m ∈ marks, m.2 = .optionalDot → m.1 = "?." := by decide

theorem exists_of_head? (h : s.head? = some c) : ∃ r, s = c :: r := by
  cases s with
  | nil => cases h
  | cons x s => exact ⟨s, by rw [Option.some.inj h]⟩

theorem head?_of_prefix {x : List Char} (h : w ++ x <+: w ++ s) (hx : x.head? = some c) :
    s.head? = some c := by
  obtain ⟨r, hr⟩ := (List.prefix_append_right_inj w).1 h
  subst hr
  cases x with
  | nil => cases hx
  | cons y x => exact hx

/-- A longer mark shows at the characters of the text behind a mark that can be seen from it. -/
theorem startsWith_of_lookAlike {m m' : String × Token} (hm : m ∈ marks) (hm' : m' ∈ marks)
    (hne : m.1 ≠ m'.1) (hp : m.1.toList <+: m'.1.toList) (ha : LookAlike s s')
    (h : startsWith (m.1.toList ++ s') m' = true) :
    ∃ m'' ∈ marks, m.1.toList <+: m''.1.toList ∧ m.1 ≠ m''.1 ∧
      startsWith (m.1.toList ++ s) m'' = true := by
  have hletters := marks_letters m' hm'
  obtain ⟨hstarts, hdigit⟩ := startsWith_iff.1 h
  rcases marks_extend m hm m' hm' hp hne with ⟨h1, h2⟩ | ⟨h1, h2⟩ | ⟨m'', hm'', hd, hl⟩
  · rw [h1, h2] at hstarts
    rw [h1]
    have hs' : s'.head? = some '.' := head?_of_prefix (w := ['.']) hstarts rfl
    obtain ⟨r, rfl⟩ := exists_of_head? hs'
    have hr : r.head? = some '.' := head?_of_prefix (w := ['.', '.']) hstarts rfl
    obtain ⟨z, rfl⟩ := exists_of_head? (head?_of_sight ha.first.symm hs' rfl)
    have hz : z.head? = some '.' := head?_of_sight (ha.second rfl).symm hr rfl
    obtain ⟨z, rfl⟩ := exists_of_head? hz
    refine ⟨m', hm', by rw [h2]; exact ⟨['.', '.'], rfl⟩, h1 ▸ hne, startsWith_iff.2 ⟨?_, ?_⟩⟩
    · rw [h2]
      exact ⟨z, rfl⟩
    · intro ho
      rw [marks_optionalDot m' hm' ho] at h2
      exact absurd h2 (by decide)
  · rw [h1, h2] at hstarts
    have hs' : s'.head? = some '.' := head?_of_prefix (w := ['?']) hstarts rfl
    obtain ⟨r, rfl⟩ := exists_of_head? hs'
    obtain ⟨z, rfl⟩ := exists_of_head? (head?_of_sight ha.first.symm hs' rfl)
    refine ⟨m', hm', by rw [h1, h2]; exact ⟨['.'], rfl⟩, hne, startsWith_iff.2 ⟨?_, ?_⟩⟩
    · rw [h1, h2]
      exact ⟨z, rfl⟩
    · intro ho
      have := hdigit ho
      rw [h1] at this ⊢
      exact (any_head?_of_sight (fun _ => isAlpha_of_isDigit) (ha.second rfl)).trans this
  · obtain ⟨x, hx⟩ := hp
    rw [← hx] at hstarts hl hletters
    cases x with
    | nil => exact absurd (String.toList_injective (by simpa using hx)) hne
    | cons y x =>
      have hy : y.isAlpha = false := hletters y (by simp)
      have hs' : s'.head? = some y := head?_of_prefix hstarts rfl
      have hs : s.head? = some y := head?_of_sight ha.first.symm hs' hy
      have hl : m''.1.toList = m.1.toList ++ [y] := by
        rw [hl, List.take_append, List.take_of_length_le (Nat.le_succ _)]
        simp
      refine ⟨m'', hm'', ?_, ?_, startsWith_iff.2 ⟨?_, fun h => absurd h hd⟩⟩
      · rw [hl]
        exact List.prefix_append _ _
      · intro he
        rw [he] at hl
        simp at hl
      · rw [hl, List.prefix_append_right_inj]
        obtain ⟨z, rfl⟩ := exists_of_head? hs
        exact ⟨z, rfl⟩

theorem readMark_of_lookAlike (h : readMark (w ++ s) = some (t, w.length)) (ha : LookAlike s s') :
    readMark (w ++ s') = some (t, w.length) := by
  obtain ⟨m, hm, hpair⟩ := Option.map_eq_some_iff.1 h
  obtain ⟨rfl, hl⟩ : m.2 = t ∧ m.1.length = w.length := Prod.mk.inj hpair
  obtain ⟨hstart, front, back, hmarks, hfront⟩ := List.find?_eq_some_iff_append.1 hm
  have hmem : m ∈ marks := List.mem_of_find?_eq_some hm
  have hw : m.1.toList = w := by
    have hp := (startsWith_iff.1 hstart).1
    have hlen : m.1.toList.length = w.length := String.length_toList.trans hl
    exact (List.prefix_of_prefix_length_le hp (List.prefix_append w s)
      (Nat.le_of_eq hlen)).eq_of_length hlen
  have hordered := marks_pairwise
  rw [hmarks, List.pairwise_append] at hordered
  obtain ⟨-, hback, hcross⟩ := hordered
  subst hw
  have hfind : marks.find? (startsWith (m.1.toList ++ s')) = some m := by
    rw [List.find?_eq_some_iff_append]
    refine ⟨startsWith_iff.2 ⟨List.prefix_append _ _, fun ho => ?_⟩, front, back, hmarks, fun m' hm' => ?_⟩
    · have hdigit := (startsWith_iff.1 hstart).2 ho
      rw [marks_optionalDot m hmem ho] at hdigit ⊢
      exact (any_head?_of_sight (fun _ => isAlpha_of_isDigit) ha.first).symm.trans hdigit
    · rw [Bool.not_eq_true', Bool.eq_false_iff]
      intro hs'
      have hmem' : m' ∈ marks := hmarks ▸ List.mem_append_left _ hm'
      have hnp : ¬m'.1.toList <+: m.1.toList := hcross m' hm' m List.mem_cons_self
      have hp : m.1.toList <+: m'.1.toList :=
        (List.prefix_or_prefix_of_prefix (startsWith_iff.1 hs').1 (List.prefix_append _ _)).resolve_left
          hnp
      have hne : m.1 ≠ m'.1 := fun he => hnp (he ▸ List.prefix_refl _)
      obtain ⟨m'', hm'', hp'', hne'', hs⟩ := startsWith_of_lookAlike hmem hmem' hne hp ha hs'
      -- the longer mark stands in front, where none was found
      rw [hmarks, List.mem_append, List.mem_cons] at hm''
      rcases hm'' with hm'' | rfl | hm''
      · have := hfront m'' hm''
        rw [hs] at this
        cases this
      · exact hne'' rfl
      · exact (List.pairwise_cons.1 hback).1 m'' hm'' hp''
  rw [readMark, hfind, Option.map_some, ← hl]

end marks

theorem NameReader.seesLetters_token {q : NameReader} (hq : q.token? ≠ none) :
    SeesLetters NameReader.step q :=
  seesLetters_name fun h => hq (by rw [NameReader.token?, h]; rfl)

theorem NameReader.seesLetters_privateToken {q : NameReader} (hq : q.privateToken? ≠ none) :
    SeesLetters NameReader.step q :=
  seesLetters_name fun h => hq (by rw [NameReader.privateToken?, h]; rfl)

theorem readToken_of_lookAlike (h : readToken goal c (w ++ s) = some (t, 1 + w.length))
    (ha : LookAlike s s') : readToken goal c (w ++ s') = some (t, 1 + w.length) := by
  have hhead : (w ++ s').head?.any Char.isDigit = (w ++ s).head?.any Char.isDigit :=
    any_head?_of_sight (fun _ => isAlpha_of_isDigit) (ha.append w).first.symm
  have hlen : 1 + w.length = 0 + (c :: w).length := by
    rw [List.length_cons]
    omega
  unfold readToken at h ⊢
  rw [hhead]
  split at h
  · rw [if_pos ‹_›]
    exact readTo_of_sight (fun _ => seesLetters_quote) h ha.first
  rw [if_neg ‹_›]
  split at h
  · rw [if_pos ‹_›]
    exact readTo_of_sight (fun _ => seesLetters_template) h ha.first
  rw [if_neg ‹_›]
  split at h
  · rw [if_pos ‹_›]
    exact readTo_of_sight (fun _ => seesLetters_number) h ha.first
  rw [if_neg ‹_›]
  split at h
  · rw [if_pos ‹_›]
    exact readTo_of_sight (fun _ => seesLetters_regex) h ha.first
  rw [if_neg ‹_›]
  split at h
  · rw [if_pos ‹_›]
    exact readTo_of_sight (fun _ => NameReader.seesLetters_privateToken) h ha.first
  rw [if_neg ‹_›]
  split at h
  · rw [if_pos ‹_›]
    rw [hlen, ← List.cons_append] at h ⊢
    exact readTo_of_sight (fun _ => NameReader.seesLetters_token) h ha.first
  · rw [if_neg ‹_›]
    rw [Nat.add_comm, ← List.length_cons, ← List.cons_append] at h ⊢
    exact readMark_of_lookAlike h ha

end SiteBuild.Script
