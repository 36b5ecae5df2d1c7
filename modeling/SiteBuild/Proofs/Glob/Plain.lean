import SiteBuild.Proofs.Glob.Literal

/-! Plain patterns: characters that stand for themselves, `?` and single stars. Each character of such a
pattern is a token of its own, and the pattern matches what its characters write one after the other. -/

namespace SiteBuild.Glob

variable {s w : List Char} {b : Option Char} {ts : List Token} {x y r z : Bytes} {ss : List Bytes} {c : Char}

/-- A pattern without classes, groups and escapes, in which no star stands next to another. -/
structure IsPlain (w : List Char) : Prop where
  plain : ∀ c ∈ w, isWild c = true → c = '?' ∨ c = '*'
  apart : w.IsChain fun a b => a = '*' → b ≠ '*'

/-! ### Reading -/

/-- What a character of a plain pattern is read as. -/
def plainToken (c : Char) : Token :=
  if c = '?' then .anyOne else if c = '*' then .star else .literal c

theorem plainToken_of_not_isWild (h : isWild c = false) : plainToken c = .literal c := by
  have hc : c ≠ '?' ∧ c ≠ '*' := by
    constructor <;> rintro rfl <;> cases h
  simp [plainToken, hc]

theorem IsPlain.tail (h : IsPlain (c :: w)) : IsPlain w where
  plain d hd := h.plain d (List.mem_cons_of_mem c hd)
  apart := by
    cases w with
    | nil => exact .nil
    | cons d w => exact (List.isChain_cons_cons.1 h.apart).2

/-- Behind a star another character is read as it is anywhere. -/
theorem step_afterStar (hc : c ≠ '*') :
    step (.afterStar b, ⟨ts, []⟩) c = step (.outside (some '*'), ⟨.star :: ts, []⟩) c := by
  simp [step, hc, Reading.push]

theorem read_from (h : IsPlain w) (b : Option Char) (ts : List Token) :
    w.foldlM step (.outside b, ⟨ts, []⟩) >>= finish = .ok (ts.reverse ++ w.map plainToken) := by
  induction w generalizing b ts with
  | nil => simp [finish, Reading.finish, bind, Except.bind, pure, Except.pure]
  | cons c w ih =>
    have hstep {p : Place} {u : List Token} (hc : step (.outside b, ⟨ts, []⟩) c = .ok (p, ⟨u, []⟩)) :
        (c :: w).foldlM step (.outside b, ⟨ts, []⟩) >>= finish = w.foldlM step (p, ⟨u, []⟩) >>= finish := by
      rw [List.foldlM_cons, hc]
      rfl
    by_cases hwild : isWild c = true
    · rcases h.plain c List.mem_cons_self hwild with rfl | rfl
      · rw [hstep (u := .anyOne :: ts) rfl, ih h.tail]
        simp [plainToken]
      · rw [hstep (u := ts) rfl]
        cases w with
        | nil => simp [finish, Reading.finish, Reading.push, bind, Except.bind, pure, Except.pure, plainToken]
        | cons d w =>
          have hd : d ≠ '*' := (List.isChain_cons_cons.1 h.apart).1 rfl
          rw [List.foldlM_cons, step_afterStar hd, ← List.foldlM_cons, ih h.tail]
          simp [plainToken]
    · rw [Bool.not_eq_true] at hwild
      rw [hstep (stepOutside_of_not_isWild hwild), ih h.tail]
      simp [plainToken_of_not_isWild hwild]

theorem read_plain (h : IsPlain w) : read w = .ok (w.map plainToken) := read_from h none []

/-! ### Matching -/

/-- What a character of a plain pattern may write. Stars and `?` write no slash. -/
inductive Writes : Char → Bytes → Prop
  | literal {c : Char} (plain : isWild c = false) : Writes c (bytesOfChar c)
  | one {a : UInt8} (ne : a ≠ slash) : Writes '?' [a]
  | star {y : Bytes} (within : slash ∉ y) : Writes '*' y

/-- What a plain pattern may write, its characters one after the other. -/
inductive WritesAll : List Char → Bytes → Prop
  | nil : WritesAll [] []
  | cons {c : Char} {y : Bytes} {s : List Char} {x : Bytes} (here : Writes c y) (rest : WritesAll s x) :
      WritesAll (c :: s) (y ++ x)

/-- The rests of two lists, where all are ends of one text. -/
theorem mem_union {us : List Bytes} (hs : ∀ s ∈ ss, s <:+ z) (hu : ∀ u ∈ us, u <:+ z) :
    r ∈ union ss us ↔ r ∈ ss ∨ r ∈ us := by
  fun_induction union ss us with
  | case1 us => simp
  | case2 s ss => simp
  | case3 s ss u us hlen ih =>
    -- two ends of one text with one length are one end
    obtain rfl : s = u := by
      have hsuffix := List.suffix_of_suffix_length_le (hs s (by simp)) (hu u (by simp)) (Nat.le_of_eq hlen)
      exact hsuffix.eq_of_length hlen
    have ih := ih (fun v hv => hs v (by simp [hv])) (fun v hv => hu v (by simp [hv]))
    simp only [List.mem_cons, ih]
    tauto
  | case4 s ss u us _ _ ih =>
    have ih := ih (fun v hv => hs v (by simp [hv])) hu
    simp only [List.mem_cons, ih, or_assoc]
  | case5 s ss u us _ _ ih =>
    have ih := ih hs (fun v hv => hu v (by simp [hv]))
    simp only [List.mem_cons, ih]
    tauto

theorem restsOfAll_spec {rests : Bytes → List Bytes} (hrests : ∀ s, ∀ r ∈ rests s, r <:+ s)
    (hs : ∀ s ∈ ss, s <:+ z) :
    ∀ r, (r ∈ restsOfAll rests ss ↔ ∃ s ∈ ss, r ∈ rests s) ∧ (r ∈ restsOfAll rests ss → r <:+ z) := by
  induction ss with
  | nil => simp [restsOfAll]
  | cons s ss ih =>
    obtain ⟨hz, hs⟩ := List.forall_mem_cons.1 hs
    have ih := ih hs
    have hhere : ∀ u ∈ rests s, u <:+ z := fun u hu => (hrests s u hu).trans hz
    intro r
    have hunion : r ∈ restsOfAll rests (s :: ss) ↔ r ∈ rests s ∨ r ∈ restsOfAll rests ss :=
      mem_union hhere fun u => (ih u).2
    refine ⟨?_, fun hr => (hunion.1 hr).elim (hhere r) (ih r).2⟩
    rw [hunion, (ih r).1]
    simp

theorem mem_restsInSegment : r ∈ restsInSegment x ↔ ∃ y, slash ∉ y ∧ x = y ++ r := by
  induction x with
  | nil => simp [restsInSegment, eq_comm]
  | cons a x ih =>
    rw [restsInSegment, List.mem_cons]
    constructor
    · rintro (rfl | h)
      · exact ⟨[], by simp⟩
      · split at h
        · cases h
        · next ha =>
          obtain ⟨y, hy, rfl⟩ := ih.1 h
          exact ⟨a :: y, by simp [hy, Ne.symm ha], rfl⟩
    · rintro ⟨y, hy, h⟩
      cases y with
      | nil => exact .inl h.symm
      | cons d y =>
        obtain ⟨rfl, rfl⟩ := List.cons.inj h
        simp only [List.mem_cons, not_or] at hy
        rw [if_neg (Ne.symm hy.1)]
        exact .inr (ih.2 ⟨y, hy.2, rfl⟩)

theorem mem_rests_anyOne : r ∈ Token.anyOne.rests x ↔ ∃ a, a ≠ slash ∧ x = a :: r := by
  cases x with
  | nil => simp [Token.rests]
  | cons a x =>
    by_cases ha : a = slash
    · simp [Token.rests, ha]
    · simp [Token.rests, ha, eq_comm]

theorem mem_rests_literal : r ∈ (Token.literal c).rests x ↔ x = bytesOfChar c ++ r := by
  rw [Token.rests, Option.mem_toList]
  constructor
  · exact fun h => (Text.append_of_after? h).symm
  · rintro rfl
    exact Text.after?_append _ _

/-- What a character leaves stands behind what it writes. -/
theorem mem_rests_plainToken (hc : isWild c = true → c = '?' ∨ c = '*') :
    r ∈ (plainToken c).rests x ↔ ∃ y, Writes c y ∧ x = y ++ r := by
  by_cases hwild : isWild c = true
  · rcases hc hwild with rfl | rfl
    · rw [show plainToken '?' = .anyOne from rfl, mem_rests_anyOne]
      constructor
      · rintro ⟨a, ha, rfl⟩
        exact ⟨[a], .one ha, rfl⟩
      · rintro ⟨y, hy, rfl⟩
        cases hy with
        | literal plain => cases plain
        | one ne => exact ⟨_, ne, rfl⟩
    · change r ∈ restsInSegment x ↔ _
      rw [mem_restsInSegment]
      refine exists_congr fun y => and_congr_left fun _ => ⟨.star, fun hy => ?_⟩
      cases hy with
      | literal plain => cases plain
      | star within => exact within
  · rw [Bool.not_eq_true] at hwild
    rw [plainToken_of_not_isWild hwild, mem_rests_literal]
    constructor
    · exact fun h => ⟨_, .literal hwild, h⟩
    · rintro ⟨y, hy, rfl⟩
      cases hy with
      | literal plain => rfl
      | one ne => cases hwild
      | star within => cases hwild

theorem restsOf_plainToken (c : Char) (ss : List Bytes) :
    (plainToken c).restsOf ss = restsOfAll (plainToken c).rests ss := by
  unfold plainToken
  split
  · exact Token.restsOf.eq_3 ss
  · split <;> rw [Token.restsOf]

theorem mem_tokensRests (hw : ∀ c ∈ w, isWild c = true → c = '?' ∨ c = '*') (hs : ∀ s ∈ ss, s <:+ z) :
    r ∈ tokensRests (w.map plainToken) ss ↔ ∃ s ∈ ss, ∃ y, WritesAll w y ∧ s = y ++ r := by
  induction w generalizing ss with
  | nil =>
    rw [List.map_nil, tokensRests]
    constructor
    · exact fun h => ⟨r, h, [], .nil, rfl⟩
    · rintro ⟨s, hmem, y, hy, rfl⟩
      cases hy
      exact hmem
  | cons c w ih =>
    obtain ⟨hc, hw⟩ := List.forall_mem_cons.1 hw
    have hends : ∀ s, ∀ r ∈ (plainToken c).rests s, r <:+ s := by
      intro s r hr
      obtain ⟨y, -, rfl⟩ := (mem_rests_plainToken hc).1 hr
      exact List.suffix_append y r
    have hrests := restsOfAll_spec hends hs
    rw [List.map_cons, tokensRests, restsOf_plainToken, ih hw fun s => (hrests s).2]
    constructor
    · rintro ⟨u, hu, x, hx, rfl⟩
      obtain ⟨s, hmem, hu⟩ := (hrests _).1.1 hu
      obtain ⟨y, hy, rfl⟩ := (mem_rests_plainToken hc).1 hu
      exact ⟨_, hmem, y ++ x, .cons hy hx, (List.append_assoc y x r).symm⟩
    · rintro ⟨s, hmem, v, hv, rfl⟩
      obtain _ | @⟨_, y, _, x, hy, hx⟩ := hv
      refine ⟨x ++ r, (hrests _).1.2 ⟨_, hmem, ?_⟩, x, hx, rfl⟩
      exact (mem_rests_plainToken hc).2 ⟨y, hy, List.append_assoc y x r⟩

/-! ### Kinds -/

theorem plainToken_ne_leading (c : Char) : plainToken c ≠ .leading := by
  unfold plainToken
  split
  · exact nofun
  · split <;> exact nofun

theorem plainToken_ne_trailing (c : Char) : plainToken c ≠ .trailing := by
  unfold plainToken
  split
  · exact nofun
  · split <;> exact nofun

theorem head?_plain (w : List Char) (ts : List Token) : w.map plainToken ≠ .leading :: ts := by
  cases w with
  | nil => exact nofun
  | cons c w => exact fun h => plainToken_ne_leading c (List.cons.inj h).1

theorem literals?_plain (hw : ∀ c ∈ w, isWild c = true → c = '?' ∨ c = '*') :
    literals? (w.map plainToken) = if w.any isWild then none else some w := by
  split
  · next h =>
    obtain ⟨c, hc, hwild⟩ := List.any_eq_true.1 h
    obtain ⟨front, rest, rfl⟩ := List.append_of_mem hc
    rw [List.map_append, List.map_cons, literals?_append]
    have htail : literals? (plainToken c :: rest.map plainToken) = none := by
      rcases hw c hc hwild with rfl | rfl <;> rfl
    rw [htail]
    cases literals? (front.map plainToken) <;> rfl
  · next h =>
    have hplain : w.map plainToken = w.map Token.literal := by
      refine List.map_congr_left fun c hc => plainToken_of_not_isWild ?_
      rw [Bool.not_eq_true, List.any_eq_false] at h
      simpa using h c hc
    rw [hplain, literals?_literals]

/-- A text in which neither a wildcard nor a slash stands behind the last dot. -/
def EndsInDot (w : List Char) : Prop :=
  ∃ front ext, w = front ++ '.' :: ext ∧ ∀ c ∈ ext, isWild c = false ∧ c ≠ '/' ∧ c ≠ '.'

theorem endOfName?_plain (hs : ∀ c ∈ s, isWild c = true → c = '?' ∨ c = '*') (found : List Char) :
    (endOfName? found (s.map plainToken)).isSome = true ↔
      ∃ ext front, s = ext ++ '.' :: front ∧ ∀ c ∈ ext, isWild c = false ∧ c ≠ '/' ∧ c ≠ '.' := by
  induction s generalizing found with
  | nil => simp [endOfName?]
  | cons c s ih =>
    obtain ⟨hc, hs⟩ := List.forall_mem_cons.1 hs
    rw [List.map_cons]
    have hstop (hno : isWild c = true ∨ c = '/') : ¬∃ ext front, c :: s = ext ++ '.' :: front ∧
        ∀ c ∈ ext, isWild c = false ∧ c ≠ '/' ∧ c ≠ '.' := by
      rintro ⟨ext, front, he, hext⟩
      cases ext with
      | nil =>
        obtain ⟨rfl, -⟩ := List.cons.inj he
        revert hno
        decide
      | cons d ext =>
        obtain ⟨rfl, -⟩ := List.cons.inj he
        have := hext c List.mem_cons_self
        simp [this] at hno
    by_cases hwild : isWild c = true
    · refine iff_of_false ?_ (hstop (.inl hwild))
      rcases hc hwild with rfl | rfl <;> simp [plainToken, endOfName?]
    · rw [Bool.not_eq_true] at hwild
      rw [plainToken_of_not_isWild hwild, endOfName?]
      split
      · next hslash => exact iff_of_false (by simp) (hstop (.inr hslash))
      · next hslash =>
        split
        · next hdot => exact iff_of_true rfl ⟨[], s, by simp [hdot], by simp⟩
        · next hdot =>
          rw [ih hs]
          constructor
          · rintro ⟨ext, front, rfl, hext⟩
            exact ⟨c :: ext, front, rfl, List.forall_mem_cons.2 ⟨⟨hwild, hslash, hdot⟩, hext⟩⟩
          · rintro ⟨ext, front, he, hext⟩
            cases ext with
            | nil => exact absurd (List.cons.inj he).1 hdot
            | cons d ext =>
              exact ⟨ext, front, (List.cons.inj he).2, fun e h => hext e (List.mem_cons_of_mem d h)⟩

theorem endsInDot_iff : EndsInDot w ↔ ∃ ext front, w.reverse = ext ++ '.' :: front ∧
    ∀ c ∈ ext, isWild c = false ∧ c ≠ '/' ∧ c ≠ '.' := by
  constructor
  · rintro ⟨front, ext, rfl, hext⟩
    exact ⟨ext.reverse, front.reverse, by simp, fun c hc => hext c (List.mem_reverse.1 hc)⟩
  · rintro ⟨ext, front, he, hext⟩
    refine ⟨front.reverse, ext.reverse, ?_, fun c hc => hext c (List.mem_reverse.1 hc)⟩
    rw [← List.reverse_reverse w, he]
    simp

/-- A plain pattern is looked up by the end of a file's name if it has a wildcard, and none of them stands
in this end. -/
theorem asksName_plain (hw : ∀ c ∈ w, isWild c = true → c = '?' ∨ c = '*') :
    Pattern.asksName (w.map plainToken) = true ↔ (∃ c ∈ w, isWild c = true) ∧ EndsInDot w := by
  have hname : Pattern.name? (w.map plainToken) = none := by
    unfold Pattern.name?
    split
    · next ts h => exact absurd h (head?_plain w ts)
    · rfl
  have hextension : Pattern.extension? (w.map plainToken) = none := by
    unfold Pattern.extension?
    split
    · next ts h => exact absurd h (head?_plain w _)
    · rfl
  have hending : Pattern.ending? (w.map plainToken) = none := by
    unfold Pattern.ending?
    split
    · next ts h => exact absurd h (head?_plain w ts)
    · rfl
  have hstart : Pattern.start? (w.map plainToken) = none := by
    unfold Pattern.start?
    split
    · next h =>
      obtain ⟨c, -, hc⟩ := List.mem_map.1 (List.mem_of_getLast? h)
      exact absurd hc (plainToken_ne_trailing c)
    · rfl
  have hend := endOfName?_plain (s := w.reverse) (fun c hc => hw c (List.mem_reverse.1 hc)) []
  rw [List.map_reverse, ← endsInDot_iff] at hend
  unfold Pattern.asksName Pattern.kind
  rw [hname, hextension, hstart, hending, Pattern.path?, literals?_plain hw, ← hend]
  by_cases hwild : w.any isWild = true
  · have hex : ∃ c ∈ w, isWild c = true := by simpa using hwild
    simp only [hwild, hex, true_and, if_true]
    cases endOfName? [] (w.map plainToken).reverse <;> simp
  · have hno : ¬∃ c ∈ w, isWild c = true := by simpa using hwild
    simp only [hwild, hno, false_and, iff_false]
    cases w <;> exact Bool.false_ne_true

end SiteBuild.Glob
