import SiteBuild.Proofs.Glob.Segments

/-! What a set of plain patterns matches: the paths that one of them fits segment by segment. Two things
are told apart from a match by characters. A `?` stands for one byte, and a pattern that is looked up by the
end of a name finds none in a path that leads upward. -/

namespace SiteBuild.Glob

variable {α : Type} {spell : Char → List α} {s t w path : List Char} {x y r z : Bytes} {c : Char}

/-! ### Paths that lead upward -/

/-- A pattern with a wildcard, and with a dot at its end, passes over a path that leads upward. -/
def PassesOver (w path : List Char) : Prop :=
  (∃ c ∈ w, isWild c = true) ∧ w.getLast? = some '.' ∧ (Path.segments path).getLast? = some ['.', '.']

theorem Fits.exists_append {z : List α} (h : Fits spell (s ++ t) z) :
    ∃ x y, Fits spell s x ∧ Fits spell t y ∧ z = x ++ y := by
  induction s generalizing z with
  | nil => exact ⟨[], z, .nil, h, rfl⟩
  | cons c s ih =>
    cases h with
    | literal plain rest =>
      obtain ⟨x, y, hx, hy, rfl⟩ := ih rest
      exact ⟨_, y, .literal plain hx, hy, (List.append_assoc _ x y).symm⟩
    | one a rest =>
      obtain ⟨x, y, hx, hy, rfl⟩ := ih rest
      exact ⟨_, y, .one a hx, hy, rfl⟩
    | star u rest =>
      obtain ⟨x, y, hx, hy, rfl⟩ := ih rest
      exact ⟨_, y, .star u hx, hy, (List.append_assoc u x y).symm⟩

theorem Fits.eq_of_literals {x : List α} (h : Fits spell s x) (hs : ∀ c ∈ s, isWild c = false) :
    x = s.flatMap spell := by
  induction h with
  | nil => rfl
  | literal plain rest ih => rw [List.flatMap_cons, ← ih (List.forall_mem_cons.1 hs).2]
  | one a rest => cases hs '?' List.mem_cons_self
  | star y rest => cases hs '*' List.mem_cons_self

theorem flatMap_bytesOfChar_eq_nil : s.flatMap bytesOfChar = [] ↔ s = [] := by
  cases s with
  | nil => simp
  | cons c s =>
    obtain ⟨b, bs, hc, -⟩ := exists_bytesOfChar_eq_cons c
    simp [hc]

/-- Of the ends of names only the bare dot is the end of `..`. -/
theorem eq_nil_of_fits_upward {front ext : List Char} (hext : ∀ c ∈ ext, isWild c = false ∧ c ≠ '/' ∧ c ≠ '.')
    (h : Fits bytesOfChar (front ++ '.' :: ext) (['.', '.'].flatMap bytesOfChar)) : ext = [] := by
  obtain ⟨x, y, -, hy, he⟩ := h.exists_append
  obtain rfl := hy.eq_of_literals (List.forall_mem_cons.2 ⟨rfl, fun c hc => (hext c hc).1⟩)
  cases x with
  | nil =>
    -- nothing stands in front, so that the end of the name would begin with both dots
    have hprefix : '.' :: ext <+: ['.', '.'] := prefix_of_bytes [] (by simpa using he.symm)
    cases ext with
    | nil => rfl
    | cons e es =>
      have hdots : e :: es <+: ['.'] := (List.cons_prefix_cons.1 hprefix).2
      exact absurd (List.cons_prefix_cons.1 hdots).1 (hext e List.mem_cons_self).2.2
  | cons a x =>
    have hdot : (bytesOfChar '.').length = 1 := by
      rw [bytesOfChar_eq]
      decide
    have hlen := congrArg List.length he
    simp only [List.flatMap_cons, List.flatMap_nil, List.length_append, List.length_cons, List.length_nil,
      hdot] at hlen
    exact flatMap_bytesOfChar_eq_nil.1 (List.length_eq_zero_iff.1 (by omega))

theorem passesOver_iff (h : FitsPath bytesOfChar w path) :
    ((∃ c ∈ w, isWild c = true) ∧ EndsInDot w) ∧ (Path.segments path).getLast? = some ['.', '.'] ↔
      PassesOver w path := by
  constructor
  · rintro ⟨⟨hwild, front, ext, rfl, hext⟩, hup⟩
    refine ⟨hwild, ?_, hup⟩
    have hslash : '/' ∉ '.' :: ext := by
      simpa using fun hmem => (hext '/' hmem).2.1 rfl
    obtain ⟨ss, s, hs, front', rfl⟩ := Path.exists_segments_of_suffix hslash (List.suffix_append front _)
    obtain ⟨ps, hp⟩ := List.getLast?_eq_some_iff.1 hup
    rw [FitsPath, hs, hp, ← List.forall₂_reverse_iff, List.reverse_concat, List.reverse_concat] at h
    obtain rfl := eq_nil_of_fits_upward hext (List.forall₂_cons.1 h).1
    exact List.getLast?_concat
  · rintro ⟨hwild, hdot, hup⟩
    obtain ⟨front, rfl⟩ := List.getLast?_eq_some_iff.1 hdot
    exact ⟨⟨hwild, front, [], rfl, by simp⟩, hup⟩

/-! ### Bytes and characters -/

/-- Where the bytes of a character stand in a text, the character stands. -/
theorem exists_of_flatMap_bytes (h : y ++ (bytesOfChar c ++ r) = path.flatMap bytesOfChar) :
    ∃ front rest, path = front ++ c :: rest ∧ y = front.flatMap bytesOfChar ∧
      r = rest.flatMap bytesOfChar := by
  obtain ⟨b, bs, hc, hfirst, -⟩ := exists_bytesOfChar_eq_cons c
  induction path generalizing y with
  | nil => simp [hc] at h
  | cons d path ih =>
    cases y with
    | nil =>
      rw [List.nil_append] at h
      have hprefix : [c] <+: d :: path := prefix_of_bytes r (by simpa using h)
      obtain rfl := (List.cons_prefix_cons.1 hprefix).1
      exact ⟨[], path, rfl, rfl, List.append_cancel_left h⟩
    | cons a y =>
      obtain ⟨e, es, hd, -, hes⟩ := exists_bytesOfChar_eq_cons d
      have hbehind {u : Bytes} (hu : a :: y = bytesOfChar d ++ u)
          (hr : u ++ (bytesOfChar c ++ r) = path.flatMap bytesOfChar) :
          ∃ front rest, d :: path = front ++ c :: rest ∧ a :: y = front.flatMap bytesOfChar ∧
            r = rest.flatMap bytesOfChar := by
        obtain ⟨front, rest, rfl, hfront, hrest⟩ := ih hr
        exact ⟨d :: front, rest, rfl, by rw [hu, hfront, List.flatMap_cons], hrest⟩
      rw [List.flatMap_cons] at h
      rcases List.append_eq_append_iff.1 h with ⟨u, hu, hr⟩ | ⟨u, hu, hr⟩
      · cases u with
        | nil => exact hbehind (u := []) (by simpa using hu.symm) hr
        | cons v u =>
          -- the bytes of the one character would begin within those of the other
          rw [hc] at hr
          obtain ⟨rfl, -⟩ := List.cons.inj hr
          rw [hd] at hu
          refine absurd hfirst (hes b ?_)
          rw [(List.cons.inj hu).2]
          exact List.mem_append_right y List.mem_cons_self
      · exact hbehind hu hr.symm

theorem bytesOfChar_of_mem {a : UInt8} (hc : c.utf8Size = 1) (ha : a ∈ bytesOfChar c) :
    bytesOfChar c = [a] := by
  have hlen : (bytesOfChar c).length = 1 := by
    rw [bytesOfChar_eq, String.length_utf8EncodeChar, hc]
  obtain ⟨b, hb⟩ := List.length_eq_one_iff.1 hlen
  rw [hb, List.mem_singleton] at ha
  rw [hb, ha]

/-- A segment that fits by bytes fits by characters. Behind a star the bytes of the rest may begin within a
character only as long as nothing but stars takes them. -/
theorem Fits.characters (h : Fits bytesOfChar s x) {p : List Char} (hp : y ++ x = p.flatMap bytesOfChar)
    (hone : '?' ∈ s → ∀ c ∈ p, c.utf8Size = 1) :
    (y = [] → Fits (fun c => [c]) s p) ∧ ∃ front rest, p = front ++ rest ∧ Fits (fun c => [c]) s rest := by
  induction h generalizing y p with
  | nil =>
    refine ⟨fun hy => ?_, p, [], (List.append_nil p).symm, .nil⟩
    obtain rfl : p = [] := flatMap_bytesOfChar_eq_nil.1 (by simpa [hy] using hp.symm)
    exact .nil
  | @literal c s x plain rest ih =>
    obtain ⟨front, back, rfl, hfront, hback⟩ := exists_of_flatMap_bytes hp
    have hs : Fits (fun c => [c]) s back := by
      refine (ih (y := []) hback fun hmem d hd => ?_).1 rfl
      exact hone (List.mem_cons_of_mem c hmem) d (List.mem_append_right front (List.mem_cons_of_mem c hd))
    refine ⟨fun hy => ?_, front, c :: back, rfl, .literal plain hs⟩
    obtain rfl : front = [] := flatMap_bytesOfChar_eq_nil.1 (hfront.symm.trans hy)
    exact .literal plain hs
  | @one a s x rest ih =>
    have hone := hone List.mem_cons_self
    have ha : a ∈ p.flatMap bytesOfChar := hp ▸ List.mem_append_right y List.mem_cons_self
    obtain ⟨d, hd, ha⟩ := List.mem_flatMap.1 ha
    have hchar : bytesOfChar d = [a] := bytesOfChar_of_mem (hone d hd) ha
    rw [← List.singleton_append, ← hchar] at hp
    obtain ⟨front, back, rfl, hfront, hback⟩ := exists_of_flatMap_bytes hp
    have hs : Fits (fun c => [c]) s back := by
      refine (ih (y := []) hback fun _ e he => ?_).1 rfl
      exact hone e (List.mem_append_right front (List.mem_cons_of_mem d he))
    refine ⟨fun hy => ?_, front, d :: back, rfl, .one d hs⟩
    obtain rfl : front = [] := flatMap_bytesOfChar_eq_nil.1 (hfront.symm.trans hy)
    exact .one d hs
  | @star u s x rest ih =>
    rw [← List.append_assoc] at hp
    obtain ⟨-, front, back, rfl, hs⟩ := ih hp fun hmem => hone (List.mem_cons_of_mem '*' hmem)
    exact ⟨fun _ => .star front hs, [], front ++ back, rfl, .star front hs⟩

/-- A segment that fits by characters fits by bytes. -/
theorem Fits.bytes {p : List Char} (h : Fits (fun c => [c]) s p) (hone : '?' ∈ s → ∀ c ∈ p, c.utf8Size = 1) :
    Fits bytesOfChar s (p.flatMap bytesOfChar) := by
  induction h with
  | nil => exact .nil
  | @literal c s x plain rest ih =>
    have hs := ih fun hmem d hd => hone (List.mem_cons_of_mem c hmem) d (List.mem_cons_of_mem c hd)
    exact .literal plain hs
  | @one d s x rest ih =>
    have hone := hone List.mem_cons_self
    obtain ⟨b, bs, hd, -⟩ := exists_bytesOfChar_eq_cons d
    have hchar : bytesOfChar d = [b] := bytesOfChar_of_mem (hone d List.mem_cons_self) (by simp [hd])
    rw [List.flatMap_cons, hchar]
    exact .one b (ih fun _ e he => hone e (List.mem_cons_of_mem d he))
  | @star y s x rest ih =>
    rw [List.flatMap_append]
    refine .star _ (ih fun hmem d hd => ?_)
    exact hone (List.mem_cons_of_mem '*' hmem) d (List.mem_append_right y hd)

/-- Bytes and characters fit alike where no `?` is in the pattern, or each character of the path has one
byte. -/
theorem fitsPath_characters (hone : '?' ∈ w → ∀ c ∈ path, c.utf8Size = 1) :
    FitsPath bytesOfChar w path ↔ FitsPath (fun c => [c]) w path := by
  unfold FitsPath
  rw [List.forall₂_iff_get, List.forall₂_iff_get]
  refine and_congr_right fun hlen => forall_congr' fun i => forall₂_congr fun hw hp => ?_
  have hone : '?' ∈ (Path.segments w)[i] → ∀ c ∈ (Path.segments path)[i], c.utf8Size = 1 := fun hmem c hc =>
    hone (Path.mem_of_mem_segments (List.getElem_mem hw) hmem) c
      (Path.mem_of_mem_segments (List.getElem_mem hp) hc)
  rw [List.get_eq_getElem, List.get_eq_getElem, List.flatMap_singleton']
  exact ⟨fun h => (h.characters (y := []) rfl hone).1 rfl, fun h => h.bytes hone⟩

/-! ### Sets -/

theorem parse_plain {w : String} (hw : IsPlain w.toList) : Pattern.parse w = .ok (w.toList.map plainToken) := by
  rw [Pattern.parse, read_plain hw]

theorem matches_plain {w path : String} (hw : IsPlain w.toList) :
    Matches w path ↔ FitsPath bytesOfChar w.toList path.toList ∧ ¬PassesOver w.toList path.toList := by
  have hnot : w.toList.map plainToken ≠ [.leading] := head?_plain w.toList []
  have hmatch : Pattern.isMatch (w.toList.map plainToken) path = true ↔
      ¬(((∃ c ∈ w.toList, isWild c = true) ∧ EndsInDot w.toList) ∧
          (Path.segments path.toList).getLast? = some ['.', '.']) ∧
        FitsPath bytesOfChar w.toList path.toList := by
    unfold Pattern.isMatch
    split
    · next h => exact absurd h hnot
    · rw [Bool.and_eq_true, Bool.not_eq_true', ← Bool.not_eq_true, Bool.and_eq_true, asksName_plain hw.plain,
        ← writesAll_bytes_iff, ← bytesOf_eq, List.any_eq_true]
      refine and_congr (by simp [isUpward, Path.segments]) ?_
      have hempty (r : Bytes) : r ∈ tokensRests (w.toList.map plainToken) [bytesOf path] ↔
          ∃ y, WritesAll w.toList y ∧ bytesOf path = y ++ r := by
        rw [mem_tokensRests (z := bytesOf path) hw.plain (by simp)]
        simp only [List.mem_singleton, exists_eq_left]
      simp only [List.isEmpty_iff, exists_eq_right, hempty, List.append_nil, exists_eq_right']
  have hparse : Matches w path ↔ Pattern.isMatch (w.toList.map plainToken) path = true := by
    simp [Matches, parse_plain hw]
  rw [hparse, hmatch, and_comm]
  exact and_congr_right fun h => not_congr (passesOver_iff h)

/-- Plain patterns are read, and a path is matched if one of them fits it segment by segment, unless that one
passes over it. By characters they fit the paths that they fit by bytes as long as `?` meets no character of
several bytes. -/
theorem PatternSet.matches_by_segments {texts : List String} (h : ∀ w ∈ texts, IsPlain w.toList) :
    ∃ ps, PatternSet.parse texts = .ok ps ∧ ∀ path : String,
      (ps.isMatch path = true ↔ ∃ w ∈ texts,
        FitsPath bytesOfChar w.toList path.toList ∧ ¬PassesOver w.toList path.toList) ∧
      ((∀ w ∈ texts, '?' ∈ w.toList → ∀ c ∈ path.toList, c.utf8Size = 1) →
        (ps.isMatch path = true ↔ ∃ w ∈ texts,
          FitsPath (fun c => [c]) w.toList path.toList ∧ ¬PassesOver w.toList path.toList)) := by
  obtain ⟨ps, hps, hmatch⟩ := PatternSet.exists_parse fun w hw => ⟨_, parse_plain (h w hw)⟩
  refine ⟨ps, hps, fun path => ?_⟩
  have hbytes : ps.isMatch path = true ↔ ∃ w ∈ texts,
      FitsPath bytesOfChar w.toList path.toList ∧ ¬PassesOver w.toList path.toList := by
    rw [hmatch path]
    exact exists_congr fun w => and_congr_right fun hw => matches_plain (h w hw)
  refine ⟨hbytes, fun hone => hbytes.trans ?_⟩
  refine exists_congr fun w => and_congr_right fun hw => and_congr_left fun _ => ?_
  exact fitsPath_characters (hone w hw)

/-- A star stands for a name of any characters, and for no two names. -/
theorem PatternSet.matches_by_segments_star :
    IsPlain "a/*.b".toList ∧ ∃ ps, PatternSet.parse ["a/*.b"] = .ok ps ∧
      ps.isMatch "a/é.b" = true ∧ ps.isMatch "a/x/y.b" = false := by
  have hw : IsPlain "a/*.b".toList := ⟨by simp [isWild], by simp⟩
  have hall : ∀ w ∈ ["a/*.b"], IsPlain w.toList := by simpa using hw
  obtain ⟨ps, hps, h⟩ := PatternSet.matches_by_segments hall
  refine ⟨hw, ps, hps, ((h "a/é.b").2 (by simp)).2 ⟨"a/*.b", List.mem_singleton_self _, ?_, ?_⟩, ?_⟩
  · exact .cons (.literal rfl .nil) (.cons (.star ['é'] (.literal rfl (.literal rfl .nil))) .nil)
  · exact fun hpass => absurd hpass.2.1 (by decide)
  · rw [← Bool.not_eq_true, (h "a/x/y.b").1]
    rintro ⟨w, hw, hfits, -⟩
    obtain rfl := List.mem_singleton.1 hw
    exact absurd hfits.length_eq (by decide)

/-- One character of two bytes fits `?` by characters, and two dots fit `*.`; neither is matched. -/
theorem PatternSet.misses_fitting :
    (∃ ps, PatternSet.parse ["?"] = .ok ps ∧ ps.isMatch "é" = false ∧
      FitsPath (fun c => [c]) "?".toList "é".toList) ∧
    ∃ ps, PatternSet.parse ["*."] = .ok ps ∧ ps.isMatch ".." = false ∧
      FitsPath (fun c => [c]) "*.".toList "..".toList := by
  refine ⟨⟨⟨[[.anyOne]]⟩, rfl, by decide +kernel, ?_⟩, ⟨[[.star, .literal '.']]⟩, rfl, by decide +kernel, ?_⟩
  · exact .cons (.one 'é' .nil) .nil
  · exact .cons (.star ['.'] (.literal rfl .nil)) .nil

end SiteBuild.Glob
