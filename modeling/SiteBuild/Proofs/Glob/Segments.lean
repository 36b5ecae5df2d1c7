import Mathlib.Data.List.Forall2
import SiteBuild.Proofs.Glob.Plain
import SiteBuild.Proofs.Glob.Sets

/-! Wildcards stay within a segment. A plain pattern matches a path segment by segment; its `?` stands for
one byte, which is one character where each character is spelled by one. -/

namespace SiteBuild.Glob

variable {α : Type} {spell : Char → List α} {s t w path : List Char} {x y r z : Bytes} {c : Char}

/-! ### What a segment is matched by -/

/-- A segment of a pattern fits a segment of a path: `?` stands for one of its items and `*` for any number
of them, and each other character for the items that spell it. -/
inductive Fits (spell : Char → List α) : List Char → List α → Prop
  | nil : Fits spell [] []
  | literal {c : Char} {s : List Char} {x : List α} (plain : isWild c = false) (rest : Fits spell s x) :
      Fits spell (c :: s) (spell c ++ x)
  | one (a : α) {s : List Char} {x : List α} (rest : Fits spell s x) : Fits spell ('?' :: s) (a :: x)
  | star (y : List α) {s : List Char} {x : List α} (rest : Fits spell s x) :
      Fits spell ('*' :: s) (y ++ x)

/-- A pattern fits a path segment by segment. -/
def FitsPath (spell : Char → List α) (w path : List Char) : Prop :=
  List.Forall₂ (fun s p => Fits spell s (p.flatMap spell)) (Path.segments w) (Path.segments path)

/-! ### Segments -/

theorem exists_bytesOfChar_eq_cons (c : Char) : ∃ a bs, bytesOfChar c = a :: bs ∧ a.IsUTF8FirstByte ∧
    ∀ d ∈ bs, ¬d.IsUTF8FirstByte := by
  obtain ⟨a, bs, hc⟩ := List.exists_cons_of_ne_nil (@String.utf8EncodeChar_ne_nil c)
  have hbyte (i : Nat) (hi : i < (a :: bs).length) : (a :: bs)[i].IsUTF8FirstByte ↔ i = 0 := by
    have h := @UInt8.isUTF8FirstByte_getElem_utf8EncodeChar c i (hc ▸ hi)
    simpa only [hc] using h
  refine ⟨a, bs, by rw [bytesOfChar_eq, hc], (hbyte 0 (by simp)).2 rfl, fun d hd => ?_⟩
  obtain ⟨i, hi, rfl⟩ := List.getElem_of_mem hd
  have h := hbyte (i + 1) (by simpa using hi)
  rw [List.getElem_cons_succ] at h
  exact fun hf => Nat.succ_ne_zero i (h.1 hf)

theorem slash_not_mem_bytesOfChar (hc : c ≠ '/') : slash ∉ bytesOfChar c := by
  obtain ⟨a, bs, hbytes, -, hbs⟩ := exists_bytesOfChar_eq_cons c
  rw [hbytes, List.mem_cons, not_or]
  refine ⟨?_, fun hmem => hbs _ hmem (by decide)⟩
  rintro rfl
  have hprefix : ['/'] <+: [c] := by
    refine prefix_of_bytes bs ?_
    simp [hbytes, bytesOfChar_slash]
  have he : '/' = c := by simpa using hprefix
  exact hc he.symm

theorem intercalate_splitOn_slash (x : Bytes) : List.intercalate [slash] (x.splitOn slash) = x :=
  List.intercalate_splitOn slash

theorem splitOn_append_of_not_mem (hx : slash ∉ x) (y : Bytes) :
    (x ++ y).splitOn slash = (y.splitOn slash).modifyHead (x ++ ·) := by
  induction x with
  | nil =>
    rw [List.nil_append]
    cases y.splitOn slash <;> rfl
  | cons a x ih =>
    simp only [List.mem_cons, not_or] at hx
    rw [List.cons_append, List.splitOn_cons_eq_if_modifyHead, if_neg (by simpa using Ne.symm hx.1), ih hx.2]
    cases y.splitOn slash <;> rfl

/-- The bytes of a path are parted where its characters are. -/
theorem splitOn_flatMap_bytesOfChar (path : List Char) :
    (path.flatMap bytesOfChar).splitOn slash =
      (Path.segments path).map fun p => p.flatMap bytesOfChar := by
  induction path with
  | nil => rfl
  | cons c path ih =>
    unfold Path.segments at ih ⊢
    rw [List.flatMap_cons, List.splitOn_cons_eq_if_modifyHead]
    by_cases hc : c = '/'
    · subst hc
      rw [if_pos (by simp), bytesOfChar_slash, List.singleton_append,
        List.splitOn_cons_eq_if_modifyHead, if_pos (by simp), ih]
      rfl
    · rw [if_neg (by simpa using hc), splitOn_append_of_not_mem (slash_not_mem_bytesOfChar hc), ih]
      cases path.splitOn '/' <;> rfl

theorem Writes.fits (hy : Writes c y) (h : Fits bytesOfChar s x) : Fits bytesOfChar (c :: s) (y ++ x) := by
  cases hy with
  | literal plain => exact .literal plain h
  | one ne => exact .one _ h
  | star within => exact .star y h

theorem Writes.slash_not_mem (hy : Writes c y) (hc : c ≠ '/') : slash ∉ y := by
  cases hy with
  | literal plain => exact slash_not_mem_bytesOfChar hc
  | one ne => simpa using Ne.symm ne
  | star within => exact within

/-- What fits the rest of a segment stands behind what its first character writes. -/
theorem Fits.exists_writes (h : Fits bytesOfChar (c :: s) z) (hz : slash ∉ z) :
    ∃ y x, Writes c y ∧ Fits bytesOfChar s x ∧ z = y ++ x := by
  cases h with
  | literal plain rest => exact ⟨_, _, .literal plain, rest, rfl⟩
  | one a rest => exact ⟨[a], _, .one fun ha => hz (by simp [ha]), rest, rfl⟩
  | star y rest => exact ⟨y, _, .star fun hy => hz (by simp [hy]), rest, rfl⟩

theorem writesAll_cons : WritesAll (c :: w) z ↔ ∃ y x, Writes c y ∧ WritesAll w x ∧ z = y ++ x := by
  constructor
  · intro h
    cases h with
    | cons here rest => exact ⟨_, _, here, rest, rfl⟩
  · rintro ⟨y, x, hy, hx, rfl⟩
    exact .cons hy hx

theorem writes_slash : Writes '/' y ↔ y = [slash] := by
  rw [← bytesOfChar_slash]
  constructor
  · intro h
    cases h with
    | literal plain => rfl
  · rintro rfl
    exact .literal rfl

/-- A pattern that begins with a slash writes a slash in front of all else. -/
theorem forall₂_fits_slash : List.Forall₂ (Fits bytesOfChar) (('/' :: w).splitOn '/') (z.splitOn slash) ↔
    ∃ x, z = slash :: x ∧ List.Forall₂ (Fits bytesOfChar) (w.splitOn '/') (x.splitOn slash) := by
  rw [List.splitOn_cons_eq_if_modifyHead, if_pos (by simp)]
  constructor
  · intro h
    cases z with
    | nil =>
      obtain ⟨-, h⟩ := List.forall₂_cons.1 h
      exact absurd (List.forall₂_nil_right_iff.1 h) (List.splitOn_ne_nil '/' w)
    | cons a z =>
      rw [List.splitOn_cons_eq_if_modifyHead] at h
      split at h
      · next ha =>
        obtain rfl : a = slash := by simpa using ha
        exact ⟨z, rfl, (List.forall₂_cons.1 h).2⟩
      · obtain ⟨g, gs, hg⟩ := List.exists_cons_of_ne_nil (List.splitOn_ne_nil slash z)
        rw [hg] at h
        nomatch (List.forall₂_cons.1 h).1
  · rintro ⟨x, rfl, h⟩
    rw [List.splitOn_cons_eq_if_modifyHead, if_pos (by simp)]
    exact .cons .nil h

/-- In front of what the rest of a pattern fits stands what its first character writes. -/
theorem forall₂_fits_cons (hc : c ≠ '/') :
    List.Forall₂ (Fits bytesOfChar) ((c :: w).splitOn '/') (z.splitOn slash) ↔
      ∃ y x, Writes c y ∧ List.Forall₂ (Fits bytesOfChar) (w.splitOn '/') (x.splitOn slash) ∧ z = y ++ x := by
  obtain ⟨s, ss, hs⟩ := List.exists_cons_of_ne_nil (List.splitOn_ne_nil '/' w)
  have hsplit : (c :: w).splitOn '/' = (c :: s) :: ss := by
    rw [List.splitOn_cons_eq_if_modifyHead, if_neg (by simpa using hc), hs]
    rfl
  rw [hsplit, hs]
  constructor
  · intro h
    obtain ⟨g, gs, hg⟩ := List.exists_cons_of_ne_nil (List.splitOn_ne_nil slash z)
    have hslash : ∀ l ∈ g :: gs, slash ∉ l :=
      fun l hl => Text.not_mem_of_mem_splitOn (s := z) (hg ▸ hl)
    rw [hg] at h
    obtain ⟨hfirst, hrest⟩ := List.forall₂_cons.1 h
    obtain ⟨y, x, hy, hx, rfl⟩ := hfirst.exists_writes (hslash g List.mem_cons_self)
    have hlater : ∀ l ∈ x :: gs, slash ∉ l := by
      refine List.forall_mem_cons.2 ⟨fun hmem => ?_, fun l hl => hslash l (List.mem_cons_of_mem _ hl)⟩
      exact hslash _ List.mem_cons_self (List.mem_append_right y hmem)
    refine ⟨y, List.intercalate [slash] (x :: gs), hy, ?_, ?_⟩
    · rw [List.splitOn_intercalate slash hlater (List.cons_ne_nil _ _)]
      exact .cons hx hrest
    · rw [← intercalate_splitOn_slash z, hg]
      cases gs with
      | nil => simp
      | cons g gs => simp
  · rintro ⟨y, x, hy, h, rfl⟩
    rw [splitOn_append_of_not_mem (hy.slash_not_mem hc)]
    obtain ⟨g, gs, hg⟩ := List.exists_cons_of_ne_nil (List.splitOn_ne_nil slash x)
    rw [hg] at h ⊢
    obtain ⟨hfirst, hrest⟩ := List.forall₂_cons.1 h
    exact .cons (hy.fits hfirst) hrest

/-- A plain pattern writes what its segments fit, with a slash between them. -/
theorem writesAll_iff : WritesAll w z ↔
    List.Forall₂ (Fits bytesOfChar) (w.splitOn '/') (z.splitOn slash) := by
  induction w generalizing z with
  | nil =>
    constructor
    · rintro ⟨⟩
      exact .cons .nil .nil
    · intro h
      obtain ⟨g, gs, hg⟩ := List.exists_cons_of_ne_nil (List.splitOn_ne_nil slash z)
      rw [hg] at h
      obtain ⟨hfirst, hrest⟩ := List.forall₂_cons.1 (show List.Forall₂ _ [[]] _ from h)
      obtain rfl := List.forall₂_nil_left_iff.1 hrest
      cases hfirst
      have hz := intercalate_splitOn_slash z
      rw [hg] at hz
      exact hz ▸ .nil
  | cons c w ih =>
    rw [writesAll_cons]
    by_cases hc : c = '/'
    · subst hc
      simp only [forall₂_fits_slash, writes_slash, ih]
      constructor
      · rintro ⟨_, x, rfl, hx, rfl⟩
        exact ⟨x, rfl, hx⟩
      · rintro ⟨x, rfl, hx⟩
        exact ⟨_, x, rfl, hx, rfl⟩
    · simp only [forall₂_fits_cons hc, ih]

theorem writesAll_bytes_iff : WritesAll w (path.flatMap bytesOfChar) ↔ FitsPath bytesOfChar w path := by
  rw [writesAll_iff, splitOn_flatMap_bytesOfChar, List.forall₂_map_right_iff]
  exact Iff.rfl

end SiteBuild.Glob
