import Mathlib.Data.List.Forall2
import Mathlib.Data.List.TakeWhile
import SiteBuild.Text.Match

/-! Words in any letter case, and the leftmost place where a reader succeeds. -/

namespace SiteBuild.Text

variable {α : Type} {word s t rest front : List Char} {w c : Char} {read : List Char → Option α} {a : α}

/-! ## Letter case -/

/-- A text that has the letters of a word, each in either case. -/
def Spells (word s : List Char) : Prop := List.Forall₂ (fun w c => sameLetter w c = true) word s

theorem afterAnyCase?_eq_some_iff :
    afterAnyCase? word s = some rest ↔ ∃ name, Spells word name ∧ s = name ++ rest := by
  induction word generalizing s with
  | nil =>
    constructor
    · intro h
      exact ⟨[], .nil, Option.some.inj h⟩
    · rintro ⟨name, hname, rfl⟩
      cases hname
      rfl
  | cons w word ih =>
    cases s with
    | nil =>
      constructor
      · intro h
        cases h
      · rintro ⟨name, hname, hs⟩
        obtain ⟨rfl, -⟩ := List.append_eq_nil_iff.1 hs.symm
        cases hname
    | cons c s =>
      rw [afterAnyCase?]
      constructor
      · intro h
        split at h
        · next hc =>
          obtain ⟨name, hname, rfl⟩ := ih.1 h
          exact ⟨c :: name, .cons hc hname, rfl⟩
        · cases h
      · rintro ⟨name, hname, hs⟩
        cases hname with
        | cons hc hname =>
          obtain ⟨rfl, rfl⟩ := List.cons.inj hs
          rw [if_pos hc]
          exact ih.2 ⟨_, hname, rfl⟩

/-- The third forms of letters. -/
def thirdForms : List Char := ['\u017f', '\u212a']

/-- Letters are the same if they are in lower case, unless one of them is the third form of a letter. -/
theorem sameLetter_iff_toLower (hlower : w.toLower = w) (hw : w ∉ thirdForms)
    (h : w ∉ ['s', 'k'] ∨ c ∉ thirdForms) : sameLetter w c = true ↔ c.toLower = w := by
  simp only [thirdForms, List.mem_cons, List.not_mem_nil, or_false, not_or] at hw h
  unfold sameLetter
  simp only [if_neg hw.1, if_neg hw.2, hlower, decide_eq_true_eq]
  by_cases hlong : c = '\u017f'
  · subst hlong
    rcases h with h | h
    · exact iff_of_false h.1 fun h => hw.1 h.symm
    · exact absurd rfl h.1
  · by_cases hkelvin : c = '\u212a'
    · subst hkelvin
      rcases h with h | h
      · exact iff_of_false h.2 fun h => hw.2 h.symm
      · exact absurd rfl h.2
    · rw [if_neg hlong, if_neg hkelvin]
      exact eq_comm

/-- A word without capital letters, in which no letter stands in its third form. -/
def IsLower (word : List Char) : Prop := ∀ w ∈ word, w.toLower = w ∧ w ∉ thirdForms

instance (word : List Char) : Decidable (IsLower word) := List.decidableBAll _ word

/-- A word whose letters have no third form. -/
def HasTwoForms (word : List Char) : Prop := ∀ w ∈ word, w ∉ ['s', 'k']

instance (word : List Char) : Decidable (HasTwoForms word) := List.decidableBAll _ word

theorem spells_iff_map_toLower (hword : IsLower word)
    (h : HasTwoForms word ∨ ∀ c ∈ s, c ∉ thirdForms) :
    Spells word s ↔ s.map Char.toLower = word := by
  unfold Spells
  unfold HasTwoForms at h
  induction word generalizing s with
  | nil => simp
  | cons w word ih =>
    obtain ⟨⟨hlower, hw⟩, hword⟩ := List.forall_mem_cons.1 hword
    cases s with
    | nil => simp
    | cons c s =>
      simp only [List.forall_mem_cons] at h
      rw [List.forall₂_cons, sameLetter_iff_toLower hlower hw (h.imp And.left And.left),
        ih hword (h.imp And.right And.right), List.map_cons, List.cons.injEq]

theorem not_mem_of_map_toLower (h : s.map Char.toLower = word) (hc : c.toLower ∉ word) : c ∉ s :=
  fun hmem => hc (h ▸ List.mem_map_of_mem hmem)

theorem isAlpha_of_toLower (h : c.toLower.isAlpha = true) : c.isAlpha = true := by
  unfold Char.toLower at h
  split at h
  · next hupper =>
    have halpha : (decide (65 ≤ c.val ∧ c.val ≤ 90) || c.isLower) = true := by
      rw [Bool.or_eq_true, decide_eq_true_eq]
      exact .inl hupper
    exact halpha
  · exact h

/-- Only letters have another case. -/
theorem eq_of_toLower_eq (h : c.toLower = w) (hw : w.isAlpha = false) : c = w := by
  unfold Char.toLower at h
  split at h
  · next hupper =>
    subst h
    have hlower : (decide (97 ≤ c.val + 32) && decide (c.val + 32 ≤ 122)) = false :=
      (Bool.or_eq_false_iff.1 hw).2
    simp [UInt32.le_iff_toNat_le] at hlower hupper
    omega
  · exact h

theorem Spells.not_mem (h : Spells word s) (hc : word.any (fun w => sameLetter w c) = false) : c ∉ s := by
  induction h with
  | nil => exact List.not_mem_nil
  | cons hw _ ih =>
    rw [List.any_cons, Bool.or_eq_false_iff] at hc
    obtain ⟨hw', hword⟩ := hc
    rintro (_ | hmem)
    · rw [hw'] at hw
      cases hw
    · exact ih hword ‹_›

theorem takeWhile_append_cons {p : Char → Bool} (hs : ∀ d ∈ s, p d = true) (hc : p c = false)
    (rest : List Char) : (s ++ c :: rest).takeWhile p = s := by
  rw [List.takeWhile_append_of_pos hs, List.takeWhile_cons_of_neg (by simp [hc]), List.append_nil]

/-- A character is found behind others that are passed over. -/
theorem after?_dropWhile_eq_some_iff {p : Char → Bool} (hc : p c = false) :
    after? [c] (s.dropWhile p) = some rest ↔
      ∃ gap, (∀ d ∈ gap, p d = true) ∧ s = gap ++ c :: rest := by
  constructor
  · intro h
    refine ⟨s.takeWhile p, fun d hd => List.mem_takeWhile_imp hd, ?_⟩
    calc s = s.takeWhile p ++ s.dropWhile p := List.takeWhile_append_dropWhile.symm
      _ = s.takeWhile p ++ c :: rest := by rw [← append_of_after? h]; rfl
  · rintro ⟨gap, hgap, rfl⟩
    rw [List.dropWhile_append_of_pos hgap, List.dropWhile_cons_of_neg (by simp [hc])]
    exact after?_append [c] rest

/-! ## Search -/

/-- Nothing of a kind begins in the first of two parts of a text. -/
def Clear (p : List Char → Prop) (front rest : List Char) : Prop :=
  ∀ y, y <:+ front → y ≠ [] → ¬p (y ++ rest)

section

variable {p q : List Char → Prop} {x y : List Char}

@[simp] theorem clear_nil : Clear p [] rest := fun _ hy hne => absurd (List.suffix_nil.1 hy) hne

@[simp] theorem clear_cons :
    Clear p (c :: front) rest ↔ ¬p (c :: (front ++ rest)) ∧ Clear p front rest := by
  unfold Clear
  simp [List.suffix_cons_iff, or_imp, forall_and]

@[simp] theorem clear_append : Clear p (x ++ y) rest ↔ Clear p x (y ++ rest) ∧ Clear p y rest := by
  induction x with
  | nil => simp
  | cons c x ih => simp [ih, and_assoc]

theorem clear_congr (h : ∀ s, p s ↔ q s) : Clear p front rest ↔ Clear q front rest := by
  unfold Clear
  simp only [h]

end

theorem leftmost?_eq_some_iff : leftmost? read s = some (front, a) ↔
    ∃ rest, s = front ++ rest ∧ read rest = some a ∧ Clear (read · ≠ none) front rest := by
  induction s generalizing front with
  | nil =>
    simp only [leftmost?, Option.map_eq_some_iff, Prod.mk.injEq, List.nil_eq, List.append_eq_nil_iff]
    constructor
    · rintro ⟨b, hb, rfl, rfl⟩
      exact ⟨[], ⟨rfl, rfl⟩, hb, clear_nil⟩
    · rintro ⟨rest, ⟨rfl, rfl⟩, ha, -⟩
      exact ⟨a, ha, rfl, rfl⟩
  | cons c s ih =>
    rw [leftmost?]
    cases hread : read (c :: s) with
    | some b =>
      simp only [Option.some.injEq, Prod.mk.injEq]
      constructor
      · rintro ⟨rfl, rfl⟩
        exact ⟨c :: s, rfl, hread, clear_nil⟩
      · rintro ⟨rest, hs, ha, hnone⟩
        cases front with
        | nil =>
          obtain rfl : c :: s = rest := hs
          exact ⟨rfl, Option.some.inj (hread.symm.trans ha)⟩
        | cons d front =>
          obtain ⟨rfl, rfl⟩ := List.cons.inj hs
          cases hread.symm.trans (not_not.1 (clear_cons.1 hnone).1)
    | none =>
      simp only [Option.map_eq_some_iff, Prod.mk.injEq, Prod.exists]
      constructor
      · rintro ⟨front, a, h, rfl, rfl⟩
        obtain ⟨rest, rfl, ha, hnone⟩ := ih.1 h
        exact ⟨rest, rfl, ha, clear_cons.2 ⟨not_not.2 hread, hnone⟩⟩
      · rintro ⟨rest, hs, ha, hnone⟩
        cases front with
        | nil =>
          obtain rfl : c :: s = rest := hs
          rw [hread] at ha
          cases ha
        | cons d front =>
          obtain ⟨rfl, rfl⟩ := List.cons.inj hs
          exact ⟨front, a, ih.2 ⟨rest, rfl, ha, (clear_cons.1 hnone).2⟩, rfl, rfl⟩

theorem leftmost?_eq_none_iff :
    leftmost? read s = none ↔ read [] = none ∧ Clear (read · ≠ none) s [] := by
  induction s with
  | nil => simp [leftmost?]
  | cons c s ih =>
    rw [leftmost?, clear_cons, List.append_nil]
    cases hread : read (c :: s) with
    | some b => simp
    | none => simp [ih]

end SiteBuild.Text
