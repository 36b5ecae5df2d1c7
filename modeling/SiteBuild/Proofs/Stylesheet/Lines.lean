import Mathlib.Data.List.Chain
import SiteBuild.Stylesheet

/-! A stylesheet that cannot be read is joined line by line. What only the end of a line parts is one word
afterwards, so that its lines are kept apart just if no two words meet there. -/

namespace SiteBuild.Stylesheet

variable {a b out : List Char} {ls : List (List Char)} {s : String}

/-- The lines of a text that hold more than blanks, without the blanks around them. -/
def filledLines (s : String) : List (List Char) :=
  ((s.toList.splitOn '\n').map Text.trim).filter (· ≠ [])

/-- The characters that part words without a blank. -/
def isSeparator (c : Char) : Bool := ['{', '}', ';', ':', ','].contains c

/-- The one line ends in a word and the other begins with one. -/
def Meet (a b : List Char) : Prop :=
  (∃ c ∈ a.getLast?, isSeparator c = false) ∧ ∃ c ∈ b.head?, isSeparator c = false

instance : Decidable (Meet a b) :=
  have : Decidable (∃ c ∈ a.getLast?, isSeparator c = false) := a.getLast?.decidableExistsMem
  have : Decidable (∃ c ∈ b.head?, isSeparator c = false) := b.head?.decidableExistsMem
  inferInstanceAs (Decidable (_ ∧ _))

/-- A text that holds some lines in turn and nothing else but blanks between them, of which there are some
wherever words meet. -/
inductive KeepsApart : List (List Char) → List Char → Prop
  | nil : KeepsApart [] []
  | single (a : List Char) : KeepsApart [a] a
  | cons {a b gap out : List Char} {ls : List (List Char)} (hblank : ∀ c ∈ gap, Text.isBlank c = true)
      (hmeet : Meet a b → gap ≠ []) (h : KeepsApart (b :: ls) out) :
      KeepsApart (a :: b :: ls) (a ++ gap ++ out)

theorem KeepsApart.length_flatten_le (h : KeepsApart ls out) : ls.flatten.length ≤ out.length := by
  induction h with
  | nil => exact Nat.le_refl _
  | single a => simp
  | cons _ _ _ ih =>
    rw [List.flatten_cons]
    simp only [List.length_append]
    omega

/-- Lines that are kept apart without a blank have no words that meet. -/
theorem KeepsApart.isChain (h : KeepsApart ls out) (hlength : out.length = ls.flatten.length) :
    ls.IsChain fun a b => ¬ Meet a b := by
  induction h with
  | nil => exact .nil
  | single a => exact .singleton a
  | @cons a b gap out ls _ hmeet h ih =>
    have hle := h.length_flatten_le
    rw [List.flatten_cons] at hlength
    simp only [List.length_append] at hlength
    have hgap : gap = [] := List.length_eq_zero_iff.1 (by omega)
    exact .cons_cons (fun hm => hmeet hm hgap) (ih (by omega))

/-- Of all texts that hold some lines the one without a blank keeps them apart last. -/
theorem keepsApart_flatten_iff : KeepsApart ls ls.flatten ↔ ls.IsChain fun a b => ¬ Meet a b := by
  refine ⟨fun h => h.isChain rfl, fun h => ?_⟩
  induction h with
  | nil => exact .nil
  | singleton a =>
    rw [List.flatten_singleton]
    exact .single a
  | @cons_cons a b ls hmeet _ ih =>
    have h : KeepsApart (a :: b :: ls) (a ++ [] ++ (b :: ls).flatten) :=
      .cons (by simp) (fun hm => absurd hm hmeet) ih
    rwa [List.append_nil] at h

theorem joinLines_eq (s : String) : joinLines s = String.ofList (filledLines s).flatten := by
  rw [joinLines, filledLines, List.flatten_filter_ne_nil]

theorem filledLines_append (s t : String) :
    filledLines (s ++ ("\n" ++ t)) = filledLines s ++ filledLines t := by
  have hlines : (s ++ ("\n" ++ t)).toList.splitOn '\n' =
      s.toList.splitOn '\n' ++ t.toList.splitOn '\n' := by
    rw [String.toList_append, String.toList_append]
    exact List.splitOn_append_cons_self _ _
  rw [filledLines, hlines, List.map_append, List.filter_append]
  rfl

theorem filledLines_append_bundle (s : String) (sources : List String) :
    filledLines (s ++ bundle sources) = filledLines s ++ sources.flatMap filledLines := by
  induction sources generalizing s with
  | nil => simp [bundle]
  | cons t sources ih =>
    have hbundle : s ++ bundle (t :: sources) = s ++ ("\n" ++ (t ++ bundle sources)) := by
      simp [bundle, String.append_assoc]
    rw [hbundle, filledLines_append, ih, List.flatMap_cons]

/-- A bundle has the lines of its sources. -/
theorem filledLines_bundle (sources : List String) :
    filledLines (bundle sources) = sources.flatMap filledLines := by
  have h := filledLines_append_bundle "" sources
  rwa [String.empty_append] at h

theorem toList_render_of_none (h : render? true s = none) :
    (render true s).toList = (filledLines s).flatten := by
  rw [render, h, Option.getD_none, if_pos rfl, joinLines_eq, String.toList_ofList]

/-- A stylesheet that cannot be read keeps its lines apart just if no words meet where one ends. -/
theorem render_keepsApart_iff (h : render? true s = none) :
    KeepsApart (filledLines s) (render true s).toList ↔
      (filledLines s).IsChain fun a b => ¬ Meet a b := by
  rw [toList_render_of_none h]
  exact keepsApart_flatten_iff

/-- Every line of a query that is never closed ends in a brace. -/
theorem render_keepsApart_unclosed :
    let s := "@media screen and ( \x7b\n  .a \x7b color: red; \x7d\n\x7d\n"
    render? true s = none ∧ (filledLines s).IsChain (fun a b => ¬ Meet a b) ∧
      KeepsApart (filledLines s) (render true s).toList := by
  intro s
  have h : render? true s = none := by decide
  have hmeet : (filledLines s).IsChain fun a b => ¬ Meet a b := by decide
  exact ⟨h, hmeet, (render_keepsApart_iff h).2 hmeet⟩

/-- A selector for what is within another becomes one for what is both. -/
theorem render_glues_selectors :
    let s := ".a\n.b \x7b color: red; \x7d\n\x7d\n"
    render? true s = none ∧ render true s = ".a.b \x7b color: red; \x7d\x7d" ∧
      ¬ KeepsApart (filledLines s) (render true s).toList := by
  intro s
  have h : render? true s = none := by decide
  refine ⟨h, by decide, fun hk => ?_⟩
  rw [toList_render_of_none h, keepsApart_flatten_iff] at hk
  revert hk
  decide

end SiteBuild.Stylesheet
