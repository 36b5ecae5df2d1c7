import SiteBuild.Embed
import SiteBuild.Proofs.Script.Print

/-! What a printed clause binds is what the embedding makes of it: the blanks around it, the word
`from` and the star of a namespace fall away. -/

namespace SiteBuild

namespace Text

variable {s t u : List Char}

/-- A text that begins and ends with no blank. -/
def IsSolid (s : List Char) : Prop :=
  s.head?.any isBlank = false ∧ s.getLast?.any isBlank = false

theorem dropWhile_isBlank_append (hs : ∀ c ∈ s, isBlank c = true) (ht : t.head?.any isBlank = false) :
    (s ++ t).dropWhile isBlank = t := by
  rw [List.dropWhile_append_of_pos hs]
  cases t with
  | nil => rfl
  | cons c t => exact List.dropWhile_cons_of_neg (by simpa using ht)

theorem trim_of_isSolid (hs : ∀ c ∈ s, isBlank c = true) (ht : IsSolid t)
    (hu : ∀ c ∈ u, isBlank c = true) : trim (s ++ (t ++ u)) = t := by
  by_cases hn : t = []
  · subst hn
    have h : trimStart (s ++ ([] ++ u)) = [] := by
      have := dropWhile_isBlank_append (s := s ++ u) (t := [])
        (fun c hc => (List.mem_append.1 hc).elim (hs c) (hu c)) rfl
      simpa [trimStart] using this
    rw [trim, h]
    rfl
  · have hhead : (t ++ u).head?.any isBlank = false := by
      obtain ⟨c, t, rfl⟩ := List.exists_cons_of_ne_nil hn
      exact ht.1
    have hlast : t.reverse.head?.any isBlank = false := by
      rw [List.head?_reverse]
      exact ht.2
    have hu' : ∀ c ∈ u.reverse, isBlank c = true := fun c hc => hu c (List.mem_reverse.1 hc)
    rw [trim, trimStart, dropWhile_isBlank_append hs hhead, trimEnd, List.reverse_append,
      dropWhile_isBlank_append hu' hlast, List.reverse_reverse]

end Text

namespace Embed

theorem dropNamespaces_of_not_mem {s : List Char} (h : '*' ∉ s) : dropNamespaces 0 s = s := by
  induction s with
  | nil => rfl
  | cons c s ih =>
    have hc : c ≠ '*' := fun hc => h (hc ▸ List.mem_cons_self)
    rw [dropNamespaces, if_neg hc, ih fun hs => h (List.mem_cons_of_mem _ hs)]

theorem dropNamespaces_append (s t : List Char) :
    dropNamespaces s.length (s ++ t) = dropNamespaces 0 t := by
  induction s with
  | nil => rfl
  | cons c s ih => exact ih

/-- A namespace is bound by its name alone. -/
theorem dropNamespaces_all {x : List Char} (hx : x.head?.any Text.isBlank = false) (h : '*' ∉ x) :
    dropNamespaces 0 ("* as ".toList ++ x) = x := by
  have ha : afterNamespace? (" as ".toList ++ x) = some x := by
    have ht : Text.trimStart (' ' :: x) = x :=
      Text.dropWhile_isBlank_append (s := [' ']) (by simp; decide) hx
    have hs : Text.trimStart (" as ".toList ++ x) = ['a', 's'] ++ ' ' :: x := rfl
    rw [afterNamespace?, if_pos (by rfl), hs, Text.after?_append, Option.bind_some, if_pos (by rfl), ht]
  have hd : "* as ".toList ++ x = '*' :: (" as ".toList ++ x) := rfl
  rw [hd, dropNamespaces, if_pos rfl]
  simp only [ha]
  rw [List.length_append, Nat.add_sub_cancel, dropNamespaces_append, dropNamespaces_of_not_mem h]

/-- What stands in front of the word `from` is bound, the stars of namespaces apart. -/
theorem boundNames_from {k q t y : List Char} (hy : Text.IsSolid y) (hn : y ≠ []) :
    boundNames ⟨k, Script.between " " y " from" ++ [' '], q, t⟩ = dropNamespaces 0 y := by
  have hsolid : Text.IsSolid (y ++ [' '] ++ "from".toList) := by
    refine ⟨?_, ?_⟩
    · obtain ⟨c, y, rfl⟩ := List.exists_cons_of_ne_nil hn
      exact hy.1
    · simp
      decide
  have hblank : ∀ c ∈ [' '], Text.isBlank c = true := List.all_eq_true.1 (by decide)
  have hclause : Text.trim (Script.between " " y " from" ++ [' ']) = y ++ [' '] ++ "from".toList := by
    have ht : Script.between " " y " from" ++ [' '] =
        [' '] ++ (y ++ [' '] ++ "from".toList ++ [' ']) := by
      simp [Script.between]
    rw [ht]
    exact Text.trim_of_isSolid hblank hsolid hblank
  have hnames : Text.trim (y ++ [' ']) = y :=
    Text.trim_of_isSolid (s := []) (by simp) hy hblank
  simp only [boundNames, hclause, Text.before?_append, Option.getD_some, hnames]

end Embed

namespace Script

variable {c : Char} {x : List Char}

theorem isBlank_of_isAlphanum (hc : c.isAlphanum = true) : Text.isBlank c = false := by
  have h := isGap_of_isAlphanum hc
  simp only [isGap, Bool.or_eq_false_iff] at h
  exact h.1.1

theorem IsIdentifier.ne_nil (hx : IsIdentifier x) : x ≠ [] := by
  rintro rfl
  exact absurd hx.start (by simp)

theorem IsIdentifier.isSolid (hx : IsIdentifier x) : Text.IsSolid x := by
  refine ⟨?_, ?_⟩
  · rw [Option.any_eq_false]
    exact fun c hc => by simp [isBlank_of_isAlphanum (hx.all c (List.mem_of_mem_head? hc))]
  · rw [Option.any_eq_false]
    exact fun c hc => by simp [isBlank_of_isAlphanum (hx.all c (List.mem_of_getLast? hc))]

theorem IsIdentifier.star_not_mem (hx : IsIdentifier x) : '*' ∉ x := fun h =>
  absurd (hx.all _ h) (by decide)

theorem Clause.star_not_mem_braces {xs : List (List Char)} (hx : ∀ x ∈ xs, IsIdentifier x) :
    '*' ∉ braces xs := by
  have h : '*' ∉ List.intercalate [',', ' '] xs := by
    induction xs with
    | nil => simp
    | cons x xs ih =>
      have hh := (hx x List.mem_cons_self).star_not_mem
      have ih := ih fun y hy => hx y (List.mem_cons_of_mem _ hy)
      cases xs with
      | nil => simpa using hh
      | cons y ys =>
        rw [List.intercalate_cons_cons]
        simp [hh, ih]
  simp [braces, h]

theorem Clause.isSolid_braces (xs : List (List Char)) : Text.IsSolid (braces xs) := by
  refine ⟨by rfl, ?_⟩
  rw [braces, List.getLast?_append]
  rfl

/-- What a sound clause binds is found. -/
theorem Clause.boundNames_print {c : Clause} (hc : c.IsSound) (k q t : List Char) :
    Embed.boundNames ⟨k, c.print ++ [' '], q, t⟩ = c.names := by
  cases c with
  | nothing => rfl
  | default x =>
    have hx : IsIdentifier x := hc
    exact (Embed.boundNames_from hx.isSolid hx.ne_nil).trans
      (Embed.dropNamespaces_of_not_mem hx.star_not_mem)
  | all x =>
    have hx : IsIdentifier x := hc
    have hsolid : Text.IsSolid ("* as ".toList ++ x) := by
      refine ⟨by rfl, ?_⟩
      have hd := List.getLast?_eq_some_getLast hx.ne_nil
      have hl := hx.isSolid.2
      rw [hd] at hl
      rw [List.getLast?_append, hd]
      exact hl
    have ht : print (.all x) = between " " ("* as ".toList ++ x) " from" := by
      simp [print, between]
    rw [ht]
    exact (Embed.boundNames_from hsolid (by simp)).trans
      (Embed.dropNamespaces_all hx.isSolid.1 hx.star_not_mem)
  | named xs =>
    exact (Embed.boundNames_from (isSolid_braces xs) (by simp [braces])).trans
      (Embed.dropNamespaces_of_not_mem (star_not_mem_braces hc))

end Script

end SiteBuild
