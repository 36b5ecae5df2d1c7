import SiteBuild.Page.Head

/-! Putting text into the head of a page adds this text and leaves all other as it was. -/

namespace SiteBuild.Page

theorem afterHeadOpen?_suffix {s rest : List Char} (h : afterHeadOpen? s = some rest) : rest <:+ s := by
  have hafter {s rest : List Char} (h : Text.after? ['>'] s = some rest) : rest <:+ s :=
    ⟨_, Text.append_of_after? h⟩
  obtain ⟨name, hname, h⟩ := Option.bind_eq_some_iff.1 h
  refine List.IsSuffix.trans ?_ (Text.afterAnyCase?_suffix hname)
  rcases Option.or_eq_some_iff.1 h with h | ⟨-, h⟩
  · exact hafter h
  · split at h
    · exact (hafter h).trans (List.dropWhile_suffix _)
    · cases h

/-- A page is split in two, and nothing of it is lost. -/
theorem splitHead_append (page : List Char) : (splitHead page).1 ++ (splitHead page).2 = page := by
  unfold splitHead
  split
  · next front _ h =>
    obtain ⟨rest, rfl, -⟩ := Text.leftmost?_front h
    rw [List.drop_left]
  · split
    · next front rest h =>
      obtain ⟨s, rfl, hs⟩ := Text.leftmost?_front h
      exact Text.front_append ((afterHeadOpen?_suffix hs).trans (List.suffix_append _ _))
    · rfl

/-- A page is longer by what was put into it. -/
theorem length_inject (snippet page : String) :
    (inject snippet page).length = page.length + snippet.length := by
  have hpage := congrArg List.length (splitHead_append page.toList)
  unfold inject
  simp only [List.length_append, String.length_toList, String.length_ofList] at hpage ⊢
  omega

theorem inject_ne {snippet : String} (h : snippet ≠ "") (page : String) :
    inject snippet page ≠ page := by
  intro heq
  have hlength := length_inject snippet page
  rw [heq] at hlength
  have hempty : snippet.length = 0 := by omega
  exact h (String.length_eq_zero_iff.1 hempty)

theorem stylesheetLink_ne_empty (href : String) : stylesheetLink href ≠ "" := fun h =>
  absurd (String.append_eq_empty_iff.1 h).2 (by decide)

end SiteBuild.Page
