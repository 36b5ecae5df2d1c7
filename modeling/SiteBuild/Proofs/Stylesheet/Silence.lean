import SiteBuild.Proofs.Path.Resolution
import SiteBuild.Proofs.Stylesheet.Joining
import SiteBuild.Proofs.Stylesheet.Lines

/-! Which stylesheets come to nothing once they are written as short as they get: those that can be read
and hold neither a comment that is kept nor a rule of which something is written. -/

namespace SiteBuild.Stylesheet

variable {r : Rule} {rules : List Rule} {c : Char} {s t : List Char} {source : String}

/-- A text that holds more than blanks. -/
def IsFilled (s : List Char) : Prop := ∃ c ∈ s, Text.isBlank c = false

theorem isFilled_concat (s : List Char) (h : Text.isBlank c = false) : IsFilled (s ++ [c]) :=
  ⟨c, by simp, h⟩

theorem isFilled_append : IsFilled (s ++ t) ↔ IsFilled s ∨ IsFilled t := by
  simp only [IsFilled, List.mem_append, or_and_right, exists_or]

theorem isFilled_flatten {ls : List (List Char)} : IsFilled ls.flatten ↔ ∃ l ∈ ls, IsFilled l := by
  unfold IsFilled
  simp only [List.mem_flatten]
  tauto

theorem isFilled_flatMap {α : Type} {f : α → List Char} {xs : List α} :
    IsFilled (xs.flatMap f) ↔ ∃ x ∈ xs, IsFilled (f x) := by
  unfold IsFilled
  simp only [List.mem_flatMap]
  tauto

theorem writeTightAll_eq_flatMap (rules : List Rule) :
    writeTightAll rules = rules.flatMap writeTight := by
  induction rules with
  | nil => rw [writeTightAll, List.flatMap_nil]
  | cons r rules ih => rw [writeTightAll, ih, List.flatMap_cons]

/-- Of a joined rule something is written unless it is silent. -/
theorem isFilled_writeTight (h : r.Settled) : IsFilled (writeTight r) ↔ r.isSilent = false := by
  induction h with
  | style selectors h =>
    refine iff_of_true (isFilled_concat _ (by decide)) ?_
    simpa [Rule.isSilent] using h
  | @media query rules hquery hne hrules ih =>
    have hgone := (Rule.Settled.media hquery hne hrules).isGone_eq_false
    rw [Bool.eq_false_iff, ne_eq, Rule.isSilent_media, hgone, writeTight]
    split
    · next hall =>
      rw [writeTightAll_eq_flatMap, isFilled_flatMap]
      simp only [hall, Bool.false_eq_true, false_or, true_and, not_forall, exists_prop,
        Bool.not_eq_true]
      exact exists_congr fun r => and_congr_right (ih r)
    · next hsome =>
      refine iff_of_true (isFilled_concat _ (by decide)) ?_
      rintro (h | ⟨hall, -⟩)
      · cases h
      · exact hsome hall
  | statement text => exact iff_of_true (isFilled_concat _ (by decide)) rfl
  | void =>
    refine iff_of_false ?_ (by decide)
    rintro ⟨c, hc, -⟩
    exact List.not_mem_nil hc

/-- What is written of rules does not hold more or less for their being joined. -/
theorem isFilled_writeTightAll (rules : List Rule) : IsFilled (writeTightAll (joinRules rules)) ↔
    ∃ r ∈ rules, r.isSilent = false := by
  have hjoins := joins_joinRules rules
  have hsome : (∃ r ∈ joinRules rules, r.isSilent = false) ↔ ∃ r ∈ rules, r.isSilent = false := by
    simpa using not_congr hjoins.silent_iff
  rw [writeTightAll_eq_flatMap, isFilled_flatMap, ← hsome]
  exact exists_congr fun r => and_congr_right fun hr => isFilled_writeTight (hjoins.settled r hr)

/-- A stylesheet of which nothing is written. -/
def SaysNothing (source : String) : Prop :=
  keptComments none source.toList = [] ∧
    ∃ rules, readRules? true source.toList = some rules ∧ ∀ r ∈ rules, r.isSilent = true

/-- A stylesheet that can be read comes to some text unless it says nothing. -/
theorem isFilled_of_render? {text : String} (h : render? true source = some text) :
    IsFilled text.toList ↔ ¬SaysNothing source := by
  obtain ⟨rules, hrules, rfl⟩ := Option.map_eq_some_iff.1 h
  have hcomment (c : List Char) : IsFilled ("/*".toList ++ c ++ "*/".toList) :=
    ⟨'*', by simp, by decide⟩
  have hsays : SaysNothing source ↔ keptComments none source.toList = [] ∧
      ∀ r ∈ rules, r.isSilent = true := by
    simp [SaysNothing, hrules]
  simp only [if_true, String.toList_ofList, List.append_nil, isFilled_append, isFilled_flatMap,
    isFilled_writeTightAll, hsays, hcomment, and_true, not_and_or, not_forall, exists_prop,
    Bool.not_eq_true, List.eq_nil_iff_forall_not_mem, not_not]

theorem isFilled_reverse : IsFilled s.reverse ↔ IsFilled s := by
  simp only [IsFilled, List.mem_reverse]

theorem isFilled_dropWhile : IsFilled (s.dropWhile Text.isBlank) ↔ IsFilled s := by
  conv_rhs => rw [← List.takeWhile_append_dropWhile (p := Text.isBlank) (l := s), isFilled_append]
  refine (or_iff_right fun ⟨c, hc, hblank⟩ => ?_).symm
  exact Bool.eq_false_iff.1 hblank (List.all_eq_true.1 List.all_takeWhile c hc)

theorem isFilled_trim : IsFilled (Text.trim s) ↔ IsFilled s := by
  rw [Text.trim, Text.trimEnd, Text.trimStart, isFilled_reverse, isFilled_dropWhile, isFilled_reverse,
    isFilled_dropWhile]

theorem isFilled_filledLines (source : String) :
    IsFilled (filledLines source).flatten ↔ IsFilled source.toList := by
  have hlines : IsFilled (source.toList.splitOn '\n').flatten ↔ IsFilled source.toList := by
    rw [Text.flatten_splitOn]
    unfold IsFilled
    refine exists_congr fun c => and_congr_left fun hc => List.mem_filter.trans (and_iff_left ?_)
    refine decide_eq_true fun hbreak => Bool.eq_false_iff.1 hc ?_
    exact hbreak ▸ (by decide : Text.isBlank '\n' = true)
  rw [filledLines, List.flatten_filter_ne_nil, ← List.flatMap_def, isFilled_flatMap, ← hlines,
    isFilled_flatten]
  simp only [isFilled_trim]

/-- A stylesheet that holds more than blanks comes to some text unless it says nothing. -/
theorem isFilled_render (h : IsFilled source.toList) :
    IsFilled (render true source).toList ↔ ¬SaysNothing source := by
  cases hrender : render? true source with
  | some text =>
    rw [render, hrender, Option.getD_some]
    exact isFilled_of_render? hrender
  | none =>
    rw [toList_render_of_none hrender]
    refine iff_of_true ((isFilled_filledLines source).2 h) ?_
    rintro ⟨-, rules, hrules, -⟩
    rw [render?, hrules] at hrender
    cases hrender

theorem isFilled_bundle (sources : List String) :
    IsFilled (bundle sources).toList ↔ ∃ s ∈ sources, IsFilled s.toList := by
  have hlines : (sources.flatMap filledLines).flatten =
      sources.flatMap fun s => (filledLines s).flatten := by
    simp [List.flatMap_def, List.flatten_flatten, Function.comp_def]
  rw [← isFilled_filledLines, filledLines_bundle, hlines, isFilled_flatMap]
  simp only [isFilled_filledLines]

end SiteBuild.Stylesheet
