import Mathlib.Data.List.Nodup
import SiteBuild.Stylesheet.Declaration

/-! To arrange declarations may rename and replace them, but never leaves nothing of some. -/

namespace SiteBuild.Stylesheet

variable {a : Arrangement} {d : Declaration} {ds : List Declaration} {f : Family} {m : Member}
  {s : Shorthand} {name : String}

namespace Shorthand

/-- Words that are spread come to some words. -/
def Spreads (s : Shorthand) : Prop :=
  ∀ ws ws', s.spread? ws = some ws' → ws' ≠ []

theorem spreads_sides (name : String) (part : String → String) : (sides name part).Spreads := by
  intro ws ws' h
  simp only [sides, spreadSides?] at h
  split at h <;> cases h <;> exact List.cons_ne_nil _ _

theorem spreads_pair (name first second : String) : (pair name first second).Spreads := by
  intro ws ws' h
  simp only [pair, spreadPair?] at h
  split at h <;> cases h <;> exact List.cons_ne_nil _ _

theorem spreads_flow : flow.Spreads := by
  intro ws ws' h
  simp only [flow] at h
  split at h <;> cases h <;> split <;> exact List.cons_ne_nil _ _

theorem spreads_flex : flex.Spreads := by
  intro ws ws' h
  simp only [flex] at h
  split at h <;> repeat' split at h
  all_goals cases h
  all_goals exact List.cons_ne_nil _ _

end Shorthand

/-- The properties that stand for several others. -/
def shorthands : List Shorthand :=
  families.flatten.filterMap fun
    | .shorthand s => some s
    | .one .. => none

theorem mem_shorthands : s ∈ shorthands ↔ .shorthand s ∈ families.flatten := by
  unfold shorthands
  rw [List.mem_filterMap]
  refine ⟨fun ⟨m, hm, hs⟩ => ?_, fun h => ⟨_, h, rfl⟩⟩
  cases m with
  | one => cases hs
  | shorthand s' => cases hs; exact hm

theorem spreads_of_mem : ∀ s ∈ shorthands, s.Spreads := by
  simp [shorthands, families, Member.whole, Member.list, Shorthand.spreads_flow,
    Shorthand.spreads_flex, Shorthand.spreads_pair, Shorthand.spreads_sides]

theorem parts_ne_nil : ∀ s ∈ shorthands, s.parts ≠ [] := by decide +kernel

theorem shorthands_nodup : (shorthands.map Shorthand.name).Nodup := by decide +kernel

/-- A value that is what a shorthand asks for can be spread. -/
theorem spread?_of_readValue? {tight : Bool} {value text : List Char} (hs : s ∈ shorthands)
    (h : readValue? tight s.name value = some text) :
    ∃ ws, s.spread? (splitWords 0 [] value) = some ws := by
  unfold readValue? at h
  dsimp only at h
  split at h
  · next s' _ hnamed =>
    obtain ⟨m, hm, hs'⟩ := List.mem_filterMap.1 (hnamed ▸ List.mem_cons_self (a := s'))
    cases m with
    | one => cases hs'
    | shorthand s'' =>
      obtain ⟨hname, heq⟩ := Option.ite_none_right_eq_some.1 hs'
      obtain rfl := Option.some.inj heq
      obtain rfl := List.inj_on_of_nodup_map shorthands_nodup (mem_shorthands.2 hm) hs hname
      obtain ⟨ws, hws, -⟩ := Option.bind_eq_some_iff.1 h
      exact ⟨ws, hws⟩
  · next hnone =>
    have hmem := List.filterMap_eq_nil_iff.1 hnone _ (mem_shorthands.1 hs)
    simp at hmem

namespace Member

/-- The names of the declarations that are held for a member. -/
def heldNames : Member → List String
  | .one name _ => [name]
  | .shorthand s => s.parts

theorem heldNames_subset (m : Member) : m.heldNames ⊆ m.names := by
  cases m with
  | one => exact fun _ h => h
  | shorthand s => exact List.subset_cons_self _ _

theorem mem_heldNames (hm : m ∈ families.flatten) (hname : name ∈ m.names)
    (h : ∀ s ∈ shorthands, s.name ≠ name) : name ∈ m.heldNames := by
  cases m with
  | one => exact hname
  | shorthand s =>
    exact (List.mem_cons.1 hname).resolve_left fun heq => h s (mem_shorthands.2 hm) heq.symm

end Member

/-- Nothing is held under the name of a shorthand. -/
theorem shorthand_ne_heldName :
    ∀ m ∈ families.flatten, ∀ name ∈ m.heldNames, ∀ s ∈ shorthands, s.name ≠ name := by
  decide +kernel

namespace Arrangement

theorem find?_ne_none (hd : d ∈ a.held) : a.find? d.name ≠ none := by
  intro h
  simpa using List.find?_eq_none.1 h d hd

theorem member_ne_nil (hd : d ∈ a.held) (hm : d.name ∈ m.heldNames) : a.member m ≠ [] := by
  obtain ⟨d', hd'⟩ := Option.ne_none_iff_exists'.1 (find?_ne_none hd)
  cases m with
  | one name parts =>
    obtain rfl := List.mem_singleton.1 hm
    rw [member, hd']
    exact List.cons_ne_nil _ _
  | shorthand s =>
    have hmem : d' ∈ s.parts.filterMap a.find? := List.mem_filterMap.2 ⟨_, hm, hd'⟩
    unfold member
    dsimp only
    split
    · split
      · exact List.cons_ne_nil _ _
      · exact List.ne_nil_of_mem hmem
    · next hnil => exact absurd hmem (hnil ▸ List.not_mem_nil)

theorem release_placed_ne_nil (hd : d ∈ a.held) (hm : m ∈ f) (hname : d.name ∈ m.heldNames) :
    (a.release f).placed ≠ [] := by
  obtain ⟨d', hd'⟩ := List.exists_mem_of_ne_nil _ (member_ne_nil hd hname)
  refine List.append_ne_nil_of_left_ne_nil ?_ _
  exact List.ne_nil_of_mem (List.mem_reverse.2 (List.mem_flatMap.2 ⟨m, hm, hd'⟩))

/-- Something is held for a member of some families, or has its place. -/
def Holds (fs : List Family) (a : Arrangement) : Prop :=
  a.placed ≠ [] ∨ ∃ d ∈ a.held, ∃ m ∈ fs.flatten, d.name ∈ m.heldNames

theorem Holds.release {fs : List Family} (hfs : ∀ g ∈ f :: fs, g ∈ families)
    (h : a.Holds (f :: fs)) : (a.release f).Holds fs := by
  rcases h with hplaced | ⟨d, hd, m, hm, hname⟩
  · exact .inl (List.append_ne_nil_of_right_ne_nil _ hplaced)
  · obtain ⟨g, hg, hmg⟩ := List.mem_flatten.1 hm
    have hnone := shorthand_ne_heldName m (List.mem_flatten.2 ⟨g, hfs g hg, hmg⟩) _ hname
    by_cases hf : ∃ m' ∈ f, d.name ∈ m'.names
    · obtain ⟨m', hm', hname'⟩ := hf
      have hflat := List.mem_flatten.2 ⟨f, hfs f List.mem_cons_self, hm'⟩
      exact .inl (release_placed_ne_nil hd hm' (Member.mem_heldNames hflat hname' hnone))
    · refine .inr ⟨d, List.mem_filter.2 ⟨hd, ?_⟩, m, ?_, hname⟩
      · simpa using hf
      · refine List.mem_flatten.2 ⟨g, (List.mem_cons.1 hg).resolve_left ?_, hmg⟩
        rintro rfl
        exact hf ⟨m, hmg, m.heldNames_subset hname⟩

theorem Holds.foldl_release {fs : List Family} (hfs : ∀ g ∈ fs, g ∈ families) (h : a.Holds fs) :
    (fs.foldl Arrangement.release a).placed ≠ [] := by
  induction fs generalizing a with
  | nil => exact h.resolve_right fun ⟨_, _, _, hm, _⟩ => List.not_mem_nil hm
  | cons f fs ih =>
    exact ih (fun g hg => hfs g (List.mem_cons_of_mem _ hg)) (h.release hfs)

theorem Holds.toList_ne_nil (h : a.Holds families) : a.toList ≠ [] :=
  List.reverse_ne_nil_iff.2 (h.foldl_release fun _ hg => hg)

theorem mem_hold {parts : List String} (hd : d ∈ ds) : d ∈ (a.hold parts ds).held :=
  List.mem_append_right _ hd

/-- What is held of a declaration goes by a name of the member. -/
theorem holds_holdMember {text : List Char} (hm : m ∈ families.flatten) (hname : d.name ∈ m.names)
    (hvalue : readValue? true d.name d.value = some text) : (a.holdMember d m).Holds families := by
  cases m with
  | one name parts =>
    exact .inr ⟨d, mem_hold (List.mem_singleton_self d), _, hm, hname⟩
  | shorthand s =>
    have hs := mem_shorthands.2 hm
    unfold holdMember
    dsimp only
    split
    · next heq =>
      obtain ⟨ws, hws⟩ := spread?_of_readValue? hs (heq ▸ hvalue)
      obtain ⟨w, ws, rfl⟩ := List.exists_cons_of_ne_nil (spreads_of_mem s hs _ _ hws)
      obtain ⟨part, parts, hparts⟩ := List.exists_cons_of_ne_nil (parts_ne_nil s hs)
      rw [hws]
      dsimp only
      have hpart : part ∈ s.parts := hparts ▸ List.mem_cons_self
      refine .inr ⟨⟨part, w, d.important⟩, mem_hold ?_, _, hm, hpart⟩
      rw [hparts]
      exact List.mem_cons_self
    · next hne =>
      have hpart := (List.mem_cons.1 hname).resolve_left hne
      exact .inr ⟨d, mem_hold (List.mem_singleton_self d), _, hm, hpart⟩

/-- No declaration is lost without another in its place. -/
theorem holds_add (a : Arrangement) (d : Declaration) : (a.add d).Holds families := by
  unfold add
  split
  · next f hf =>
    split
    · next m hm =>
      obtain ⟨text, hvalue, hfind⟩ := Option.bind_eq_some_iff.1 hm
      have hflat : m ∈ families.flatten :=
        List.mem_flatten.2 ⟨f, List.mem_of_find?_eq_some hf, List.mem_of_find?_eq_some hfind⟩
      exact holds_holdMember hflat (by simpa using List.find?_some hfind) hvalue
    · exact .inl (List.cons_ne_nil _ _)
  · split
    · unfold replace
      split
      · next hany =>
        obtain ⟨d', hd', -⟩ := List.any_eq_true.1 hany
        exact .inl (List.ne_nil_of_mem (List.mem_map_of_mem hd'))
      · exact .inl (List.cons_ne_nil _ _)
    · exact .inl (List.cons_ne_nil _ _)

end Arrangement

theorem arrangeAlike_ne_nil (h : ds ≠ []) : arrangeAlike ds ≠ [] := by
  obtain ⟨front, d, rfl⟩ := List.eq_nil_or_concat ds |>.resolve_left h
  unfold arrangeAlike
  rw [List.concat_eq_append, List.foldl_append]
  exact (Arrangement.holds_add _ d).toList_ne_nil

/-- Something is left of declarations that are arranged. -/
theorem arrange_ne_nil (h : ds ≠ []) : arrange ds ≠ [] := by
  obtain ⟨d, hd⟩ := List.exists_mem_of_ne_nil _ h
  unfold arrange
  by_cases himportant : d.important
  · refine List.append_ne_nil_of_right_ne_nil _ (arrangeAlike_ne_nil ?_)
    exact List.ne_nil_of_mem (List.mem_filter.2 ⟨hd, himportant⟩)
  · refine List.append_ne_nil_of_left_ne_nil (arrangeAlike_ne_nil ?_) _
    exact List.ne_nil_of_mem (List.mem_filter.2 ⟨hd, by simpa using himportant⟩)

end SiteBuild.Stylesheet
