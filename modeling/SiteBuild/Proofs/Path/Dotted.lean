import SiteBuild.Proofs.FileTree.Listing
import SiteBuild.Proofs.Path.Spelling

/-! Paths with a dot in front. The dot counts as a component, so that such a path is not the same as the
one without it, but it names nothing. -/

namespace SiteBuild

namespace Path

variable {p q d : Path} {c : Component} {cs : List Component} {s : List Char} {ss : List (List Char)}
  {names : Place}

/-- The path with a dot in front. -/
def dotted (p : Path) : Path := ⟨"./" ++ p.text⟩

/-- A path whose first segment names something. -/
def IsBare (p : Path) : Prop :=
  ∃ first rest, segments p.text.toList = first :: rest ∧ (component? first).isSome

theorem IsBare.text_ne_empty (hp : p.IsBare) : p.text ≠ "" := by
  obtain ⟨first, rest, hs, hf⟩ := hp
  intro h
  rw [h] at hs
  cases hs
  cases hf

theorem leading_of_isSome (h : (component? s).isSome) : leading s = (component? s).toList := by
  unfold leading
  split
  · cases h
  · cases h
  · rfl

theorem IsBare.components_eq (hp : p.IsBare) {first : List Char} {rest : List (List Char)}
    (hs : segments p.text.toList = first :: rest) :
    p.components = (first :: rest).filterMap component? := by
  obtain ⟨x, xs, hx, hf⟩ := id hp
  obtain ⟨rfl, rfl⟩ := List.cons.inj (hs.symm.trans hx)
  rw [components_of_segments hs hp.text_ne_empty, leading_of_isSome hf]
  cases hc : component? first with
  | none => simp [hc] at hf
  | some c => simp [hc]

theorem IsBare.exists_components (hp : p.IsBare) : ∃ c cs, p.components = c :: cs ∧ IsLevel c := by
  obtain ⟨first, rest, hs, hf⟩ := id hp
  obtain ⟨c, hc⟩ := Option.isSome_iff_exists.1 hf
  refine ⟨c, rest.filterMap component?, ?_, ?_⟩
  · rw [hp.components_eq hs, List.filterMap_cons_some hc]
  · exact isLevel_of_component? hc (not_mem_of_mem_segments (hs ▸ List.mem_cons_self))

theorem isBare_of_components (hc : p.components = c :: cs) (hl : IsLevel c) : p.IsBare := by
  have hp : p.text ≠ "" := fun hp => by simp [components_empty hp] at hc
  obtain ⟨first, rest, hf⟩ := List.exists_cons_of_ne_nil (segments_ne_nil p.text.toList)
  refine ⟨first, rest, hf, ?_⟩
  rw [components_of_segments hf hp] at hc
  unfold leading at hc
  split at hc
  · obtain ⟨rfl, -⟩ := List.cons.inj hc
    exact absurd hl not_isLevel_root
  · obtain ⟨rfl, -⟩ := List.cons.inj hc
    exact absurd hl not_isLevel_here
  · next h0 h1 =>
    unfold component?
    split <;> simp_all

theorem IsBare.join (hp : p.IsBare) (hq : q.isAbsolute = false) : (p.join q).IsBare := by
  obtain ⟨c, cs, hc, hl⟩ := hp.exists_components
  have hj := components_join hp.text_ne_empty hq
  rw [hc, List.cons_append] at hj
  exact isBare_of_components hj hl

theorem IsBare.below (hp : p.IsBare) (hn : ∀ n ∈ names, IsFileName n) : (p.below names).IsBare := by
  obtain ⟨c, cs, hc, hl⟩ := hp.exists_components
  have hb := components_below p hn
  rw [hc, List.cons_append] at hb
  exact isBare_of_components hb hl

theorem segments_dotted (p : Path) :
    segments p.dotted.text.toList = ['.'] :: segments p.text.toList := by
  have h : p.dotted.text.toList = ['.'] ++ '/' :: p.text.toList := by simp [dotted]
  rw [h, segments_append_slash]
  rfl

theorem components_dotted (hp : p.IsBare) : p.dotted.components = .here :: p.components := by
  obtain ⟨first, rest, hs, hf⟩ := id hp
  have hne : p.dotted.text ≠ "" := by simp [dotted]
  rw [components_of_segments (hs ▸ segments_dotted p) hne, hp.components_eq hs]
  rfl

theorem dotted_ofSegments (s : List Char) (ss : List (List Char)) :
    ofSegments (['.'] :: s :: ss) = (ofSegments (s :: ss)).dotted := by
  refine congrArg mk (String.toList_inj.1 ?_)
  rw [String.toList_ofList, List.intercalate_cons_cons, String.toList_append, ofSegments]
  simp

theorem getLast?_dotted (hp : p.text ≠ "") :
    p.dotted.text.toList.getLast? = p.text.toList.getLast? := by
  rw [dotted, String.toList_append, List.getLast?_append]
  cases h : p.text.toList.getLast? with
  | none => exact absurd (String.toList_inj.1 (List.getLast?_eq_none_iff.1 h)) hp
  | some c => rfl

theorem join_dotted (hp : p.text ≠ "") (hq : q.isAbsolute = false) :
    p.dotted.join q = (p.join q).dotted := by
  unfold join
  rw [if_neg (by simp [hq]), if_neg (by simp [hq]), getLast?_dotted hp]
  split
  · next h =>
    rw [List.getLast?_eq_none_iff] at h
    exact absurd (String.toList_inj.1 h) hp
  · simp [dotted, String.append_assoc]
  · simp [dotted, String.append_assoc]

theorem below_dotted (hp : p.text ≠ "") (hn : ∀ n ∈ names, IsFileName n) :
    p.dotted.below names = (p.below names).dotted := by
  induction names using List.reverseRecOn with
  | nil => rfl
  | append_singleton names n ih =>
    have hnames : ∀ m ∈ names, IsFileName m := fun m hm => hn m (by simp [hm])
    rw [below_concat, below_concat, ih hnames, join_dotted (text_below_ne_empty hp hnames)]
    exact isAbsolute_of_isFileName (hn n (by simp))

theorem fileName?_dotted (hp : p.IsBare) : p.dotted.fileName? = p.fileName? := by
  obtain ⟨c, cs, hc, -⟩ := hp.exists_components
  rw [fileName?, components_dotted hp, fileName?, hc, List.getLast?_cons_cons]

theorem normalize_dotted (hp : p.IsBare) : p.dotted.normalize = p.normalize := by
  rw [normalize_eq_iff, components_dotted hp, resolve_here]

theorem same_dotted (hp : p.IsBare) (hq : q.IsBare) : p.dotted.same q.dotted = p.same q := by
  simp [same, components_dotted hp, components_dotted hq]

theorem relativeTo_dotted (hp : p.IsBare) (hq : q.IsBare) :
    p.dotted.relativeTo q.dotted = p.relativeTo q := by
  simp only [relativeTo, stripPrefix?, components_dotted hp, components_dotted hq,
    List.isPrefixOf_cons_cons, beq_self_eq_true, Bool.true_and, List.length_cons, List.drop_succ_cons]
  split
  · rfl
  · rfl

/-- What lies neither in a directory nor behind the dot in front of it is not spelled by it. -/
theorem relativeTo_dotted_of_not_prefix (hp : p.IsBare) (hq : .here ∉ q.components)
    (h : ¬p.components <+: q.components) : p.dotted.relativeTo q = p.relativeTo q := by
  have hno : p.components.isPrefixOf q.components = false := by
    rwa [← Bool.not_eq_true, List.isPrefixOf_iff_prefix]
  have hdot : p.dotted.components.isPrefixOf q.components = false := by
    rw [← Bool.not_eq_true, List.isPrefixOf_iff_prefix, components_dotted hp]
    exact fun h => hq (h.subset List.mem_cons_self)
  simp [relativeTo, stripPrefix?, hno, hdot]

theorem steps_dotted (hp : p.IsBare) : p.dotted.steps = .here :: p.steps := by
  obtain ⟨first, rest, hs, hf⟩ := id hp
  have hne : first.isEmpty = false := by
    cases first with
    | nil => cases hf
    | cons c first => rfl
  have hlast : ((segments p.dotted.text.toList).filter (!·.isEmpty)).getLast? =
      ((segments p.text.toList).filter (!·.isEmpty)).getLast? := by
    rw [segments_dotted, hs]
    simp [hne]
  rw [steps, steps, hlast, components_dotted hp, List.cons_append]

theorem endsInSlash_dotted (hp : p.text ≠ "") : p.dotted.endsInSlash = p.endsInSlash := by
  rw [endsInSlash, endsInSlash, getLast?_dotted hp]

theorem dropIdleEnd_cons (h : isIdle s = false) (ss : List (List Char)) :
    dropIdleEnd (s :: ss) = s :: dropIdleEnd ss := by
  unfold dropIdleEnd
  rw [List.reverse_cons, List.dropWhile_append]
  split
  · next hnil => simp_all
  · simp

/-- A path with one segment that names something lies in no directory that has a name. -/
theorem parent?_of_isSome {first : List Char} {rest : List (List Char)}
    (hs : segments p.text.toList = first :: rest) (hf : (component? first).isSome) :
    p.parent? = some (if dropIdleEnd rest = [] then ⟨""⟩
      else ofSegments (first :: dropIdleEnd (dropIdleEnd rest).dropLast)) := by
  have hfirst : first ≠ [] := by
    rintro rfl
    cases hf
  unfold parent?
  rw [hs]
  dsimp only
  split
  · next h =>
    rw [if_neg (by simpa using hfirst), if_pos h]
  · next r h =>
    rw [if_neg h]
    split
    · next h1 h2 => exact absurd rfl hfirst
    · rfl

/-- The parent of a path with a dot is that of the path without it, with a dot. -/
theorem parent?_dotted (hp : p.IsBare) :
    (p.parent? = some ⟨""⟩ ∧ p.dotted.parent? = some ⟨"."⟩) ∨
      ∃ d, d.IsBare ∧ d.components.length < p.components.length ∧ p.parent? = some d ∧
        p.dotted.parent? = some d.dotted := by
  obtain ⟨first, rest, hs, hf⟩ := id hp
  have hidle : isIdle first = false := by
    by_contra h
    rw [component?_of_isIdle (by simpa using h)] at hf
    cases hf
  have hdot : p.dotted.parent? =
      some (ofSegments (['.'] :: dropIdleEnd (first :: dropIdleEnd rest).dropLast)) := by
    unfold parent?
    rw [segments_dotted, hs]
    simp only [dropIdleEnd_cons hidle]
  rw [hdot, parent?_of_isSome hs hf]
  rcases dropIdleEnd_eq_or rest with hr | ⟨rs, x, hr, hx, hrs⟩
  · left
    rw [hr]
    exact ⟨rfl, rfl⟩
  · right
    have hne : dropIdleEnd rest ≠ [] := by simp [hr]
    have hseg : segments (ofSegments (first :: dropIdleEnd rs)).text.toList = first :: dropIdleEnd rs :=
      segments_parent hs hrs
    have hbare : (ofSegments (first :: dropIdleEnd rs)).IsBare := ⟨_, _, hseg, hf⟩
    refine ⟨_, hbare, ?_, ?_, ?_⟩
    · rw [hbare.components_eq hseg, hp.components_eq hs, List.filterMap_cons, List.filterMap_cons,
        filterMap_dropIdleEnd rs, ← filterMap_dropIdleEnd rest, hr]
      obtain ⟨c, hc⟩ := Option.isSome_iff_exists.1 hf
      obtain ⟨e, he⟩ := Option.isSome_iff_exists.1 hx
      simp [hc, he]
    · rw [if_neg hne, hr, List.dropLast_concat]
    · rw [hr, ← List.cons_append, List.dropLast_concat, dropIdleEnd_cons hidle, dotted_ofSegments]

end Path

end SiteBuild
