import SiteBuild.Proofs.ModuleGraph.Locality

/-! Specifiers that stay within their site. From the directory of the file that holds it, or from the root of
the site, a specifier leads by its segments: each name goes down, and a level up takes the last name back. The
file that it leads to is the root joined with the names that are left, and these name it below the root. -/

namespace SiteBuild

variable {root importer : Path} {base tail name : String} {dirs names left : List String}
  {s : List Char} {ss : List (List Char)} {cs : List Component}

/-- The names that some segments lead to, from where some names lead to. None if they lead above the start
of the names. -/
def follow? (names : List String) : List (List Char) → Option (List String)
  | [] => some names
  | s :: ss =>
    if s = [] ∨ s = ['.'] then follow? names ss
    else if s = ['.', '.'] then if names = [] then none else follow? names.dropLast ss
    else follow? (names ++ [String.ofList s]) ss

namespace Path

/-- Segments are followed as their components are resolved, whatever stands in front of the names. -/
theorem foldl_resolveStep_of_follow? (front : List Component) (h : follow? names ss = some left) :
    (ss.filterMap component?).foldl resolveStep (front ++ names.map Component.name).reverse =
      (front ++ left.map Component.name).reverse := by
  induction ss generalizing names with
  | nil =>
    obtain rfl : names = left := Option.some.inj h
    rfl
  | cons s ss ih =>
    unfold follow? at h
    split at h
    · next hs =>
      have hnone : component? s = none := by rcases hs with rfl | rfl <;> rfl
      rw [List.filterMap_cons_none hnone]
      exact ih h
    · next hs =>
      rw [not_or] at hs
      split at h
      · next hup =>
        subst hup
        split at h
        · cases h
        · next hnames =>
          obtain ⟨ns, n, rfl⟩ := (List.eq_nil_or_concat' names).resolve_left hnames
          rw [List.dropLast_concat] at h
          rw [← ih h]
          simp [component?, resolveStep]
      · next hup =>
        rw [List.filterMap_cons_some (component?_of_ne hs.1 hs.2 hup), ← ih h]
        simp

/-- The spelling of components and of names behind them. -/
theorem ofComponents_append_names (cs : List Component) (names : List String) :
    ofComponents (cs ++ names.map .name) = (ofComponents cs).below names := by
  simp [ofComponents, below, List.foldl_map, Component.text]

theorem normalize_of_resolve {p : Path} (hroot : resolve root.components = root.components)
    (h : resolve p.components = root.components ++ names.map .name) :
    p.normalize = root.normalize.below names := by
  rw [normalize, h, ofComponents_append_names, normalize, hroot]

/-- From a file a relative specifier leads on from what stands in front of the file's name. -/
theorem resolveFrom_eq (hfile : importer.components = cs ++ [.name name])
    (hbase : isAbsolute ⟨base⟩ = false) :
    ∃ p : Path, importer.resolveFrom base = p.normalize ∧
      resolve p.components = resolve (cs ++ levels base) := by
  obtain ⟨d, hd, rfl⟩ := exists_parent hfile
  refine ⟨d.join ⟨base⟩, ?_, resolve_join hbase⟩
  rw [resolveFrom, hd, Option.getD_some]

theorem resolve_of_follow? (hroot : resolve root.components = root.components)
    (h : follow? names (segments base.toList) = some left) :
    resolve (root.components ++ names.map .name ++ levels base) = root.components ++ left.map .name := by
  rw [resolve_append, resolve_append_names, hroot, levels, foldl_resolveStep_of_follow? _ h,
    List.reverse_reverse]

end Path

/-! ### Queries -/

theorem dropQuery_append (hbase : ∀ c ∈ base.toList, c ≠ '?' ∧ c ≠ '#')
    (htail : ∀ c ∈ tail.toList.head?, c = '?' ∨ c = '#') : dropQuery (base ++ tail) = base := by
  have hkept : ∀ c ∈ base.toList, (c ≠ '?' && c ≠ '#') = true := by simpa using hbase
  have hcut : tail.toList.takeWhile (fun c => c ≠ '?' && c ≠ '#') = [] := by
    cases hc : tail.toList with
    | nil => rfl
    | cons c w =>
      rw [List.takeWhile_cons_of_neg]
      rcases htail c (by simp [hc]) with rfl | rfl <;> decide
  rw [dropQuery, String.toList_append, List.takeWhile_append_of_pos hkept, hcut, List.append_nil,
    String.ofList_toList]

theorem isRelative_dropQuery (specifier : String) :
    IsRelative (dropQuery specifier) ↔ IsRelative specifier := by
  simp only [IsRelative, ← List.isPrefixOf_iff_prefix]
  rw [isPrefixOf_dropQuery (by decide), isPrefixOf_dropQuery (by decide)]

theorem isRooted_dropQuery (specifier : String) : IsRooted (dropQuery specifier) ↔ IsRooted specifier := by
  simp only [IsRooted, ← List.isPrefixOf_iff_prefix]
  rw [isPrefixOf_dropQuery (by decide), isPrefixOf_dropQuery (by decide)]

/-- What begins with a slash is followed from the root as what stands behind the slash. -/
theorem follow?_dropLeadingSlashes (hbase : IsRooted base) (hback : '\\' ∉ base.toList) (names : List String) :
    follow? names (Path.segments base.toList) =
      follow? names (Path.segments (dropLeadingSlashes base).toList) := by
  obtain ⟨⟨w, hw⟩, hhost⟩ := hbase
  have hw : base.toList = '/' :: w := hw.symm
  have hdrop : (dropLeadingSlashes base).toList = w := by
    rw [dropLeadingSlashes, String.toList_ofList, hw, List.dropWhile_cons_of_pos (by decide)]
    cases w with
    | nil => rfl
    | cons c w =>
      -- a second slash would begin another host's address
      have hslash : c ≠ '/' := by
        rintro rfl
        exact hhost ⟨w, hw.symm⟩
      have hback : c ≠ '\\' := by
        rintro rfl
        exact hback (hw ▸ by simp)
      rw [List.dropWhile_cons_of_neg (by simp [hslash, hback])]
  have hsegments : Path.segments base.toList = [] :: Path.segments w := by
    rw [hw]
    exact Path.segments_append_slash [] w
  rw [hdrop, hsegments, follow?, if_pos (.inl rfl)]

/-- A specifier is followed from the names of the file's directory if it is relative, and from the root if it
begins with a slash. What it leads to resolves to the root with the names that are left. -/
theorem exists_resolveLocal? (hroot : Path.resolve root.components = root.components)
    (hfile : importer.components = (root.components ++ dirs.map .name) ++ [.name name])
    (hlocal : IsRelative base ∨ IsRooted base)
    (hplain : ∀ c ∈ base.toList, c ≠ '?' ∧ c ≠ '#' ∧ c ≠ '\\')
    (htail : ∀ c ∈ tail.toList.head?, c = '?' ∨ c = '#')
    (hleft : follow? (if IsRelative base then dirs else []) (Path.segments base.toList) = some left) :
    ∃ q : Path, resolveLocal? root importer (base ++ tail) = some q.normalize ∧
      Path.resolve q.components = root.components ++ left.map .name := by
  have hquery : dropQuery (base ++ tail) = base :=
    dropQuery_append (fun c hc => ⟨(hplain c hc).1, (hplain c hc).2.1⟩) htail
  have hrelative := isRelative_dropQuery (base ++ tail)
  have hrooted := isRooted_dropQuery (base ++ tail)
  rw [hquery] at hrelative hrooted
  rw [resolveLocal?_eq, hquery]
  by_cases hrel : IsRelative base
  · have hslash : ¬"/".toList <+: base.toList := fun h => not_isRelative_of_slash h hrel
    obtain ⟨q, hq, hresolved⟩ := Path.resolveFrom_eq hfile (isAbsolute_eq_false hslash)
    rw [if_pos hrel] at hleft
    rw [if_pos (hrelative.1 hrel), hq]
    exact ⟨q, rfl, hresolved.trans (Path.resolve_of_follow? hroot hleft)⟩
  · have hslash := hlocal.resolve_left hrel
    rw [if_neg hrel, follow?_dropLeadingSlashes hslash fun h => (hplain _ h).2.2 rfl] at hleft
    rw [if_neg (mt hrelative.2 hrel), if_pos (hrooted.1 hslash)]
    refine ⟨_, rfl, ?_⟩
    rw [Path.resolve_join (isAbsolute_dropLeadingSlashes _)]
    simpa using Path.resolve_of_follow? hroot hleft

/-- A specifier that stays within its site, with a query behind it or not, leads from a file to the root
joined with the names that its segments lead to: from the names of the file's directory if it is relative,
and from the root if it begins with a slash. The file that it leads to is named by these names below the
root, and its address is a slash and then the same. -/
theorem resolveLocal?_follows (hroot : root.normalize.same root = true)
    (hnames : ∀ n ∈ dirs ++ [name], Path.IsLevel (.name n))
    (himporter : importer.same (root.below (dirs ++ [name])) = true)
    (hlocal : IsRelative base ∨ IsRooted base)
    (hplain : ∀ c ∈ base.toList, c ≠ '?' ∧ c ≠ '#' ∧ c ≠ '\\')
    (htail : ∀ c ∈ tail.toList.head?, c = '?' ∨ c = '#')
    (hleft : follow? (if IsRelative base then dirs else []) (Path.segments base.toList) = some left) :
    let p := root.normalize.below left
    resolveLocal? root importer (base ++ tail) = some p ∧ p.same (root.below left) = true ∧
      root.relativeTo p = "/".intercalate left ∧ root.urlFrom p = "/" ++ "/".intercalate left := by
  have hroot : Path.resolve root.components = root.components := by
    rw [← Path.components_normalize]
    exact Path.same_eq_true.1 hroot
  have hfile : importer.components = (root.components ++ dirs.map .name) ++ [.name name] := by
    rw [Path.same_eq_true.1 himporter, Path.components_below_levels root hnames]
    simp
  obtain ⟨q, hq, hresolved⟩ := exists_resolveLocal? hroot hfile hlocal hplain htail hleft
  intro p
  have hp : q.normalize = p := Path.normalize_of_resolve hroot hresolved
  have hcomponents : p.components = root.components ++ left.map .name := by
    rw [← hp, Path.components_normalize, hresolved]
  have hlevels : ∀ n ∈ left, Path.IsLevel (.name n) := by
    intro n hn
    apply Path.isLevel_of_name (p := p)
    rw [hcomponents]
    exact List.mem_append_right _ (List.mem_map_of_mem hn)
  have hrelativeTo : root.relativeTo p = "/".intercalate left := Path.relativeTo_of_components hcomponents
  refine ⟨hq.trans (congrArg some hp), ?_, hrelativeTo, ?_⟩
  · rw [Path.same_eq_true, hcomponents, Path.components_below_levels root hlevels]
  · rw [Path.urlFrom, hrelativeTo]

open SiteBuild.Path in
/-- A specifier with a level up and back, and a query, from a script in a directory. -/
theorem resolveLocal?_follows_up :
    (normalize ⟨"build"⟩).same ⟨"build"⟩ = true ∧ IsRelative "../css/./x.js" ∧
      follow? ["js"] (segments "../css/./x.js".toList) = some ["css", "x.js"] ∧
      resolveLocal? ⟨"build"⟩ ⟨"build//js/app.js"⟩ "../css/./x.js?v=/../1" = some ⟨"build/css/x.js"⟩ := by
  have hbase : (normalize ⟨"build"⟩).same ⟨"build"⟩ = true ∧ IsRelative "../css/./x.js" ∧
      follow? ["js"] (segments "../css/./x.js".toList) = some ["css", "x.js"] := by
    decide +kernel
  have hnames : ∀ n ∈ ["js"] ++ ["app.js"], IsLevel (.name n) := by
    simp only [IsLevel]
    decide +kernel
  have hplain : ∀ c ∈ "../css/./x.js".toList, c ≠ '?' ∧ c ≠ '#' ∧ c ≠ '\\' := by simp
  have htail : ∀ c ∈ "?v=/../1".toList.head?, c = '?' ∨ c = '#' := by simp
  have himporter : (Path.mk "build//js/app.js").same (below ⟨"build"⟩ (["js"] ++ ["app.js"])) = true := by
    decide +kernel
  have h := resolveLocal?_follows hbase.1 hnames himporter (.inl hbase.2.1) hplain htail
    hbase.2.2
  exact ⟨hbase.1, hbase.2.1, hbase.2.2, h.1⟩

end SiteBuild
