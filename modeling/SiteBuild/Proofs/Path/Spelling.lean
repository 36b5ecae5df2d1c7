import SiteBuild.Proofs.Path.Resolution

/-! Spellings of one path. What a specifier leads to is told by the components of the file that holds it,
once these are resolved, and by no more of how that file is spelled. -/

namespace SiteBuild

namespace Path

variable {p q d : Path} {c : Component} {cs ds : List Component} {n s : String}

/-- What a text names, one segment after the other. -/
def levels (s : String) : List Component := (segments s.toList).filterMap component?

theorem isLevel_of_mem_levels (h : c ∈ levels s) : IsLevel c :=
  isLevel_of_mem_filterMap (fun _ => not_mem_of_mem_segments) h

/-- The directory of a file. -/
def directory (file : Path) : Path := file.parent?.getD ⟨""⟩

theorem components_of_isAbsolute (h : p.isAbsolute = true) : p.components = .root :: levels p.text := by
  obtain ⟨w, hw⟩ : ∃ w, p.text.toList = '/' :: w := by
    unfold isAbsolute at h
    cases hp : p.text.toList with
    | nil => simp [hp] at h
    | cons c w =>
      obtain rfl : c = '/' := by simpa [hp] using h
      exact ⟨w, rfl⟩
  have hs : segments p.text.toList = [] :: segments w := by
    rw [hw]
    exact segments_append_slash [] w
  have hp : p.text ≠ "" := fun he => by simp [he] at hw
  rw [components_of_segments hs hp, levels, hs]
  rfl

theorem normalize_eq_iff : p.normalize = q.normalize ↔ resolve p.components = resolve q.components := by
  constructor
  · intro h
    rw [← components_normalize, h, components_normalize]
  · exact congrArg ofComponents

theorem same_eq_true : p.same q = true ↔ p.components = q.components := by simp [same]

theorem normalize_of_same (h : p.same q = true) : p.normalize = q.normalize :=
  normalize_eq_iff.2 (congrArg resolve (same_eq_true.1 h))

theorem resolve_append (cs ds : List Component) :
    resolve (cs ++ ds) = (ds.foldl resolveStep (resolve cs).reverse).reverse := by
  simp [resolve]

theorem resolve_append_congr (h : resolve cs = resolve ds) (es : List Component) :
    resolve (cs ++ es) = resolve (ds ++ es) := by
  rw [resolve_append, resolve_append, h]

@[simp] theorem resolve_here (cs : List Component) : resolve (.here :: cs) = resolve cs := rfl

theorem resolve_append_names (cs : List Component) (names : List String) :
    resolve (cs ++ names.map .name) = resolve cs ++ names.map .name := by
  induction names using List.reverseRecOn with
  | nil => simp
  | append_singleton names n ih =>
    rw [List.map_append, ← List.append_assoc, ← List.append_assoc, ← ih]
    simp [resolve, List.foldl_append]

theorem resolve_name (cs : List Component) (n : String) :
    resolve (cs ++ [.name n]) = resolve cs ++ [.name n] :=
  resolve_append_names cs [n]

/-- The first segment of a relative path may only be a dot that counts for nothing. -/
theorem components_of_isRelative (hp : p.isAbsolute = false) :
    p.components = levels p.text ∨ p.components = .here :: levels p.text := by
  by_cases ht : p.text = ""
  · rw [components_empty ht, ht]
    exact .inl rfl
  obtain ⟨first, rest, hf⟩ := List.exists_cons_of_ne_nil (segments_ne_nil p.text.toList)
  rw [components_of_segments hf ht, levels, hf]
  unfold leading
  split
  · -- a path with an empty first segment begins with a slash
    have hs : List.intercalate ['/'] (segments p.text.toList) = p.text.toList :=
      List.intercalate_splitOn '/'
    rw [hf] at hs
    cases rest with
    | nil => exact absurd (String.toList_inj.1 hs.symm) ht
    | cons s rest =>
      rw [List.intercalate_cons_cons] at hs
      simp [isAbsolute, ← hs] at hp
  · exact .inr rfl
  · left
    cases hc : component? first <;> simp [hc]

theorem resolve_components (hp : p.isAbsolute = false) :
    resolve p.components = resolve (levels p.text) := by
  rcases components_of_isRelative hp with hc | hc <;> rw [hc]
  rfl

theorem resolve_join (hq : q.isAbsolute = false) :
    resolve (p.join q).components =
      resolve (p.components ++ levels q.text) := by
  by_cases hp : p.text = ""
  · rw [join_empty hp, components_empty hp, resolve_components hq]
    rfl
  · rw [components_join hp hq, levels]

theorem normalize_join_congr (h : p.normalize = q.normalize) (r : Path) :
    (p.join r).normalize = (q.join r).normalize := by
  rw [normalize_eq_iff] at h ⊢
  by_cases hr : r.isAbsolute
  · simp [join, hr]
  · rw [Bool.not_eq_true] at hr
    rw [resolve_join hr, resolve_join hr, resolve_append_congr h]

/-- A path to a name lies in what stands in front of the name. -/
theorem exists_parent (hc : p.components = cs ++ [.name n]) :
    ∃ d, p.parent? = some d ∧ d.components = cs := by
  cases hd : p.parent? with
  | some d => exact ⟨d, rfl, components_parent hd hc⟩
  | none =>
    exfalso
    have ht : p.text ≠ "" := fun ht => by simp [components_empty ht] at hc
    obtain ⟨first, rest, hf⟩ := List.exists_cons_of_ne_nil (segments_ne_nil p.text.toList)
    rw [components_of_segments hf ht, ← filterMap_dropIdleEnd] at hc
    unfold parent? at hd
    rw [hf] at hd
    simp only at hd
    split at hd
    · next hr =>
      split at hd
      · next hfirst =>
        obtain rfl : first = [] := by simpa using hfirst
        rw [hr] at hc
        cases cs <;> simp [leading] at hc
      · cases hd
    · split at hd <;> cases hd

/-- Where a specifier leads from a file hangs on what the file's path is resolved to. -/
theorem resolveFrom_congr {m : String} (hp : p.fileName? = some n) (hq : q.fileName? = some m)
    (h : p.normalize = q.normalize) (s : String) : p.resolveFrom s = q.resolveFrom s := by
  have exists_components {p : Path} {n : String} (hp : p.fileName? = some n) :
      ∃ cs, p.components = cs ++ [.name n] := by
    unfold fileName? at hp
    split at hp
    · next hl =>
      cases hp
      exact List.getLast?_eq_some_iff.1 hl
    · cases hp
  obtain ⟨cs, hp⟩ := exists_components hp
  obtain ⟨ds, hq⟩ := exists_components hq
  obtain ⟨d, hd, rfl⟩ := exists_parent hp
  obtain ⟨e, he, rfl⟩ := exists_parent hq
  rw [normalize_eq_iff, hp, hq, resolve_name, resolve_name] at h
  have hdir := normalize_eq_iff.2 (List.append_inj' h rfl).1
  unfold resolveFrom
  rw [hd, he]
  exact normalize_join_congr hdir ⟨s⟩

end Path

theorem exists_normalize_of_resolveLocal? {root p q : Path} {specifier : String}
    (h : resolveLocal? root p specifier = some q) : ∃ x : Path, q = x.normalize := by
  unfold resolveLocal? at h
  dsimp only at h
  split at h
  · cases h
  · split at h
    · exact ⟨_, (Option.some.inj h).symm⟩
    · split at h
      · exact ⟨_, (Option.some.inj h).symm⟩
      · cases h

theorem resolveLocal?_congr {root base p q : Path} {n m : String} (hr : root.normalize = base.normalize)
    (hp : p.fileName? = some n) (hq : q.fileName? = some m) (h : p.normalize = q.normalize) (s : String) :
    resolveLocal? root p s = resolveLocal? base q s := by
  unfold resolveLocal?
  simp only [Path.normalize_join_congr hr, Path.resolveFrom_congr hp hq h]

end SiteBuild
