import Mathlib.Data.List.Basic
import SiteBuild.Proofs.FileTree.Change

/-! What a listing gives: paths that lead to files, no two of them to the same one. -/

namespace SiteBuild

namespace Path

theorem exists_text_join {p q : Path} (hp : p.text ≠ "") (hq : q.isAbsolute = false) :
    ∃ s, (p.join q).text.toList = s ++ '/' :: q.text.toList ∧ s <+: p.text.toList := by
  by_cases h : p.text.toList.getLast? = some '/'
  · obtain ⟨s, hs⟩ := List.getLast?_eq_some_iff.1 h
    exact ⟨s, join_of_slash hq hs, hs ▸ List.prefix_append _ _⟩
  · exact ⟨_, join_of_not_slash hq hp h, List.prefix_rfl⟩

/-- The path to a place below another path. -/
def below (p : Path) (names : Place) : Path := names.foldl (fun q n => q.join ⟨n⟩) p

@[simp] theorem below_nil (p : Path) : p.below [] = p := rfl

theorem below_concat (p : Path) (names : Place) (n : String) :
    p.below (names ++ [n]) = (p.below names).join ⟨n⟩ := by
  simp [below]

variable {p : Path} {names : Place} {n : String}

theorem isAbsolute_of_isFileName (h : IsFileName n) : isAbsolute ⟨n⟩ = false :=
  (isLevel_name h).isAbsolute

theorem text_below_ne_empty (hp : p.text ≠ "") (h : ∀ n ∈ names, IsFileName n) :
    (p.below names).text ≠ "" := by
  induction names using List.reverseRecOn with
  | nil => exact hp
  | append_singleton names n _ =>
    rw [below_concat]
    apply text_join_ne_empty
    intro hn
    exact (isLevel_name (h n (by simp))).text_ne_nil (by simpa [Component.text] using hn)

theorem components_join_name (p : Path) (h : IsLevel (.name n)) :
    (p.join ⟨n⟩).components = p.components ++ [.name n] := by
  by_cases hp : p.text = ""
  · have hlevel := components_level h
    rw [Component.text] at hlevel
    rw [join_empty hp, components_empty hp, hlevel, List.nil_append]
  · have hjoin := components_join_level hp h
    rwa [Component.text] at hjoin

/-- A place below a path is spelled by names behind the path's components. -/
theorem components_below_levels (p : Path) (h : ∀ n ∈ names, IsLevel (.name n)) :
    (p.below names).components = p.components ++ names.map .name := by
  induction names using List.reverseRecOn with
  | nil => simp
  | append_singleton names n ih =>
    rw [below_concat, components_join_name _ (h n (by simp)),
      ih fun m hm => h m (List.mem_append_left _ hm)]
    simp

theorem components_below (p : Path) (h : ∀ n ∈ names, IsFileName n) :
    (p.below names).components = p.components ++ names.map .name :=
  components_below_levels p fun n hn => isLevel_name (h n hn)

theorem not_mem_below (hp : p.text ≠ "") (h0 : '\x00' ∉ p.text.toList)
    (h : ∀ n ∈ names, IsFileName n) : '\x00' ∉ (p.below names).text.toList := by
  induction names using List.reverseRecOn with
  | nil => exact h0
  | append_singleton names n ih =>
    have hn : ∀ n ∈ names, IsFileName n := fun m hm => h m (by simp [hm])
    have hl := h n (by simp)
    obtain ⟨s, hs, hsp⟩ := exists_text_join (text_below_ne_empty hp hn) (isAbsolute_of_isFileName hl)
    rw [below_concat, hs]
    intro hm
    rcases List.mem_append.1 hm with hm | hm
    · exact ih hn (hsp.subset hm)
    · rcases List.mem_cons.1 hm with hm | hm
      · simp at hm
      · exact hl.2.2.1 hm

theorem endsInSlash_below (hp : p.text ≠ "") (h : ∀ n ∈ names, IsFileName n) (hn : IsFileName n) :
    (p.below (names ++ [n])).endsInSlash = false := by
  obtain ⟨s, hs, -⟩ := exists_text_join (text_below_ne_empty hp h) (isAbsolute_of_isFileName hn)
  have hne : n.toList ≠ [] := (isLevel_name hn).text_ne_nil
  rw [below_concat, endsInSlash, hs]
  change decide ((s ++ '/' :: n.toList).getLast? = some '/') = false
  obtain ⟨cs, c, hc⟩ := List.eq_nil_or_concat n.toList |>.resolve_left hne
  rw [List.concat_eq_append] at hc
  have hl : (s ++ '/' :: n.toList).getLast? = some c := by
    rw [hc, ← List.cons_append, ← List.append_assoc, List.getLast?_concat]
  have hm : c ∈ n.toList := by simp [hc]
  rw [hl, decide_eq_false_iff_not]
  rintro ⟨⟩
  exact hn.2.1 hm

theorem steps_below (h : ∀ n ∈ names, IsFileName n) (hn : IsFileName n) :
    (p.below (names ++ [n])).steps = (p.components ++ names.map .name) ++ [.name n] := by
  have hs : segments (Path.mk n).text.toList = [] ++ [n.toList] := segments_of_not_mem hn.2.1
  obtain ⟨ss, hss⟩ := segments_join (p := p.below names) hs
  rw [← below_concat] at hss
  rw [steps_of_component? hss hn.1, components_below]
  · simp
  · intro m hm
    rcases List.mem_append.1 hm with hm | hm
    · exact h m hm
    · exact List.mem_singleton.1 hm ▸ hn

/-- The way from a path to what goes on behind it by names. -/
theorem relativeTo_of_components {q : Path} (h : q.components = p.components ++ names.map .name) :
    p.relativeTo q = "/".intercalate names := by
  have hn : (names.map Component.name).filterMap relativeName? = names := by
    simp [List.filterMap_map, relativeName?, Function.comp_def]
  unfold relativeTo stripPrefix?
  rw [h, if_pos (by simp)]
  simp [hn]

/-- The way from a path to a place below it. -/
theorem relativeTo_below (h : ∀ n ∈ names, IsFileName n) :
    p.relativeTo (p.below names) = "/".intercalate names :=
  relativeTo_of_components (components_below p h)

theorem components_of_names {names : Place} (h : ∀ n ∈ names, IsFileName n) :
    (segments ("/".intercalate names).toList).filterMap component? = names.map .name := by
  by_cases hn : names = []
  · subst hn
    rfl
  rw [segments_names (fun n hn => (h n hn).2.1) hn, List.filterMap_map, ← List.filterMap_eq_map]
  exact List.filterMap_congr fun n hn => (h n hn).1

/-- Names are told by their spelling with a slash between them. -/
theorem names_inj {ms ns : Place} (hm : ∀ n ∈ ms, IsFileName n) (hn : ∀ n ∈ ns, IsFileName n)
    (h : "/".intercalate ms = "/".intercalate ns) : ms = ns := by
  have he : ms.map Component.name = ns.map .name := by
    rw [← components_of_names hm, h, components_of_names hn]
  exact List.map_injective_iff.2 (fun _ _ => Component.name.inj) he

end Path

namespace FileTree

variable {t : FileTree} {p q : Path} {k : Place} {n : String} {b : ByteArray} {ps : List Path}

theorem text_ne_empty_of_find {x : Place × Node} (h : t.find p = .ok x) : p.text ≠ "" := by
  intro hp
  cases ht : t.target p with
  | error e => simp [find, ht, bind, Except.bind] at h
  | ok y =>
    obtain ⟨-, hs, -⟩ := target_eq_walk ht
    simp [Path.steps, Path.components_empty hp, Path.segments, hp] at hs

theorem not_mem_of_find {x : Place × Node} (h : t.find p = .ok x) : '\x00' ∉ p.text.toList := by
  cases ht : t.target p with
  | error e => simp [find, ht, bind, Except.bind] at h
  | ok y => exact (target_eq_walk ht).1

theorem enterAll_names {s : Place} (h : t.node? (k ++ s ++ [n]) ≠ none) :
    t.enterAll k (s.map .name) = .ok (k ++ s) := by
  induction s generalizing k with
  | nil => simp
  | cons m s ih =>
    have hm : t.node? (k ++ [m]) = some .directory :=
      node?_below (s := s ++ [n]) (by simpa using h) (by simp)
    rw [List.map_cons, enterAll_cons]
    have : t.enter k (.name m) = .ok (k ++ [m]) := by simp [enter, hm]
    rw [this]
    have := ih (k := k ++ [m]) (by simpa using h)
    rw [List.append_assoc] at this
    exact this

theorem walk_enterAll {j : Place} {cs : List Component} {x : Target} (hc : cs ≠ [])
    (h : t.walk j cs = .ok x) :
    (∃ k, x = .directory k ∧ t.enterAll j cs = .ok k) ∨
      ∃ k n, x = .entry k n ∧ ∀ y, t.node? (k ++ [n]) = some y → y = .directory →
        t.enterAll j cs = .ok (k ++ [n]) := by
  rw [← List.dropLast_concat_getLast hc, walk_append] at h
  rw [← List.dropLast_concat_getLast hc, enterAll_append]
  cases hi : t.enterAll j cs.dropLast with
  | error e =>
    rw [hi] at h
    cases h
  | ok i =>
    rw [hi] at h
    change t.arrive i _ = _ at h
    change (∃ k, _ ∧ t.enterAll i [_] = _) ∨ ∃ k n, _ ∧ ∀ y, _ → _ → t.enterAll i [_] = _
    rw [enterAll_cons]
    simp only [enterAll_nil]
    cases hl : cs.getLast hc with
    | name n =>
      rw [hl] at h
      by_cases hn : isTooLong n = true
      · simp [arrive, hn] at h
      · obtain rfl : Target.entry i n = x := by simpa [arrive, hn] using h
        refine .inr ⟨i, n, rfl, ?_⟩
        rintro y hy rfl
        simp [enter, hy, bind, Except.bind]
    | root =>
      rw [hl] at h
      cases h
    | here =>
      rw [hl] at h
      cases h
      exact .inl ⟨i, rfl, rfl⟩
    | up =>
      rw [hl] at h
      change Target.directory <$> t.enter i .up = _ at h
      cases hu : t.enter i .up with
      | error e =>
        rw [hu] at h
        cases h
      | ok i' =>
        rw [hu] at h
        cases h
        exact .inl ⟨i', rfl, rfl⟩

theorem enterAll_of_find (h : t.find p = .ok (k, .directory)) :
    t.enterAll [] p.components = .ok k := by
  have hs : t.enterAll [] p.steps = t.enterAll [] p.components := by
    unfold Path.steps
    split
    · rw [enterAll_append]
      change (t.enterAll [] p.components >>= pure) = _
      rw [bind_pure]
    · rw [List.append_nil]
  rw [← hs]
  cases ht : t.target p with
  | error e => simp [find, ht, bind, Except.bind] at h
  | ok x =>
    obtain ⟨-, hne, hw⟩ := target_eq_walk ht
    rcases walk_enterAll hne hw with ⟨j, rfl, hj⟩ | ⟨j, n, rfl, hj⟩
    · simp [find, ht, bind, Except.bind, pure, Except.pure] at h
      rw [hj, h]
    · rw [find_of_target ht] at h
      cases hx : t.node? (j ++ [n]) with
      | none => simp [hx] at h
      | some x =>
        cases x with
        | directory =>
          simp [hx] at h
          rw [hj _ hx rfl, h]
        | file c =>
          rw [hx] at h
          cases hsl : p.endsInSlash with
          | true => simp [hsl] at h
          | false => simp [hsl] at h

/-- What leads to a node below another one are names of files. -/
theorem isFileName_of_mem {names : Place} (h : t.node? (k ++ names) ≠ none) (hn : n ∈ names) :
    IsFileName n := by
  obtain ⟨s, r, rfl⟩ := List.append_of_mem hn
  have : t.node? (k ++ s ++ [n]) ≠ none := by
    by_cases hr : r = []
    · subst hr
      simpa using h
    · rw [node?_below (s := r) (by simpa using h) hr]
      simp
  exact isFileName this

theorem find_below {names : Place} (h : t.find p = .ok (k, .directory)) (hne : names ≠ [])
    (hb : t.node? (k ++ names) = some (.file b)) : t.find (p.below names) = .ok (k ++ names, .file b) := by
  have hp := text_ne_empty_of_find h
  have h0 := not_mem_of_find h
  have hne' : t.node? (k ++ names) ≠ none := by simp [hb]
  have hall : ∀ n ∈ names, IsFileName n := fun n => isFileName_of_mem hne'
  obtain ⟨s, n, hsn⟩ := List.eq_nil_or_concat names |>.resolve_left hne
  rw [List.concat_eq_append] at hsn
  subst hsn
  have hs : ∀ m ∈ s, IsFileName m := fun m hm => hall m (by simp [hm])
  have hn := hall n (by simp)
  have ht : t.target (p.below (s ++ [n])) = .ok (.entry (k ++ s) n) := by
    unfold target
    rw [if_neg (by simpa using Path.not_mem_below hp h0 hall), Path.steps_below hs hn]
    split
    · next hnil => simp at hnil
    · rw [walk_append, enterAll_append, enterAll_of_find h]
      change ((t.enterAll k (s.map .name)) >>= _) = _
      rw [enterAll_names (n := n) (by simp [hb])]
      change t.arrive (k ++ s) (.name n) = _
      simp [arrive, hn.2.2.2]
  rw [← List.append_assoc] at hb ⊢
  exact find_eq_file.2 ⟨Path.endsInSlash_below hp hs hn, hb, k ++ s, n, rfl, ht⟩

/-- A file below a directory does not stand where the directory does. -/
theorem ne_nil_of_file {names : Place} (h : t.find p = .ok (k, .directory))
    (hb : t.node? (k ++ names) = some (.file b)) : names ≠ [] := by
  rintro rfl
  rw [List.append_nil, node?_enterAll t.node?_top (enterAll_of_find h)] at hb
  cases hb

/-- Paths to files below a directory tell the files apart. -/
theorem below_inj {names names' : Place} {c : ByteArray} (h : t.find p = .ok (k, .directory))
    (hb : t.node? (k ++ names) = some (.file b)) (hc : t.node? (k ++ names') = some (.file c))
    (he : p.below names = p.below names') : names = names' := by
  have hfind := find_below h (ne_nil_of_file h hb) hb
  rw [he, find_below h (ne_nil_of_file h hc) hc] at hfind
  simp only [Except.ok.injEq, Prod.mk.injEq, List.append_cancel_left_eq] at hfind
  exact hfind.1.symm

theorem mem_filesWithin {s : Place} :
    s ∈ t.filesWithin k ↔ ∃ b, t.node? (k ++ s) = some (.file b) := by
  constructor
  · intro h
    obtain ⟨⟨k', x⟩, hm, hs⟩ := List.mem_filterMap.1 h
    cases x with
    | directory => cases hs
    | file b =>
      simp only at hs
      split at hs
      · next hp =>
        obtain ⟨r, rfl⟩ := hp
        cases hs
        rw [List.drop_left]
        exact ⟨b, Table.get?_of_mem hm⟩
      · cases hs
  · rintro ⟨b, hb⟩
    refine List.mem_filterMap.2 ⟨(k ++ s, .file b), Table.mem_of_get? hb, ?_⟩
    simp

theorem lt_of_append_lt {x y : Place} (h : k ++ x < k ++ y) : x < y := by
  induction k with
  | nil => exact h
  | cons n k ih =>
    rcases List.cons_lt_cons_iff.1 h with hlt | ⟨-, h⟩
    · exact absurd hlt (String.lt_irrefl n)
    · exact ih h

/-- A listing comes in the order of the places. -/
theorem filesWithin_ascending (t : FileTree) (k : Place) : (t.filesWithin k).Pairwise (· < ·) := by
  refine List.Pairwise.filterMap _ ?_ t.nodes.ascending
  rintro ⟨i, x⟩ ⟨j, y⟩ hlt s hs s' hs'
  cases x with
  | directory => cases hs
  | file b =>
    cases y with
    | directory => cases hs'
    | file c =>
      simp only [Option.ite_none_right_eq_some, Option.some.injEq] at hs hs'
      obtain ⟨⟨r, rfl⟩, rfl⟩ := hs
      obtain ⟨⟨r', rfl⟩, rfl⟩ := hs'
      rw [List.drop_left, List.drop_left]
      exact lt_of_append_lt hlt

theorem filesWithin_nodup (t : FileTree) (k : Place) : (t.filesWithin k).Nodup := by
  refine (t.filesWithin_ascending k).imp fun hlt => ?_
  rintro rfl
  exact List.lt_irrefl _ hlt

/-- What a path leads to stands where it stood, as long as directories stay. -/
theorem KeepsDirectories.eq_of_find {t' : FileTree} {j : Place} {x y : Node}
    (h : KeepsDirectories t t') (hk : t.find p = .ok (k, x)) (hj : t'.find p = .ok (j, y)) : j = k := by
  cases x with
  | directory =>
    have hfind := find_of_enterAll (not_mem_of_find hk) (text_ne_empty_of_find hk)
      (h.enterAll (enterAll_of_find hk))
    rw [hfind] at hj
    cases hj
    rfl
  | file b =>
    obtain ⟨-, -, i, n, rfl, ht⟩ := find_eq_file.1 hk
    rw [find_of_target (h.target ht)] at hj
    split at hj
    · cases hj
    · split at hj
      · cases hj
      · cases hj
        rfl
    · cases hj
      rfl

/-- Two paths that do not lead to one place. -/
def Apart (t : FileTree) (p q : Path) : Prop :=
  ∀ k x y, t.find p = .ok (k, x) → t.find q ≠ .ok (k, y)

/-- A listing of what stands at a path: the files there, each under the path that its names spell. -/
theorem list_eq (h : t.list p = .ok ps) :
    ∃ k x, t.find p = .ok (k, x) ∧ ps = (t.filesWithin k).map p.below ∧
      ∀ s ∈ t.filesWithin k, ∃ b, t.find (p.below s) = .ok (k ++ s, .file b) := by
  cases hf : t.find p with
  | error e => simp [list, hf, bind, Except.bind] at h
  | ok x =>
    obtain ⟨k, x⟩ := x
    refine ⟨k, x, rfl, ?_, fun s hs => ?_⟩
    · simp only [list, hf, bind, Except.bind] at h
      exact (Except.ok.inj h).symm
    obtain ⟨b, hb⟩ := mem_filesWithin.1 hs
    cases x with
    | directory => exact ⟨b, find_below hf (ne_nil_of_file hf hb) hb⟩
    | file c =>
      have hk := (find_eq_file.1 hf).2.1
      by_cases hs : s = []
      · subst hs
        exact ⟨c, by simpa using hf⟩
      · have := node?_below (t := t) (k := k) (s := s) (by simp [hb]) hs
        rw [this] at hk
        cases hk

/-- A listing: files, each by one path. -/
theorem list_spec (h : t.list p = .ok ps) : (∀ q ∈ ps, t.IsFile q) ∧ ps.Pairwise t.Apart := by
  obtain ⟨k, x, -, rfl, hfind⟩ := list_eq h
  constructor
  · intro q hq
    obtain ⟨s, hs, rfl⟩ := List.mem_map.1 hq
    obtain ⟨b, hb⟩ := hfind s hs
    exact ⟨k ++ s, b, hb⟩
  · refine List.pairwise_map.2 ((filesWithin_nodup t k).imp_of_mem ?_)
    intro s s' hs hs' hne j y z hj hj'
    obtain ⟨b, hb⟩ := hfind s hs
    obtain ⟨c, hc⟩ := hfind s' hs'
    rw [hb] at hj
    rw [hc] at hj'
    cases hj
    simp only [Except.ok.injEq, Prod.mk.injEq, List.append_cancel_left_eq] at hj'
    exact hne hj'.1.symm

end FileTree

end SiteBuild
