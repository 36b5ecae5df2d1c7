import Mathlib.Data.List.Induction
import SiteBuild.FileTree

/-! Paths by their components: joining puts components behind each other, and a resolved path is
spelled by its components alone. -/

namespace SiteBuild

/-- What stands between the places of a value does not hold it. -/
theorem Text.not_mem_of_mem_splitOn {α : Type} [BEq α] [LawfulBEq α] {a : α} {s l : List α}
    (h : l ∈ s.splitOn a) : a ∉ l := by
  induction s generalizing l with
  | nil =>
    obtain rfl := List.mem_singleton.1 h
    exact List.not_mem_nil
  | cons c s ih =>
    obtain ⟨m, ls, hs⟩ := List.exists_cons_of_ne_nil (List.splitOn_ne_nil a s)
    rw [List.splitOn_cons_eq_if_modifyHead, hs] at h
    rw [hs] at ih
    split at h
    · rcases List.mem_cons.1 h with rfl | h
      · exact List.not_mem_nil
      · exact ih h
    · next hc =>
      rcases List.mem_cons.1 h with rfl | h
      · have hca : a ≠ c := fun hac => hc (by simp [hac])
        exact List.not_mem_cons_of_ne_of_not_mem hca (ih List.mem_cons_self)
      · exact ih (List.mem_cons_of_mem m h)

/-- What stands between the places of a value is all the rest. -/
theorem Text.flatten_splitOn (a : Char) (s : List Char) :
    (s.splitOn a).flatten = s.filter (· ≠ a) := by
  induction s with
  | nil => simp
  | cons c s ih =>
    obtain ⟨l, ls, hs⟩ := List.exists_cons_of_ne_nil (List.splitOn_ne_nil a s)
    rw [List.splitOn_cons_eq_if_modifyHead, hs]
    rw [hs] at ih
    by_cases hc : c = a
    · rw [if_pos (by simp [hc]), List.filter_cons_of_neg (by simp [hc]), ← ih]
      rfl
    · rw [if_neg (by simpa using hc), List.filter_cons_of_pos (by simpa using hc), ← ih]
      rfl

namespace Path

theorem segments_append_slash (s t : List Char) :
    segments (s ++ '/' :: t) = segments s ++ segments t :=
  List.splitOn_append_cons_self s t

theorem segments_of_not_mem {s : List Char} (h : '/' ∉ s) : segments s = [s] :=
  List.splitOn_eq_singleton h

theorem segments_ne_nil (s : List Char) : segments s ≠ [] := List.splitOn_ne_nil '/' s

/-- The text behind the last slash is the last segment. -/
theorem segments_eq_or (s : List Char) :
    '/' ∉ s ∨ ∃ a b, s = a ++ '/' :: b ∧ '/' ∉ b ∧ segments s = segments a ++ [b] := by
  induction s with
  | nil => simp
  | cons c s ih =>
    rcases ih with h | ⟨a, b, rfl, hb, hs⟩
    · by_cases hc : c = '/'
      · subst hc
        refine .inr ⟨[], s, rfl, h, ?_⟩
        rw [← segments_of_not_mem h]
        exact segments_append_slash [] s
      · left
        simp [Ne.symm hc, h]
    · refine .inr ⟨c :: a, b, rfl, hb, ?_⟩
      rw [← segments_of_not_mem hb]
      exact segments_append_slash (c :: a) b

theorem not_mem_of_mem_segments {s x : List Char} (h : x ∈ segments s) : '/' ∉ x :=
  Text.not_mem_of_mem_splitOn h

/-- What the first segment of a path names. An empty one in front of a slash is the root. -/
def leading : List Char → List Component
  | [] => [.root]
  | ['.'] => [.here]
  | s => (component? s).toList

theorem components_of_segments {p : Path} {first : List Char} {rest : List (List Char)}
    (h : segments p.text.toList = first :: rest) (hp : p.text ≠ "") :
    p.components = leading first ++ rest.filterMap component? := by
  unfold components
  rw [h]
  match first, rest with
  | [], [] =>
    have hs : List.intercalate ['/'] (segments p.text.toList) = p.text.toList :=
      List.intercalate_splitOn '/'
    change List.intercalate ['/'] (segments p.text.toList) = _ at hs
    rw [h] at hs
    exact absurd (String.toList_inj.1 hs.symm) hp
  | [], s :: rest => rfl
  | ['.'], rest => rfl
  | c :: d :: s, rest =>
    cases hc : component? (c :: d :: s) <;> simp [leading, hc]
  | [c], rest =>
    by_cases hd : c = '.'
    · subst hd
      rfl
    · cases hc : component? [c] <;> simp [leading, hc, hd]

/-- Whether a component is spelled by one segment and read off it again. -/
def IsLevel (c : Component) : Prop :=
  component? (Component.text c).toList = some c ∧ '/' ∉ (Component.text c).toList

theorem text_of_component? {s : List Char} {c : Component} (h : component? s = some c) :
    (Component.text c).toList = s := by
  unfold component? at h
  split at h
  · cases h
  · cases h
  · cases h
    rfl
  · cases h
    simp [Component.text]

theorem component?_of_ne {s : List Char} (h : s ≠ []) (h' : s ≠ ['.']) (hup : s ≠ ['.', '.']) :
    component? s = some (.name (String.ofList s)) := by
  unfold component?
  split <;> first | contradiction | rfl

/-- A segment that is no dots alone is a name. -/
theorem component?_of_mem {s : List Char} {c : Char} (hc : c ∈ s) (hdot : c ≠ '.') :
    component? s = some (.name (String.ofList s)) := by
  refine component?_of_ne (List.ne_nil_of_mem hc) ?_ ?_
  all_goals
    rintro rfl
    simp [hdot] at hc

theorem isLevel_of_component? {s : List Char} {c : Component} (h : component? s = some c)
    (hs : '/' ∉ s) : IsLevel c := by
  unfold IsLevel
  rw [text_of_component? h]
  exact ⟨h, hs⟩

theorem isLevel_up : IsLevel .up := by
  refine ⟨rfl, ?_⟩
  decide

theorem not_isLevel_root : ¬IsLevel .root := by
  rintro ⟨h, -⟩
  cases h

theorem not_isLevel_here : ¬IsLevel .here := by
  rintro ⟨h, -⟩
  cases h

theorem isLevel_name {n : String} (h : IsFileName n) : IsLevel (.name n) := ⟨h.1, h.2.1⟩

theorem IsLevel.text_ne_nil {c : Component} (h : IsLevel c) : (Component.text c).toList ≠ [] := by
  intro hn
  have := h.1
  rw [hn] at this
  cases this

theorem join_of_slash {p q : Path} {s : List Char} (hq : q.isAbsolute = false)
    (hp : p.text.toList = s ++ ['/']) : (p.join q).text.toList = s ++ '/' :: q.text.toList := by
  unfold join
  simp [hq, hp]

theorem join_of_not_slash {p q : Path} (hq : q.isAbsolute = false) (hp : p.text ≠ "")
    (hs : p.text.toList.getLast? ≠ some '/') :
    (p.join q).text.toList = p.text.toList ++ '/' :: q.text.toList := by
  unfold join
  rw [if_neg (by simp [hq])]
  split
  · next h =>
    rw [List.getLast?_eq_none_iff] at h
    exact absurd (String.toList_inj.1 h) hp
  · next h => exact absurd h hs
  · simp

theorem join_empty {p q : Path} (hp : p.text = "") : p.join q = q := by
  unfold join
  simp [hp]

/-- A relative path joined to another one adds what its segments name. -/
theorem components_join {p q : Path} (hp : p.text ≠ "") (hq : q.isAbsolute = false) :
    (p.join q).components = p.components ++ (segments q.text.toList).filterMap component? := by
  by_cases hl : p.text.toList.getLast? = some '/'
  · obtain ⟨s, hs⟩ := List.getLast?_eq_some_iff.1 hl
    have hj := join_of_slash hq hs
    obtain ⟨first, rest, hf⟩ := List.exists_cons_of_ne_nil (segments_ne_nil s)
    have h1 : segments p.text.toList = first :: (rest ++ [[]]) := by
      rw [hs, segments_append_slash, hf]
      rfl
    have h2 : segments (p.join q).text.toList = first :: (rest ++ segments q.text.toList) := by
      rw [hj, segments_append_slash, hf]
      rfl
    have hn : (p.join q).text ≠ "" := by
      intro h
      simp [h] at hj
    rw [components_of_segments h1 hp, components_of_segments h2 hn]
    simp [component?]
  · have hj := join_of_not_slash hq hp hl
    obtain ⟨first, rest, hf⟩ := List.exists_cons_of_ne_nil (segments_ne_nil p.text.toList)
    have h2 : segments (p.join q).text.toList = first :: (rest ++ segments q.text.toList) := by
      rw [hj, segments_append_slash, hf]
      rfl
    have hn : (p.join q).text ≠ "" := by
      intro h
      simp [h] at hj
    rw [components_of_segments hf hp, components_of_segments h2 hn]
    simp

theorem IsLevel.isAbsolute {c : Component} (h : IsLevel c) :
    Path.isAbsolute ⟨Component.text c⟩ = false := by
  obtain ⟨x, s, hx⟩ := List.exists_cons_of_ne_nil h.text_ne_nil
  have hn := h.2
  rw [hx] at hn
  simp only [Path.isAbsolute, hx, List.head?_cons, decide_eq_false_iff_not]
  rintro ⟨rfl⟩
  simp at hn

theorem components_join_level {p : Path} {c : Component} (hp : p.text ≠ "") (hc : IsLevel c) :
    (p.join ⟨Component.text c⟩).components = p.components ++ [c] := by
  rw [components_join hp hc.isAbsolute, segments_of_not_mem hc.2]
  simp [hc.1]

theorem components_level {c : Component} (hc : IsLevel c) :
    Path.components ⟨Component.text c⟩ = [c] := by
  have hs : segments (Path.mk (Component.text c)).text.toList = [(Component.text c).toList] :=
    segments_of_not_mem hc.2
  have hn : (Path.mk (Component.text c)).text ≠ "" := fun h => hc.text_ne_nil (by simpa using h)
  rw [components_of_segments hs hn]
  unfold leading
  split
  · next h => exact absurd h hc.text_ne_nil
  · next h =>
    have := hc.1
    rw [h] at this
    cases this
  · simp [hc.1]

theorem components_root : Path.components ⟨"/"⟩ = [.root] := by
  have hs : segments (Path.mk "/").text.toList = [[], []] := segments_append_slash [] []
  rw [components_of_segments hs (by simp)]
  rfl

theorem text_join_ne_empty {p q : Path} (hq : q.text ≠ "") : (p.join q).text ≠ "" := by
  have hq' : q.text.toList ≠ [] := fun h => hq (String.toList_inj.1 h)
  unfold join
  split
  · exact hq
  · split
    · exact hq
    · intro h
      have := congrArg String.toList h
      simp [hq'] at this
    · intro h
      have := congrArg String.toList h
      simp at this

/-- Components that are levels but for a root in front of them. -/
def IsResolved : List Component → Prop
  | [] => True
  | c :: cs => (c = .root ∨ IsLevel c) ∧ ∀ d ∈ cs, IsLevel d

theorem isResolved_append {cs : List Component} {c : Component} :
    IsResolved (cs ++ [c]) ↔ IsResolved cs ∧ (IsLevel c ∨ cs = [] ∧ c = .root) := by
  cases cs with
  | nil => simp [IsResolved, or_comm]
  | cons d cs => simp [IsResolved, or_imp, forall_and, and_assoc]

theorem components_ofComponents {cs : List Component} (h : IsResolved cs) :
    (ofComponents cs).components = cs := by
  suffices hs : (ofComponents cs).components = cs ∧ (cs ≠ [] → (ofComponents cs).text ≠ "") from hs.1
  induction cs using List.reverseRecOn with
  | nil => exact ⟨rfl, fun h => absurd rfl h⟩
  | append_singleton cs c ih =>
    obtain ⟨h, hc⟩ := isResolved_append.1 h
    obtain ⟨ih, hne⟩ := ih h
    have hj : ofComponents (cs ++ [c]) = (ofComponents cs).join ⟨Component.text c⟩ := by
      simp [ofComponents]
    rw [hj]
    by_cases hcs : cs = []
    · subst hcs
      rw [show ofComponents [] = ⟨""⟩ from rfl, join_empty rfl]
      rcases hc with hc | ⟨-, rfl⟩
      · exact ⟨components_level hc, fun _ h => hc.text_ne_nil (by simpa using h)⟩
      · exact ⟨components_root, by simp [Component.text]⟩
    · have hc : IsLevel c := hc.resolve_right fun h => hcs h.1
      refine ⟨?_, fun _ => ?_⟩
      · rw [components_join_level (hne hcs) hc, ih]
      · apply text_join_ne_empty
        exact fun h => hc.text_ne_nil (by simpa using h)

theorem isLevel_of_mem_filterMap {ss : List (List Char)} (h : ∀ s ∈ ss, '/' ∉ s) {c : Component}
    (hc : c ∈ ss.filterMap component?) : IsLevel c := by
  obtain ⟨s, hs, hc⟩ := List.mem_filterMap.1 hc
  exact isLevel_of_component? hc (h s hs)

theorem components_empty {p : Path} (hp : p.text = "") : p.components = [] := by
  unfold components
  rw [hp]
  rfl

theorem length_leading_le (s : List Char) : (leading s).length ≤ 1 := by
  unfold leading
  split
  · simp
  · simp
  · cases component? s <;> simp

theorem isLevel_of_mem_leading {s : List Char} {c : Component} (hs : '/' ∉ s)
    (h : c ∈ leading s) : c = .root ∨ c = .here ∨ IsLevel c := by
  unfold leading at h
  split at h
  · exact .inl (List.mem_singleton.1 h)
  · exact .inr (.inl (List.mem_singleton.1 h))
  · exact .inr (.inr (isLevel_of_component? (by simpa using h) hs))

/-- Only the first component of a path is a root or a dot. -/
theorem components_eq_append (p : Path) :
    ∃ first rest, p.components = first ++ rest ∧ first.length ≤ 1 ∧
      (∀ c ∈ first, c = .root ∨ c = .here ∨ IsLevel c) ∧ ∀ c ∈ rest, IsLevel c := by
  by_cases hp : p.text = ""
  · exact ⟨[], [], by simp [components_empty hp]⟩
  · obtain ⟨first, rest, hf⟩ := List.exists_cons_of_ne_nil (segments_ne_nil p.text.toList)
    have hm : ∀ s ∈ first :: rest, '/' ∉ s := fun s hs => not_mem_of_mem_segments (hf ▸ hs)
    refine ⟨leading first, rest.filterMap component?, components_of_segments hf hp,
      length_leading_le first, fun c hc => isLevel_of_mem_leading (hm _ (by simp)) hc, fun c hc => ?_⟩
    exact isLevel_of_mem_filterMap (fun s hs => hm s (by simp [hs])) hc

theorem isLevel_of_name {p : Path} {n : String} (h : .name n ∈ p.components) :
    IsLevel (.name n) := by
  obtain ⟨first, rest, hp, -, hf, hr⟩ := components_eq_append p
  rw [hp, List.mem_append] at h
  rcases h with h | h
  · simpa using hf _ h
  · exact hr _ h

theorem mem_of_mem_segments {s x : List Char} {c : Char} (hx : x ∈ segments s) (hc : c ∈ x) :
    c ∈ s := by
  rcases segments_eq_or s with hs | ⟨a, b, rfl, hb, hs⟩
  · rw [segments_of_not_mem hs, List.mem_singleton] at hx
    exact hx ▸ hc
  · rw [hs, List.mem_append, List.mem_singleton] at hx
    rcases hx with hx | rfl
    · exact List.mem_append_left _ (mem_of_mem_segments hx hc)
    · exact List.mem_append_right _ (List.mem_cons_of_mem _ hc)
  termination_by s.length

/-- What a component is spelled by stands in the text. -/
theorem mem_of_mem_name {p : Path} {n : String} {c : Char} (h : .name n ∈ p.components)
    (hc : c ∈ n.toList) : c ∈ p.text.toList := by
  by_cases hp : p.text = ""
  · simp [components_empty hp] at h
  obtain ⟨first, rest, hf⟩ := List.exists_cons_of_ne_nil (segments_ne_nil p.text.toList)
  suffices hs : ∃ s ∈ segments p.text.toList, component? s = some (.name n) by
    obtain ⟨s, hs, hn⟩ := hs
    have : n.toList = s := text_of_component? hn
    exact mem_of_mem_segments hs (this ▸ hc)
  rw [components_of_segments hf hp, List.mem_append] at h
  rw [hf]
  rcases h with h | h
  · refine ⟨first, by simp, ?_⟩
    unfold leading at h
    split at h
    · simp at h
    · simp at h
    · simpa using h
  · obtain ⟨s, hs, hn⟩ := List.mem_filterMap.1 h
    exact ⟨s, by simp [hs], hn⟩

@[simp] theorem resolveStep_name (done : List Component) (n : String) :
    resolveStep done (.name n) = .name n :: done := by
  cases done <;> rfl

theorem resolveStep_isResolved {done : List Component} {c : Component}
    (h : IsResolved done.reverse) (hc : IsLevel c) : IsResolved (resolveStep done c).reverse := by
  have hn (d : Component) (ds : List Component) (h : IsResolved (d :: ds).reverse) :
      IsResolved (c :: d :: ds).reverse := by
    rw [List.reverse_cons, isResolved_append]
    exact ⟨h, .inl hc⟩
  fun_cases resolveStep done c with
  | case1 => exact h
  | case2 => exact ⟨.inr isLevel_up, by simp⟩
  | case3 => exact hn _ _ h
  | case4 d ds =>
    rw [List.reverse_cons, isResolved_append] at h
    exact h.1
  | case5 =>
    cases done with
    | nil => exact ⟨.inr hc, by simp⟩
    | cons d ds => exact hn _ _ h

theorem foldl_resolveStep_isResolved {done cs : List Component} (h : IsResolved done.reverse)
    (hc : ∀ c ∈ cs, IsLevel c) : IsResolved (cs.foldl resolveStep done).reverse := by
  induction cs generalizing done with
  | nil => exact h
  | cons c cs ih =>
    exact ih (resolveStep_isResolved h (hc c (by simp))) fun d hd => hc d (by simp [hd])

theorem resolve_isResolved (p : Path) : IsResolved (resolve p.components) := by
  obtain ⟨first, rest, hp, hl, hf, hr⟩ := components_eq_append p
  rw [hp, resolve, List.foldl_append]
  apply foldl_resolveStep_isResolved _ hr
  match first, hl, hf with
  | [], _, _ => trivial
  | [c], _, hf =>
    rcases hf c (by simp) with rfl | rfl | hc
    · exact ⟨.inl rfl, by simp⟩
    · trivial
    · exact resolveStep_isResolved trivial hc

/-- A resolved path has the components that it was put together from. -/
theorem components_normalize (p : Path) : p.normalize.components = resolve p.components :=
  components_ofComponents (resolve_isResolved p)

theorem eq_of_same_normalize {p q : Path} (h : p.normalize.same q.normalize = true) :
    p.normalize = q.normalize := by
  have hc : p.normalize.components = q.normalize.components := by simpa [same] using h
  rw [components_normalize, components_normalize] at hc
  exact congrArg ofComponents hc

theorem eq_of_same_resolveFrom {p q : Path} {s s' : String}
    (h : (p.resolveFrom s).same (q.resolveFrom s') = true) : p.resolveFrom s = q.resolveFrom s' :=
  eq_of_same_normalize h

/-- What the text behind its last slash names ends a path, behind what the text in front of it names. -/
theorem exists_components (ss : List (List Char)) :
    ∃ cs, ∀ (p : Path) (s : List Char) (c : Component), segments p.text.toList = ss ++ [s] →
      component? s = some c → p.components = cs ++ [c] := by
  have hne {p : Path} {s : List Char} {c : Component} (h : segments p.text.toList = ss ++ [s])
      (hc : component? s = some c) : p.text ≠ "" := by
    intro hp
    rw [hp] at h
    change [[]] = ss ++ [s] at h
    cases ss with
    | nil =>
      obtain rfl := List.singleton_inj.1 h
      cases hc
    | cons a ss => simp at h
  cases ss with
  | nil =>
    refine ⟨[], fun p s c h hc => ?_⟩
    rw [components_of_segments h (hne h hc)]
    unfold leading
    split
    · cases hc
    · cases hc
    · simp [hc]
  | cons first rest =>
    refine ⟨leading first ++ rest.filterMap component?, fun p s c h hc => ?_⟩
    rw [components_of_segments (show _ = first :: (rest ++ [s]) from h) (hne h hc)]
    simp [hc]

theorem getLast?_components {p : Path} {ss : List (List Char)} {s : List Char} {c : Component}
    (h : segments p.text.toList = ss ++ [s]) (hc : component? s = some c) :
    p.components.getLast? = some c := by
  obtain ⟨cs, hcs⟩ := exists_components ss
  rw [hcs p s c h hc, List.getLast?_concat]

/-- A text that ends in a word without slashes has a last segment that ends in it. -/
theorem exists_segments_of_suffix {w s : List Char} (hw : '/' ∉ w) (h : w <:+ s) :
    ∃ ss x, segments s = ss ++ [x] ∧ w <:+ x := by
  rcases segments_eq_or s with hs | ⟨a, b, rfl, hb, hs⟩
  · exact ⟨[], s, segments_of_not_mem hs, h⟩
  · refine ⟨segments a, b, hs, ?_⟩
    have hb' : '/' :: b <:+ a ++ '/' :: b := List.suffix_append _ _
    rcases List.suffix_or_suffix_of_suffix h hb' with h | h
    · rcases List.suffix_cons_iff.1 h with rfl | h
      · simp at hw
      · exact h
    · exact absurd (h.subset (by simp)) hw

theorem segments_join {p q : Path} {ss : List (List Char)} {s : List Char}
    (h : segments q.text.toList = ss ++ [s]) :
    ∃ ss', segments (p.join q).text.toList = ss' ++ [s] := by
  by_cases hq : q.isAbsolute
  · exact ⟨ss, by simpa [join, hq] using h⟩
  simp only [Bool.not_eq_true] at hq
  by_cases hp : p.text = ""
  · exact ⟨ss, by simpa [join_empty hp] using h⟩
  by_cases hl : p.text.toList.getLast? = some '/'
  · obtain ⟨t, ht⟩ := List.getLast?_eq_some_iff.1 hl
    refine ⟨segments t ++ ss, ?_⟩
    rw [join_of_slash hq ht, segments_append_slash, h, List.append_assoc]
  · refine ⟨segments p.text.toList ++ ss, ?_⟩
    rw [join_of_not_slash hq hp hl, segments_append_slash, h, List.append_assoc]

theorem getLast?_resolve {cs : List Component} {n : String}
    (h : cs.getLast? = some (.name n)) : (resolve cs).getLast? = some (.name n) := by
  obtain ⟨cs, rfl⟩ := List.getLast?_eq_some_iff.1 h
  simp [resolve, List.foldl_append, resolveStep]

/-- A text that only the names of files end in. -/
structure IsNameEnd (w : List Char) : Prop where
  ne_nil : w ≠ []
  slash : '/' ∉ w
  dot : w.getLast? ≠ some '.'

theorem component?_of_suffix {w s : List Char} (hw : IsNameEnd w) (h : w <:+ s) :
    component? s = some (.name (String.ofList s)) := by
  have hlast := List.getLast?_eq_some_getLast hw.ne_nil
  refine component?_of_mem (h.subset (List.getLast_mem hw.ne_nil)) fun hdot => hw.dot ?_
  rw [hlast, hdot]

/-- A specifier that ends in the end of a name leads to a file whose name ends in it. -/
theorem fileName?_resolveFrom {p : Path} {s : String} {w : List Char} (hw : IsNameEnd w)
    (h : w <:+ s.toList) :
    ∃ n, (p.resolveFrom s).fileName? = some n ∧ w <:+ n.toList := by
  obtain ⟨ss, x, hs, hx⟩ := exists_segments_of_suffix hw.slash h
  obtain ⟨ss', hs'⟩ := segments_join (p := p.parent?.getD ⟨""⟩) (q := ⟨s⟩) hs
  have hc := component?_of_suffix hw hx
  have hr := getLast?_resolve (getLast?_components hs' hc)
  refine ⟨String.ofList x, ?_, by simpa using hx⟩
  unfold fileName?
  rw [resolveFrom, components_normalize, hr]

theorem dropIdleEnd_append (ss : List (List Char)) (s : List Char) :
    dropIdleEnd (ss ++ [s]) = if isIdle s then dropIdleEnd ss else ss ++ [s] := by
  unfold dropIdleEnd
  by_cases hs : isIdle s <;> simp [hs]

theorem component?_of_isIdle {s : List Char} (h : isIdle s = true) : component? s = none := by
  simp only [isIdle, Bool.or_eq_true, List.isEmpty_iff, decide_eq_true_eq] at h
  rcases h with rfl | rfl <;> rfl

theorem filterMap_dropIdleEnd (ss : List (List Char)) :
    (dropIdleEnd ss).filterMap component? = ss.filterMap component? := by
  induction ss using List.reverseRecOn with
  | nil => rfl
  | append_singleton ss s ih =>
    rw [dropIdleEnd_append]
    split
    · next hs => simp [ih, component?_of_isIdle hs]
    · rfl

theorem dropIdleEnd_eq_or (ss : List (List Char)) :
    dropIdleEnd ss = [] ∨ ∃ rs s, dropIdleEnd ss = rs ++ [s] ∧ (component? s).isSome ∧ rs <+: ss := by
  induction ss using List.reverseRecOn with
  | nil => exact .inl rfl
  | append_singleton ss s ih =>
    rw [dropIdleEnd_append]
    split
    · refine ih.imp id ?_
      rintro ⟨rs, x, h, hx, hr⟩
      exact ⟨rs, x, h, hx, hr.trans (List.prefix_append _ _)⟩
    · next hs =>
      refine .inr ⟨ss, s, rfl, ?_, List.prefix_append _ _⟩
      unfold component?
      split <;> simp_all [isIdle]

theorem segments_ofSegments {ss : List (List Char)} (h : ∀ s ∈ ss, '/' ∉ s) (hs : ss ≠ []) :
    segments (ofSegments ss).text.toList = ss := by
  simp only [ofSegments, String.toList_ofList]
  exact List.splitOn_intercalate '/' h hs

/-- The segments of names with a slash between them. -/
theorem segments_names {names : List String} (h : ∀ n ∈ names, '/' ∉ n.toList) (hn : names ≠ []) :
    segments ("/".intercalate names).toList = names.map String.toList := by
  have hslash : ∀ l ∈ names.map String.toList, '/' ∉ l := by
    intro l hl
    obtain ⟨n, hn, rfl⟩ := List.mem_map.1 hl
    exact h n hn
  rw [String.toList_intercalate]
  exact List.splitOn_intercalate '/' hslash (by simpa using hn)

/-- A text is told by its segments. -/
theorem segments_inj {s t : List Char} (h : segments s = segments t) : s = t := by
  have hjoin (s : List Char) : List.intercalate ['/'] (segments s) = s := List.intercalate_splitOn '/'
  rw [← hjoin s, ← hjoin t, h]

/-- Names that go on behind others are spelled behind these and a slash. -/
theorem prefix_names_iff {dir names : List String} (hdir : ∀ n ∈ dir, '/' ∉ n.toList)
    (hnames : ∀ n ∈ names, '/' ∉ n.toList) (hne : dir ≠ []) :
    ("/".intercalate dir).toList ++ ['/'] <+: ("/".intercalate names).toList ↔
      ∃ rest, rest ≠ [] ∧ names = dir ++ rest := by
  constructor
  · rintro ⟨cs, hcs⟩
    have hn : names ≠ [] := by
      rintro rfl
      simp at hcs
    have hsegments := congrArg segments hcs
    rw [List.append_assoc, List.singleton_append, segments_append_slash, segments_names hdir hne,
      segments_names hnames hn] at hsegments
    obtain ⟨ds, rest, rfl, hds, hrest⟩ := List.map_eq_append_iff.1 hsegments.symm
    refine ⟨rest, ?_, ?_⟩
    · rintro rfl
      exact segments_ne_nil cs hrest.symm
    · rw [(List.map_inj_right fun _ _ => String.toList_inj.1).1 hds]
  · rintro ⟨rest, hr, rfl⟩
    refine ⟨("/".intercalate rest).toList, segments_inj ?_⟩
    rw [List.append_assoc, List.singleton_append, segments_append_slash, segments_names hdir hne,
      segments_names hnames (by simp [hne]), segments_names _ hr, List.map_append]
    exact fun n hn => hnames n (List.mem_append_right _ hn)

theorem dropIdleEnd_subset (ss : List (List Char)) : dropIdleEnd ss ⊆ ss := by
  intro s hs
  unfold dropIdleEnd at hs
  have := (List.dropWhile_suffix _).subset (List.mem_reverse.1 hs)
  exact List.mem_reverse.1 this

/-- How a parent is spelled: by nothing, by a slash, or by the segments in front of the last name. -/
theorem parent?_cases {p d : Path} {first : List Char} {rest : List (List Char)}
    (hf : segments p.text.toList = first :: rest) (h : p.parent? = some d) :
    (dropIdleEnd rest = [] ∧ d = ⟨""⟩) ∨ ∃ rs x, dropIdleEnd rest = rs ++ [x] ∧
      (component? x).isSome ∧ rs <+: rest ∧
      ((first = [] ∧ dropIdleEnd rs = [] ∧ d = ⟨"/"⟩) ∨
        (¬(first = [] ∧ dropIdleEnd rs = []) ∧ d = ofSegments (first :: dropIdleEnd rs))) := by
  unfold parent? at h
  rw [hf] at h
  simp only at h
  rcases dropIdleEnd_eq_or rest with hr | ⟨rs, x, hr, hx, hrs⟩
  · left
    simp only [hr] at h
    split at h <;> cases h
    exact ⟨hr, rfl⟩
  · right
    refine ⟨rs, x, hr, hx, hrs, ?_⟩
    split at h
    · simp_all
    · simp only [hr, List.dropLast_concat] at h
      split at h
      · next hi =>
        cases h
        exact .inl ⟨rfl, hi, rfl⟩
      · next hn =>
        cases h
        exact .inr ⟨fun hi => hn hi.1 hi.2, rfl⟩

theorem segments_parent {p : Path} {first : List Char} {rest rs : List (List Char)}
    (hf : segments p.text.toList = first :: rest) (hrs : rs <+: rest) :
    segments (ofSegments (first :: dropIdleEnd rs)).text.toList = first :: dropIdleEnd rs := by
  apply segments_ofSegments _ (by simp)
  intro s hs
  apply not_mem_of_mem_segments (s := p.text.toList)
  rw [hf]
  rcases List.mem_cons.1 hs with rfl | hs
  · exact List.mem_cons_self
  · exact List.mem_cons_of_mem _ (hrs.subset (dropIdleEnd_subset rs hs))

/-- The parent of a path to a name is what stands in front of the name. -/
theorem components_parent {p d : Path} {cs : List Component} {n : String}
    (h : p.parent? = some d) (hc : p.components = cs ++ [.name n]) : d.components = cs := by
  have hp : p.text ≠ "" := fun hp => by simp [components_empty hp] at hc
  obtain ⟨first, rest, hf⟩ := List.exists_cons_of_ne_nil (segments_ne_nil p.text.toList)
  rw [components_of_segments hf hp, ← filterMap_dropIdleEnd] at hc
  rcases parent?_cases hf h with ⟨hr, rfl⟩ | ⟨rs, x, hr, hx, hrs, hd⟩
  · have hl := length_leading_le first
    simp only [hr, List.filterMap_nil, List.append_nil] at hc
    rw [hc] at hl
    rw [components_empty rfl]
    exact (by simpa using hl : cs = []).symm
  · obtain ⟨c, hx⟩ := Option.isSome_iff_exists.1 hx
    have hcs : cs = leading first ++ rs.filterMap component? := by
      rw [hr, List.filterMap_append, ← List.append_assoc] at hc
      simp only [List.filterMap_cons, hx, List.filterMap_nil] at hc
      exact (List.append_inj' hc rfl).1.symm
    rw [hcs, ← filterMap_dropIdleEnd]
    rcases hd with ⟨rfl, hi, rfl⟩ | ⟨hn, rfl⟩
    · rw [hi, components_root]
      rfl
    · have hs := segments_parent hf hrs
      refine components_of_segments hs fun ht => hn ?_
      rw [ht] at hs
      obtain ⟨h1, h2⟩ := List.cons.inj (show [[]] = first :: dropIdleEnd rs from hs)
      exact ⟨h1.symm, h2.symm⟩

theorem mem_of_mem_intercalate {ss : List (List Char)} {c : Char}
    (h : c ∈ List.intercalate ['/'] ss) : c = '/' ∨ ∃ s ∈ ss, c ∈ s := by
  induction ss with
  | nil => simp at h
  | cons s ss ih =>
    cases ss with
    | nil => exact .inr ⟨s, by simp, by simpa using h⟩
    | cons r ss =>
      simp only [List.intercalate_cons_cons, List.mem_append, List.mem_singleton] at h
      rcases h with (h | h) | h
      · exact .inr ⟨s, by simp, h⟩
      · exact .inl h
      · refine (ih h).imp id ?_
        rintro ⟨x, hx, hc⟩
        exact ⟨x, List.mem_cons_of_mem _ hx, hc⟩

theorem mem_of_mem_parent {p d : Path} {c : Char} (h : p.parent? = some d)
    (hc : c ∈ d.text.toList) : c = '/' ∨ c ∈ p.text.toList := by
  obtain ⟨first, rest, hf⟩ := List.exists_cons_of_ne_nil (segments_ne_nil p.text.toList)
  rcases parent?_cases hf h with ⟨-, rfl⟩ | ⟨rs, x, -, -, hrs, ⟨-, -, rfl⟩ | ⟨-, rfl⟩⟩
  · simp at hc
  · exact .inl (by simpa using hc)
  · simp only [ofSegments, String.toList_ofList] at hc
    refine (mem_of_mem_intercalate hc).imp id ?_
    rintro ⟨s, hs, hc⟩
    refine mem_of_mem_segments ?_ hc
    rw [hf]
    rcases List.mem_cons.1 hs with rfl | hs
    · exact List.mem_cons_self
    · exact List.mem_cons_of_mem _ (hrs.subset (dropIdleEnd_subset rs hs))

theorem components_ne_nil {p : Path} (hp : p.text ≠ "") : p.components ≠ [] := by
  obtain ⟨first, rest, hf⟩ := List.exists_cons_of_ne_nil (segments_ne_nil p.text.toList)
  rw [components_of_segments hf hp]
  unfold leading
  split
  · simp
  · simp
  · next s h0 h1 =>
    unfold component?
    split <;> simp_all

end Path
end SiteBuild
