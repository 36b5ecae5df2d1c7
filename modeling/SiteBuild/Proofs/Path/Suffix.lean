import SiteBuild.Proofs.Path.Spelling

/-! A text behind a path that ends in a name. If it brings no slash along it goes with the name, also when the
path is joined and resolved: what is led to lies in the same directory, under a longer name. -/

namespace SiteBuild

namespace Path

variable {p q : Path} {s w : String} {x y : List Char} {ss : List (List Char)}

/-- A path with some text behind it. -/
def extend (p : Path) (w : String) : Path := ⟨p.text ++ w⟩

theorem extend_inj : p.extend w = q.extend w ↔ p = q := by
  cases p
  cases q
  simp [extend]

theorem parent?_of_concat {first : List Char} {rest : List (List Char)}
    (h : Path.segments p.text.toList = first :: (rest ++ [x])) (hx : isIdle x = false) :
    p.parent? = some (if first = [] ∧ dropIdleEnd rest = [] then ⟨"/"⟩
      else ofSegments (first :: dropIdleEnd rest)) := by
  have hdrop : dropIdleEnd (rest ++ [x]) = rest ++ [x] := by
    rw [dropIdleEnd_append, hx]
    rfl
  unfold parent?
  rw [h]
  dsimp only
  rw [hdrop]
  split
  · next hnil => simp at hnil
  · rw [List.dropLast_concat]
    split
    · next hrest => simp [hrest]
    · next hroot => rw [if_neg fun h => hroot h.1 h.2]

theorem segments_append (hw : '/' ∉ y) {t : List Char} (h : segments t = ss ++ [x]) :
    segments (t ++ y) = ss ++ [x ++ y] := by
  rcases segments_eq_or t with ht | ⟨a, b, rfl, hb, hs⟩
  · rw [segments_of_not_mem ht] at h
    obtain ⟨rfl, hx⟩ := List.append_inj' (show [] ++ [t] = ss ++ [x] from h) rfl
    obtain rfl := List.singleton_inj.1 hx
    exact segments_of_not_mem (by simp [ht, hw])
  · obtain ⟨rfl, hx⟩ := List.append_inj' (hs.symm.trans h) rfl
    obtain rfl := List.singleton_inj.1 hx
    rw [List.append_assoc, List.cons_append, segments_append_slash,
      segments_of_not_mem (s := b ++ y) (by simp [hb, hw])]

/-- A path that ends in a segment that is more than dots, so that it is the name of a file. -/
structure EndsInName (p : Path) (ss : List (List Char)) (x : List Char) : Prop where
  segments : segments p.text.toList = ss ++ [x]
  letter : ∃ c ∈ x, c ≠ '.'

namespace EndsInName

theorem component? (h : p.EndsInName ss x) : Path.component? x = some (.name (String.ofList x)) :=
  let ⟨_, hc, hdot⟩ := h.letter
  component?_of_mem hc hdot

theorem isIdle (h : p.EndsInName ss x) : Path.isIdle x = false := by
  rw [Bool.eq_false_iff]
  intro hidle
  simpa [component?_of_isIdle hidle] using h.component?

theorem text_ne_empty (h : p.EndsInName ss x) : p.text ≠ "" := by
  obtain ⟨c, hc, -⟩ := h.letter
  have hmem : c ∈ p.text.toList := mem_of_mem_segments (h.segments ▸ by simp) hc
  rintro ht
  simp [ht] at hmem

theorem extend (h : p.EndsInName ss x) (hw : '/' ∉ w.toList) :
    (p.extend w).EndsInName ss (x ++ w.toList) := by
  obtain ⟨c, hc, hdot⟩ := h.letter
  refine ⟨?_, c, List.mem_append_left _ hc, hdot⟩
  simp only [Path.extend, String.toList_append]
  exact segments_append hw h.segments

theorem join (h : q.EndsInName ss x) (p : Path) : ∃ ss', (p.join q).EndsInName ss' x :=
  let ⟨ss', hs⟩ := segments_join h.segments
  ⟨ss', hs, h.letter⟩

theorem fileName? (h : p.EndsInName ss x) : p.fileName? = some (String.ofList x) := by
  unfold Path.fileName?
  rw [getLast?_components h.segments h.component?]

/-- The directory of a path hangs on what stands in front of its name. -/
theorem parent?_eq (hp : p.EndsInName ss x) (hq : q.EndsInName ss y) : p.parent? = q.parent? := by
  cases ss with
  | nil =>
    have hnone {p : Path} {x : List Char} (h : p.EndsInName [] x) : p.parent? = some ⟨""⟩ := by
      obtain ⟨c, hc, -⟩ := h.letter
      unfold parent?
      rw [h.segments]
      exact if_neg (by simpa using List.ne_nil_of_mem hc)
    rw [hnone hp, hnone hq]
  | cons first rest => rw [parent?_of_concat hp.segments hp.isIdle, parent?_of_concat hq.segments hq.isIdle]

end EndsInName

/-- Joining to a directory takes what stands behind a path along. -/
theorem join_extend (hq : q.text ≠ "") (p : Path) (w : String) :
    p.join (q.extend w) = (p.join q).extend w := by
  -- only the first character tells an absolute path, and there is one
  have hhead : (q.extend w).isAbsolute = q.isAbsolute := by
    obtain ⟨c, t, ht⟩ := List.exists_cons_of_ne_nil fun h => hq (String.toList_inj.1 h)
    simp [isAbsolute, extend, ht]
  unfold join
  rw [hhead]
  split
  · rfl
  · split <;> simp [extend, String.append_assoc]

theorem normalize_of_components {cs : List Component} {n : String}
    (h : p.components = cs ++ [.name n]) : p.normalize = (ofComponents (resolve cs)).join ⟨n⟩ := by
  rw [normalize, h, resolve_name]
  simp [ofComponents, Component.text]

/-- Resolving a path takes what stands behind its name along. -/
theorem EndsInName.normalize_extend (h : p.EndsInName ss x) (hw : '/' ∉ w.toList) :
    (∃ ss', p.normalize.EndsInName ss' x) ∧ (p.extend w).normalize = p.normalize.extend w := by
  have hx : (⟨String.ofList x⟩ : Path).EndsInName [] x := by
    refine ⟨?_, h.letter⟩
    simp only [String.toList_ofList]
    exact segments_of_not_mem (not_mem_of_mem_segments (s := p.text.toList) (h.segments ▸ by simp))
  -- in front of the name both paths have the same components, and the name is joined to these last
  obtain ⟨cs, hcs⟩ := exists_components ss
  have hext := h.extend hw
  rw [normalize_of_components (hcs _ _ _ h.segments h.component?),
    normalize_of_components (hcs _ _ _ hext.segments hext.component?), ← join_extend hx.text_ne_empty]
  refine ⟨hx.join _, ?_⟩
  simp [Path.extend]

/-- What a specifier leads to lies beside what it leads to with a suffix. -/
theorem EndsInName.resolveFrom_append (h : EndsInName ⟨s⟩ ss x) (hw : '/' ∉ w.toList) (file : Path) :
    (∃ ss', (file.resolveFrom s).EndsInName ss' x) ∧
      file.resolveFrom (s ++ w) = (file.resolveFrom s).extend w := by
  obtain ⟨ss', hj⟩ := h.join (file.parent?.getD ⟨""⟩)
  obtain ⟨hend, heq⟩ := hj.normalize_extend hw
  refine ⟨hend, ?_⟩
  unfold resolveFrom
  rw [← heq, ← join_extend h.text_ne_empty]
  rfl

/-- A slash at the end of a specifier does not stay. -/
example : resolveFrom ⟨"app.js"⟩ "a/" = ⟨"a"⟩ ∧ resolveFrom ⟨"app.js"⟩ "a/.js" = ⟨"a/.js"⟩ := by
  decide

end Path

end SiteBuild
