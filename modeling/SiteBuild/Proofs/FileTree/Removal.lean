import SiteBuild.Proofs.FileTree.Listing
import SiteBuild.Proofs.Path.Meaning

/-! Taking files away. Paths that are resolved lead to different files unless they are equal, so that
removing some of them takes away just the files at these paths. -/

namespace SiteBuild

namespace Path

/-- Components of which at most the first two are no names. -/
def IsPlain (cs : List Component) : Prop :=
  ∃ first, ∃ names : List String, cs = first ++ names.map .name ∧
    (first = [] ∨ first = [.up] ∨ first = [.root] ∨ first = [.root, .up])

theorem resolve_isPlain (p : Path) : IsPlain (resolve p.components) := by
  obtain ⟨front, hfront, h⟩ := resolve_spelledBy p
  generalize p.meaning = m at hfront h
  refine ⟨front, m.names, h, ?_⟩
  cases hfront <;> simp

end Path

namespace FileTree

variable {t t' : FileTree} {p q : Path} {j k : Place} {b : ByteArray}

theorem enterAll_name {names : List String} (h : t.enterAll k (names.map .name) = .ok j) :
    j = k ++ names := by
  induction names generalizing k with
  | nil =>
    cases h
    simp
  | cons n names ih =>
    rw [List.map_cons, enterAll_cons] at h
    have he : t.enter k (.name n) = .ok (k ++ [n]) ∨ ∃ e, t.enter k (.name n) = .error e := by
      simp only [enter]
      split
      · exact .inl rfl
      · exact .inr ⟨_, rfl⟩
      · exact .inr ⟨_, rfl⟩
    rcases he with he | ⟨e, he⟩
    · rw [he] at h
      simpa using ih h
    · rw [he] at h
      cases h

/-- A resolved path to a file spells its place. -/
theorem components_of_find (h : t.find p.normalize = .ok (k, .file b)) :
    p.normalize.components = k.map .name := by
  obtain ⟨-, -, j, n, rfl, ht⟩ := find_eq_file.1 h
  obtain ⟨cs, hc, he⟩ := target_eq_entry ht
  obtain ⟨first, names, hp, hf⟩ := Path.resolve_isPlain p
  rw [← Path.components_normalize, hc] at hp
  rcases hf with rfl | hf
  · obtain ⟨names, m, hm⟩ := List.eq_nil_or_concat names |>.resolve_left (by rintro rfl; simp at hp)
    rw [List.concat_eq_append] at hm
    rw [hm, List.map_append, List.nil_append] at hp
    obtain ⟨rfl, hn⟩ := List.append_inj' hp rfl
    rw [hc, enterAll_name he]
    simp
  · -- what cannot be entered from the top stands in front of every name
    have hx : ∃ e, t.enterAll [] cs = .error e := by
      have hcs : ∃ ds, first ++ ds = cs ++ [.name n] ∧ first ≠ [] ∧ .name n ∉ first := by
        refine ⟨_, hp.symm, ?_, ?_⟩ <;> rcases hf with rfl | rfl | rfl <;> simp
      obtain ⟨ds, hds, hne, hmem⟩ := hcs
      rcases List.append_eq_append_iff.1 hds with ⟨as, rfl, -⟩ | ⟨as, hfirst, has⟩
      · rw [enterAll_append]
        rcases hf with rfl | rfl | rfl <;> exact ⟨_, rfl⟩
      · cases as with
        | nil =>
          rw [List.append_nil] at hfirst
          subst hfirst
          rcases hf with rfl | rfl | rfl <;> exact ⟨_, rfl⟩
        | cons a as =>
          refine absurd ?_ hmem
          simp only [List.cons_append, List.cons.injEq] at has
          rw [hfirst, has.1]
          simp
    obtain ⟨e, hx⟩ := hx
    rw [hx] at he
    cases he

/-- A resolved path that leads to a file in one tree leads to its place in every tree that has a file
there. -/
theorem find_of_node? (h : t.find p.normalize = .ok (k, .file b)) {c : ByteArray}
    (hk : t'.node? k = some (.file c)) : t'.find p.normalize = .ok (k, .file c) := by
  have hcs := components_of_find h
  obtain ⟨hs, -, j, n, rfl, ht⟩ := find_eq_file.1 h
  obtain ⟨h0, -, hw⟩ := target_eq_walk ht
  obtain ⟨ds, hsteps, -, hn⟩ := walk_eq_entry hw
  obtain rfl : ds = j.map .name := by
    rw [Path.exists_of_steps hsteps, List.map_append] at hcs
    exact (List.append_inj' hcs rfl).1
  -- in front of a file there are directories, whatever else the tree holds
  refine find_of_walk h0 hs ?_ hk
  rw [hsteps, walk_append, enterAll_names (n := n) (by simp [hk])]
  simp [arrive, hn, bind, Except.bind]

/-- Two resolved paths to one file are one path. -/
theorem eq_of_find {c : ByteArray} (h : t.find p.normalize = .ok (k, .file b))
    (h' : t.find q.normalize = .ok (k, .file c)) : p.normalize = q.normalize := by
  apply Path.eq_of_same_normalize
  simp [Path.same, components_of_find h, components_of_find h']

theorem find_file_congr (h : KeepsDirectories t t') (h' : KeepsDirectories t' t)
    (hk : t.node? k = t'.node? k) : t.find p = .ok (k, .file b) ↔ t'.find p = .ok (k, .file b) := by
  rw [find_eq_file, find_eq_file, hk]
  constructor
  · rintro ⟨hs, hb, j, n, he, ht⟩
    exact ⟨hs, hb, j, n, he, h.target ht⟩
  · rintro ⟨hs, hb, j, n, he, ht⟩
    exact ⟨hs, hb, j, n, he, h'.target ht⟩

theorem isFile_of_node? (h : t.find p = .ok (k, .file b)) (hd : KeepsDirectories t t')
    {c : ByteArray} (hk : t'.node? k = some (.file c)) : t'.IsFile p := by
  obtain ⟨hs, -, i, n, rfl, ht⟩ := find_eq_file.1 h
  exact ⟨i ++ [n], c, find_eq_file.2 ⟨hs, hk, i, n, rfl, hd.target ht⟩⟩

/-- A write brings no file about at a resolved path that ends in another name. -/
theorem not_isFile_write (h : ¬t.IsFile p.normalize) (hn : p.normalize.fileName? ≠ q.fileName?) :
    ¬(t.write q b).1.IsFile p.normalize := by
  rintro ⟨k, c, hf⟩
  obtain ⟨-, hc, j, n, rfl, ht⟩ := find_eq_file.1 hf
  cases hk : t.node? (j ++ [n]) with
  | none => exact hn ((fileName?_of_target ht).trans (fileName?_of_write hk hc).symm)
  | some x =>
    cases x with
    | file d => exact h ⟨_, d, find_of_node? hf hk⟩
    | directory =>
      rw [write_keepsDirectories t q b _ hk] at hc
      cases hc

end FileTree

end SiteBuild
