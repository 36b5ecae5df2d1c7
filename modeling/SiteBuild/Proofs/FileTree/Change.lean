import SiteBuild.Proofs.FileTree.Walk

/-! What the operations on a tree change. Directories stay, files stay files unless they are removed,
and a text goes to the one place that its path leads to. -/

namespace SiteBuild.FileTree

variable {t t' t'' : FileTree} {p q : Path} {k : Place} {n : String} {b : ByteArray}

/-- Trees with the same directories and the same places taken. -/
def Alike (t t' : FileTree) : Prop :=
  ∀ k, (t.node? k = some .directory ↔ t'.node? k = some .directory) ∧
    (t.node? k = none ↔ t'.node? k = none)

namespace Alike

theorem refl (t : FileTree) : Alike t t := fun _ => ⟨.rfl, .rfl⟩

theorem symm (h : Alike t t') : Alike t' t := fun k => ⟨(h k).1.symm, (h k).2.symm⟩

theorem trans (h : Alike t t') (h' : Alike t' t'') : Alike t t'' :=
  fun k => ⟨(h k).1.trans (h' k).1, (h k).2.trans (h' k).2⟩

theorem enter (h : Alike t t') (k : Place) (c : Component) : t.enter k c = t'.enter k c := by
  cases c with
  | root => rfl
  | here => rfl
  | up => rfl
  | name n =>
    obtain ⟨hd, hn⟩ := h (k ++ [n])
    simp only [FileTree.enter]
    cases hx : t.node? (k ++ [n]) with
    | none => rw [hn.1 hx]
    | some x =>
      cases hy : t'.node? (k ++ [n]) with
      | none => simp [hn.2 hy] at hx
      | some y =>
        rw [hx, hy] at hd
        cases x <;> cases y <;> simp_all

theorem enterAll (h : Alike t t') (k : Place) (cs : List Component) :
    t.enterAll k cs = t'.enterAll k cs := by
  induction cs generalizing k with
  | nil => rfl
  | cons c cs ih =>
    rw [enterAll_cons, enterAll_cons, h.enter]
    congr 1
    funext k
    exact ih k

theorem walk (h : Alike t t') (k : Place) (cs : List Component) : t.walk k cs = t'.walk k cs := by
  induction cs using List.reverseRecOn with
  | nil => rfl
  | append_singleton cs c =>
    rw [walk_append, walk_append, h.enterAll]
    congr 1
    funext k
    cases c <;> simp [arrive, h.enter]

theorem target (h : Alike t t') (p : Path) : t.target p = t'.target p := by
  unfold FileTree.target
  split
  · rfl
  · split
    · rfl
    · exact h.walk [] _

end Alike

theorem find_of_target (h : t.target p = .ok (.entry k n)) :
    t.find p = match t.node? (k ++ [n]) with
      | none => .error .notFound
      | some (.file b) =>
        if p.endsInSlash then .error .notADirectory else .ok (k ++ [n], .file b)
      | some .directory => .ok (k ++ [n], .directory) := by
  simp only [find, h, bind, Except.bind]
  rfl

theorem find_eq_file :
    t.find p = .ok (k, .file b) ↔ p.endsInSlash = false ∧ t.node? k = some (.file b) ∧
      ∃ j n, k = j ++ [n] ∧ t.target p = .ok (.entry j n) := by
  constructor
  · intro h
    cases ht : t.target p with
    | error e => simp [find, ht, bind, Except.bind] at h
    | ok x =>
      cases x with
      | directory j => simp [find, ht, bind, Except.bind, pure, Except.pure] at h
      | entry j n =>
        rw [find_of_target ht] at h
        cases hx : t.node? (j ++ [n]) with
        | none => simp [hx] at h
        | some x =>
          cases x with
          | directory => simp [hx] at h
          | file c =>
            cases hs : p.endsInSlash with
            | true => simp [hx, hs] at h
            | false =>
              simp [hx, hs] at h
              obtain ⟨rfl, rfl⟩ := h
              exact ⟨rfl, hx, j, n, rfl, rfl⟩
  · rintro ⟨hs, hx, j, n, rfl, ht⟩
    rw [find_of_target ht, hx]
    simp [hs]

/-- A walk to a file finds it. -/
theorem find_of_walk (h0 : '\x00' ∉ p.text.toList) (hs : p.endsInSlash = false)
    (hw : t.walk [] p.steps = .ok (.entry k n)) (hn : t.node? (k ++ [n]) = some (.file b)) :
    t.find p = .ok (k ++ [n], .file b) := by
  have hne : p.steps ≠ [] := by
    intro h
    rw [h] at hw
    cases hw
  exact find_eq_file.2 ⟨hs, hn, k, n, rfl, target_of_walk h0 hne hw⟩

theorem read_of_find {text : String} (h : t.find p = .ok (k, .file text.toUTF8)) :
    t.read p = .ok text := by
  have hu : String.fromUTF8? text.toUTF8 = some text := by
    simp only [String.fromUTF8?, String.toUTF8_eq_toByteArray, dif_pos text.isValidUTF8]
    rfl
  simp only [FileTree.read, h, bind, Except.bind, hu]
  rfl

theorem exists_find_of_read {text : String} (h : t.read p = .ok text) :
    ∃ k b, t.find p = .ok (k, .file b) ∧ String.fromUTF8? b = some text := by
  cases hf : t.find p with
  | error e => simp [FileTree.read, hf, bind, Except.bind] at h
  | ok x =>
    obtain ⟨k, x⟩ := x
    cases x with
    | directory => simp [FileTree.read, hf, bind, Except.bind] at h
    | file b =>
      refine ⟨k, b, rfl, ?_⟩
      cases hb : String.fromUTF8? b with
      | none => simp [FileTree.read, hf, hb, bind, Except.bind] at h
      | some s => simpa [FileTree.read, hf, hb, bind, Except.bind] using h

theorem Alike.read (h : Alike t t')
    (hk : ∀ k n, t.target p = .ok (.entry k n) → t.node? (k ++ [n]) = t'.node? (k ++ [n])) :
    t.read p = t'.read p := by
  have hf : t.find p = t'.find p := by
    cases ht : t.target p with
    | error e => simp [find, ht, ← h.target, bind, Except.bind]
    | ok x =>
      cases x with
      | directory j => simp [find, ht, ← h.target, bind, Except.bind]
      | entry j n =>
        have ht' := ht
        rw [h.target] at ht'
        rw [find_of_target ht, find_of_target ht', hk j n ht]
  simp only [FileTree.read, hf]

/-- A path that leads to a file. -/
def IsFile (t : FileTree) (p : Path) : Prop := ∃ k b, t.find p = .ok (k, .file b)

theorem IsFile.exists_fileName? {t : FileTree} {p : Path} (h : t.IsFile p) :
    ∃ n, p.fileName? = some n := by
  obtain ⟨k, b, hf⟩ := h
  obtain ⟨-, -, j, n, -, ht⟩ := find_eq_file.1 hf
  exact ⟨n, fileName?_of_target ht⟩

/-- Trees of which the second one has all directories of the first one. -/
def KeepsDirectories (t t' : FileTree) : Prop :=
  ∀ k, t.node? k = some .directory → t'.node? k = some .directory

namespace KeepsDirectories

theorem refl (t : FileTree) : KeepsDirectories t t := fun _ h => h

theorem trans (h : KeepsDirectories t t') (h' : KeepsDirectories t' t'') :
    KeepsDirectories t t'' := fun k hk => h' k (h k hk)

theorem enter (h : KeepsDirectories t t') {c : Component} {j : Place} (hk : t.enter k c = .ok j) :
    t'.enter k c = .ok j := by
  cases c with
  | root => exact hk
  | here => exact hk
  | up => exact hk
  | name n =>
    simp only [FileTree.enter] at hk ⊢
    split at hk
    · next hx => rw [h _ hx, hk]
    · cases hk
    · cases hk

theorem enterAll (h : KeepsDirectories t t') {cs : List Component} {j : Place}
    (hk : t.enterAll k cs = .ok j) : t'.enterAll k cs = .ok j := by
  induction cs generalizing k with
  | nil => exact hk
  | cons c cs ih =>
    rw [enterAll_cons] at hk ⊢
    cases hc : t.enter k c with
    | error e =>
      rw [hc] at hk
      cases hk
    | ok i =>
      rw [hc] at hk
      rw [h.enter hc]
      exact ih hk

theorem target (h : KeepsDirectories t t') (hk : t.target p = .ok (.entry k n)) :
    t'.target p = .ok (.entry k n) := by
  obtain ⟨h0, hs, hw⟩ := target_eq_walk hk
  obtain ⟨cs, hc, he, hl⟩ := walk_eq_entry hw
  unfold FileTree.target
  rw [if_neg (by simpa using h0), hc]
  split
  · next hn => simp at hn
  · rw [walk_append, h.enterAll he]
    change t'.arrive k (.name n) = _
    simp [arrive, hl]

end KeepsDirectories

/-- Whether directories were made, and nothing else. -/
def Extends (t t' : FileTree) : Prop :=
  ∀ k, t'.node? k = t.node? k ∨ t.node? k = none ∧ t'.node? k = some .directory

namespace Extends

theorem refl (t : FileTree) : Extends t t := fun _ => .inl rfl

theorem trans (h : Extends t t') (h' : Extends t' t'') : Extends t t'' := by
  intro k
  rcases h' k with h1 | ⟨h1, h2⟩
  · rcases h k with h3 | ⟨h3, h4⟩
    · exact .inl (h1.trans h3)
    · exact .inr ⟨h3, h1.trans h4⟩
  · rcases h k with h3 | ⟨h3, h4⟩
    · exact .inr ⟨h3 ▸ h1, h2⟩
    · exact .inr ⟨h3, h2⟩

theorem keepsDirectories (h : Extends t t') : KeepsDirectories t t' := by
  intro k hk
  rcases h k with h | ⟨h, -⟩
  · rw [h, hk]
  · rw [h] at hk
    cases hk

theorem node?_file (h : Extends t t') : t'.node? k = some (.file b) ↔ t.node? k = some (.file b) := by
  rcases h k with h | ⟨h, h'⟩
  · rw [h]
  · rw [h, h']
    simp

end Extends

theorem make_extends (h : t.make p = .ok t') : Extends t t' := by
  cases ht : t.target p with
  | error e => simp [make, ht, bind, Except.bind] at h
  | ok x =>
    cases x with
    | directory j => simp [make, ht, bind, Except.bind] at h
    | entry j m =>
      cases hx : t.node? (j ++ [m]) with
      | some x => simp [make, ht, hx, bind, Except.bind] at h
      | none =>
        obtain rfl : t.put j m .directory = t' := by
          simpa [make, ht, hx, bind, Except.bind, pure, Except.pure] using h
        have ha : t.Admits j m := ⟨isFileName_of_target ht, target_entry ht, by simp [hx]⟩
        intro k
        rw [node?_put ha]
        by_cases hk : k = j ++ [m]
        · subst hk
          exact .inr ⟨hx, if_pos rfl⟩
        · exact .inl (if_neg hk)

theorem makeAll_extends (t : FileTree) (ps : List Path) : Extends t (t.makeAll ps).1 := by
  fun_induction makeAll t ps with
  | case1 => exact .refl t
  | case2 p outer t' h => exact make_extends h
  | case3 p outer h t' hm t'' h' ih =>
    rw [hm] at ih
    exact ih.trans (make_extends h')
  | case4 p outer h t' hm e h' ih =>
    rw [hm] at ih
    exact ih
  | case5 p outer h t' e hm ih =>
    rw [hm] at ih
    exact ih
  | case6 p outer e he h => exact .refl t

/-- What a tree becomes when a text is put under a name of a directory. -/
def Stores (t : FileTree) (p : Path) (b : ByteArray) (t' : FileTree) : Prop :=
  ∃ k n, t.target p = .ok (.entry k n) ∧ t.node? (k ++ [n]) ≠ some .directory ∧
    ∀ j, t'.node? j = if j = k ++ [n] then some (.file b) else t.node? j

theorem store_cases (t : FileTree) (p : Path) (b : ByteArray) :
    ((t.store p b).1 = t ∧ ∃ e, (t.store p b).2 = .error e) ∨
      (t.Stores p b (t.store p b).1 ∧ (t.store p b).2 = .ok ()) := by
  unfold store
  split
  · next e _ => exact .inl ⟨rfl, e, rfl⟩
  · exact .inl ⟨rfl, _, rfl⟩
  · next k n ht =>
    split
    · exact .inl ⟨rfl, _, rfl⟩
    · next h =>
      have hd : t.node? (k ++ [n]) ≠ some .directory := fun hd => h (.inr hd)
      have ha : t.Admits k n := ⟨isFileName_of_target ht, target_entry ht, hd⟩
      exact .inr ⟨⟨k, n, ht, hd, fun j => node?_put ha _ j⟩, rfl⟩

/-- Writing makes directories, and then the text is stored or the write fails. -/
theorem write_cases (t : FileTree) (p : Path) (b : ByteArray) :
    ∃ s, Extends t s ∧ (((t.write p b).1 = s ∧ ∃ e, (t.write p b).2 = .error e) ∨
      (s.Stores p b (t.write p b).1 ∧ (t.write p b).2 = .ok ())) := by
  unfold write
  split
  · exact ⟨t, .refl t, store_cases t p b⟩
  · next d _ =>
    have hm : Extends t (t.createAll d).1 := makeAll_extends t d.ancestors
    refine ⟨(t.createAll d).1, hm, ?_⟩
    cases hr : t.createAll d with
    | mk s r =>
      cases r with
      | ok u => exact store_cases s p b
      | error e => exact .inl ⟨rfl, e, rfl⟩

namespace Stores

theorem keepsDirectories (h : t.Stores p b t') : KeepsDirectories t t' := by
  obtain ⟨k, n, -, hd, hn⟩ := h
  intro j hj
  rw [hn, if_neg]
  · exact hj
  · rintro rfl
    exact hd hj

theorem isSome_file (h : t.Stores p b t') {c : ByteArray} (hk : t.node? k = some (.file c)) :
    ∃ c, t'.node? k = some (.file c) := by
  obtain ⟨j, n, -, -, hn⟩ := h
  rw [hn]
  split
  · exact ⟨b, rfl⟩
  · exact ⟨c, hk⟩

end Stores

theorem write_keepsDirectories (t : FileTree) (p : Path) (b : ByteArray) :
    KeepsDirectories t (t.write p b).1 := by
  obtain ⟨s, hs, ⟨h, -⟩ | ⟨h, -⟩⟩ := write_cases t p b
  · exact h ▸ hs.keepsDirectories
  · exact hs.keepsDirectories.trans h.keepsDirectories

/-- Writing takes no file away. -/
theorem write_isSome_file {c : ByteArray} (hk : t.node? k = some (.file c)) :
    ∃ c, (t.write p b).1.node? k = some (.file c) := by
  obtain ⟨s, hs, ⟨h, -⟩ | ⟨h, -⟩⟩ := write_cases t p b
  · exact ⟨c, by rw [h, hs.node?_file, hk]⟩
  · exact h.isSome_file (hs.node?_file.2 hk)

/-- A file that a write brings about has the name that the path ends in. -/
theorem fileName?_of_write {j : Place} {c : ByteArray} (hk : t.node? (j ++ [n]) = none)
    (h : (t.write p b).1.node? (j ++ [n]) = some (.file c)) : p.fileName? = some n := by
  obtain ⟨s, hs, ⟨h', -⟩ | ⟨⟨i, m, ht, -, h'⟩, -⟩⟩ := write_cases t p b
  · rw [h', hs.node?_file, hk] at h
    cases h
  · rw [h'] at h
    split at h
    · next he =>
      obtain ⟨-, he⟩ := List.append_inj' he rfl
      rw [List.singleton_inj.1 he]
      exact fileName?_of_target ht
    · rw [hs.node?_file, hk] at h
      cases h

/-- Removing takes away one file, or fails and changes nothing, or finds nothing. -/
theorem remove_cases (t : FileTree) (p : Path) :
    ((t.remove p).1 = t ∧ (t.remove p).2 ≠ .ok true) ∨
      ((t.remove p).2 = .ok true ∧ ∃ k b, t.find p = .ok (k, .file b) ∧
        ∀ j, (t.remove p).1.node? j = if j = k then none else t.node? j) := by
  unfold remove
  split
  · exact .inl ⟨rfl, by simp⟩
  · exact .inl ⟨rfl, by simp⟩
  · exact .inl ⟨rfl, by simp⟩
  · next k n ht =>
    split
    · exact .inl ⟨rfl, by simp⟩
    · exact .inl ⟨rfl, by simp⟩
    · next b hb =>
      split
      · exact .inl ⟨rfl, by simp⟩
      · next hs =>
        refine .inr ⟨rfl, k ++ [n], b, ?_, node?_prune_file hb⟩
        exact find_eq_file.2 ⟨by simpa using hs, hb, k, n, rfl, ht⟩

theorem remove_keepsDirectories (t : FileTree) (p : Path) :
    KeepsDirectories t (t.remove p).1 := by
  rcases remove_cases t p with ⟨h, -⟩ | ⟨-, k, b, hf, h⟩
  · rw [h]
    exact .refl t
  · intro j hj
    rw [h, if_neg]
    · exact hj
    · rintro rfl
      rw [(find_eq_file.1 hf).2.1] at hj
      cases hj

/-- A walk that enters a directory by every component ends there, by name or not. -/
theorem target_of_enterAll (h0 : '\x00' ∉ p.text.toList) (hp : p.text ≠ "")
    (h : t.enterAll [] p.components = .ok k) :
    t.target p = .ok (.directory k) ∨
      ∃ j n, t.target p = .ok (.entry j n) ∧ j ++ [n] = k := by
  have hc := Path.components_ne_nil hp
  have hs : p.steps ≠ [] := by simp [Path.steps, hc]
  have ht : t.target p = t.walk [] p.steps := by
    unfold target
    rw [if_neg (by simpa using h0)]
    split
    · next hn => exact absurd hn hs
    · rfl
  rw [ht]
  unfold Path.steps
  split
  · rw [walk_append, h]
    exact .inl rfl
  · rw [List.append_nil, ← List.dropLast_concat_getLast hc, walk_append]
    rw [← List.dropLast_concat_getLast hc, enterAll_append] at h
    cases hj : t.enterAll [] p.components.dropLast with
    | error e =>
      rw [hj] at h
      cases h
    | ok j =>
      rw [hj] at h
      change t.enterAll j [_] = _ at h
      change t.arrive j _ = _ ∨ ∃ i n, t.arrive j _ = _ ∧ _
      rw [enterAll_cons] at h
      cases hl : p.components.getLast hc with
      | root =>
        rw [hl] at h
        cases h
      | here =>
        rw [hl] at h
        cases h
        exact .inl rfl
      | up =>
        rw [hl] at h
        change (t.enter j .up >>= pure) = _ at h
        rw [bind_pure] at h
        exact .inl (by simp [arrive, h])
      | name n =>
        rw [hl] at h
        change (t.enter j (.name n) >>= pure) = _ at h
        rw [bind_pure] at h
        simp only [enter] at h
        split at h
        · next hd =>
          cases h
          have hn := (isFileName (t := t) (k := j) (n := n) (by simp [hd])).2.2.2
          exact .inr ⟨j, n, by simp [arrive, hn], rfl⟩
        · cases h
        · cases h

theorem node?_enterAll {j : Place} {cs : List Component} (hj : t.node? j = some .directory)
    (h : t.enterAll j cs = .ok k) : t.node? k = some .directory := by
  induction cs generalizing j with
  | nil =>
    cases h
    exact hj
  | cons c cs ih =>
    rw [enterAll_cons] at h
    cases hc : t.enter j c with
    | error e =>
      rw [hc] at h
      cases h
    | ok i =>
      rw [hc] at h
      exact ih (enter_directory hj hc) h

theorem find_of_enterAll (h0 : '\x00' ∉ p.text.toList) (hp : p.text ≠ "")
    (h : t.enterAll [] p.components = .ok k) : t.find p = .ok (k, .directory) := by
  have hd := node?_enterAll t.node?_top h
  rcases target_of_enterAll h0 hp h with ht | ⟨j, n, ht, rfl⟩
  · simp [find, ht, bind, Except.bind, pure, Except.pure]
  · rw [find_of_target ht, hd]

/-- What is there already is not made again. -/
theorem createAll_of_enterAll (h0 : '\x00' ∉ p.text.toList)
    (h : t.enterAll [] p.components = .ok k) : t.createAll p = (t, .ok ()) := by
  unfold createAll Path.ancestors Path.outward
  by_cases hp : p.text = ""
  · simp [hp, makeAll]
  · have hd := node?_enterAll t.node?_top h
    have hm : t.make p = .error .alreadyExists := by
      rcases target_of_enterAll h0 hp h with ht | ⟨j, n, ht, rfl⟩
      · simp [make, ht, bind, Except.bind]
      · simp [make, ht, hd, bind, Except.bind]
    have hi : t.isDirectory p = true := by simp [isDirectory, find_of_enterAll h0 hp h]
    simp [makeAll, hm, hp, hi]

/-- Writing to a file that is there changes its text and nothing else. -/
theorem write_of_find {c : ByteArray} (h : t.find p = .ok (k, .file c)) :
    (t.write p b).2 = .ok () ∧
      ∀ j, (t.write p b).1.node? j = if j = k then some (.file b) else t.node? j := by
  obtain ⟨hs, hc, j, n, rfl, ht⟩ := find_eq_file.1 h
  obtain ⟨cs, hcs, he⟩ := target_eq_entry ht
  have hst : t.store p b = (t.put j n (.file b), .ok ()) := by simp [store, ht, hs, hc]
  have hw : t.write p b = t.store p b := by
    unfold write
    split
    · rfl
    · next d hd =>
      have h0 : '\x00' ∉ d.text.toList := by
        intro hm
        rcases Path.mem_of_mem_parent hd hm with hm | hm
        · simp at hm
        · exact (target_eq_walk ht).1 hm
      rw [← Path.components_parent hd hcs] at he
      rw [createAll_of_enterAll h0 he]
  have ha : t.Admits j n := ⟨isFileName_of_target ht, target_entry ht, by simp [hc]⟩
  rw [hw, hst]
  exact ⟨rfl, fun i => node?_put ha _ i⟩

end SiteBuild.FileTree
