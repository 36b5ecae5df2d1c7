import SiteBuild.Proofs.Path.Dotted

/-! Reaching into a tree by a path with a dot in front: it is as if the dot were not there. -/

namespace SiteBuild

variable {t : FileTree} {p : Path}

namespace Path

/-- What a path with a dot lies in is what it lies in without the dot, and the top. -/
theorem outward_dotted {n : Nat} (hp : p.IsBare) (hn : p.components.length ≤ n) :
    outward (n + 1) p.dotted = (outward n p).map dotted ++ [⟨"."⟩] := by
  induction n generalizing p with
  | zero =>
    obtain ⟨c, cs, hc, -⟩ := hp.exists_components
    simp [hc] at hn
  | succ n ih =>
    have hne : p.text.isEmpty = false := by simpa using hp.text_ne_empty
    have hdot : p.dotted.text.isEmpty = false := by simp [dotted]
    rw [outward, if_neg (by simp [hdot]), outward, if_neg (by simp [hne])]
    rcases parent?_dotted hp with ⟨h, hd⟩ | ⟨d, hbare, hlt, h, hd⟩
    · rw [h, hd]
      have htop : outward (n + 1) ⟨"."⟩ = [⟨"."⟩] := by
        rw [outward]
        cases n <;> rfl
      have hnone : outward n ⟨""⟩ = [] := by cases n <;> rfl
      simp [htop, hnone]
    · rw [h, hd]
      simp [ih hbare (by omega)]

theorem isBare_of_mem_outward {n : Nat} (hp : p.IsBare) : ∀ q ∈ outward n p, q.IsBare := by
  induction n generalizing p with
  | zero => simp [outward]
  | succ n ih =>
    intro q hq
    rw [outward, if_neg (by simpa using hp.text_ne_empty)] at hq
    rcases List.mem_cons.1 hq with rfl | hq
    · exact hp
    · rcases parent?_dotted hp with ⟨h, -⟩ | ⟨d, hbare, -, h, -⟩
      · have hnone : outward n ⟨""⟩ = [] := by cases n <;> rfl
        simp [h, hnone] at hq
      · rw [h] at hq
        exact ih hbare q hq

theorem ancestors_dotted (hp : p.IsBare) :
    p.dotted.ancestors = p.ancestors.map dotted ++ [⟨"."⟩] := by
  rw [ancestors, components_dotted hp, List.length_cons, outward_dotted hp (by omega), ancestors]

end Path

namespace FileTree

theorem walk_here {cs : List Component} (hc : cs ≠ []) (k : Place) :
    t.walk k (.here :: cs) = t.walk k cs := by
  cases cs with
  | nil => exact absurd rfl hc
  | cons c cs => rfl

theorem target_dotted (hp : p.IsBare) : t.target p.dotted = t.target p := by
  have h0 : p.dotted.text.toList.contains '\x00' = p.text.toList.contains '\x00' := by
    simp [Path.dotted]
  obtain ⟨c, cs, hc, -⟩ := hp.exists_components
  have hsteps : p.steps ≠ [] := by simp [Path.steps, hc]
  unfold target
  rw [h0, Path.steps_dotted hp]
  split
  · rfl
  · split
    · next h => cases h
    · exact walk_here hsteps []

theorem find_dotted (hp : p.IsBare) : t.find p.dotted = t.find p := by
  simp only [find, target_dotted hp, Path.endsInSlash_dotted hp.text_ne_empty]

theorem read_dotted (hp : p.IsBare) : t.read p.dotted = t.read p := by
  simp only [read, find_dotted hp]

theorem make_dotted (hp : p.IsBare) : t.make p.dotted = t.make p := by
  simp only [make, target_dotted hp]

theorem isDirectory_dotted (hp : p.IsBare) : t.isDirectory p.dotted = t.isDirectory p := by
  simp only [isDirectory, find_dotted hp]

/-- The top is there already. -/
theorem makeAll_top (t : FileTree) : t.makeAll [⟨"."⟩] = (t, .ok ()) := by
  have hsteps : Path.steps ⟨"."⟩ = [.here, .here] := by decide
  have htarget : t.target ⟨"."⟩ = .ok (.directory []) := by
    unfold target
    rw [hsteps]
    rfl
  have hmake : t.make ⟨"."⟩ = .error .alreadyExists := by
    rw [make, htarget]
    rfl
  have hdir : t.isDirectory ⟨"."⟩ = true := by
    rw [isDirectory, find, htarget]
    rfl
  rw [makeAll, hmake]
  simp [hdir]

theorem makeAll_dotted {ps : List Path} (hp : ∀ p ∈ ps, p.IsBare) :
    t.makeAll (ps.map Path.dotted ++ [⟨"."⟩]) = t.makeAll ps := by
  induction ps with
  | nil => exact makeAll_top t
  | cons p ps ih =>
    obtain ⟨hb, hps⟩ := List.forall_mem_cons.1 hp
    rw [List.map_cons, List.cons_append, makeAll, makeAll, ih hps]
    simp only [make_dotted hb, isDirectory_dotted hb]

theorem createAll_dotted (hp : p.IsBare) : t.createAll p.dotted = t.createAll p := by
  have hbare : ∀ q ∈ p.ancestors, q.IsBare := Path.isBare_of_mem_outward hp
  rw [createAll, Path.ancestors_dotted hp, makeAll_dotted hbare, createAll]

theorem store_dotted (hp : p.IsBare) (b : ByteArray) : t.store p.dotted b = t.store p b := by
  simp only [store, target_dotted hp, Path.endsInSlash_dotted hp.text_ne_empty]

theorem write_dotted (hp : p.IsBare) (b : ByteArray) : t.write p.dotted b = t.write p b := by
  unfold write
  rcases Path.parent?_dotted hp with ⟨h, hd⟩ | ⟨d, hbare, -, h, hd⟩
  · have hempty : t.createAll ⟨""⟩ = (t, .ok ()) := rfl
    have htop : t.createAll ⟨"."⟩ = (t, .ok ()) := by
      rw [createAll, show Path.ancestors ⟨"."⟩ = [⟨"."⟩] by decide, makeAll_top]
    simp only [h, hd, hempty, htop, store_dotted hp]
  · simp only [h, hd, createAll_dotted hbare, store_dotted hp]

/-- A listing of a directory that is spelled with a dot. -/
theorem list_dotted (hp : p.IsBare) :
    t.list p.dotted = (t.list p).map fun ps => ps.map Path.dotted := by
  have hd := find_dotted (t := t) hp
  cases hf : t.find p with
  | error e =>
    rw [hf] at hd
    simp [list, hf, hd, bind, Except.bind, Except.map]
  | ok x =>
    obtain ⟨k, x⟩ := x
    rw [hf] at hd
    have hlist (q : Path) (h : t.find q = .ok (k, x)) :
        t.list q = .ok ((t.filesWithin k).map q.below) := by
      simp only [list, h, bind, Except.bind]
      rfl
    rw [hlist _ hd, hlist _ hf, Except.map, List.map_map]
    refine congrArg Except.ok (List.map_congr_left fun names hn => ?_)
    obtain ⟨b, hb⟩ := mem_filesWithin.1 hn
    have hnode : t.node? (k ++ names) ≠ none := by simp [hb]
    exact Path.below_dotted hp.text_ne_empty fun n => isFileName_of_mem hnode

end FileTree

end SiteBuild
