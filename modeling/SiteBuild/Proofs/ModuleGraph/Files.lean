import SiteBuild.Proofs.ModuleGraph.Walk
import SiteBuild.Proofs.Optimize.Course

/-! The graph of files on a tree. A module loads another one just if its text names it and both are
among the files, so that a page's entries have everything fetched that their texts lead to. -/

namespace SiteBuild

variable {o : Outages} {t : FileTree} {root p q : Path} {n : Naming} {files : List Path}

namespace FileTree

theorem exists_fileName?_of_read {text : String} (h : t.read p = .ok text) :
    ∃ m, p.fileName? = some m := by
  obtain ⟨k, b, hf, -⟩ := exists_find_of_read h
  exact IsFile.exists_fileName? ⟨k, b, hf⟩

/-- What two spellings of a path are read as is one text. -/
theorem read_of_same {s s' : String} (h : t.read p = .ok s) (h' : t.read q = .ok s')
    (hs : p.same q = true) : s = s' := by
  obtain ⟨k, b, hf, hb⟩ := exists_find_of_read h
  obtain ⟨k', b', hf', hb'⟩ := exists_find_of_read h'
  obtain ⟨-, hk, j, m, rfl, ht⟩ := find_eq_file.1 hf
  obtain ⟨-, hk', j', m', rfl, ht'⟩ := find_eq_file.1 hf'
  obtain ⟨cs, hc, he⟩ := target_eq_entry ht
  obtain ⟨cs', hc', he'⟩ := target_eq_entry ht'
  rw [← Path.same_eq_true.1 hs, hc] at hc'
  obtain ⟨rfl, hm⟩ := List.append_inj' hc' rfl
  obtain rfl : m = m' := by simpa using hm
  rw [he] at he'
  cases he'
  rw [hk] at hk'
  cases hk'
  rw [hb] at hb'
  exact Option.some.inj hb'

end FileTree

namespace ModuleGraph

/-- A file of some loads another one of them: its text is that of a module, and what an import or a
re-export of the module names, if no stylesheet, is that file. -/
def FileLoads (t : FileTree) (root : Path) (n : Naming) (files : List Path) (p q : Path) : Prop :=
  ∃ f ∈ files, f.same p = true ∧ ∃ text m, t.read f = .ok text ∧
    Script.Module.read? text.toList = some m ∧ ∃ d ∈ m.parts.map Prod.fst,
      n.isCssProxy (String.ofList d.specifier) = false ∧
        ∃ x, resolveLocal? root f (String.ofList d.specifier) = some x ∧ x.IsAmong files ∧
          x.same q = true

/-- The graph of some files as they stand on a tree. -/
def ofTree (t : FileTree) (root : Path) (n : Naming) (files : List Path) : ModuleGraph :=
  ofReadings root n (files.map fun p => ⟨p, t.read p⟩)

theorem run_ofFiles (o : Outages) (t : FileTree) (root : Path) (n : Naming) (files : List Path) :
    ((ofFiles root n files).run o t).result = ofTree t root n files := by
  obtain ⟨hr, ht⟩ := Plan.run_inspectAll o t files
  unfold ofFiles ofTree
  rw [Plan.run_bind]
  simp only [hr]
  rw [Plan.run_bind]
  rfl

theorem mem_targets {m : Script.Module} :
    q ∈ targets root files n p m ↔ ∃ d ∈ m.parts.map Prod.fst,
      n.isCssProxy (String.ofList d.specifier) = false ∧
        resolveLocal? root p (String.ofList d.specifier) = some q ∧ q.IsAmong files := by
  simp only [targets, List.mem_filter, List.mem_filterMap, List.mem_map, Path.any_same,
    Bool.not_eq_true']
  constructor
  · rintro ⟨⟨s, ⟨⟨x, hx, rfl⟩, hs⟩, hr⟩, hq⟩
    exact ⟨x.1, ⟨x, hx, rfl⟩, hs, hr, hq⟩
  · rintro ⟨d, ⟨x, hx, rfl⟩, hs, hr, hq⟩
    exact ⟨⟨_, ⟨⟨x, hx, rfl⟩, hs⟩, hr⟩, hq⟩

theorem mem_edges_ofTree {e : Path × List Path} :
    e ∈ (ofTree t root n files).edges ↔ ∃ f ∈ files, ∃ text m, t.read f = .ok text ∧
      Script.Module.read? text.toList = some m ∧ e = (f, targets root files n f m) := by
  have hfiles : (files.map fun p => (⟨p, t.read p⟩ : Reading)).map Reading.file = files := by
    simp [Function.comp_def]
  simp only [ofTree, ofReadings, hfiles, List.mem_filterMap, List.mem_map]
  constructor
  · rintro ⟨r, ⟨f, hf, rfl⟩, hr⟩
    dsimp only at hr
    split at hr
    · cases hr
    · next text ht =>
      obtain ⟨m, hm, rfl⟩ := Option.map_eq_some_iff.1 hr
      exact ⟨f, hf, text, m, ht, hm, rfl⟩
  · rintro ⟨f, hf, text, m, ht, hm, rfl⟩
    refine ⟨⟨f, t.read f⟩, ⟨f, hf, rfl⟩, ?_⟩
    simp [ht, hm]

/-- The edges of a file are told by any spelling of it that can be read. -/
theorem edges?_ofTree {e : Path × List Path} (he : e ∈ (ofTree t root n files).edges)
    (hs : e.1.same p = true) : (ofTree t root n files).edges? p = some e.2 := by
  cases hfind : (ofTree t root n files).edges.reverse.find? fun e => e.1.same p with
  | none =>
    rw [List.find?_eq_none] at hfind
    exact absurd hs (hfind e (List.mem_reverse.2 he))
  | some e' =>
    have he' := List.mem_reverse.1 (List.mem_of_find?_eq_some hfind)
    have hs' : e'.1.same p = true := List.find?_some (p := fun e : Path × List Path => e.1.same p) hfind
    rw [edges?, hfind, Option.map_some]
    obtain ⟨f, -, text, m, ht, hm, rfl⟩ := mem_edges_ofTree.1 he
    obtain ⟨f', -, text', m', ht', hm', rfl⟩ := mem_edges_ofTree.1 he'
    have hff : f'.same f = true := Path.same_trans hs' (Path.same_symm hs)
    obtain rfl := FileTree.read_of_same ht' ht hff
    obtain rfl : m' = m := Option.some.inj (hm'.symm.trans hm)
    obtain ⟨x, hx⟩ := FileTree.exists_fileName?_of_read ht
    obtain ⟨x', hx'⟩ := FileTree.exists_fileName?_of_read ht'
    have hlocal : resolveLocal? root f' = resolveLocal? root f :=
      funext (resolveLocal?_congr rfl hx' hx (Path.normalize_of_same hff))
    simp only [targets, hlocal]

/-- What the graph of some files holds is what their texts say. -/
theorem loads_ofTree_iff :
    (∃ x, (ofTree t root n files).Loads p x ∧ x.same q = true) ↔ FileLoads t root n files p q := by
  constructor
  · rintro ⟨x, hx, hs⟩
    cases hfind : (ofTree t root n files).edges.reverse.find? fun e => e.1.same p with
    | none => simp [Loads, edges?, hfind] at hx
    | some e =>
      rw [Loads, edges?, hfind] at hx
      have he := List.mem_reverse.1 (List.mem_of_find?_eq_some hfind)
      have hp : e.1.same p = true := List.find?_some (p := fun e : Path × List Path => e.1.same p) hfind
      obtain ⟨f, hf, text, m, ht, hm, rfl⟩ := mem_edges_ofTree.1 he
      obtain ⟨d, hd, hn, hr, hk⟩ := mem_targets.1 hx
      exact ⟨f, hf, hp, text, m, ht, hm, d, hd, hn, x, hr, hk, hs⟩
  · rintro ⟨f, hf, hp, text, m, ht, hm, d, hd, hn, x, hr, hk, hs⟩
    refine ⟨x, ?_, hs⟩
    rw [Loads, edges?_ofTree (mem_edges_ofTree.2 ⟨f, hf, text, m, ht, hm, rfl⟩) hp]
    exact mem_targets.2 ⟨d, hd, hn, hr, hk⟩

/-- What is to be fetched for some entries: each module once and none of the entries, just those that
the texts of the files lead to, and each behind one that loads it. -/
theorem preloadList_ofFiles (o : Outages) (t : FileTree) (root : Path) (n : Naming)
    (files entries : List Path) :
    let found := ((ofFiles root n files).run o t).result.preloadList entries
    found.Pairwise (fun p q => p.same q = false) ∧
      (∀ p ∈ found, p.IsAmong files ∧ ¬p.IsAmong entries) ∧
      (∀ f, f.IsAmong found ↔
        ¬f.IsAmong entries ∧ ∃ e ∈ entries, Relation.TransGen (FileLoads t root n files) e f) ∧
      ∀ before p behind, found = before ++ p :: behind →
        ∃ q, (q ∈ entries ∨ q ∈ before) ∧ FileLoads t root n files q p := by
  have hloads : (fun p q => ∃ x, (ofTree t root n files).Loads p x ∧ x.same q = true) =
      FileLoads t root n files :=
    funext fun p => funext fun q => propext loads_ofTree_iff
  have hbehind : ∀ before p behind,
      (ofTree t root n files).preloadList entries = before ++ p :: behind →
        ∃ q, (q ∈ entries ∨ q ∈ before) ∧ FileLoads t root n files q p := by
    intro before p behind h
    obtain ⟨q, hq, hl⟩ := exists_loads_of_visit _ entries entries before p behind h
    exact ⟨q, hq, loads_ofTree_iff.1 ⟨p, hl, Path.same_self p⟩⟩
  obtain ⟨hpair, hnew⟩ := visit_pairwise (ofTree t root n files) entries entries
  rw [run_ofFiles]
  refine ⟨?_, fun p hp => ⟨?_, hnew p hp⟩, fun f => ?_, hbehind⟩
  · exact hpair.imp fun h => by simpa using fun hs => h (Path.same_symm hs)
  · obtain ⟨before, behind, h⟩ := List.append_of_mem hp
    obtain ⟨q, -, f, -, -, text, m, -, -, d, -, -, x, -, hx, hs⟩ := hbehind before p behind h
    exact hx.of_same (Path.same_symm hs)
  · rw [isAmong_preloadList_iff, LeadsTo, hloads]

end ModuleGraph

end SiteBuild
