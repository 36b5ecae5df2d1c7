import SiteBuild.Proofs.FileTree.Order
import SiteBuild.Proofs.Glob.Sets
import SiteBuild.Proofs.Optimize.Course

/-! A scan of a build. It gives the files that no pattern matches, each of them once, as a walk meets them. -/

namespace SiteBuild

open FileTree

variable {o : Outages} {t : FileTree} {root : Path} {k : Place} {exclude : List String}

namespace Job

/-- What a scan of a directory leaves of a listing. -/
theorem scan_directory {patterns : Glob.PatternSet} (h : t.find root = .ok (k, .directory))
    (hp : Glob.PatternSet.parse exclude = .ok patterns) :
    ((scan root exclude).attempt.run o t).result =
      .ok (((t.filesWithin k).filter fun names => !patterns.isMatch ("/".intercalate names)).map
        root.below) := by
  have hlist : t.list root = .ok ((t.filesWithin k).map root.below) := by
    rw [FileTree.list, h]
    rfl
  rw [scan_result, hp, hlist]
  change Except.ok (((t.filesWithin k).map root.below).filter _) = _
  rw [List.filter_map]
  congr 2
  refine List.filter_congr fun names hnames => ?_
  obtain ⟨b, hb⟩ := mem_filesWithin.1 hnames
  have hnode : t.node? (k ++ names) ≠ none := hb ▸ Option.some_ne_none _
  rw [Function.comp_apply,
    Path.relativeTo_below fun n hn => isFileName_of_mem hnode hn]

/-- A scan of a directory gives the files below it that no pattern matches, each of them once and in the
order of their places. A pattern that cannot be read is an error of the scan. -/
theorem scan_lists (o : Outages) (exclude : List String) (h : t.find root = .ok (k, .directory)) :
    ((∀ w ∈ exclude, ∃ p, Glob.Pattern.parse w = .ok p) →
      ∃ walked found : List Place, t.Walks k walked ∧ found.Sublist walked ∧
        ((scan root exclude).attempt.run o t).result = .ok (found.map root.below) ∧
        (found.map root.below).Nodup ∧ found.Pairwise (· < ·) ∧
        ∀ names, names ∈ found ↔ (∃ b, t.node? (k ++ names) = some (.file b)) ∧
          ∀ w ∈ exclude, ¬Glob.Matches w ("/".intercalate names)) ∧
    ∀ w ∈ exclude, ∀ f, Glob.Pattern.parse w = .error f →
      ∃ v ∈ exclude, ∃ g, Glob.Pattern.parse v = .error g ∧
        ((scan root exclude).attempt.run o t).result = .error (.glob g) := by
  constructor
  · intro hexclude
    obtain ⟨patterns, hp, hmatch⟩ := Glob.PatternSet.exists_parse hexclude
    have hdir := node?_enterAll t.node?_top (enterAll_of_find h)
    have hwalk : t.Walks k (t.filesWithin k) := walks_iff.2 ⟨by simp [hdir], rfl⟩
    refine ⟨_, _, hwalk, List.filter_sublist, scan_directory h hp, ?_, hwalk.ascending.filter _, ?_⟩
    · refine ((filesWithin_nodup t k).filter _).map_on fun names hnames names' hnames' he => ?_
      obtain ⟨b, hb⟩ := mem_filesWithin.1 (List.mem_filter.1 hnames).1
      obtain ⟨c, hc⟩ := mem_filesWithin.1 (List.mem_filter.1 hnames').1
      exact below_inj h hb hc he
    · intro names
      rw [List.mem_filter, hwalk.mem_iff, Bool.not_eq_true', ← Bool.not_eq_true, hmatch]
      simp only [not_exists, not_and]
  · intro w hw f hf
    obtain ⟨g, hg, v, hv, hvg⟩ := Glob.PatternSet.exists_parse_eq_error hw hf
    exact ⟨v, hv, g, hvg, by rw [scan_result, hg]⟩

/-! A build in which a directory comes before a file, though its spelling with what is in it does not. -/

namespace Layered

def tree : FileTree :=
  (((((FileTree.empty.put [] "build" .directory).put ["build"] "b.js" (.file "1".toUTF8)).put
    ["build"] "m.map" (.file "2".toUTF8)).put ["build"] "b" .directory).put
    ["build", "b"] "x.js" (.file "3".toUTF8))

end Layered

/-- One pattern leaves out one of three files. -/
theorem scan_lists_layered :
    Layered.tree.find ⟨"build"⟩ = .ok (["build"], .directory) ∧
    ∃ found : List Place, ((scan ⟨"build"⟩ ["*.map"]).attempt.run {} Layered.tree).result =
        .ok (found.map (Path.below ⟨"build"⟩)) ∧
      found.Pairwise (· < ·) ∧ ["b", "x.js"] ∈ found ∧ ["b.js"] ∈ found ∧ ["m.map"] ∉ found := by
  have hroot : Layered.tree.find ⟨"build"⟩ = .ok (["build"], .directory) := by decide +kernel
  let p : Glob.Pattern := [.star, .literal '.', .literal 'm', .literal 'a', .literal 'p']
  have hp : Glob.Pattern.parse "*.map" = .ok p := rfl
  have hmatches (path : String) : Glob.Matches "*.map" path ↔ p.isMatch path = true := by
    simp [Glob.Matches, hp]
  obtain ⟨walked, found, -, -, hresult, -, hascending, hmem⟩ :=
    (scan_lists {} ["*.map"] hroot).1 (by simp [hp])
  simp only [List.mem_singleton, forall_eq, hmatches] at hmem
  refine ⟨hroot, found, hresult, hascending, (hmem _).2 ?_, (hmem _).2 ?_, fun h => ((hmem _).1 h).2 ?_⟩
  · exact ⟨⟨"3".toUTF8, by decide +kernel⟩, by decide +kernel⟩
  · exact ⟨⟨"1".toUTF8, by decide +kernel⟩, by decide +kernel⟩
  · decide +kernel

end Job

end SiteBuild
