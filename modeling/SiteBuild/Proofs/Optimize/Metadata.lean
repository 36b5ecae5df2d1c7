import SiteBuild.Proofs.Glob.Literal
import SiteBuild.Proofs.Optimize.Exclusion
import SiteBuild.Proofs.Optimize.Refusals

/-! The directory of the metadata. Its name is put into a pattern as it is, so that a survey passes it
over where the name is read as itself, and else whatever the pattern happens to mean. -/

namespace SiteBuild

open FileTree

variable {o : Outages} {t : FileTree} {p : Path} {r : Request} {d metadata : Place}

namespace Glob

theorem PatternSet.parse_singleton (w : String) :
    PatternSet.parse [w] = (Pattern.parse w).map fun g => ⟨[g]⟩ := by
  cases h : Pattern.parse w with
  | error f => simp [PatternSet.parse, h, bind, Except.bind, Except.map]
  | ok g => simp [PatternSet.parse, h, bind, Except.bind, pure, Except.pure, Except.map]

theorem PatternSet.isMatch_singleton (g : Pattern) (path : String) :
    PatternSet.isMatch ⟨[g]⟩ path = g.isMatch path := by
  simp [PatternSet.isMatch]

theorem parse_below {w : String} (h : ∀ c ∈ w.toList, isWild c = false) :
    Pattern.parse (w ++ "/**") = .ok (belowPattern w.toList) := by
  have htext : (w ++ "/**").toList = w.toList ++ ['/', '*', '*'] := by
    rw [String.toList_append]
    rfl
  rw [Pattern.parse, htext, read_below h]

end Glob

/-- Whether a place lies below a directory. -/
def Place.IsBelow (dir names : Place) : Prop := ∃ rest, rest ≠ [] ∧ names = dir ++ rest

/-- A path without a root or levels up is spelled by its names. -/
theorem Path.relativeTo_names (h : p.components = metadata.map .name) :
    Path.relativeTo ⟨""⟩ p = "/".intercalate metadata := by
  have hc : Path.components ⟨""⟩ = [] := Path.components_empty rfl
  simp [Path.relativeTo, Path.stripPrefix?, hc, h, List.filterMap_map, Path.relativeName?,
    Function.comp_def]

namespace Survey

/-- Whether a survey lists the files that do not lie in the directory of the metadata, and no others. -/
def SparesMetadata (o : Outages) (t : FileTree) (r : Request) (d metadata : Place) : Prop :=
  ∃ s, ((ofRequest r).attempt.run o t).result = .ok s ∧ ∀ p, p ∈ s.files ↔
    ∃ names b, t.node? (d ++ names) = some (.file b) ∧ p = r.root.below names ∧
      ¬Place.IsBelow metadata names

variable {w : String} {g : Glob.Pattern}

/-- With a single pattern that can be read, a survey lists the files whose names it does not match. -/
theorem exists_mem_files_iff (hd : t.find r.root = .ok (d, .directory)) (hr : r.excluded = [w])
    (hg : Glob.Pattern.parse w = .ok g) :
    ∃ s, ((ofRequest r).attempt.run o t).result = .ok s ∧ ∀ p, p ∈ s.files ↔
      ∃ names b, t.node? (d ++ names) = some (.file b) ∧ p = r.root.below names ∧
        g.isMatch ("/".intercalate names) = false := by
  have hparse : Glob.PatternSet.parse r.excluded = .ok ⟨[g]⟩ := by
    rw [hr, Glob.PatternSet.parse_singleton, hg]
    rfl
  have hl : t.list r.root = .ok ((t.filesWithin d).map r.root.below) := by
    simp only [FileTree.list, hd, bind, Except.bind]
    rfl
  have hscan := Job.scan_result o t r.root r.excluded
  rw [hparse, hl] at hscan
  obtain ⟨s, hs⟩ := exists_ofRequest hscan
  obtain ⟨patterns, hparse', hfiles⟩ := mem_files_iff hs hd
  rw [hparse] at hparse'
  cases hparse'
  simp only [Glob.PatternSet.isMatch_singleton] at hfiles
  exact ⟨s, hs, hfiles⟩

theorem excluded_of_exclude_eq_nil (hx : r.options.exclude = [])
    (hm : r.metaDirectory.components = metadata.map .name) :
    r.excluded = ["/".intercalate metadata ++ "/**"] := by
  rw [Request.excluded, Path.relativeTo_names hm, hx]

/-- A survey leaves out the metadata and nothing else just if the pattern that is made of the name of
their directory can be read, and matches those of the files there are that lie in it. -/
theorem sparesMetadata_iff_isMatch (hd : t.find r.root = .ok (d, .directory))
    (hr : r.excluded = [w]) :
    SparesMetadata o t r d metadata ↔ ∃ g, Glob.Pattern.parse w = .ok g ∧
      ∀ names b, t.node? (d ++ names) = some (.file b) →
        (g.isMatch ("/".intercalate names) = true ↔ Place.IsBelow metadata names) := by
  constructor
  · rintro ⟨s, hs, hfiles⟩
    cases hg : Glob.Pattern.parse w with
    | error f =>
      have hscan := scan_of_ofRequest hs
      rw [Job.scan_result, hr, Glob.PatternSet.parse_singleton, hg] at hscan
      cases hscan
    | ok g =>
      obtain ⟨s', hs', hfiles'⟩ := exists_mem_files_iff (o := o) hd hr hg
      rw [hs] at hs'
      cases hs'
      refine ⟨g, rfl, fun names b hb => not_iff_not.1 ?_⟩
      -- one path is held to both criteria, and tells its names
      have hboth := (hfiles' (r.root.below names)).symm.trans (hfiles (r.root.below names))
      rw [Bool.not_eq_true]
      constructor
      · intro hno
        obtain ⟨names', c, hc, he, hnot⟩ := hboth.1 ⟨names, b, hb, rfl, hno⟩
        rwa [below_inj hd hb hc he]
      · intro hnot
        obtain ⟨names', c, hc, he, hno⟩ := hboth.2 ⟨names, b, hb, rfl, hnot⟩
        rwa [below_inj hd hb hc he]
  · rintro ⟨g, hg, hmatch⟩
    obtain ⟨s, hs, hfiles⟩ := exists_mem_files_iff (o := o) hd hr hg
    refine ⟨s, hs, fun p => (hfiles p).trans ?_⟩
    refine exists_congr fun names => exists_congr fun b => and_congr_right fun hb => ?_
    rw [← hmatch names b hb, Bool.not_eq_true]

/-- The metadata is left out of a survey, and nothing else, just if the pattern made of the name of its
directory can be read and tells it from the other files of the build. It does where no character of the
name is one that patterns give a meaning to. -/
theorem sparesMetadata_iff (hd : t.find r.root = .ok (d, .directory)) (hx : r.options.exclude = [])
    (hm : r.metaDirectory.components = metadata.map .name) (hne : metadata ≠ []) :
    (SparesMetadata o t r d metadata ↔
      ∃ g, Glob.Pattern.parse ("/".intercalate metadata ++ "/**") = .ok g ∧
        ∀ names b, t.node? (d ++ names) = some (.file b) →
          (g.isMatch ("/".intercalate names) = true ↔ Place.IsBelow metadata names)) ∧
    ((∀ n ∈ metadata, ∀ c ∈ n.toList, Glob.isWild c = false) → SparesMetadata o t r d metadata) := by
  have hr := excluded_of_exclude_eq_nil hx hm
  refine ⟨sparesMetadata_iff_isMatch hd hr, fun hplain => (sparesMetadata_iff_isMatch hd hr).2 ?_⟩
  have hchars : ∀ c ∈ ("/".intercalate metadata).toList, Glob.isWild c = false := by
    intro c hc
    rw [String.toList_intercalate] at hc
    rcases Path.mem_of_mem_intercalate hc with rfl | ⟨s, hs, hcs⟩
    · rfl
    · obtain ⟨n, hn, rfl⟩ := List.mem_map.1 hs
      exact hplain n hn c hcs
  refine ⟨_, Glob.parse_below hchars, fun names b hb => ?_⟩
  have hnode : t.node? (d ++ names) ≠ none := by simp [hb]
  rw [Glob.isMatch_belowPattern]
  refine Path.prefix_names_iff (fun n hn => ?_) (fun n hn => (isFileName_of_mem hnode hn).2.1) hne
  have hname : Component.name n ∈ r.metaDirectory.components := by
    rw [hm]
    exact List.mem_map_of_mem hn
  exact (Path.isLevel_of_name hname).2

/-! A build with two directories of one file each. As a pattern one name reads as itself, and the other
one as a class of letters that stands for the first. -/

namespace Bracketed

def tree : FileTree :=
  (((((FileTree.empty.put [] "build" .directory).put ["build"] "[ab]" .directory).put
    ["build", "[ab]"] "x.txt" (.file "x".toUTF8)).put ["build"] "a" .directory).put
    ["build", "a"] "y.txt" (.file "y".toUTF8))

def request (metadata : Path) : Request where
  root := ⟨"build"⟩
  metaDirectory := metadata
  options := {}

end Bracketed

/-- The metadata in a directory with a plain name is left out. -/
theorem sparesMetadata_plain :
    let r := Bracketed.request ⟨"a"⟩
    Bracketed.tree.find r.root = .ok (["build"], .directory) ∧ r.options.exclude = [] ∧
    r.metaDirectory.components = ["a"].map .name ∧
    (∀ n ∈ ["a"], ∀ c ∈ n.toList, Glob.isWild c = false) ∧
    SparesMetadata {} Bracketed.tree r ["build"] ["a"] := by
  intro r
  have hd : Bracketed.tree.find r.root = .ok (["build"], .directory) := by decide +kernel
  have hm : r.metaDirectory.components = ["a"].map .name := by decide +kernel
  have hplain : ∀ n ∈ ["a"], ∀ c ∈ n.toList, Glob.isWild c = false := by simp [Glob.isWild]
  exact ⟨hd, rfl, hm, hplain, (sparesMetadata_iff (o := {}) hd rfl hm (List.cons_ne_nil _ _)).2 hplain⟩

/-- A directory whose name reads as a class of letters is taken for another one: a survey lists the
metadata, and leaves out a file that is none. -/
theorem lists_bracketed_metadata :
    let r := Bracketed.request ⟨"[ab]"⟩
    Bracketed.tree.find r.root = .ok (["build"], .directory) ∧ r.options.exclude = [] ∧
    r.metaDirectory.components = ["[ab]"].map .name ∧
    ((ofRequest r).attempt.run {} Bracketed.tree).result =
      .ok ⟨[⟨"build/[ab]/x.txt"⟩], false, none⟩ ∧
    ¬SparesMetadata {} Bracketed.tree r ["build"] ["[ab]"] := by
  intro r
  have hscan : ((Job.scan r.root r.excluded).attempt.run {} Bracketed.tree).result =
      .ok [⟨"build/[ab]/x.txt"⟩] := by
    decide +kernel
  have hscripts : scripts r.options.naming [⟨"build/[ab]/x.txt"⟩] = [] := by decide +kernel
  have hs := ofRequest_of_scan (e := false) rfl hscan (by rw [hscripts]; rfl)
  refine ⟨by decide +kernel, rfl, by decide +kernel, hs, ?_⟩
  rintro ⟨s, hs', hfiles⟩
  rw [hs] at hs'
  cases hs'
  have hy : (⟨"build/a/y.txt"⟩ : Path) ∈ [(⟨"build/[ab]/x.txt"⟩ : Path)] := by
    refine (hfiles _).2 ⟨["a", "y.txt"], "y".toUTF8, by decide +kernel, by decide +kernel, ?_⟩
    rintro ⟨rest, -, h⟩
    exact absurd (List.cons.inj h).1 (by decide)
  exact absurd hy (by decide)

end Survey

end SiteBuild
