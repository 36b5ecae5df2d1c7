import SiteBuild.Proofs.Json.Formats
import SiteBuild.Proofs.Table
import SiteBuild.Proofs.Text.Order

/-! The text of a manifest. It names the files in the order of their keys' bytes, however the results came
in, and tells of each file what its result holds. -/

namespace SiteBuild

variable {root : Path} {results results' : List FileResult}

namespace FileResult

/-- The key of a file's result. -/
def key (root : Path) (r : FileResult) : String := root.relativeTo r.file

/-- What is written of a result: its stylesheets in their order, or nothing at all if it has none. -/
def record (root : Path) (r : FileResult) : Json :=
  if r.css = [] then .object []
  else .object [("css", .array (r.css.map fun e =>
    .object [("actual", .text (root.relativeTo e.actual)), ("proxy", .text (root.relativeTo e.proxy))]))]

theorem fileToJson_map (root : Path) (r : FileResult) :
    Manifest.fileToJson (r.css.map (ManifestCss.of root)) = r.record root := by
  simp only [Manifest.fileToJson, record, List.isEmpty_iff, List.map_eq_nil_iff, List.map_map]
  rfl

/-- Results with different keys can be put in the order of the keys. -/
theorem exists_ascending (h : (results.map (key root)).Nodup) :
    ∃ rs : List FileResult, rs.Perm results ∧ rs.Pairwise fun r r' => r.key root < r'.key root := by
  let le (r r' : FileResult) : Bool := r.key root ≤ r'.key root
  have hperm : (results.mergeSort le).Perm results := List.mergeSort_perm results le
  have hsorted : (results.mergeSort le).Pairwise fun r r' => le r r' = true := by
    refine List.pairwise_mergeSort (fun a b c hab hbc => ?_) (fun a b => ?_) results
    · simp only [le, decide_eq_true_eq] at hab hbc ⊢
      exact String.le_trans hab hbc
    · simp only [le, Bool.or_eq_true, decide_eq_true_eq]
      exact String.le_total _ _
  have hdistinct : (results.mergeSort le).Pairwise fun r r' => r.key root ≠ r'.key root :=
    List.pairwise_map.1 ((hperm.map (key root)).nodup_iff.2 h)
  refine ⟨_, hperm, (hsorted.and hdistinct).imp fun {r r'} hr => ?_⟩
  obtain ⟨hle, hne⟩ := hr
  have hle : r.key root ≤ r'.key root := by simpa [le] using hle
  by_contra hlt
  exact hne (String.le_antisymm hle (String.not_lt.1 hlt))

end FileResult

namespace Manifest

open FileResult

theorem imports_build_perm (generated : List Path) (h : (results.map (key root)).Nodup)
    (hperm : results'.Perm results) :
    (build root results' generated).imports = (build root results generated).imports :=
  Table.ofList_perm (by rwa [List.map_map]) (hperm.map _)

theorem entries_build (generated : List Path)
    (h : results.Pairwise fun r r' => r.key root < r'.key root) :
    (build root results generated).imports.entries =
      results.map fun r => (r.key root, r.css.map (ManifestCss.of root)) :=
  Table.entries_ofList (List.pairwise_map.2 h)

/-- What is written of some results that come in the order of their keys. -/
theorem toJson_build (generated : List Path)
    (h : results.Pairwise fun r r' => r.key root < r'.key root) :
    (build root results generated).toJson =
      .object [("imports", .object (results.map fun r => (r.key root, r.record root))),
        ("generated", .array (generated.map fun p => .text (root.relativeTo p)))] := by
  rw [toJson, entries_build generated h, List.map_map]
  simp only [Function.comp_def, fileToJson_map, build, List.map_map]

/-- The text of a manifest is the same however the results of the files come in, as long as their keys are
different. It holds each file under its key, in the order of the keys' bytes, with the stylesheets that were
embedded into it in their order, or with nothing if there are none, and then what was generated. -/
theorem toText_build_perm (generated : List Path) (h : (results.map (key root)).Nodup) :
    (∀ results', results'.Perm results →
      (build root results' generated).toText = (build root results generated).toText) ∧
    ∃ rs : List FileResult, rs.Perm results ∧ (rs.map fun r => Text.bytes (r.key root)).Pairwise (· < ·) ∧
      let written : Json := .object [("imports", .object (rs.map fun r => (r.key root, r.record root))),
        ("generated", .array (generated.map fun p => .text (root.relativeTo p)))]
      (build root results generated).toText = written.toText ∧
        Json.parse written.toText = .ok written := by
  have htext : ∀ results', results'.Perm results →
      (build root results' generated).toText = (build root results generated).toText := by
    intro results' hperm
    rw [toText, toText, toJson, toJson, imports_build_perm generated h hperm]
    rfl
  refine ⟨htext, ?_⟩
  obtain ⟨rs, hperm, hrs⟩ := exists_ascending h
  refine ⟨rs, hperm, List.pairwise_map.2 (hrs.imp Text.bytes_lt_iff.2), ?_⟩
  rw [← toJson_build generated hrs, ← htext rs hperm]
  exact ⟨rfl, Json.parse_toText (isPlain_toJson _)⟩

/-- Two scripts, whose names a comparison by halves of surrogate pairs would put the other way. -/
def wide : List FileResult :=
  [⟨⟨"build/𝒳.js"⟩, []⟩,
    ⟨⟨"build/ｚ.js"⟩, [⟨⟨"build/z.css"⟩, ⟨"build/z.css.proxy.js"⟩⟩]⟩]

theorem toText_build_wide :
    (wide.map (key ⟨"build"⟩)).Nodup ∧
      (build ⟨"build"⟩ wide.reverse []).toText = (build ⟨"build"⟩ wide []).toText := by
  have h : (wide.map (key ⟨"build"⟩)).Nodup := by decide +kernel
  exact ⟨h, (toText_build_perm [] h).1 _ wide.reverse_perm⟩

end Manifest

end SiteBuild
