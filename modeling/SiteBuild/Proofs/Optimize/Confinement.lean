import SiteBuild.Proofs.Optimize.Exclusion
import SiteBuild.Proofs.Path.Spelling

/-! What a run touches. Everything that it writes lies in the build directory. What it removes is named
by specifiers, and these may lead anywhere. -/

namespace SiteBuild

open FileTree

variable {o : Outages} {t : FileTree} {p q root : Path} {m : Minifier} {r : Request} {s : Survey}

namespace Path

/-- A path that lies in a directory, or is that directory, once every `..` is resolved. -/
def Within (root p : Path) : Prop := resolve root.components <+: resolve p.components

instance (root p : Path) : Decidable (root.Within p) :=
  inferInstanceAs (Decidable (resolve root.components <+: resolve p.components))

theorem Within.append_names {n : List String} (h : root.Within p)
    (hq : q.components = p.components ++ n.map .name) : root.Within q := by
  unfold Within
  rw [hq, resolve_append_names]
  exact h.trans (List.prefix_append _ _)

theorem within_below {names : Place} (h : ∀ n ∈ names, IsFileName n) :
    p.Within (p.below names) :=
  Within.append_names (p := p) (List.prefix_refl _) (components_below p h)

theorem join_text_ne_empty (hp : p.text ≠ "") : (p.join q).text ≠ "" := by
  by_cases hq : q.text = ""
  · have ha : q.isAbsolute = false := by simp [isAbsolute, hq]
    obtain ⟨s, hs, -⟩ := exists_text_join hp ha
    intro h
    simp [h] at hs
  · exact text_join_ne_empty hq

end Path

/-- The manifest lies where the metadata lies. -/
theorem Request.within_manifestPath (hr : r.root.text ≠ "")
    (h : r.root.Within (r.root.join r.metaDirectory)) : r.root.Within r.manifestPath := by
  have hlevel : Path.IsLevel (.name "optimize-manifest.json") := ⟨by decide, by decide⟩
  have hc := Path.components_join_level (p := r.root.join r.metaDirectory)
    (Path.join_text_ne_empty hr) hlevel
  exact Path.Within.append_names (n := ["optimize-manifest.json"]) h hc

/-- All files of a survey lie in the build directory. -/
theorem Survey.within_of_mem (h : ((ofRequest r).attempt.run o t).result = .ok s)
    (hp : p ∈ s.files) : r.root.Within p := by
  obtain ⟨patterns, ps, -, hl, hfiles⟩ := Job.scan_eq (scan_of_ofRequest h)
  obtain ⟨k, x, hk, rfl, hfind⟩ := list_eq hl
  rw [hfiles] at hp
  obtain ⟨names, hn, rfl⟩ := List.mem_map.1 (List.mem_filter.1 hp).1
  obtain ⟨b, hb⟩ := hfind names hn
  have hnode : t.node? (k ++ names) ≠ none := by simp [(find_eq_file.1 hb).2.1]
  exact Path.within_below fun n => isFileName_of_mem hnode

theorem Survey.root_ne_empty (h : ((ofRequest r).attempt.run o t).result = .ok s) :
    r.root.text ≠ "" := by
  obtain ⟨patterns, ps, -, hl, -⟩ := Job.scan_eq (scan_of_ofRequest h)
  obtain ⟨k, x, hk, -⟩ := list_eq hl
  exact text_ne_empty_of_find hk

namespace Run

variable {α : Type}

/-- A run asks for a file to be written, whatever the answer. -/
def Writes (x : Run α) (p : Path) : Prop := ∃ text a, ⟨.write p text, a⟩ ∈ x.exchanges

/-- A run asks for a file to be removed, whatever the answer. -/
def Removes (x : Run α) (p : Path) : Prop := ∃ a, ⟨.remove p, a⟩ ∈ x.exchanges

end Run

namespace Report

/-- What a run writes lies in the build directory, if the generated files do. -/
theorem within_of_writes (hmeta : r.root.Within (r.root.join r.metaDirectory))
    (hcombined : r.root.Within r.combinedPath)
    (h : ((ofRequest m r).attempt.run o t).Writes p) : r.root.Within p := by
  obtain ⟨text, a, hx⟩ := h
  obtain ⟨s, hs, hp | rfl | rfl⟩ := mem_exchanges_write hx
  · exact Survey.within_of_mem hs hp
  · exact hcombined
  · exact Request.within_manifestPath (Survey.root_ne_empty hs) hmeta

/-- A run stays in the build directory just if all embedded stylesheets and proxies that it comes to
remove lie there. -/
theorem stays_within_iff (hmeta : r.root.Within (r.root.join r.metaDirectory))
    (hcombined : r.root.Within r.combinedPath) :
    (∀ p, ((ofRequest m r).attempt.run o t).Writes p ∨ ((ofRequest m r).attempt.run o t).Removes p →
      r.root.Within p) ↔
    ∀ rs t', Reaches m r o t rs t' → ∀ e ∈ rs.flatMap FileResult.css, ∀ q, e.Has q →
      ((ofRequest m r).attempt.run o t).Removes q → r.root.Within q := by
  constructor
  · exact fun h _ _ _ _ _ q _ hq => h q (.inr hq)
  · rintro h p (hp | ⟨a, hp⟩)
    · exact within_of_writes hmeta hcombined hp
    · obtain ⟨rs, t', hreach, e, he, hpe⟩ := mem_exchanges_remove hp
      exact h rs t' hreach e he p hpe ⟨a, hp⟩

/-- Whether a run stays in the build directory can be told where a script imports from outside. -/
theorem stays_within_vendored_iff :
    Vendored.request.root.Within (Vendored.request.root.join Vendored.request.metaDirectory) ∧
    Vendored.request.root.Within Vendored.request.combinedPath ∧
    ((∀ p, ((ofRequest Vendored.minifier Vendored.request).attempt.run {} Vendored.tree).Writes p ∨
        ((ofRequest Vendored.minifier Vendored.request).attempt.run {} Vendored.tree).Removes p →
        Vendored.request.root.Within p) ↔
      ∀ rs t', Reaches Vendored.minifier Vendored.request {} Vendored.tree rs t' →
        ∀ e ∈ rs.flatMap FileResult.css, ∀ q, e.Has q →
          ((ofRequest Vendored.minifier Vendored.request).attempt.run {} Vendored.tree).Removes q →
          Vendored.request.root.Within q) := by
  have hmeta : Vendored.request.root.Within
      (Vendored.request.root.join Vendored.request.metaDirectory) := by decide +kernel
  have hcombined : Vendored.request.root.Within Vendored.request.combinedPath := by decide +kernel
  exact ⟨hmeta, hcombined, stays_within_iff hmeta hcombined⟩

/-- A run on a directory asks for a file at the top of the file system to be removed. -/
theorem removes_outside :
    Vendored.request.root.components = [.name "build"] ∧
    Vendored.request.root.Within (Vendored.request.root.join Vendored.request.metaDirectory) ∧
    Vendored.request.root.Within Vendored.request.combinedPath ∧
    ((ofRequest Vendored.minifier Vendored.request).attempt.run {} Vendored.tree).Removes ⟨"/b.css"⟩ ∧
    ¬Vendored.request.root.Within ⟨"/b.css"⟩ := by
  have hvalues : Vendored.request.root.components = [.name "build"] ∧
      Vendored.request.root.Within (Vendored.request.root.join Vendored.request.metaDirectory) ∧
      Vendored.request.root.Within Vendored.request.combinedPath ∧
      ¬Vendored.request.root.Within ⟨"/b.css"⟩ ∧
      Vendored.concluded.exchanges.any (fun x => decide (x.1 = .remove ⟨"/b.css"⟩)) = true := by
    decide +kernel
  obtain ⟨hroot, hmeta, hcombined, hout, hany⟩ := hvalues
  obtain ⟨⟨c, a⟩, hx, hc⟩ := List.any_eq_true.1 hany
  obtain rfl : c = .remove ⟨"/b.css"⟩ := by simpa using hc
  exact ⟨hroot, hmeta, hcombined, ⟨a, Vendored.run_ofRequest.2 _ hx⟩, hout⟩

end Report

end SiteBuild
