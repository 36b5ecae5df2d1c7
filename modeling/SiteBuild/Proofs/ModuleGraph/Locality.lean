import Mathlib.Data.List.TakeWhile
import SiteBuild.Proofs.Embed.Splice
import SiteBuild.Proofs.Optimize.Confinement
import SiteBuild.Proofs.Path.Spelling

/-! Where specifiers lead. The embedding takes a specifier for a path of the file system, as seen from
the file that holds it; the graph of modules cuts off its query, takes what begins with a slash from the
root of the site, and leaves bare names and other hosts alone. So the two agree on some specifiers only. -/

namespace SiteBuild

variable {root file p : Path} {s : String} {w : List Char} {c : Component} {cs : List Component}

/-- A specifier that starts at the file that holds it. -/
def IsRelative (s : String) : Prop := "./".toList <+: s.toList ∨ "../".toList <+: s.toList

/-- A specifier that starts at the root of its site. -/
def IsRooted (s : String) : Prop := "/".toList <+: s.toList ∧ ¬"//".toList <+: s.toList

instance (s : String) : Decidable (IsRelative s) := inferInstanceAs (Decidable (_ ∨ _))

instance (s : String) : Decidable (IsRooted s) := inferInstanceAs (Decidable (_ ∧ _))

theorem not_isRelative_of_slash (h : "/".toList <+: s.toList) : ¬IsRelative s := by
  obtain ⟨r, hr⟩ := h
  simp [IsRelative, ← hr]

theorem dropQuery_eq_self (h : '?' ∉ s.toList) (h' : '#' ∉ s.toList) : dropQuery s = s := by
  have hall : ∀ c ∈ s.toList, (c ≠ '?' && c ≠ '#') = true := by
    intro c hc
    simp only [ne_eq, decide_not, Bool.and_eq_true, Bool.not_eq_true', decide_eq_false_iff_not]
    exact ⟨fun he => h (he ▸ hc), fun he => h' (he ▸ hc)⟩
  rw [dropQuery, List.takeWhile_eq_self_iff.2 hall, String.ofList_toList]

/-- A query stands behind what a specifier begins with. -/
theorem isPrefixOf_dropQuery (hw : (w.all fun c => c ≠ '?' && c ≠ '#') = true) (s : String) :
    w.isPrefixOf (dropQuery s).toList = w.isPrefixOf s.toList := by
  rw [Bool.eq_iff_iff, List.isPrefixOf_iff_prefix, List.isPrefixOf_iff_prefix, dropQuery,
    String.toList_ofList]
  constructor
  · exact fun h => h.trans (List.takeWhile_prefix _)
  · rintro ⟨r, hr⟩
    rw [← hr, List.takeWhile_append_of_pos (List.all_eq_true.1 hw)]
    exact List.prefix_append _ _

/-- Where the graph of modules takes a specifier to lead, by what it begins with. -/
theorem resolveLocal?_eq (root file : Path) (s : String) :
    resolveLocal? root file s =
      if IsRelative s then some (file.resolveFrom (dropQuery s))
      else if IsRooted s then some (root.join ⟨dropLeadingSlashes (dropQuery s)⟩).normalize
      else none := by
  have hremote : isRemote (dropQuery s) = isRemote s := by
    simp only [isRemote, List.any_cons, List.any_nil, Bool.or_false]
    rw [isPrefixOf_dropQuery (by decide), isPrefixOf_dropQuery (by decide),
      isPrefixOf_dropQuery (by decide)]
  have hslash := isPrefixOf_dropQuery (w := "/".toList) (by decide) s
  have hhere := isPrefixOf_dropQuery (w := "./".toList) (by decide) s
  have hup := isPrefixOf_dropQuery (w := "../".toList) (by decide) s
  unfold resolveLocal?
  simp only [hremote, hslash, hhere, hup, Bool.or_eq_true, List.isPrefixOf_iff_prefix]
  clear hslash hhere hup
  by_cases hslash : "/".toList <+: s.toList
  · -- of what begins with a slash, only that with a second one is another host's
    have hhost : isRemote s = true ↔ "//".toList <+: s.toList := by
      obtain ⟨r, hr⟩ := hslash
      simp [isRemote, ← hr, List.isPrefixOf_iff_prefix]
    simp only [hhost, hslash, if_neg (not_isRelative_of_slash hslash), IsRooted, true_and, ite_not]
    rfl
  · have hroot : ¬IsRooted s := fun h => hslash h.1
    by_cases hrel : IsRelative s
    · have hhost : isRemote s = false := by
        rcases hrel with ⟨r, hr⟩ | ⟨r, hr⟩ <;> simp [isRemote, ← hr, List.isPrefixOf]
      rw [if_neg (by simp [hhost]), if_neg hslash, if_pos hrel]
      exact if_pos hrel
    · rw [if_neg hrel, if_neg hroot, if_neg hslash]
      split
      · rfl
      · exact if_neg hrel

namespace Path

theorem mem_resolveStep {d : Component} {done : List Component} (h : c ∈ resolveStep done d) :
    c ∈ done ∨ c = d := by
  unfold resolveStep at h
  split at h
  · exact .inl h
  · exact .inr (List.mem_singleton.1 h)
  · exact (List.mem_cons.1 h).symm
  · exact .inl (List.mem_cons_of_mem _ h)
  · exact (List.mem_cons.1 h).symm

theorem mem_of_mem_resolve (h : c ∈ resolve cs) : c ∈ cs := by
  suffices hs : ∀ done, c ∈ cs.foldl resolveStep done → c ∈ done ∨ c ∈ cs by
    simpa using hs [] (List.mem_reverse.1 h)
  clear h
  induction cs with
  | nil => exact fun done => .inl
  | cons d cs ih =>
    intro done h
    rcases ih _ h with h | h
    · refine (mem_resolveStep h).imp id ?_
      rintro rfl
      exact List.mem_cons_self
    · exact .inr (List.mem_cons_of_mem _ h)

/-- No step leads out of the root. -/
theorem root_mem_resolveStep {d : Component} {done : List Component} (h : .root ∈ done) :
    .root ∈ resolveStep done d := by
  unfold resolveStep
  split
  · exact h
  · cases h
  · exact List.mem_cons_of_mem _ h
  · next hne =>
    refine (List.mem_cons.1 h).resolve_left ?_
    rintro rfl
    exact hne rfl
  · exact List.mem_cons_of_mem _ h

theorem root_mem_resolve (cs : List Component) : .root ∈ resolve (.root :: cs) := by
  suffices hs : ∀ done, .root ∈ done → .root ∈ cs.foldl resolveStep done from
    List.mem_reverse.2 (hs [.root] List.mem_cons_self)
  induction cs with
  | nil => exact fun done h => h
  | cons d cs ih => exact fun done h => ih _ (root_mem_resolveStep h)

end Path

/-- A specifier that the site and the file system take to one place: a relative one whose query leads
nowhere else, or one that leads to one place from the root of the site and from the top. -/
def LeadsAlike (root file : Path) (s : String) : Prop :=
  IsRelative s ∧ Path.resolve (file.directory.components ++ Path.levels (dropQuery s)) =
      Path.resolve (file.directory.components ++ Path.levels s) ∨
    IsRooted s ∧ Path.resolve (root.components ++ Path.levels (dropLeadingSlashes (dropQuery s))) =
      Path.resolve (.root :: Path.levels s)

/-- Relative specifiers without a query lead alike. -/
theorem leadsAlike_of_isRelative (h : IsRelative s) (hq : '?' ∉ s.toList) (hf : '#' ∉ s.toList) :
    LeadsAlike root file s :=
  .inl ⟨h, by rw [dropQuery_eq_self hq hf]⟩

/-- What begins with a slash leads out of a site whose root is spelled by a relative path. -/
theorem not_leadsAlike_of_isRooted (hr : .root ∉ root.components) (h : IsRooted s) :
    ¬LeadsAlike root file s := by
  rintro (⟨hrel, -⟩ | ⟨-, he⟩)
  · exact not_isRelative_of_slash h.1 hrel
  · have hroot := Path.root_mem_resolve (Path.levels s)
    rw [← he] at hroot
    rcases List.mem_append.1 (Path.mem_of_mem_resolve hroot) with hmem | hmem
    · exact hr hmem
    · exact Path.not_isLevel_root (Path.isLevel_of_mem_levels hmem)

theorem isAbsolute_iff : Path.isAbsolute ⟨s⟩ = true ↔ "/".toList <+: s.toList := by
  unfold Path.isAbsolute
  cases s.toList with
  | nil => simp
  | cons c w => simp [eq_comm]

theorem isAbsolute_eq_false (h : ¬"/".toList <+: s.toList) : Path.isAbsolute ⟨s⟩ = false :=
  Bool.eq_false_iff.2 fun ha => h (isAbsolute_iff.1 ha)

theorem isAbsolute_dropLeadingSlashes (s : String) :
    Path.isAbsolute ⟨dropLeadingSlashes s⟩ = false := by
  have hhead := List.head?_dropWhile_not (fun c => c = '/' || c = '\\') s.toList
  unfold Path.isAbsolute dropLeadingSlashes
  simp only [String.toList_ofList]
  split at hhead
  · next c hc =>
    rw [hc]
    simpa using fun he => absurd hhead (by simp [he])
  · next hn => simp [hn]

/-- Where the graph and the embedding take a specifier is one place just if it leads alike. -/
theorem resolveLocal?_eq_resolveFrom_iff :
    resolveLocal? root file s = some (file.resolveFrom s) ↔ LeadsAlike root file s := by
  rw [resolveLocal?_eq]
  by_cases hrel : IsRelative s
  · have hslash : ¬"/".toList <+: s.toList := fun h => not_isRelative_of_slash h hrel
    have hcut : ¬"/".toList <+: (dropQuery s).toList := by
      rw [← List.isPrefixOf_iff_prefix, isPrefixOf_dropQuery (by decide),
        List.isPrefixOf_iff_prefix]
      exact hslash
    simp only [hrel, LeadsAlike, IsRooted, hslash, if_true, true_and, false_and, or_false,
      Option.some.injEq]
    unfold Path.resolveFrom
    rw [Path.normalize_eq_iff, Path.resolve_join (isAbsolute_eq_false hcut),
      Path.resolve_join (isAbsolute_eq_false hslash)]
    exact Iff.rfl
  · simp only [hrel, LeadsAlike, if_false, false_and, false_or]
    by_cases hroot : IsRooted s
    · have habs : Path.isAbsolute ⟨s⟩ = true := isAbsolute_iff.2 hroot.1
      have hjoin : file.resolveFrom s = Path.normalize ⟨s⟩ := by
        simp [Path.resolveFrom, Path.join, habs]
      simp only [hroot, if_true, true_and, Option.some.injEq]
      rw [hjoin, Path.normalize_eq_iff, Path.resolve_join (isAbsolute_dropLeadingSlashes _),
        Path.components_of_isAbsolute habs]
    · simp [hroot]

namespace Script

/-- The specifiers of the imports that an embedding takes out of a module. -/
def Module.embedded (f : Path → Except IoError String) (n : Naming) (file : Path) (m : Module) :
    List String :=
  ((m.proxyImports n).filter fun x => !Embed.lacksMap f n file x.2).map fun x =>
    String.ofList x.2.specifier

end Script

/-- An embedding takes all specifiers to the files that the graph of modules takes them to, just if each
of them leads alike. -/
theorem Embedded.takes_alike_iff {f : Path → Except IoError String} {n : Naming} {code : String}
    {e : Embedded} (h : ofCode f n file code = .ok e) :
    ∃ m, Script.Module.read? code.toList = some m ∧
      e.imports = (m.embedded f n file).map (Embed.entryOf n file) ∧
      ((∀ s ∈ m.embedded f n file,
          resolveLocal? root file s = some (Embed.entryOf n file s).proxy) ↔
        ∀ s ∈ m.embedded f n file, LeadsAlike root file s) := by
  unfold ofCode at h
  split at h
  · cases h
  · next m hm =>
    obtain ⟨es, hes⟩ := exists_isSplice hm (eq_ok_of_mapError h)
    refine ⟨m, hm, ?_, forall₂_congr fun s _ => ?_⟩
    · rw [hes.imports_eq, Script.Module.embedded, ← hes.records]
      simp [Function.comp_def]
    · rw [Embed.proxy_entryOf, resolveLocal?_eq_resolveFrom_iff]

open Report in
/-- Whether an embedding leads alike can be told of a script with a rooted specifier. -/
theorem Embedded.takes_alike_vendored_iff :
    ofCode Vendored.tree.read {} Vendored.script Vendored.text = .ok ⟨Vendored.entries, ""⟩ ∧
      ∃ m, Script.Module.read? Vendored.text.toList = some m ∧
        Vendored.entries = (m.embedded Vendored.tree.read {} Vendored.script).map
          (Embed.entryOf {} Vendored.script) ∧
        ((∀ s ∈ m.embedded Vendored.tree.read {} Vendored.script,
            resolveLocal? Vendored.request.root Vendored.script s =
              some (Embed.entryOf {} Vendored.script s).proxy) ↔
          ∀ s ∈ m.embedded Vendored.tree.read {} Vendored.script,
            LeadsAlike Vendored.request.root Vendored.script s) :=
  ⟨Vendored.embedded, takes_alike_iff Vendored.embedded⟩

open Report in
/-- A rooted specifier is embedded, and led out of the site, where the graph takes it into the site. -/
theorem Embedded.takes_rooted_out :
    ofCode Vendored.tree.read {} Vendored.script Vendored.text = .ok ⟨Vendored.entries, ""⟩ ∧
      Vendored.request.root.Within Vendored.script ∧
      ∃ m, Script.Module.read? Vendored.text.toList = some m ∧
        "/b.css.proxy.js" ∈ m.embedded Vendored.tree.read {} Vendored.script ∧
        resolveLocal? Vendored.request.root Vendored.script "/b.css.proxy.js" =
          some ⟨"build/b.css.proxy.js"⟩ ∧
        (Embed.entryOf {} Vendored.script "/b.css.proxy.js").proxy = ⟨"/b.css.proxy.js"⟩ ∧
        LeadsAlike Vendored.request.root Vendored.script "./vendor/a.css.proxy.js" ∧
        ¬LeadsAlike Vendored.request.root Vendored.script "/b.css.proxy.js" := by
  have hread : Script.Module.read? Vendored.text.toList = some (Script.Line.module Vendored.lines) := by
    rw [Vendored.text, String.toList_ofList]
    exact Script.Line.read?_print Vendored.tree_values.1
  have hvalues : Vendored.request.root.Within Vendored.script ∧
      "/b.css.proxy.js" ∈ (Script.Line.module Vendored.lines).embedded Vendored.tree.read {}
        Vendored.script ∧
      resolveLocal? Vendored.request.root Vendored.script "/b.css.proxy.js" =
        some ⟨"build/b.css.proxy.js"⟩ ∧
      (Embed.entryOf {} Vendored.script "/b.css.proxy.js").proxy = ⟨"/b.css.proxy.js"⟩ := by
    decide +kernel
  obtain ⟨hin, hmem, hgraph, hembed⟩ := hvalues
  exact ⟨Vendored.embedded, hin, _, hread, hmem, hgraph, hembed,
    leadsAlike_of_isRelative (by decide) (by decide) (by decide),
    not_leadsAlike_of_isRooted (by decide) (by decide)⟩

end SiteBuild
