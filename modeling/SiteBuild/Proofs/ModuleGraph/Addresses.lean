import SiteBuild.Page.Preload
import SiteBuild.Proofs.ModuleGraph.Files
import SiteBuild.Proofs.ModuleGraph.Locality

/-! The addresses of a site's files. An address is spelled by the names of a file below the root, and is read
as a specifier, of which a query or a fragment is cut off and leading backslashes are taken for slashes. So
it leads back to its file just if its names are spelled without such signs. -/

namespace SiteBuild

variable {root file page p q m : Path} {n : Naming} {s : String} {names : Place} {c : Component}
  {cs ds : List Component}

namespace Path

/-- A path of names, which may start at the root of the file system. -/
def IsStraight (p : Path) : Prop := ∀ c ∈ p.components, c ≠ .here ∧ c ≠ .up

instance (p : Path) : Decidable p.IsStraight := inferInstanceAs (Decidable (∀ c ∈ p.components, _))

theorem resolveStep_straight (hc : c ≠ .here ∧ c ≠ .up) : resolveStep cs c = c :: cs := by
  cases c with
  | root => cases cs <;> rfl
  | name s => exact resolveStep_name cs s
  | here => exact absurd rfl hc.1
  | up => exact absurd rfl hc.2

theorem IsStraight.resolve_eq (h : p.IsStraight) : resolve p.components = p.components := by
  suffices hs : ∀ cs : List Component, (∀ c ∈ cs, c ≠ .here ∧ c ≠ .up) → ∀ done,
      cs.foldl resolveStep done = cs.reverse ++ done by
    simpa [resolve] using congrArg List.reverse (hs p.components h [])
  intro cs hcs
  induction cs with
  | nil => exact fun done => rfl
  | cons c cs ih =>
    obtain ⟨hc, hcs⟩ := List.forall_mem_cons.1 hcs
    intro done
    rw [List.foldl_cons, resolveStep_straight hc, ih hcs]
    simp

/-! ### How much names come to -/

end Path

/-- The length of a name. -/
def Component.nameLength : Component → Nat
  | .name s => s.toList.length
  | _ => 0

namespace Path

/-- The length of the names of components in all. -/
def extent : List Component → Nat
  | [] => 0
  | c :: cs => c.nameLength + extent cs

@[simp] theorem extent_nil : extent [] = 0 := rfl

@[simp] theorem extent_cons (c : Component) (cs : List Component) :
    extent (c :: cs) = c.nameLength + extent cs := rfl

@[simp] theorem extent_append (cs ds : List Component) : extent (cs ++ ds) = extent cs + extent ds := by
  induction cs with
  | nil => simp
  | cons c cs ih => simp [ih, Nat.add_assoc]

@[simp] theorem extent_reverse (cs : List Component) : extent cs.reverse = extent cs := by
  induction cs with
  | nil => rfl
  | cons c cs ih => simp [ih, Nat.add_comm]

theorem extent_resolveStep_le (done : List Component) (c : Component) :
    extent (resolveStep done c) ≤ extent done + c.nameLength := by
  unfold resolveStep
  split
  · exact Nat.le_add_right _ _
  all_goals
    simp only [extent_cons, extent_nil, Component.nameLength]
    omega

/-- To resolve components makes no names. -/
theorem extent_resolve_le (cs : List Component) : extent (resolve cs) ≤ extent cs := by
  suffices hs : ∀ done, extent (cs.foldl resolveStep done) ≤ extent done + extent cs by
    simpa [resolve] using hs []
  induction cs with
  | nil => exact fun done => Nat.le_refl _
  | cons c cs ih =>
    intro done
    have hstep := extent_resolveStep_le done c
    have h := ih (resolveStep done c)
    rw [List.foldl_cons, extent_cons]
    omega

theorem length_flatten_segments (s : List Char) :
    (segments s).flatten.length = s.countP (· ≠ '/') := by
  rw [segments, Text.flatten_splitOn, List.countP_eq_length_filter]

theorem extent_filterMap_le (ss : List (List Char)) :
    extent (ss.filterMap component?) ≤ ss.flatten.length := by
  induction ss with
  | nil => exact Nat.le_refl 0
  | cons s ss ih =>
    rw [List.flatten_cons, List.length_append]
    cases hs : component? s with
    | none =>
      rw [List.filterMap_cons_none hs]
      omega
    | some c =>
      have hc : c.nameLength ≤ s.length := by
        have htext := text_of_component? hs
        cases c with
        | name n => simp [Component.nameLength, ← htext, Component.text]
        | root => exact Nat.zero_le _
        | here => exact Nat.zero_le _
        | up => exact Nat.zero_le _
      rw [List.filterMap_cons_some hs, extent_cons]
      omega

/-- A text names no more than it holds characters that are no slashes. -/
theorem extent_levels_le (s : String) : extent (levels s) ≤ s.toList.countP (· ≠ '/') := by
  rw [← length_flatten_segments]
  exact extent_filterMap_le _

/-- Names spelled one after the other are just these characters. -/
theorem extent_names (h : ∀ n ∈ names, IsFileName n) (hne : names ≠ []) :
    extent (names.map .name) = ("/".intercalate names).toList.countP (· ≠ '/') := by
  have hlength (names : Place) : extent (names.map .name) = (names.map String.toList).flatten.length := by
    induction names with
    | nil => rfl
    | cons n names ih => simp [ih, Component.nameLength]
  rw [← length_flatten_segments, segments_names (fun n hn => (h n hn).2.1) hne, hlength]

end Path

/-! ### Where addresses lead -/

/-- Whether all of an address counts where it is read as a specifier. -/
def ReadsWhole (s : String) : Prop := '?' ∉ s.toList ∧ '#' ∉ s.toList ∧ ¬"/\\".toList <+: s.toList

instance (s : String) : Decidable (ReadsWhole s) := inferInstanceAs (Decidable (_ ∧ _ ∧ _))

theorem all_of_countP_takeWhile {α : Type} {f g : α → Bool} {l : List α} (hfg : ∀ a, g a = false → f a = true)
    (h : l.countP f ≤ (l.takeWhile g).countP f) : ∀ a ∈ l, g a = true := by
  induction l with
  | nil => simp
  | cons a l ih =>
    by_cases ha : g a = true
    · rw [List.takeWhile_cons_of_pos ha, List.countP_cons, List.countP_cons] at h
      exact List.forall_mem_cons.2 ⟨ha, ih (by omega)⟩
    · rw [List.takeWhile_cons_of_neg ha, List.countP_cons_of_pos (hfg a (by simpa using ha))] at h
      simp at h

/-- Where all characters but slashes are kept, nothing is cut off but a row of slashes in front. -/
theorem readsWhole_of_countP_le (h : s.toList.countP (· ≠ '/') ≤
    (dropLeadingSlashes (dropQuery s)).toList.countP (· ≠ '/')) : ReadsWhole s := by
  simp only [dropLeadingSlashes, dropQuery, String.toList_ofList] at h
  have hall : ∀ c ∈ s.toList, (c ≠ '?' && c ≠ '#') = true := by
    refine all_of_countP_takeWhile (f := (· ≠ '/')) (fun c hc => ?_)
      (h.trans ((List.dropWhile_sublist _).countP_le))
    have hc : c = '?' ∨ c = '#' := by simpa [or_iff_not_imp_left] using hc
    rcases hc with rfl | rfl <;> rfl
  rw [List.takeWhile_eq_self_iff.2 hall] at h
  refine ⟨fun hc => by simpa using hall _ hc, fun hc => by simpa using hall _ hc, ?_⟩
  rintro ⟨r, hr⟩
  -- the backslash is dropped, though it is no slash
  have hs : s.toList = '/' :: '\\' :: r := hr.symm
  have hle : (r.dropWhile fun c => c = '/' || c = '\\').countP (· ≠ '/') ≤ r.countP (· ≠ '/') :=
    (List.dropWhile_sublist _).countP_le
  rw [hs] at h
  simp at h hle
  omega

theorem Path.exists_intercalate_eq_cons (hnames : ∀ n ∈ names, IsFileName n) (hne : names ≠ []) :
    ∃ c w, ("/".intercalate names).toList = c :: w ∧ c ≠ '/' := by
  obtain ⟨n, rest, rfl⟩ := List.exists_cons_of_ne_nil hne
  have hn := hnames n List.mem_cons_self
  obtain ⟨c, w, hw⟩ := List.exists_cons_of_ne_nil (isLevel_name hn).text_ne_nil
  have hw : n.toList = c :: w := hw
  have hc : c ≠ '/' := fun he => hn.2.1 (by simp [hw, he])
  rw [String.toList_intercalate]
  cases rest with
  | nil => exact ⟨c, w, by simp [hw], hc⟩
  | cons m rest => exact ⟨c, _, by rw [List.map_cons, List.map_cons, List.intercalate_cons_cons, hw]; rfl, hc⟩

/-- A file below the root has an address that leads back to it just if all of the address counts. -/
theorem resolveLocal?_urlFrom_iff (hroot : root.IsStraight) (hne : names ≠ [])
    (hnames : ∀ n ∈ names, IsFileName n) (hm : q.normalize.components = root.components ++ names.map .name)
    (page : Path) :
    resolveLocal? root page (root.urlFrom q.normalize) = some q.normalize ↔
      ReadsWhole (root.urlFrom q.normalize) := by
  have hurl : (root.urlFrom q.normalize).toList = '/' :: ("/".intercalate names).toList := by
    rw [Path.urlFrom, Path.relativeTo_of_components hm, String.toList_append]
    rfl
  obtain ⟨c, w, hw, hc⟩ := Path.exists_intercalate_eq_cons hnames hne
  generalize root.urlFrom q.normalize = url at hurl ⊢
  have hrooted : IsRooted url := by
    rw [IsRooted, hurl, hw]
    simpa using Ne.symm hc
  have hleads : resolveLocal? root page url = some q.normalize ↔
      Path.resolve (root.components ++ Path.levels (dropLeadingSlashes (dropQuery url))) =
        root.components ++ names.map .name := by
    rw [resolveLocal?_eq, if_neg (not_isRelative_of_slash hrooted.1), if_pos hrooted, Option.some.injEq,
      Path.normalize_eq_iff, Path.resolve_join (isAbsolute_dropLeadingSlashes _), ← hm,
      Path.components_normalize]
  rw [hleads]
  constructor
  · intro h
    -- what is read names no less than the file's names come to
    have hle := Path.extent_resolve_le
      (root.components ++ Path.levels (dropLeadingSlashes (dropQuery url)))
    have hread := Path.extent_levels_le (dropLeadingSlashes (dropQuery url))
    have hspelled := Path.extent_names hnames hne
    rw [h, Path.extent_append, Path.extent_append] at hle
    refine readsWhole_of_countP_le ?_
    rw [hurl, List.countP_cons_of_neg (by simp)]
    omega
  · rintro ⟨hquery, hfragment, hback⟩
    have hc' : c ≠ '\\' := by
      rintro rfl
      exact hback ⟨w, by rw [hurl, hw]; rfl⟩
    have hdrop : dropLeadingSlashes url = "/".intercalate names := by
      rw [dropLeadingSlashes, hurl, hw, List.dropWhile_cons_of_pos (by simp),
        List.dropWhile_cons_of_neg (by simp [hc, hc']), ← hw, String.ofList_toList]
    rw [dropQuery_eq_self hquery hfragment, hdrop, Path.levels, Path.components_of_names hnames,
      Path.resolve_append_names, hroot.resolve_eq]

namespace ModuleGraph

variable {entries : List Path} {readings : List Reading}

/-- What is found is spelled as a specifier is resolved, and is one of the files. -/
theorem exists_normalize_of_mem_preloadList (h : p ∈ (ofReadings root n readings).preloadList entries) :
    (∃ q : Path, p = q.normalize) ∧ p.IsAmong (readings.map Reading.file) := by
  obtain ⟨before, behind, h⟩ := List.append_of_mem h
  obtain ⟨q, -, hloads⟩ := exists_loads_of_visit _ entries entries before p behind h
  unfold Loads at hloads
  cases hedges : (ofReadings root n readings).edges? q with
  | none => simp [hedges] at hloads
  | some found =>
    rw [hedges] at hloads
    obtain ⟨e, he, hp⟩ := List.mem_flatMap.1 (mem_allTargets_of_edges? hedges hloads)
    obtain ⟨r, -, hr⟩ := List.mem_filterMap.1 he
    split at hr
    · cases hr
    · obtain ⟨m, -, rfl⟩ := Option.map_eq_some_iff.1 hr
      obtain ⟨d, -, -, hlocal, hamong⟩ := mem_targets.1 hp
      exact ⟨exists_normalize_of_resolveLocal? hlocal, hamong⟩

/-- The hints of a page have different addresses, each that of a file of the site. An address leads back to
its file just if all of it counts. -/
theorem preloadModules_leadsBack_iff (hroot : root.IsStraight) (n : Naming)
    (hfiles : ∀ r ∈ readings, ∃ names : Place, names ≠ [] ∧ (∀ n ∈ names, IsFileName n) ∧
      r.file = root.below names) (page : Path) (text : String) :
    let g := ofReadings root n readings
    let modules := g.preloadList (Page.moduleEntries root page text)
    let addresses := modules.map root.urlFrom
    Page.preloadModules g page text = (if modules.isEmpty then text
        else Page.inject (String.join (addresses.map Page.preloadLink)) text) ∧
      addresses.Nodup ∧ ∀ m ∈ modules, m.IsAmong (readings.map Reading.file) ∧
        (resolveLocal? root page (root.urlFrom m) = some m ↔ ReadsWhole (root.urlFrom m)) := by
  intro g modules addresses
  have hmodules : ∀ m ∈ modules, ∃ q : Path, ∃ names : Place, m = q.normalize ∧ names ≠ [] ∧
      (∀ n ∈ names, IsFileName n) ∧ m.components = root.components ++ names.map .name := by
    intro m hm
    obtain ⟨⟨q, hq⟩, f, hf, hs⟩ := exists_normalize_of_mem_preloadList hm
    obtain ⟨r, hr, rfl⟩ := List.mem_map.1 hf
    obtain ⟨names, hne, hnames, he⟩ := hfiles r hr
    rw [he, Path.same_eq_true, Path.components_below root hnames] at hs
    exact ⟨q, names, hq, hne, hnames, hs⟩
  refine ⟨?_, ?_, fun m hm => ⟨(exists_normalize_of_mem_preloadList hm).2, ?_⟩⟩
  · simp only [Page.preloadModules, Page.preloadLinks, addresses, List.map_map]
    rfl
  · have hpair : modules.Pairwise fun p q => ¬q.same p = true := (visit_pairwise g _ _).1
    refine List.pairwise_map.2 (hpair.imp_of_mem fun {a b} ha hb hab he => hab ?_)
    obtain ⟨-, ms, -, -, hms, hma⟩ := hmodules a ha
    obtain ⟨-, ns, -, -, hns, hnb⟩ := hmodules b hb
    have hnames : "/".intercalate ms = "/".intercalate ns := by
      simpa [Path.urlFrom, Path.relativeTo_of_components hma, Path.relativeTo_of_components hnb] using he
    rw [Path.same_eq_true, hma, hnb, Path.names_inj hms hns hnames]
  · obtain ⟨q, names, rfl, hne, hnames, hcomp⟩ := hmodules m hm
    exact resolveLocal?_urlFrom_iff hroot hne hnames hcomp page

/-! A site with a directory that holds a page and two scripts, one of which loads the other. -/

namespace Hinted

def base : Path := ⟨"build"⟩

def fileIn (directory name : String) : Path := base.below [directory, name]

def lines : List Script.Line := [.import .nothing "./dep.js".toList]

def filesIn (directory : String) : List Reading :=
  [⟨fileIn directory "app.js", .ok (String.ofList (lines.flatMap Script.Line.print))⟩,
    ⟨fileIn directory "dep.js", .ok ""⟩]

def graph (directory : String) : ModuleGraph :=
  ⟨base, [(fileIn directory "app.js", [fileIn directory "dep.js"]), (fileIn directory "dep.js", [])]⟩

def pageText : String := "<script type=module src=\"app.js\"></script>"

theorem exists_names {directory : String} (h : IsFileName directory) :
    ∀ r ∈ filesIn directory, ∃ names : Place, names ≠ [] ∧ (∀ n ∈ names, IsFileName n) ∧
      r.file = base.below names := by
  have hnames : IsFileName "app.js" ∧ IsFileName "dep.js" := by decide +kernel
  simp only [filesIn, fileIn, List.forall_mem_cons, List.not_mem_nil, false_imp_iff, implies_true,
    and_true]
  exact ⟨⟨_, by simp, by simpa using ⟨h, hnames.1⟩, rfl⟩, ⟨_, by simp, by simpa using ⟨h, hnames.2⟩, rfl⟩⟩

theorem ofReadings_filesIn {directory : String}
    (h : targets base ((filesIn directory).map Reading.file) {} (fileIn directory "app.js")
      (Script.Line.module lines) = [fileIn directory "dep.js"]) :
    ofReadings base {} (filesIn directory) = graph directory := by
  have happ : Script.Module.read? (String.ofList (lines.flatMap Script.Line.print)).toList =
      some (Script.Line.module lines) := by
    rw [String.toList_ofList]
    exact Script.Line.read?_print (by decide +kernel)
  have hdep : Script.Module.read? "".toList = some (Script.Line.module []) :=
    @Script.Line.read?_print [] (by simp)
  simp only [ofReadings, filesIn, List.filterMap_cons, List.filterMap_nil, happ, hdep, Option.map_some]
  rw [graph, ← h]
  rfl

theorem preloadList_graph {directory : String}
    (happ : discover [fileIn directory "app.js"]
      (((graph directory).edges? (fileIn directory "app.js")).getD []) = [fileIn directory "dep.js"])
    (hdep : discover [fileIn directory "dep.js", fileIn directory "app.js"]
      (((graph directory).edges? (fileIn directory "dep.js")).getD []) = []) :
    (graph directory).preloadList [fileIn directory "app.js"] = [fileIn directory "dep.js"] := by
  simp [preloadList, visit, happ, hdep]

end Hinted

open Hinted in
/-- A hint for a module in a directory with a plain name leads back to it. -/
theorem preloadModules_leadsBack_plain :
    base.IsStraight ∧ (∀ r ∈ filesIn "js", ∃ names : Place, names ≠ [] ∧ (∀ n ∈ names, IsFileName n) ∧
      r.file = base.below names) ∧
    (ofReadings base {} (filesIn "js")).preloadList
      (Page.moduleEntries base ⟨"build/js/index.html"⟩ pageText) = [⟨"build/js/dep.js"⟩] ∧
    resolveLocal? base ⟨"build/js/index.html"⟩ (base.urlFrom ⟨"build/js/dep.js"⟩) =
      some ⟨"build/js/dep.js"⟩ := by
  have hbase : base.IsStraight := by decide +kernel
  have hname : IsFileName "js" := by decide +kernel
  have hfiles := exists_names hname
  have hentries : Page.moduleEntries base ⟨"build/js/index.html"⟩ pageText = [fileIn "js" "app.js"] := by
    decide +kernel
  have hmodules : (ofReadings base {} (filesIn "js")).preloadList
      (Page.moduleEntries base ⟨"build/js/index.html"⟩ pageText) = [⟨"build/js/dep.js"⟩] := by
    rw [ofReadings_filesIn (by decide +kernel), hentries,
      preloadList_graph (by decide +kernel) (by decide +kernel)]
    decide +kernel
  have hall := (preloadModules_leadsBack_iff hbase {} hfiles ⟨"build/js/index.html"⟩ pageText).2.2
  refine ⟨hbase, hfiles, hmodules, (hall ⟨"build/js/dep.js"⟩ ?_).2.2 (by decide +kernel)⟩
  rw [hmodules]
  exact List.mem_singleton_self _

open Hinted in
/-- A hint for a module in a directory whose name holds a number sign leads to what stands in front of the
sign, where there is no file. -/
theorem preloadModules_leads_astray :
    base.IsStraight ∧ (∀ r ∈ filesIn "a#b", ∃ names : Place, names ≠ [] ∧ (∀ n ∈ names, IsFileName n) ∧
      r.file = base.below names) ∧
    (ofReadings base {} (filesIn "a#b")).preloadList
      (Page.moduleEntries base ⟨"build/a#b/index.html"⟩ pageText) = [⟨"build/a#b/dep.js"⟩] ∧
    base.urlFrom ⟨"build/a#b/dep.js"⟩ = "/a#b/dep.js" ∧
    resolveLocal? base ⟨"build/a#b/index.html"⟩ "/a#b/dep.js" = some ⟨"build/a"⟩ := by
  have hentries : Page.moduleEntries base ⟨"build/a#b/index.html"⟩ pageText = [fileIn "a#b" "app.js"] := by
    decide +kernel
  refine ⟨by decide +kernel, exists_names (by decide +kernel), ?_, by decide +kernel, by decide +kernel⟩
  rw [ofReadings_filesIn (by decide +kernel), hentries,
    preloadList_graph (by decide +kernel) (by decide +kernel)]
  decide +kernel

end ModuleGraph

end SiteBuild
