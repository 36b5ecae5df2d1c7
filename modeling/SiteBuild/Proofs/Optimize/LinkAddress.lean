import SiteBuild.Optimize.File
import SiteBuild.Proofs.ModuleGraph.Addresses
import SiteBuild.Proofs.Page.Entries

/-! Where the link to the combined stylesheet leads. The stylesheet is written below the root of the build,
however its name is spelled, but the link has the name as it is: a name without a slash in front is seen
from the page, so that it leads to another place from each depth. -/

namespace SiteBuild

variable {root page : Path} {s name : String} {dirs : Place} {cs ds : List Component} {r : Request}

namespace Path

theorem length_resolveStep (done : List Component) (c : Component) :
    done.length ≤ (resolveStep done c).length + 1 := by
  unfold resolveStep
  split
  · exact Nat.le_succ _
  all_goals
    simp only [List.length_cons, List.length_nil]
    omega

/-- Each component takes back one at most. -/
theorem length_resolve_append (cs ds : List Component) :
    (resolve cs).length ≤ (resolve (cs ++ ds)).length + ds.length := by
  suffices hs : ∀ done, done.length ≤ (ds.foldl resolveStep done).length + ds.length by
    simpa [resolve] using hs (cs.foldl resolveStep [])
  induction ds with
  | nil => exact fun done => Nat.le_refl _
  | cons c ds ih =>
    intro done
    have hstep := length_resolveStep done c
    have hrest := ih (resolveStep done c)
    rw [List.foldl_cons, List.length_cons]
    omega

/-- From a file in a place below the root a specifier leads on from that place. -/
theorem components_resolveFrom_below (root : Path) (hnames : ∀ n ∈ dirs ++ [name], IsFileName n)
    (hs : isAbsolute ⟨s⟩ = false) :
    ((root.below (dirs ++ [name])).resolveFrom s).components =
      resolve (root.components ++ dirs.map .name ++ levels s) := by
  have hcomp : (root.below (dirs ++ [name])).components =
      (root.components ++ dirs.map .name) ++ [.name name] := by
    rw [components_below root hnames]
    simp
  obtain ⟨d, hd, hdir⟩ := exists_parent hcomp
  rw [resolveFrom, hd, Option.getD_some, components_normalize, resolve_join hs, hdir]

theorem levels_here (s : String) : levels ("./" ++ s) = levels s := by
  have hs : ("./" ++ s).toList = ['.'] ++ '/' :: s.toList := by simp
  rw [levels, hs, segments_append_slash]
  rfl

end Path

namespace Page

theorem not_slash_of_local (hremote : isRemote s = false) (h : ¬IsRooted s) : ¬"/".toList <+: s.toList := by
  refine fun hslash => h ⟨hslash, fun hhost => ?_⟩
  have hremote' : isRemote s = true :=
    List.any_eq_true.2 ⟨"//", List.mem_cons_self, List.isPrefixOf_iff_prefix.2 hhost⟩
  simp [hremote'] at hremote

theorem dropQuery_here (s : String) : dropQuery ("./" ++ s) = "./" ++ dropQuery s := by
  have htake : ("./" ++ s).toList.takeWhile (fun c => c ≠ '?' && c ≠ '#') =
      "./".toList ++ s.toList.takeWhile fun c => c ≠ '?' && c ≠ '#' := by
    rw [String.toList_append, List.takeWhile_append_of_pos (List.all_eq_true.1 (by decide))]
  rw [dropQuery, htake, String.ofList_append, String.ofList_toList]
  rfl

/-- A source of the site that does not start at its root leads on from where the page stands. -/
theorem exists_resolveSource? (root page : Path) (hremote : isRemote s = false) (h : ¬IsRooted s) :
    ∃ x, resolveSource? root page s = some (page.resolveFrom x) ∧
      Path.levels x = Path.levels (dropQuery s) ∧ Path.isAbsolute ⟨x⟩ = false := by
  have hslash := not_slash_of_local hremote h
  unfold resolveSource?
  simp only [hremote, Bool.false_eq_true, if_false, Bool.or_eq_true, List.isPrefixOf_iff_prefix, hslash,
    false_or]
  by_cases hrel : IsRelative s
  · refine ⟨dropQuery s, ?_, rfl, isAbsolute_eq_false ?_⟩
    · refine (if_pos hrel).trans ?_
      rw [resolveLocal?_eq, if_pos hrel]
    · rw [← List.isPrefixOf_iff_prefix, isPrefixOf_dropQuery (by decide), List.isPrefixOf_iff_prefix]
      exact hslash
  · have hhere : IsRelative ("./" ++ s) := by
      left
      rw [String.toList_append]
      exact List.prefix_append _ _
    refine ⟨"./" ++ dropQuery s, ?_, Path.levels_here _, ?_⟩
    · refine (if_neg hrel).trans ?_
      rw [resolveLocal?_eq, if_pos hhere, dropQuery_here]
    · simp [Path.isAbsolute]

theorem resolveSource?_of_isRooted (h : IsRooted s) :
    resolveSource? root page s = some (root.join ⟨dropLeadingSlashes (dropQuery s)⟩).normalize := by
  have hremote : isRemote s = false := by
    obtain ⟨⟨w, hw⟩, hhost⟩ := h
    rw [← List.isPrefixOf_iff_prefix, ← hw, Bool.not_eq_true] at hhost
    simpa [isRemote, ← hw, List.isPrefixOf] using hhost
  unfold resolveSource?
  simp only [hremote, Bool.false_eq_true, if_false, Bool.or_eq_true, List.isPrefixOf_iff_prefix, h.1,
    true_or, if_true]
  rw [resolveLocal?_eq, if_neg (not_isRelative_of_slash h.1), if_pos h]

end Page

namespace Request

/-- The link to the combined stylesheet leads to it from a page. -/
def LinkLeadsFrom (r : Request) (page : Path) : Prop :=
  Page.resolveSource? r.root page r.options.combinedName = some r.combinedPath.normalize

/-- The name of the combined stylesheet starts at the root of the site, and a query in it leads nowhere
else. -/
def NamesFromRoot (r : Request) : Prop :=
  IsRooted r.options.combinedName ∧
    Path.resolve (r.root.components ++ Path.levels (dropLeadingSlashes (dropQuery r.options.combinedName))) =
      Path.resolve r.combinedPath.components

theorem linkLeadsFrom_of_isRooted (h : IsRooted r.options.combinedName) (page : Path) :
    r.LinkLeadsFrom page ↔ r.NamesFromRoot := by
  rw [LinkLeadsFrom, Page.resolveSource?_of_isRooted h, Option.some.injEq, Path.normalize_eq_iff,
    Path.resolve_join (isAbsolute_dropLeadingSlashes _), NamesFromRoot, and_iff_right h]

/-- A name that does not start at the root of the site is seen from the page, unless it is another host's. -/
theorem linkLeadsFrom_below_iff (h : ¬IsRooted r.options.combinedName)
    (hnames : ∀ n ∈ dirs ++ [name], IsFileName n) :
    r.LinkLeadsFrom (r.root.below (dirs ++ [name])) ↔ isRemote r.options.combinedName = false ∧
      Path.resolve (r.root.components ++ dirs.map .name ++ Path.levels (dropQuery r.options.combinedName)) =
        Path.resolve r.combinedPath.components := by
  unfold LinkLeadsFrom
  cases hremote : isRemote r.options.combinedName with
  | true => simp [Page.resolveSource?, hremote]
  | false =>
    obtain ⟨x, hx, hlevels, habs⟩ :=
      Page.exists_resolveSource? r.root (r.root.below (dirs ++ [name])) hremote h
    have hpage := Path.components_resolveFrom_below r.root hnames habs
    rw [hx, Option.some.injEq, and_iff_right rfl, ← hlevels, ← hpage, ← Path.components_normalize,
      ← Path.same_eq_true]
    refine ⟨fun he => ?_, Path.eq_of_same_normalize⟩
    rw [he, Path.same_self]

/-- A name by which the link leads to the stylesheet from pages at all depths starts at the root. -/
theorem isRooted_of_linkLeads (hroot : r.root.IsStraight) (hname : IsFileName name)
    (h : ∀ dirs : Place, (∀ n ∈ dirs, IsFileName n) → r.LinkLeadsFrom (r.root.below (dirs ++ [name]))) :
    IsRooted r.options.combinedName := by
  by_contra hrooted
  let found := Path.resolve r.combinedPath.components
  let ups := Path.levels (dropQuery r.options.combinedName)
  -- a page that is further down than the name could lead back up
  let dirs : Place := List.replicate (found.length + ups.length + 1) "d"
  have hd : IsFileName "d" := by decide
  have hdirs : ∀ n ∈ dirs, IsFileName n := fun n hn => List.eq_of_mem_replicate hn ▸ hd
  have hnames : ∀ n ∈ dirs ++ [name], IsFileName n :=
    List.forall_mem_append.2 ⟨hdirs, List.forall_mem_singleton.2 hname⟩
  have hfound : Path.resolve (r.root.components ++ dirs.map .name ++ ups) = found :=
    ((linkLeadsFrom_below_iff hrooted hnames).1 (h dirs hdirs)).2
  have hlen := Path.length_resolve_append (r.root.components ++ dirs.map .name) ups
  rw [hfound, Path.resolve_append_names, hroot.resolve_eq, List.length_append, List.length_map,
    List.length_replicate] at hlen
  omega

theorem namesFromRoot_of_plain (h : IsRooted r.options.combinedName)
    (hquery : '?' ∉ r.options.combinedName.toList) (hfragment : '#' ∉ r.options.combinedName.toList) :
    r.NamesFromRoot := by
  refine ⟨h, ?_⟩
  rw [dropQuery_eq_self hquery hfragment, combinedPath,
    Path.resolve_join (isAbsolute_dropLeadingSlashes _)]

/-- The link in a page leads to the combined stylesheet from pages at all depths just if the name of the
stylesheet starts at the root of the site and no query in it leads elsewhere. From a single page it may lead
there by another name as well, as long as that is no other host's. -/
theorem link_leads_iff (hroot : r.root.IsStraight) (hname : IsFileName name) :
    (∀ (s : Setting) (page : Path) (text : String), s.options = r.options → s.embedCss = true →
      let linked := Page.inject (Page.stylesheetLink r.options.combinedName) text
      s.linkPage page text = s.preloadGraph.elim linked fun g => Page.preloadModules g page linked) ∧
    ((∀ dirs : Place, (∀ n ∈ dirs, IsFileName n) → r.LinkLeadsFrom (r.root.below (dirs ++ [name]))) ↔
      r.NamesFromRoot) ∧
    (IsRooted r.options.combinedName → '?' ∉ r.options.combinedName.toList →
      '#' ∉ r.options.combinedName.toList → r.NamesFromRoot) ∧
    ∀ dirs : Place, (∀ n ∈ dirs, IsFileName n) →
      (r.LinkLeadsFrom (r.root.below (dirs ++ [name])) ↔ r.NamesFromRoot ∨
        ¬IsRooted r.options.combinedName ∧ isRemote r.options.combinedName = false ∧
          Path.resolve (r.root.components ++ dirs.map .name ++
              Path.levels (dropQuery r.options.combinedName)) =
            Path.resolve r.combinedPath.components) := by
  refine ⟨?_, ⟨fun h => ?_, fun h dirs _ => (linkLeadsFrom_of_isRooted h.1 _).2 h⟩,
    namesFromRoot_of_plain, fun dirs hdirs => ?_⟩
  · intro s page text hoptions hcss linked
    simp only [Setting.linkPage, hcss, hoptions, if_true]
    cases s.preloadGraph <;> rfl
  · exact (linkLeadsFrom_of_isRooted (isRooted_of_linkLeads hroot hname h) _).1 (h [] (by simp))
  · by_cases hrooted : IsRooted r.options.combinedName
    · rw [linkLeadsFrom_of_isRooted hrooted]
      simp [hrooted]
    · have hnames : ∀ n ∈ dirs ++ [name], IsFileName n :=
        List.forall_mem_append.2 ⟨hdirs, List.forall_mem_singleton.2 hname⟩
      have hno : ¬r.NamesFromRoot := fun h => hrooted h.1
      rw [linkLeadsFrom_below_iff hrooted hnames]
      simp [hrooted, hno]

/-! A build of which the combined stylesheet has a name that starts at the root, or at the page. -/

namespace Linked

def request (combinedName : String) : Request where
  root := ⟨"build"⟩
  options := { combinedName := combinedName }

end Linked

/-- By a name with one slash in front the link leads to the stylesheet from a page further down. -/
theorem link_leads_from_root :
    let r := Linked.request "/styles.css"
    r.root.IsStraight ∧ IsFileName "index.html" ∧ r.LinkLeadsFrom ⟨"build/pages/index.html"⟩ := by
  intro r
  have hroot : r.root.IsStraight := by decide +kernel
  have hname : IsFileName "index.html" := by decide +kernel
  have hpage : r.root.below (["pages"] ++ ["index.html"]) = ⟨"build/pages/index.html"⟩ := by
    decide +kernel
  obtain ⟨-, hall, hplain, -⟩ := link_leads_iff hroot hname
  refine ⟨hroot, hname, hpage ▸ hall.2 (hplain ?_ ?_ ?_) ["pages"] (by decide +kernel)⟩
  all_goals decide +kernel

/-- A name without a slash is accepted, and the stylesheet is written below the root by it; but the link
leads from a page further down to where there is none. -/
theorem link_leads_astray :
    let r := Linked.request "styles.css"
    Options.merge none { combinedName := some "styles.css" } = .ok r.options ∧ r.root.IsStraight ∧
      r.combinedPath.normalize = ⟨"build/styles.css"⟩ ∧
      Page.resolveSource? r.root ⟨"build/pages/index.html"⟩ r.options.combinedName =
        some ⟨"build/pages/styles.css"⟩ ∧
      ¬r.LinkLeadsFrom ⟨"build/pages/index.html"⟩ := by
  intro r
  have hleads : Page.resolveSource? r.root ⟨"build/pages/index.html"⟩ r.options.combinedName =
      some ⟨"build/pages/styles.css"⟩ := by
    decide +kernel
  have hpath : r.combinedPath.normalize = ⟨"build/styles.css"⟩ := by decide +kernel
  refine ⟨by decide +kernel, by decide +kernel, hpath, hleads, ?_⟩
  rw [LinkLeadsFrom, hleads, hpath]
  decide

end Request

end SiteBuild
