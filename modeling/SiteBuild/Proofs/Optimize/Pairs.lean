import SiteBuild.Proofs.Embed.Lines
import SiteBuild.Proofs.Optimize.Bundling
import SiteBuild.Proofs.Optimize.Exclusion
import SiteBuild.Proofs.Path.Suffix

/-! Stylesheets and proxies in pairs. As long as names of stylesheets end as names of files do, a proxy lies
beside its stylesheet and has that one's name with a suffix. So to tell stylesheets apart is to tell proxies
apart, and to keep each stylesheet once is to keep each proxy once. -/

namespace SiteBuild

variable {o : Outages} {t : FileTree} {n : Naming} {file : Path} {s : String} {d e : CssEntry}
  {rs : List FileResult}

namespace Naming

/-- The extension ends a name of a file, and a suffix goes on with that name. -/
structure ExtendsNames (n : Naming) : Prop where
  ending : ∃ c ∈ n.cssExtension.toList.getLast?, c ≠ '/' ∧ c ≠ '.'
  suffix : '/' ∉ n.proxySuffix.toList

theorem ExtendsNames.endsInName (hn : n.ExtendsNames) (h : n.isCssProxy s = true) :
    ∃ ss x, Path.EndsInName ⟨n.actual s⟩ ss x := by
  obtain ⟨c, hc, hslash, hdot⟩ := hn.ending
  -- the extension may hold slashes itself, but its last character stands behind them
  have hlast : [c] <:+ n.cssExtension.toList := by
    obtain ⟨front, hfront⟩ := List.getLast?_eq_some_iff.1 hc
    exact ⟨front, hfront.symm⟩
  obtain ⟨ss, x, hs, hx⟩ := Path.exists_segments_of_suffix (w := [c]) (by simpa using hslash.symm)
    (hlast.trans (actual_of_isCssProxy h).1)
  exact ⟨ss, x, hs, c, hx.subset (by simp), hdot⟩

/-- An entry that the embedding of some script gives. -/
def Reports (n : Naming) (e : CssEntry) : Prop :=
  ∃ o t file code x, ((Embedded.ofFile n file code).attempt.run o t).result = .ok x ∧ e ∈ x.imports

theorem Reports.exists_specifier (h : n.Reports e) :
    ∃ file s, n.isCssProxy s = true ∧ e = Embed.entryOf n file s := by
  obtain ⟨o, t, file, code, x, hx, he⟩ := h
  rw [(Embedded.run_ofFile o t n file code).1] at hx
  obtain ⟨s, hs, rfl⟩ := Embedded.mem_imports hx he
  exact ⟨file, s, hs, rfl⟩

end Naming

namespace CssEntry

/-- The proxy lies where the stylesheet lies, and has its name with a suffix. -/
structure IsPair (w : String) (e : CssEntry) : Prop where
  place : e.proxy.parent? = e.actual.parent?
  name : ∃ s, e.actual.fileName? = some s ∧ e.proxy.fileName? = some (s ++ w)

theorem isPair_of_extend {ss : List (List Char)} {x : List Char} {w : String}
    (h : e.actual.EndsInName ss x) (hw : '/' ∉ w.toList) (he : e.proxy = e.actual.extend w) :
    e.IsPair w := by
  have hext := h.extend hw
  refine ⟨he ▸ hext.parent?_eq h, String.ofList x, h.fileName?, ?_⟩
  rw [he, hext.fileName?, String.ofList_append, String.ofList_toList]

end CssEntry

namespace Naming

/-- The spelling of a proxy is that of its stylesheet, which ends in a name, with the suffix behind it. -/
theorem Reports.proxy_eq (hn : n.ExtendsNames) (h : n.Reports e) :
    (∃ ss x, e.actual.EndsInName ss x) ∧ e.proxy = e.actual.extend n.proxySuffix := by
  obtain ⟨file, s, hs, rfl⟩ := h.exists_specifier
  obtain ⟨ss, x, hend⟩ := hn.endsInName hs
  obtain ⟨⟨ss', hend'⟩, hext⟩ := hend.resolveFrom_append hn.suffix file
  rw [(actual_of_isCssProxy hs).2] at hext
  rw [Embed.actual_entryOf, Embed.proxy_entryOf]
  exact ⟨⟨ss', x, hend'⟩, hext⟩

theorem Reports.isPair (hn : n.ExtendsNames) (h : n.Reports e) : e.IsPair n.proxySuffix :=
  let ⟨⟨_, _, hend⟩, hext⟩ := h.proxy_eq hn
  CssEntry.isPair_of_extend hend hn.suffix hext

/-- All paths that are reported are resolved, so that no two spell the same. -/
theorem Reports.same_iff (hd : n.Reports d) (he : n.Reports e) :
    (d.actual.same e.actual = true ↔ d.actual = e.actual) ∧
      (d.proxy.same e.proxy = true ↔ d.proxy = e.proxy) := by
  have hself {p q : Path} (h : p = q) : p.same q = true := by
    rw [h]
    exact Path.same_self q
  obtain ⟨f, v, -, rfl⟩ := hd.exists_specifier
  obtain ⟨g, w, -, rfl⟩ := he.exists_specifier
  rw [Embed.actual_entryOf, Embed.actual_entryOf, Embed.proxy_entryOf, Embed.proxy_entryOf]
  exact ⟨⟨Path.eq_of_same_resolveFrom, hself⟩, ⟨Path.eq_of_same_resolveFrom, hself⟩⟩

theorem Reports.same_actual_iff (hn : n.ExtendsNames) (hd : n.Reports d) (he : n.Reports e) :
    d.actual.same e.actual = true ↔ d.proxy.same e.proxy = true := by
  obtain ⟨hactual, hproxy⟩ := hd.same_iff he
  rw [hactual, hproxy, (hd.proxy_eq hn).2, (he.proxy_eq hn).2, Path.extend_inj]

/-- Entries with one stylesheet are one entry. -/
theorem Reports.eq_of_same (hn : n.ExtendsNames) (hd : n.Reports d) (he : n.Reports e)
    (h : d.actual.same e.actual = true) : d = e := by
  obtain ⟨hactual, hproxy⟩ := hd.same_iff he
  have hp := hproxy.1 ((hd.same_actual_iff hn he).1 h)
  cases d
  cases e
  exact congrArg₂ CssEntry.mk (hactual.1 h) hp

end Naming

namespace FileResult

/-- All that a file contributes is what embedding it comes with. -/
theorem reports_of_optimize {s : Setting} {x : FileResult}
    (h : ((s.optimize file).attempt.run o t).result = .ok x) :
    ∀ e ∈ x.css, s.options.naming.Reports e := by
  intro e he
  obtain ⟨-, hcss⟩ := Setting.optimize_ok h
  split at hcss
  · cases hembed : s.embedCss with
    | true =>
      obtain ⟨code, y, -, -, hy, hx, -⟩ := Setting.optimizeScript_ok hembed hcss
      exact ⟨o, t, file, code, y, (Embedded.run_ofFile o t _ file code).1.trans hy, hx ▸ he⟩
    | false => simp [Setting.optimizeScript_nil hembed hcss] at he
  · simp [hcss] at he

theorem mem_uniqueCss_of_reports (hn : n.ExtendsNames) (h : ∀ e ∈ rs.flatMap css, n.Reports e)
    (he : e ∈ rs.flatMap css) : e ∈ uniqueCss rs := by
  obtain ⟨d, hd, hsame⟩ := mem_uniqueCss he
  obtain rfl := (h e he).eq_of_same hn (h d (distinct_subset hd)) hsame
  exact hd

theorem uniqueCss_pairwise (rs : List FileResult) :
    (uniqueCss rs).Pairwise fun d e => d.actual.same e.actual = false := by
  have hfirsts := Path.firsts_pairwise [] ((rs.flatMap css).map CssEntry.actual)
  rw [← map_actual_distinct, List.pairwise_map] at hfirsts
  exact hfirsts

end FileResult

theorem Report.reports_of_workOn (m : Minifier) (r : Request) (s : Survey) (o : Outages) (t : FileTree) :
    ∀ x ∈ ((workOn m r s).run o t).result.1, ∀ e ∈ x.css, r.options.naming.Reports e :=
  mem_workOn fun _ _ _ _ hx e he =>
    let hreports := FileResult.reports_of_optimize hx
    hreports e he

/-- Every entry that an embedding comes with is a stylesheet and, beside it, the proxy named after it. So two
entries agree in the stylesheets just if they agree in the proxies, in all files; the results of a run hold such
entries only, and no entry is lost where each stylesheet is kept once. -/
theorem Naming.pairs_proxies (n : Naming) (hn : n.ExtendsNames) :
    (∀ e, n.Reports e → e.IsPair n.proxySuffix) ∧
    (∀ d e, n.Reports d → n.Reports e →
      (d.actual.same e.actual = true ↔ d.proxy.same e.proxy = true)) ∧
    (∀ m r s o t, r.options.naming = n →
      ∀ x ∈ ((Report.workOn m r s).run o t).result.1, ∀ e ∈ x.css, n.Reports e) ∧
    ∀ rs : List FileResult, (∀ x ∈ rs, ∀ e ∈ x.css, n.Reports e) →
      (∀ e ∈ rs.flatMap FileResult.css, e ∈ FileResult.uniqueCss rs) ∧
      (FileResult.uniqueCss rs).Pairwise fun d e => d.proxy.same e.proxy = false := by
  refine ⟨fun e he => he.isPair hn, fun d e hd he => hd.same_actual_iff hn he, ?_, fun rs hrs => ?_⟩
  · rintro m r s o t rfl
    exact Report.reports_of_workOn m r s o t
  · have hreports : ∀ e ∈ rs.flatMap FileResult.css, n.Reports e := fun e he =>
      let ⟨x, hx, hex⟩ := List.mem_flatMap.1 he
      hrs x hx e hex
    refine ⟨fun e => FileResult.mem_uniqueCss_of_reports hn hreports, ?_⟩
    refine (FileResult.uniqueCss_pairwise rs).imp_of_mem fun {d e} hd he hne => ?_
    have hiff := (hreports d (FileResult.distinct_subset hd)).same_actual_iff hn
      (hreports e (FileResult.distinct_subset he))
    rw [Bool.eq_false_iff] at hne ⊢
    exact mt hiff.2 hne

/-! A site with a naming of its own. Its script imports one stylesheet in two ways, and another one by an absolute
specifier. -/

namespace Paired

def naming : Naming := ⟨".js", ".style", ".map.style"⟩

def script : Path := ⟨"site/js/app.js"⟩

def lines : List Script.Line :=
  [.import .nothing "./..//css/./a.style.js".toList,
    .import (.default "u1".toList) "../css/a.style.js".toList, .import .nothing "/b.style.js".toList]

def text : String := String.ofList (lines.flatMap Script.Line.print)

def tree : FileTree :=
  ((FileTree.empty.put [] "site" .directory).put ["site"] "js" .directory).put ["site", "js"] "app.js"
    (.file text.toUTF8)

def request : Request where
  root := ⟨"site"⟩
  options := { minifyScripts := false, naming := naming }

def survey : Survey := ⟨[script], true, none⟩

def shared : CssEntry := ⟨⟨"site/css/a.style"⟩, ⟨"site/css/a.style.js"⟩⟩

def rooted : CssEntry := ⟨⟨"/b.style"⟩, ⟨"/b.style.js"⟩⟩

def result : FileResult := ⟨script, [shared, shared, rooted]⟩

def left : String := "const u1 = '../css/a.style';\n"

theorem tree_values :
    (∀ l ∈ lines, l.IsSound) ∧ FileKind.classify naming script = .script ∧
    (tree.answer {} (.read script)).1 = .ok text ∧ left ≠ text ∧
    (tree.answer {} (.write script left)).1 = .ok () ∧
    (∀ s ∈ ["./..//css/./a.style.js", "../css/a.style.js", "/b.style.js"],
      naming.isCssModule (naming.actual s) = false) := by
  decide +kernel

theorem embedded : Embedded.ofCode tree.read naming script text = .ok ⟨result.css, left⟩ := by
  obtain ⟨hsound, -, -, -, -, hmodule⟩ := tree_values
  have hr : ∀ l ∈ lines, l.IsReadable naming tree script := by
    simp only [List.forall_mem_cons] at hmodule
    simp [lines, Script.Line.IsReadable, Embed.IsModuleProxy, hmodule]
  rw [text, Embedded.ofCode_print hsound hr]
  decide +kernel

theorem run_workOn :
    ((Report.workOn Report.Vendored.minifier request survey).run {} tree).result = ([result], []) := by
  obtain ⟨-, hkind, hread, hne, hwrite, -⟩ := tree_values
  have hrun := Report.workOn_of_embeds (m := Report.Vendored.minifier) (r := request) rfl hkind hread
    embedded hne hwrite
  exact hrun.1

end Paired

open Paired in
/-- The shared stylesheet and the one at the top are told apart by their proxies too, and both are kept. -/
theorem Naming.pairs_proxies_shared :
    naming.ExtendsNames ∧ naming.Reports shared ∧ naming.Reports rooted ∧ shared.IsPair ".js" ∧
    (shared.actual.same rooted.actual = true ↔ shared.proxy.same rooted.proxy = true) ∧
    ((Report.workOn Report.Vendored.minifier request survey).run {} tree).result = ([result], []) ∧
    rooted ∈ FileResult.uniqueCss [result] ∧
    (FileResult.uniqueCss [result]).Pairwise fun d e => d.proxy.same e.proxy = false := by
  have hn : naming.ExtendsNames := ⟨⟨'e', by decide, by decide, by decide⟩, by decide⟩
  obtain ⟨hpair, hsame, hrun, hunique⟩ := Naming.pairs_proxies naming hn
  have hreports : ∀ x ∈ [result], ∀ e ∈ x.css, naming.Reports e := by
    have hresults := hrun Report.Vendored.minifier request survey {} tree rfl
    rwa [run_workOn] at hresults
  have hshared := hreports result (by simp) shared (by simp [result])
  have hrooted := hreports result (by simp) rooted (by simp [result])
  obtain ⟨hkept, hapart⟩ := hunique [result] hreports
  exact ⟨hn, hshared, hrooted, hpair shared hshared, hsame shared rooted hshared hrooted, run_workOn,
    hkept rooted (by simp [result]), hapart⟩

end SiteBuild
