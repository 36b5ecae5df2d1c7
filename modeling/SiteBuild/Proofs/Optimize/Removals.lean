import SiteBuild.Proofs.Optimize.Account
import SiteBuild.Proofs.Optimize.Changes

/-! The removals of a run and its manifest. What is gone was removed for an entry that the manifest
tells, and nothing that it tells of is there any more: the manifest itself, which is written last, has
a name that no stylesheet and no proxy has. -/

namespace SiteBuild

open FileTree

variable {o : Outages} {t t' : FileTree} {m : Minifier} {r : Request} {s : Survey}
  {rs : List FileResult} {rep : Report}

namespace Request

/-- Of what some results have embedded no file is left once the stylesheets are finished. -/
theorem not_isFile_finishStyles {x : Option Path × Nat} {e : CssEntry}
    (h : ((r.finishStyles rs).attempt.run o t).result = .ok x) (he : e ∈ rs.flatMap FileResult.css) :
    ¬((r.finishStyles rs).attempt.run o t).tree.IsFile e.actual ∧
      ¬((r.finishStyles rs).attempt.run o t).tree.IsFile e.proxy := by
  obtain ⟨u, -, hl⟩ := r.finishStyles_lacks h
  exact ⟨hl.not_isFile fun k hk => ⟨e, he, .inl hk⟩, hl.not_isFile fun k hk => ⟨e, he, .inr hk⟩⟩

end Request

namespace Report

theorem Reaches.unique {rs' : List FileResult} {u : FileTree} (h : Reaches m r o t rs t')
    (h' : Reaches m r o t rs' u) : rs = rs' ∧ t' = u := by
  obtain ⟨s, hs, rfl, rfl⟩ := h
  obtain ⟨s', hs', rfl, rfl⟩ := h'
  obtain rfl : s = s' := Except.ok.inj (hs.symm.trans hs')
  exact ⟨rfl, rfl⟩

theorem Completes.reaches {w : Run (List FileResult × List Failure)}
    (h : Completes m r o t rep s w) : Reaches m r o t w.result.1 w.tree :=
  ⟨s, h.survey, by rw [h.work], by rw [h.work]⟩

/-- What a run that succeeds has embedded is not there in the end. -/
theorem Completes.not_isFile {w : Run (List FileResult × List Failure)} {e : CssEntry}
    (hn : r.options.naming = {}) (h : Completes m r o t rep s w)
    (he : e ∈ w.result.1.flatMap FileResult.css) :
    ¬((ofRequest m r).attempt.run o t).tree.IsFile e.actual ∧
      ¬((ofRequest m r).attempt.run o t).tree.IsFile e.proxy := by
  obtain ⟨g, v, hv, hentry⟩ := entry_of_workOn (h.work.symm ▸ he)
  rw [hn] at hv hentry
  obtain ⟨hactual, hproxy⟩ := fileName?_entry_ne (r := r) hv hentry
  cases hembed : s.embedCss with
  | false =>
    obtain ⟨f, hf, he⟩ := List.mem_flatMap.1 he
    rw [css_workOn hembed f (h.work.symm ▸ hf)] at he
    cases he
  | true =>
    have hx := h.finished
    rw [finish_of_embedCss hembed] at hx
    obtain ⟨ha, hp⟩ := Request.not_isFile_finishStyles hx he
    rw [h.tree, finish_of_embedCss hembed]
    subst hentry
    rw [Embed.actual_entryOf] at ha hactual ⊢
    rw [Embed.proxy_entryOf] at hp hproxy ⊢
    exact ⟨not_isFile_writeManifest ha hactual, not_isFile_writeManifest hp hproxy⟩

/-- That a manifest tells what some files have embedded, that all files that are gone after a run were
removed under paths that it tells, and that nothing is there of what it tells. -/
structure AccountsForRemovals (root : Path) (t : FileTree) (x : Run (Except Fault Report))
    (rs : List FileResult) (man : Manifest) : Prop where
  records : ∀ key css, man.imports.get? key = some css ↔
    ∃ f ∈ rs, root.relativeTo f.file = key ∧ f.css.map (ManifestCss.of root) = css
  gone : ∀ k b, t.node? k = some (.file b) → x.tree.bytes? k = none →
    ∃ p, x.RemovesAt p k ∧ ∃ key css, man.imports.get? key = some css ∧
      ∃ c ∈ css, root.relativeTo p = c.actual ∨ root.relativeTo p = c.proxy
  absent : ∀ f ∈ rs, ∀ e ∈ f.css, ¬x.tree.IsFile e.actual ∧ ¬x.tree.IsFile e.proxy

/-- The manifest that a run leaves accounts for all that the run has removed. -/
theorem manifest_accounts_for_removals (hn : r.options.naming = {})
    (h : ((ofRequest m r).attempt.run o t).result = .ok rep) :
    ∃ rs t' man, Reaches m r o t rs t' ∧
      ((ofRequest m r).attempt.run o t).tree.read r.manifestPath = .ok man.toText ∧
      AccountsForRemovals r.root t ((ofRequest m r).attempt.run o t) rs man := by
  obtain ⟨s, w, hc⟩ := exists_completes h
  refine ⟨w.result.1, w.tree, _, hc.reaches, hc.read, fun _ _ => hc.get?_imports, ?_, ?_⟩
  · intro k b hk hg
    obtain ⟨p, hp⟩ := Plan.exists_removesAt hk hg
    -- a run removes entries of its results only, and the manifest is built from the same results
    obtain ⟨rs', u, hreach, e, he, hep⟩ := mem_exchanges_remove hp.1
    rw [(hreach.unique hc.reaches).1] at he
    obtain ⟨f, hf, he⟩ := List.mem_flatMap.1 he
    refine ⟨p, hp, _, _, hc.get?_imports.2 ⟨f, hf, rfl, rfl⟩, _, List.mem_map_of_mem he, ?_⟩
    rcases hep with rfl | rfl
    · exact .inl rfl
    · exact .inr rfl
  · exact fun f hf e he => hc.not_isFile hn (List.mem_flatMap.2 ⟨f, hf, he⟩)

/-- A run that removes a stylesheet and its proxy accounts for them. -/
theorem manifest_accounts_for_unread :
    Unread.request.options.naming = {} ∧
    ((ofRequest Unread.minifier Unread.request).attempt.run {} Unread.tree).result =
      .ok Unread.report ∧
    ∃ rs t' man, Reaches Unread.minifier Unread.request {} Unread.tree rs t' ∧
      ((ofRequest Unread.minifier Unread.request).attempt.run {} Unread.tree).tree.read
        Unread.request.manifestPath = .ok man.toText ∧
      AccountsForRemovals Unread.request.root Unread.tree
        ((ofRequest Unread.minifier Unread.request).attempt.run {} Unread.tree) rs man :=
  ⟨rfl, Unread.ofRequest_ok, manifest_accounts_for_removals rfl Unread.ofRequest_ok⟩

end Report

end SiteBuild
