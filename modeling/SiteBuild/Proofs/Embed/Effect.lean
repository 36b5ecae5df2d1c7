import SiteBuild.Proofs.Embed.Rereading
import SiteBuild.Proofs.Script.Leading

/-! Embedding that embeds anything makes another text of a script. Up to the first import that goes both
texts are the same; there the one has this import, and the other leads with a constant, or with no import
that would go as well. -/

namespace SiteBuild

open Script

variable {f : Path → Except IoError String} {n : Naming} {file : Path} {is : List Item} {i : Item}
  {d e : Dependency} {s gap : List Char}

namespace Embed

/-- What follows the source of a dependency says nothing of what becomes of it. -/
theorem fate_congr (hk : e.keyword = d.keyword) (hc : e.clause = d.clause)
    (hq : e.quoted = d.quoted) : fate f n file e = fate f n file d := by
  obtain ⟨k, c, q, t⟩ := d
  obtain ⟨k', c', q', t'⟩ := e
  subst hk hc hq
  rfl

/-- Items that may have gone leave the gap in front of the first of them. -/
theorem resumes_render {o : Dependency → Outcome} (h : Item.readAll? s = some (is, gap)) :
    Resumes s (render o (Module.ofItems is gap)) := by
  rcases Item.readAll?_cases h with ⟨rfl, rfl, -⟩ | ⟨i, r, is, rfl, hi, -⟩
  · rw [render_nil]
    refine ⟨fun _ _ => rfl, fun hn => ?_⟩
    rw [← next_source hn, Lexeme.source, List.append_assoc]
    exact List.prefix_append _ _
  · obtain ⟨l, y, hl, hn, hf, -⟩ := Item.next_of_read? hi
    obtain ⟨w, hw⟩ := exists_render_cons (o := o) hl is gap
    refine ⟨fun hn' hf' => ?_, fun hn' => ?_⟩
    · obtain ⟨rfl, -⟩ := Prod.mk.inj (Option.some.inj (hn.symm.trans hn'))
      exact absurd hf' hf
    · obtain ⟨rfl, -⟩ := Prod.mk.inj (Option.some.inj (hn.symm.trans hn'))
      exact ⟨w, hw.symm⟩

/-- Where an import goes, a text leads with its constant, or it leaves none and the text leads with what
the text behind it leads with. -/
theorem leading?_of_gone {x : CssEntry} {r : List Char} (hi : Item.read? s = some (i, r))
    (hd : i.dependency? = some d) (hx : Outcome.entry? (fate f n file d) = some x)
    (h : leading? (render (fate f n file) (Module.ofItems (i :: is) gap)) = some e) :
    e.keyword = "const".toList ∨ (∃ x, fate f n file d = .removed x) ∧
      leading? (render (fate f n file) (Module.ofItems is gap)) = some e := by
  obtain ⟨l, z, hl, -, ⟨u, hu, v, hv, hcut⟩, hall⟩ := exists_render_of_gone hd hx is gap
  obtain ⟨l', y, hl', hn, hf, -⟩ := Item.next_of_read? hi
  obtain rfl : l = l' := Option.some.inj (hl.symm.trans hl')
  rw [hall, leading?_append (isClosed_of_next hn hf)] at h
  cases hfate : fate f n file d with
  | kept =>
    rw [hfate] at hx
    cases hx
  | removed x =>
    rw [hfate] at h
    refine .inr ⟨⟨x, rfl⟩, ?_⟩
    rw [hcut, eq_of_cut (fun _ _ hg => leading?_append hg) leading?_semicolon hu hv]
    exact h
  | replaced x text =>
    left
    obtain ⟨names, value, rfl⟩ := constant_of_outcome (outcome_of_fate hfate (by simp))
    rw [hfate] at h
    change leading? (constant names value ++ z) = some e at h
    rw [constant_append] at h
    obtain ⟨j, r', k, y, -, -, hk, hkey⟩ := exists_read?_of_leading? h
    have hconst : next .operand ([] ++ ("const".toList ++ ' ' ::
        (names ++ " = ".toList ++ value ++ [';'] ++ z))) = some (⟨[], false, _, "const".toList⟩, _) :=
      next_of_isToken isClosed_nil (isToken_word (.of_all (by decide) (by decide)) (endsName_blank _))
    obtain ⟨rfl, -⟩ := Prod.mk.inj (Option.some.inj (hk.symm.trans hconst))
    exact (hkey (by decide)).2

/-- Items that may have gone lead with no import that goes without a trace. -/
theorem ne_removed_of_leading? (h : Item.readAll? s = some (is, gap))
    (hl : leading? (render (fate f n file) (Module.ofItems is gap)) = some d) (x : CssEntry) :
    fate f n file d ≠ .removed x := by
  intro hx
  have himport : d.keyword = "import".toList := keyword_of_fate hx (by simp)
  have hne : d.keyword ≠ "const".toList := by
    rw [himport]
    decide
  induction is generalizing s with
  | nil =>
    obtain ⟨-, rfl, -⟩ | ⟨_, _, _, hi, -⟩ := Item.readAll?_cases h
    · rw [render_nil, leading?, h] at hl
      cases hl
    · cases hi
  | cons i is ih =>
    obtain ⟨hi, -⟩ | ⟨_, r, _, hc, hi, hr⟩ := Item.readAll?_cases h
    · cases hi
    cases hc
    obtain rfl := (Item.read?_eq_some hi).1
    cases hkept : itemFate f n file i with
    | kept =>
      rw [render_kept hkept] at hl
      obtain ⟨l, y, hfirst, hn, hf, -⟩ := Item.next_of_read? hi
      by_cases ht : l.text = [';']
      · rw [Item.source_of_semicolon hi hfirst ht, List.append_assoc,
          leading?_append (isClosed_of_next hn hf)] at hl
        exact ih hr ((leading?_semicolon _).symm.trans hl)
      · obtain ⟨j, r', k, y, hj, hk, -, hdep⟩ := exists_read?_of_leading? hl
        obtain ⟨hdep, -⟩ := hdep (Item.ne_semicolon hi hfirst hj hk ht)
        cases hid : i.dependency? with
        | none =>
          exact Item.ne_import_of_statement hi hid (by rw [hr]; rfl) (resumes_render hr) hj hdep himport
        | some d' =>
          obtain ⟨hkey, hclause, hquoted⟩ := Item.dependency_eq hi hid hj hdep
          have hfate : fate f n file d' = .kept := by simpa [itemFate, hid] using hkept
          rw [fate_congr hkey hclause hquoted, hfate] at hx
          cases hx
    | removed x =>
      obtain ⟨d', hid, hfate⟩ := exists_of_itemFate hkept (by simp)
      exact ih hr ((leading?_of_gone hi hid (by rw [hfate]; rfl) hl).resolve_left hne).2
    | replaced x text =>
      obtain ⟨d', hid, hfate⟩ := exists_of_itemFate hkept (by simp)
      exact ih hr ((leading?_of_gone hi hid (by rw [hfate]; rfl) hl).resolve_left hne).2

/-- Where all items stay, so does the text. -/
theorem render_of_kept (h : ∀ i ∈ is, itemFate f n file i = .kept) :
    render (fate f n file) (Module.ofItems is gap) = is.flatMap Item.source ++ gap := by
  induction is with
  | nil => exact render_nil gap
  | cons i is ih =>
    rw [render_kept (h i List.mem_cons_self), ih fun j hj => h j (List.mem_cons_of_mem _ hj),
      List.flatMap_cons, List.append_assoc]

/-- Where the text stays, so do all items. -/
theorem kept_of_render_eq (h : Item.readAll? s = some (is, gap))
    (heq : render (fate f n file) (Module.ofItems is gap) = s) :
    ∀ i ∈ is, itemFate f n file i = .kept := by
  induction is generalizing s with
  | nil => simp
  | cons i is ih =>
    obtain ⟨hi, -⟩ | ⟨_, r, _, hc, hi, hr⟩ := Item.readAll?_cases h
    · cases hi
    cases hc
    obtain rfl := (Item.read?_eq_some hi).1
    by_cases hk : itemFate f n file i = .kept
    · rw [render_kept hk] at heq
      exact List.forall_mem_cons.2 ⟨hk, ih hr (List.append_cancel_left heq)⟩
    -- the text leads with an import that goes
    obtain ⟨d, hd, hfate⟩ := exists_of_itemFate rfl hk
    have himport : d.keyword = "import".toList := keyword_of_fate hfate hk
    obtain ⟨x, hx⟩ : ∃ x, Outcome.entry? (fate f n file d) = some x := by
      rw [hfate]
      cases h : itemFate f n file i with
      | kept => exact absurd h hk
      | removed x => exact ⟨x, rfl⟩
      | replaced x text => exact ⟨x, rfl⟩
    have hl : leading? (i.source ++ r) = some d := by
      obtain ⟨l, hfirst, hkey, -⟩ := Module.addItem_of_some hd
      have ht : l.text ≠ [';'] := by
        rw [hkey, himport]
        decide
      rw [leading?_of_read? hi hfirst, if_neg ht, if_pos (by rw [hr]; rfl), hd]
    rw [← heq] at hl
    rcases leading?_of_gone hi hd hx hl with hconst | ⟨⟨x, hremoved⟩, hl⟩
    · rw [himport] at hconst
      exact absurd hconst (by decide)
    · exact absurd hremoved (ne_removed_of_leading? hr hl x)

theorem outcome_of_outcomes {parts : List (Dependency × List Char)}
    {outs : List (Outcome × Dependency × List Char)} (h : outcomes f n file parts = .ok outs) :
    ∀ p ∈ parts, outcome f n file p.1 = .ok (fate f n file p.1) := by
  induction parts generalizing outs with
  | nil => simp
  | cons p parts ih =>
    obtain ⟨x, outs, hx, ho, -⟩ := outcomes_cons_eq_ok h
    exact List.forall_mem_cons.2 ⟨by rw [hx, fate_eq hx], ih ho⟩

end Embed

/-- An embedding leaves the text of a script just if it embeds nothing. -/
theorem Embedded.code_eq_iff {code : String} {x : Embedded} (h : ofCode f n file code = .ok x) :
    x.code = code ↔ x.imports = [] := by
  unfold ofCode at h
  split at h
  · cases h
  next m hm =>
  obtain ⟨outs, ho, himports, hcode⟩ := ofModule_eq_ok (eq_ok_of_mapError h)
  obtain rfl : (m.parts.map fun p => (Embed.fate f n file p.1, p)) = outs :=
    Except.ok.inj ((Embed.outcomes_eq_fate (Embed.outcome_of_outcomes ho)).symm.trans ho)
  obtain ⟨⟨is, gap⟩, hr, rfl⟩ := Option.map_eq_some_iff.1 hm
  have hsource := (Item.readAll?_eq_some hr).1
  have hrender : x.code = String.ofList (Module.interpreterLine code.toList ++
      Embed.render (Embed.fate f n file) (Module.ofItems is gap)) := by
    rw [hcode]
    simp [Embed.render, Module.addFront, List.flatMap_map]
  have hnone : x.imports = [] ↔ ∀ i ∈ is, Embed.itemFate f n file i = .kept := by
    have hentry {y : Embed.Outcome} : y.entry? = none ↔ y = .kept := by
      cases y <;> simp [ Embed.Outcome.entry?]
    have hparts : x.imports = (is.filterMap Item.dependency?).filterMap fun d =>
        Embed.Outcome.entry? (Embed.fate f n file d) := by
      rw [himports, ← Module.parts_ofItems is gap, Module.parts_addFront]
      simp [List.filterMap_map]
    simp only [hparts, List.filterMap_eq_nil_iff, List.mem_filterMap, hentry]
    constructor
    · intro h i hi
      by_contra hk
      obtain ⟨d, hd, hfate⟩ := Embed.exists_of_itemFate rfl hk
      exact hk (hfate.symm.trans (h d ⟨i, hi, hd⟩))
    · rintro h d ⟨i, hi, hd⟩
      simpa [Embed.itemFate, hd] using h i hi
  rw [hnone, hrender]
  constructor
  · intro heq
    have htext := (String.toList_ofList.symm.trans (congrArg String.toList heq)).trans
      (Module.interpreterLine_append code.toList).symm
    exact Embed.kept_of_render_eq hr (List.append_cancel_left htext)
  · intro hkept
    rw [Embed.render_of_kept hkept, hsource, Module.interpreterLine_append, String.ofList_toList]

end SiteBuild
