import SiteBuild.Proofs.Embed.Splice
import SiteBuild.Proofs.Script.Dependencies

/-! Reading a module again once its stylesheets are embedded. An import that goes leaves a constant,
which must be one, or nothing, and then what stood in front of it must have ended by itself. -/

namespace SiteBuild

open Script

variable {f : Path → Except IoError String} {n : Naming} {file : Path} {is : List Item} {i : Item}
  {d : Dependency} {g s u v z gap : List Char} {b : Bool}

namespace Embed

/-- A module with an outcome for each of its dependencies. -/
def render (o : Dependency → Outcome) (m : Module) : List Char :=
  m.head ++ m.parts.flatMap fun p => (o p.1).render p.1 p.2

/-- What becomes of a dependency of `file`, if the proxies can be read. -/
def fate (f : Path → Except IoError String) (n : Naming) (file : Path) (d : Dependency) : Outcome :=
  match outcome f n file d with
  | .ok x => x
  | .error _ => .kept

def itemFate (f : Path → Except IoError String) (n : Naming) (file : Path) (i : Item) : Outcome :=
  i.dependency?.elim .kept (fate f n file)

/-- That items stay items where their imports go; `closed` tells of what stands in front of them. -/
inductive Stays (f : Path → Except IoError String) (n : Naming) (file : Path) : Prop → List Item → Prop
  | nil {closed} : Stays f n file closed []
  | kept {closed i is} (h : itemFate f n file i = .kept) (hs : Stays f n file i.Closes is) :
      Stays f n file closed (i :: is)
  | removed {closed i is e} (h : itemFate f n file i = .removed e) (hc : closed)
      (hs : Stays f n file closed is) : Stays f n file closed (i :: is)
  | replaced {closed i is e text} (h : itemFate f n file i = .replaced e text)
      (hi : IsItem (·.dependency? = none) text) (hs : Stays f n file True is) :
      Stays f n file closed (i :: is)

/-- Items that all end by themselves stay items if each constant is one. -/
theorem Stays.of_closes {closed : Prop} (hc : closed) (hi : ∀ i ∈ is, i.Closes)
    (hr : ∀ i ∈ is, ∀ e text, itemFate f n file i = .replaced e text →
      IsItem (·.dependency? = none) text) : Stays f n file closed is := by
  induction is generalizing closed with
  | nil => exact .nil
  | cons i is ih =>
    have ih {closed : Prop} (hc : closed) : Stays f n file closed is :=
      ih hc (fun j hj => hi j (List.mem_cons_of_mem _ hj)) fun j hj => hr j (List.mem_cons_of_mem _ hj)
    cases h : itemFate f n file i with
    | kept => exact .kept h (ih (hi i List.mem_cons_self))
    | removed e => exact .removed h hc (ih hc)
    | replaced e text => exact .replaced h (hr i List.mem_cons_self e text h) (ih trivial)

theorem fate_eq {x : Outcome} (h : outcome f n file d = .ok x) : fate f n file d = x := by
  rw [fate, h]

theorem outcome_of_fate {x : Outcome} (h : fate f n file d = x) (hx : x ≠ .kept) :
    outcome f n file d = .ok x := by
  unfold fate at h
  split at h
  · next y hy => rw [hy, h]
  · exact absurd h.symm hx

/-- Only imports go. -/
theorem keyword_of_fate {x : Outcome} (h : fate f n file d = x) (hx : x ≠ .kept) :
    d.keyword = "import".toList := by
  have hg : goes f n file d = true := by
    cases hg : goes f n file d with
    | true => rfl
    | false => exact absurd ((outcome_eq_ok (outcome_of_fate h hx)).2 hg) hx
  simp only [goes, Bool.and_eq_true] at hg
  exact of_decide_eq_true hg.1.1

theorem constant_of_outcome {e : CssEntry} {text : List Char}
    (h : outcome f n file d = .ok (.replaced e text)) : ∃ names value, text = constant names value := by
  have htext {e' : CssEntry} {names value : List Char}
      (h : (.ok (.replaced e' (constant names value)) : Except IoError Outcome) = .ok (.replaced e text)) :
      ∃ names value, text = constant names value :=
    ⟨names, value, (Outcome.replaced.inj (Except.ok.inj h)).2.symm⟩
  unfold outcome at h
  simp only at h
  split at h
  · cases Except.ok.inj h
  split at h
  · cases Except.ok.inj h
  split at h
  · split at h
    · split at h
      · exact htext h
      · cases Except.ok.inj h
    · cases Except.ok.inj h
    · cases h
  · exact htext h

theorem constant_append (names value z : List Char) :
    constant names value ++ z =
      "const".toList ++ ' ' :: (names ++ " = ".toList ++ value ++ [';'] ++ z) := by
  have hc : "const ".toList = "const".toList ++ [' '] := by decide
  unfold constant
  rw [hc]
  simp only [List.append_assoc, List.cons_append, List.nil_append]

section rendering

variable {o : Dependency → Outcome}

theorem render_nil (gap : List Char) : render o (Module.ofItems [] gap) = gap := by
  simp [render, Module.ofItems]

/-- An item that stays is spelled out. -/
theorem render_kept (h : i.dependency?.elim .kept o = .kept) (is : List Item) (gap : List Char) :
    render o (Module.ofItems (i :: is) gap) = i.source ++ render o (Module.ofItems is gap) := by
  rw [Module.ofItems, List.foldr_cons, ← Module.ofItems]
  cases hd : i.dependency? with
  | none => simp [Module.addItem_of_none hd, render, Module.addFront]
  | some d =>
    obtain ⟨l, -, -, hsource, hadd⟩ := Module.addItem_of_some hd
    have hkept : o d = .kept := by simpa [hd] using h
    simp [hadd, hsource, render, hkept, Outcome.render]

/-- What an edit takes along says nothing of a text to which gaps and semicolons say nothing. -/
theorem eq_of_cut {α : Type} {φ : List Char → α}
    (hgap : ∀ g b, IsClosed g b → ∀ s, φ (g ++ s) = φ s) (hsemi : ∀ s, φ (';' :: s) = φ s)
    (hu : u ∈ semicolons) (hv : v ∈ lineEnds) (z : List Char) : φ (u ++ (v ++ z)) = φ z := by
  have hcr : IsClosed ['\r'] true := fun n b s => rfl
  have hv : φ (v ++ z) = φ z := by
    simp only [lineEnds, List.mem_cons, List.not_mem_nil, or_false] at hv
    rcases hv with rfl | rfl | rfl
    · rfl
    · exact hgap _ _ isClosed_newline z
    · exact hgap _ _ (isClosed_append hcr isClosed_newline) z
  simp only [semicolons, List.mem_cons, List.not_mem_nil, or_false] at hu
  rcases hu with rfl | rfl
  · exact hv
  · exact (hsemi _).trans hv

theorem dependencies?_cut (hu : u ∈ semicolons) (hv : v ∈ lineEnds) (z : List Char) :
    dependencies? (u ++ (v ++ z)) = dependencies? z :=
  eq_of_cut (fun _ _ hg => dependencies?_append hg) dependencies?_semicolon hu hv z

/-- An item that goes leaves the gap in front of it and its text, and takes a little of what comes to
stand behind that along. -/
theorem exists_render_of_gone {e : CssEntry} (hd : i.dependency? = some d)
    (he : Outcome.entry? (o d) = some e) (is : List Item) (gap : List Char) :
    ∃ l z, i.first? = some l ∧ l.text = d.keyword ∧
      (∃ u ∈ semicolons, ∃ v ∈ lineEnds, render o (Module.ofItems is gap) = u ++ (v ++ z)) ∧
      render o (Module.ofItems (i :: is) gap) = l.gap ++ ((o d).text ++ z) := by
  obtain ⟨l, hl, hkey, -, hadd⟩ := Module.addItem_of_some hd
  obtain ⟨u, hu, v, hv, hcut, -⟩ := (o d).exists_cut (Module.ofItems is gap).head
  refine ⟨l, (o d).cut (Module.ofItems is gap).head ++
    (Module.ofItems is gap).parts.flatMap fun p => (o p.1).render p.1 p.2, hl, hkey,
    ⟨u, hu, v, hv, ?_⟩, ?_⟩
  · rw [render]
    nth_rewrite 1 [hcut]
    simp only [List.append_assoc]
  · rw [Module.ofItems, List.foldr_cons, ← Module.ofItems, hadd]
    simp only [render, List.flatMap_cons, Outcome.render_of_entry? he, List.append_assoc]

end rendering

/-- That a text is read again as `z`, with the dependencies `ds`. Where what stands in front of it may
not have ended, it ends in front of `z` as well. -/
structure ReadAgain (closed : Prop) (s z : List Char) (ds : List Dependency) : Prop where
  dependencies : dependencies? z = some ds
  replaced : ¬closed → ReplacedBy s z

namespace ReadAgain

variable {closed : Prop} {r : List Char} {ds : List Dependency} {l : Lexeme}

theorem isSome (h : ReadAgain closed s z ds) : (Item.readAll? z).isSome := by
  rw [← isSome_dependencies?, h.dependencies]
  rfl

theorem kept (hi : Item.read? (i.source ++ r) = some (i, r)) (h : ReadAgain i.Closes r z ds) :
    ReadAgain closed (i.source ++ r) (i.source ++ z) (i.dependency?.toList ++ ds) := by
  obtain ⟨j, hj, hfirst, hdep⟩ : ∃ j, Item.read? (i.source ++ z) = some (j, z) ∧
      j.first? = i.first? ∧ j.dependency? = i.dependency? := by
    by_cases hc : i.Closes
    · exact hc z h.isSome
    · exact ⟨i, Item.read?_of_replacedBy (h.replaced hc) hi, rfl, rfl⟩
  refine ⟨by rw [dependencies?_of_read? hj, h.dependencies, hdep]; rfl, fun _ => ?_⟩
  obtain ⟨l, y, hl, hn, hf, hdot, -⟩ := Item.next_of_read? hi
  obtain ⟨l', y', hl', hn', -⟩ := Item.next_of_read? hj
  obtain rfl : l' = l := Option.some.inj (hl'.symm.trans (hfirst.trans hl))
  exact .of_next (.of_next hn hn' hf hdot) hn hn' hf

theorem removed (hc : closed) (hg : IsClosed g b) (h : dependencies? z = some ds) :
    ReadAgain closed s (g ++ z) ds :=
  ⟨(dependencies?_append hg z).trans h, fun hopen => absurd hc hopen⟩

theorem replaced_constant {names value : List Char} (hn : next .operand s = some (l, r))
    (hf : l.token ≠ .finish) (hl : l.text = "import".toList)
    (hi : IsItem (·.dependency? = none) (constant names value)) (h : dependencies? z = some ds) :
    ReadAgain closed s (l.gap ++ (constant names value ++ z)) ds := by
  refine ⟨?_, fun _ => ?_⟩
  · obtain ⟨j, hj, hdep⟩ := hi z (by rw [← isSome_dependencies?, h]; rfl)
    rw [dependencies?_append (isClosed_of_next hn hf), dependencies?_of_read? hj, h, hdep]
    rfl
  · rw [constant_append]
    exact .of_import hn hf hl _

end ReadAgain

theorem exists_of_itemFate {x : Outcome} (h : itemFate f n file i = x) (hx : x ≠ .kept) :
    ∃ d, i.dependency? = some d ∧ fate f n file d = x := by
  cases hd : i.dependency? with
  | none =>
    rw [itemFate, hd] at h
    exact absurd h.symm hx
  | some d =>
    rw [itemFate, hd] at h
    exact ⟨d, rfl, h⟩

/-- Where items stay items, they are read again, with their dependencies but those that go. -/
theorem readAgain_render {closed : Prop} (hs : Stays f n file closed is)
    (h : Item.readAll? s = some (is, gap)) :
    ReadAgain closed s (render (fate f n file) (Module.ofItems is gap))
      ((is.filterMap Item.dependency?).filter fun d => fate f n file d = .kept) := by
  induction hs generalizing s with
  | nil =>
    obtain ⟨-, rfl, -⟩ | ⟨_, _, _, hi, -⟩ := Item.readAll?_cases h
    · rw [render_nil]
      exact ⟨by rw [dependencies?, h]; rfl, fun _ => .refl _⟩
    · cases hi
  | @kept closed i is hk _ ih =>
    obtain ⟨hi, -⟩ | ⟨_, r, _, hc, hi, hr⟩ := Item.readAll?_cases h
    · cases hi
    cases hc
    obtain rfl := (Item.read?_eq_some hi).1
    have hds : ((i :: is).filterMap Item.dependency?).filter (fun d => fate f n file d = .kept) =
        i.dependency?.toList ++
          (is.filterMap Item.dependency?).filter fun d => fate f n file d = .kept := by
      cases hid : i.dependency? with
      | none => simp [hid]
      | some d =>
        have hfate : fate f n file d = .kept := by simpa [itemFate, hid] using hk
        simp [hid, hfate]
    rw [render_kept hk, hds]
    exact .kept hi (ih hr)
  | @removed closed i is e hk hc _ ih =>
    obtain ⟨hi, -⟩ | ⟨_, r, _, hcons, hi, hr⟩ := Item.readAll?_cases h
    · cases hi
    cases hcons
    obtain ⟨d, hid, hfate⟩ := exists_of_itemFate hk (by simp)
    obtain ⟨l, z, hl, -, ⟨u, hu, v, hv, hcut⟩, hall⟩ :=
      exists_render_of_gone (o := fate f n file) hid (by rw [hfate]; rfl) is gap
    have hz := (dependencies?_cut hu hv z).symm.trans (congrArg dependencies? hcut.symm)
    obtain ⟨l', y, hl', hn, hf, -⟩ := Item.next_of_read? hi
    obtain rfl : l = l' := Option.some.inj (hl.symm.trans hl')
    have htext : (fate f n file d).text = [] := by rw [hfate]; rfl
    rw [hall, htext, List.nil_append]
    refine .removed hc (isClosed_of_next hn hf) (hz.trans ((ih hr).dependencies.trans ?_))
    simp [hid, hfate]
  | @replaced closed i is e text hk hitem _ ih =>
    obtain ⟨hi, -⟩ | ⟨_, r, _, hcons, hi, hr⟩ := Item.readAll?_cases h
    · cases hi
    cases hcons
    obtain ⟨d, hid, hfate⟩ := exists_of_itemFate hk (by simp)
    obtain ⟨l, z, hl, hkey, ⟨u, hu, v, hv, hcut⟩, hall⟩ :=
      exists_render_of_gone (o := fate f n file) hid (by rw [hfate]; rfl) is gap
    have hz := (dependencies?_cut hu hv z).symm.trans (congrArg dependencies? hcut.symm)
    obtain ⟨l', y, hl', hn, hf, -⟩ := Item.next_of_read? hi
    obtain rfl : l = l' := Option.some.inj (hl.symm.trans hl')
    obtain ⟨names, value, rfl⟩ := constant_of_outcome (outcome_of_fate hfate (by simp))
    have htext : (fate f n file d).text = constant names value := by rw [hfate]; rfl
    rw [hall, htext]
    rw [keyword_of_fate hfate (by simp)] at hkey
    refine .replaced_constant hn hf hkey hitem (hz.trans ((ih hr).dependencies.trans ?_))
    simp [hid, hfate]

/-- What stands in front of an item's first token stays. -/
theorem exists_render_cons {o : Dependency → Outcome} {l : Lexeme} (hl : i.first? = some l)
    (is : List Item) (gap : List Char) :
    ∃ w, render o (Module.ofItems (i :: is) gap) = l.gap ++ w := by
  rw [Module.ofItems, List.foldr_cons, ← Module.ofItems]
  cases hd : i.dependency? with
  | none =>
    obtain ⟨w, hw⟩ := Item.exists_source_of_first? hl
    rw [Module.addItem_of_none hd, hw]
    simp [render, Module.addFront]
  | some d =>
    obtain ⟨k, hk, -, -, hadd⟩ := Module.addItem_of_some hd
    obtain rfl := Option.some.inj (hl.symm.trans hk)
    exact ⟨_, by rw [hadd]; rfl⟩

theorem head?_render {o : Dependency → Outcome} {c : Char} (h : Item.readAll? (c :: s) = some (is, gap))
    (hc : isGap c = true) : (render o (Module.ofItems is gap)).head? = some c := by
  obtain ⟨rfl, rfl, -⟩ | ⟨i, r, is, rfl, hi, -⟩ := Item.readAll?_cases h
  · rw [render_nil]
    rfl
  · obtain ⟨l, y, hl, hn, hf, -⟩ := Item.next_of_read? hi
    obtain ⟨w, hw⟩ := exists_render_cons (o := o) hl is gap
    obtain ⟨g, hg⟩ := exists_gap_of_next hn hf hc
    rw [hw, hg]
    rfl

/-- The line of an interpreter is told from what stays behind it. -/
theorem interpreterLine_render {o : Dependency → Outcome}
    (h : Item.readAll? (s.drop (Module.interpreterLine s).length) = some (is, gap))
    (hz : (Item.readAll? (render o (Module.ofItems is gap))).isSome) :
    Module.interpreterLine (Module.interpreterLine s ++ render o (Module.ofItems is gap)) =
      Module.interpreterLine s := by
  by_cases hl : Module.interpreterLine s = []
  · rw [hl, List.nil_append, Module.interpreterLine_of_readAll? hz]
  refine Module.interpreterLine_append_of_isLineBreak hl fun c hc => ?_
  cases hr : s.drop (Module.interpreterLine s).length with
  | nil =>
    obtain ⟨rfl, rfl, -⟩ | ⟨i, r, is', rfl, hi, -⟩ := Item.readAll?_cases (hr ▸ h)
    · rw [render_nil] at hc
      cases hc
    · exact absurd (Item.length_of_read? hi) (Nat.not_lt_zero _)
  | cons c' r =>
    have hb := Module.isLineBreak_of_interpreterLine hl hr
    rw [head?_render (hr ▸ h) (isGap_of_isLineBreak hb)] at hc
    exact Option.some.inj hc ▸ hb

/-- A dependency has an outcome unless a proxy that is there cannot be read. -/
theorem outcome_eq_fate (h : needsMap n d = true →
      f (file.resolveFrom (String.ofList d.specifier)) = .error .notFound ∨
        ∃ text, f (file.resolveFrom (String.ofList d.specifier)) = .ok text) :
    outcome f n file d = .ok (fate f n file d) := by
  suffices hx : ∃ x, outcome f n file d = .ok x by
    obtain ⟨x, hx⟩ := hx
    rw [hx, fate_eq hx]
  unfold outcome
  simp only [proxy_entryOf]
  split
  · exact ⟨_, rfl⟩
  next hp =>
  split
  · exact ⟨_, rfl⟩
  next hb =>
  split
  · next hm =>
    have hneeds : needsMap n d = true := by simp_all [needsMap]
    rcases h hneeds with he | ⟨text, he⟩
    · rw [he]
      exact ⟨_, rfl⟩
    · rw [he]
      exact ⟨_, rfl⟩
  · exact ⟨_, rfl⟩

theorem fate_eq_kept_iff (h : outcome f n file d = .ok (fate f n file d)) :
    fate f n file d = .kept ↔ goes f n file d = false := by
  obtain ⟨hgoes, hkept⟩ := outcome_eq_ok h
  refine ⟨fun hk => ?_, hkept⟩
  cases hg : goes f n file d with
  | false => rfl
  | true =>
    have he := (hgoes hg).1
    rw [hk] at he
    cases he

theorem outcomes_eq_fate {parts : List (Dependency × List Char)}
    (h : ∀ p ∈ parts, outcome f n file p.1 = .ok (fate f n file p.1)) :
    outcomes f n file parts = .ok (parts.map fun p => (fate f n file p.1, p)) := by
  induction parts with
  | nil => rfl
  | cons p parts ih =>
    have hrest := ih fun q hq => h q (List.mem_cons_of_mem _ hq)
    rw [outcomes] at hrest ⊢
    rw [List.mapM_cons, hrest]
    simp only [h p List.mem_cons_self]
    rfl

end Embed

namespace Embedded

variable {m : Module}

/-- Whether a text stays a module where its imports go. -/
def StaysModule (f : Path → Except IoError String) (n : Naming) (file : Path) (s : List Char) : Prop :=
  ∃ is gap, Item.readAll? (s.drop (Module.interpreterLine s).length) = some (is, gap) ∧
    Embed.Stays f n file True is

theorem read?_render (hm : Module.read? s = some m) (hs : StaysModule f n file s) :
    ∃ m', Module.read? (Embed.render (Embed.fate f n file) m) = some m' ∧
      m'.parts.map Prod.fst = (m.parts.map Prod.fst).filter fun d => Embed.fate f n file d = .kept := by
  obtain ⟨is, gap, hr, hs⟩ := hs
  have hm : (Module.ofItems is gap).addFront (Module.interpreterLine s) = m := by
    rw [Module.read?, hr] at hm
    exact Option.some.inj hm
  have hrender : Embed.render (Embed.fate f n file) m =
      Module.interpreterLine s ++ Embed.render (Embed.fate f n file) (Module.ofItems is gap) := by
    rw [← hm]
    simp [Embed.render, Module.addFront]
  have hd := (Embed.readAgain_render hs hr).dependencies
  obtain ⟨⟨is', gap'⟩, hr', hd⟩ := Option.map_eq_some_iff.1 hd
  refine ⟨(Module.ofItems is' gap').addFront (Module.interpreterLine s), ?_, ?_⟩
  · rw [hrender, Module.read?, Embed.interpreterLine_render hr (by rw [hr']; rfl), List.drop_left, hr']
    rfl
  · rw [← hm, Module.parts_addFront, Module.parts_addFront, Module.parts_ofItems,
      Module.parts_ofItems, hd]

theorem outcome_eq_fate (hp : ∀ p ∈ proxiesRead n file m,
      f p = .error .notFound ∨ ∃ text, f p = .ok text) :
    ∀ p ∈ m.parts, Embed.outcome f n file p.1 = .ok (Embed.fate f n file p.1) :=
  fun p hmem => Embed.outcome_eq_fate fun hn =>
    hp _ (mem_proxiesRead.2 ⟨p.1, List.mem_map_of_mem hmem, hn, rfl⟩)

theorem exists_ofModule_eq_render
    (ho : ∀ p ∈ m.parts, Embed.outcome f n file p.1 = .ok (Embed.fate f n file p.1)) :
    ∃ e, ofModule f n file m = .ok e ∧ e.code = String.ofList (Embed.render (Embed.fate f n file) m) := by
  have houts := Embed.outcomes_eq_fate ho
  rw [Embed.outcomes] at houts
  rw [ofModule, houts]
  refine ⟨_, rfl, ?_⟩
  simp only [List.flatMap_map]
  rfl

/-- An address in apostrophes makes a constant. -/
theorem isItem_constant {x w : List Char} (hx : IsIdentifier x) (hw : IsBare w) :
    IsItem (·.dependency? = none) (Embed.constant x (Line.quote w)) := by
  intro r _
  have h := reads_declaration isClosed_nil hx (.inl rfl) hw.isPlainIn r
  obtain ⟨ps, hi⟩ := read?_of_reads h
  exact ⟨_, hi, rfl⟩

theorem staysModule_print {t : FileTree} {ls : List Line} (hs : ∀ l ∈ ls, l.IsSound)
    (hr : ∀ l ∈ ls, l.IsReadable n t file)
    (hi : ∀ l ∈ ls, ∀ e text, l.outcome n t file = .replaced e text →
      IsItem (·.dependency? = none) text) :
    StaysModule t.read n file (ls.flatMap Line.print) := by
  obtain ⟨is, gap, hread, -, hitems⟩ := Line.exists_items hs isClosed_nil
  refine ⟨is, gap, by rw [Line.interpreterLine_print]; exact hread, ?_⟩
  refine .of_closes trivial (fun i h => (hitems i h).1) fun i h e text hfate => ?_
  obtain ⟨-, l, hl, hd⟩ := hitems i h
  refine hi l hl e text ?_
  rw [Embed.itemFate, hd] at hfate
  cases hld : l.dependency? with
  | none => simp [hld] at hfate
  | some d =>
    rw [hld] at hfate
    exact (Embed.fate_eq (Line.outcome_dependency (hs l hl) (hr l hl) hld)).symm.trans hfate

/-- Where each constant is one and what stands in front of an import that leaves nothing ends by
itself, embedding gives a module again, with all dependencies but those that go. -/
theorem run_ofFile_rereads (o : Outages) {t : FileTree} {n : Naming} {file : Path} {code : String}
    (hm : Module.read? code.toList = some m) (hs : StaysModule t.read n file code.toList)
    (hp : ∀ p ∈ proxiesRead n file m, t.read p = .error .notFound ∨ ∃ text, t.read p = .ok text) :
    ∃ e, ((ofFile n file code).attempt.run o t).result = .ok e ∧
      ∃ m', Module.read? e.code.toList = some m' ∧
        m'.parts.map Prod.fst = (m.parts.map Prod.fst).filter fun d => !Embed.goes t.read n file d := by
  have ho := outcome_eq_fate hp
  obtain ⟨e, he, hcode⟩ := exists_ofModule_eq_render ho
  obtain ⟨m', hm', hparts⟩ := read?_render hm hs
  refine ⟨e, ?_, m', ?_, ?_⟩
  · rw [(run_ofFile o t n file code).1, ofCode, hm]
    simp only [he]
    rfl
  · rw [hcode, String.toList_ofList, hm']
  · rw [hparts]
    refine List.filter_congr fun d hd => ?_
    obtain ⟨p, hp, rfl⟩ := List.mem_map.1 hd
    rw [Bool.eq_iff_iff, decide_eq_true_eq, Bool.not_eq_true', Embed.fate_eq_kept_iff (ho p hp)]

/-- Two side effects go, in front of a module and behind an import that stays, and a constant comes. -/
theorem run_ofFile_rereads_mixed :
    let ls : List Line := [.import .nothing "./a.css.proxy.js".toList,
      .import (.default "p1".toList) "./y.js".toList,
      .import .nothing "./b.css.proxy.js".toList,
      .import (.all "s1".toList) "./a.css.proxy.js".toList]
    let code := String.ofList (ls.flatMap Line.print)
    let f := FileTree.empty.read
    ∃ m, Module.read? code.toList = some m ∧ StaysModule f {} ⟨"app.js"⟩ code.toList ∧
      (∀ p ∈ proxiesRead {} ⟨"app.js"⟩ m, f p = .error .notFound ∨ ∃ text, f p = .ok text) ∧
      ∃ e, ((ofFile {} ⟨"app.js"⟩ code).attempt.run {} .empty).result = .ok e ∧
        ∃ m', Module.read? e.code.toList = some m' ∧
          m'.parts.map (fun p => p.1.specifier) = ["./y.js".toList] := by
  intro ls code f
  have hs : ∀ l ∈ ls, l.IsSound := by decide +kernel
  have ha : Naming.isCssModule {} (Naming.actual {} "./a.css.proxy.js") = false := by decide +kernel
  have hb : Naming.isCssModule {} (Naming.actual {} "./b.css.proxy.js") = false := by decide +kernel
  have hy : Naming.isCssProxy {} "./y.js" = false := by decide +kernel
  have hr : ∀ l ∈ ls, l.IsReadable {} .empty ⟨"app.js"⟩ := by
    simp [ls, Line.IsReadable, Embed.IsModuleProxy, ha, hb, hy]
  have hm : Module.read? code.toList = some (Line.module ls) := by
    rw [String.toList_ofList, Line.read?_print hs]
  have hstays : StaysModule f {} ⟨"app.js"⟩ code.toList := by
    rw [String.toList_ofList]
    refine staysModule_print hs hr fun l hl e text ho => ?_
    have hout : ∀ l ∈ ls, (∃ e, l.outcome {} .empty ⟨"app.js"⟩ = .removed e) ∨
        l.outcome {} .empty ⟨"app.js"⟩ = .kept ∨
        ∃ e, l.outcome {} .empty ⟨"app.js"⟩ =
          .replaced e (Embed.constant "s1".toList (Line.quote "./a.css".toList)) := by
      intro l hl
      simp only [ls, List.mem_cons, List.not_mem_nil, or_false] at hl
      rcases hl with rfl | rfl | rfl | rfl
      · exact .inl ⟨⟨⟨"a.css"⟩, ⟨"a.css.proxy.js"⟩⟩, by decide +kernel⟩
      · exact .inr (.inl (by decide +kernel))
      · exact .inl ⟨⟨⟨"b.css"⟩, ⟨"b.css.proxy.js"⟩⟩, by decide +kernel⟩
      · exact .inr (.inr ⟨⟨⟨"a.css"⟩, ⟨"a.css.proxy.js"⟩⟩, by decide +kernel⟩)
    rcases hout l hl with ⟨_, h⟩ | h | ⟨_, h⟩
    · cases h.symm.trans ho
    · cases h.symm.trans ho
    · rw [← (Embed.Outcome.replaced.inj (h.symm.trans ho)).2]
      exact isItem_constant (by decide) (by decide +kernel)
  have hp : proxiesRead {} ⟨"app.js"⟩ (Line.module ls) = [] := by decide +kernel
  have hreads : ∀ p ∈ proxiesRead {} ⟨"app.js"⟩ (Line.module ls),
      f p = .error .notFound ∨ ∃ text, f p = .ok text := by simp [hp]
  refine ⟨_, hm, hstays, hreads, ?_⟩
  obtain ⟨e, he, m', hm', hparts⟩ := run_ofFile_rereads {} hm hstays hreads
  refine ⟨e, he, m', hm', ?_⟩
  have h := congrArg (List.map Dependency.specifier) hparts
  rw [List.map_map] at h
  refine h.trans ?_
  decide +kernel

namespace Renamed

/-- An import of one name under another one. -/
def code : String := "import \x7ba as b\x7d from './x.css.proxy.js';\n"

/-- What the embedding makes of it. -/
def constant : String := "const \x7ba as b\x7d = './x.css';\n"

theorem read?_code : Module.read? code.toList =
    some ⟨[], [(⟨"import".toList, " \x7ba as b\x7d from ".toList,
      Line.quote "./x.css.proxy.js".toList, [';']⟩, ['\n'])]⟩ := by
  let w := "./x.css.proxy.js".toList
  let y := Line.quote w ++ ';' :: ['\n']
  have hw : IsBare w := by decide
  have ha {goal : Goal} : IsToken goal ['a'] (.name "a") (' ' :: ("as b\x7d from".toList ++ ' ' :: y)) :=
    IsIdentifier.isToken (by decide) (endsName_blank _)
  have has {goal : Goal} : IsToken goal "as".toList (.name "as")
      (' ' :: ("b\x7d from".toList ++ ' ' :: y)) :=
    isToken_keyword (.of_all (by decide) (by decide)) (by decide) (endsName_blank _)
  have hb {goal : Goal} : IsToken goal ['b'] (.name "b") ('\x7d' :: (" from".toList ++ ' ' :: y)) :=
    IsIdentifier.isToken (by decide) (endsName_cons (by decide) (by decide) _)
  have h1 := Reads.take (e := .importClause) isClosed_blank
    (isToken_mark '\x7b' .openBrace (by simp) (by decide) ("a as b\x7d from".toList ++ ' ' :: y))
    rfl (by simp) []
  have h2 := Reads.take (e := .entries .importNames .module) isClosed_nil ha rfl (by simp)
    [.word "from"]
  have h3 := Reads.take (e := .importName) isClosed_blank has rfl (by simp) [.word "from"]
  have h4 := Reads.take (e := .bindingName .module) isClosed_blank hb rfl (by simp)
    [.more .importNames .module, .word "from"]
  have h5 := Reads.take (e := .more .importNames .module) isClosed_nil
    (isToken_mark '\x7d' .closeBrace (by simp) (by decide) (" from".toList ++ ' ' :: y))
    rfl (by simp) [.word "from"]
  have hclause : Reads [.importClause] (" \x7ba as b\x7d from".toList ++ ' ' :: y) [] (' ' :: y) :=
    h1.trans (h2.trans (h3.trans (h4.trans (h5.trans (reads_from y)))))
  obtain ⟨ps, hps, hread⟩ := readDependency?_of_reads (k := "import") (e := .importClause) isClosed_nil
    (isToken_keyword (.of_all (by decide) (by decide)) (by decide) (endsName_blank _)) rfl hw hclause
  have hcode : code.toList =
      [] ++ ("import".toList ++ (" \x7ba as b\x7d from".toList ++ ' ' :: y)) := by
    decide
  have hline : Module.interpreterLine code.toList = [] := rfl
  rw [Module.read?, hline, List.length_nil, List.drop_zero, hcode,
    Item.readAll?_cons (Item.read?_of_readDependency? hread), readAll?_of_isClosed isClosed_newline]
  simp [Module.ofItems, Module.addItem, Module.addFront, hps, w, Piece.source, Lexeme.source]

/-- No pattern binds a name under another one in this way. -/
theorem read?_constant : Module.read? constant.toList = none := by
  let y := "b\x7d = './x.css';\n".toList
  let d : Declaration := .constants .module none
  have hconst : IsToken .operand "const".toList (.keyword "const")
      (' ' :: ('\x7b' :: 'a' :: ' ' :: ("as".toList ++ ' ' :: y))) :=
    isToken_keyword (.of_all (by decide) (by decide)) (by decide) (endsName_blank _)
  have ha : IsToken .operand ['a'] (.name "a") (' ' :: ("as".toList ++ ' ' :: y)) :=
    IsIdentifier.isToken (by decide) (endsName_blank _)
  have has {goal : Goal} : IsToken goal "as".toList (.name "as") (' ' :: y) :=
    isToken_keyword (.of_all (by decide) (by decide)) (by decide) (endsName_blank _)
  have h1 := Reads.take (e := .item) isClosed_nil hconst
    (show _ = Move.take [.declarator d] from rfl) (by simp) []
  have h2 := Reads.take (e := .declarator d) isClosed_blank
    (isToken_mark '\x7b' .openBrace (by simp) (by decide) ('a' :: ' ' :: ("as".toList ++ ' ' :: y)))
    rfl (by simp) []
  have h3 := Reads.take (e := .entries .propertyPattern .module) isClosed_nil ha rfl (by simp)
    [.declared d true]
  have hfail : read [.patternName .module, .declared d true] .value
      (' ' :: ("as".toList ++ ' ' :: y)) = none := by
    have hn (k : Goal) : next k _ = some _ := next_of_isToken isClosed_blank has
    exact read_of_fail (e := .patternName .module) (hn _) rfl [.declared d true]
  obtain ⟨ps, -, hitem⟩ := h1.trans (h2.trans h3)
  rw [List.singleton_append, hfail] at hitem
  have hn := next_of_isToken isClosed_nil hconst
  have hdependency : read [.dependency] .value _ = none := read_of_fail (e := .dependency) hn rfl []
  have hi : Item.read? ([] ++ ("const".toList ++
      ' ' :: ('\x7b' :: 'a' :: ' ' :: ("as".toList ++ ' ' :: y)))) = none := by
    rw [Item.read?, Item.readDependency?, hdependency, hitem]
    rfl
  have hcode : constant.toList =
      [] ++ ("const".toList ++ ' ' :: ('\x7b' :: 'a' :: ' ' :: ("as".toList ++ ' ' :: y))) := by
    decide
  have hline : Module.interpreterLine constant.toList = [] := rfl
  rw [Module.read?, hline, List.length_nil, List.drop_zero, hcode,
    Item.readAll?_of_none hn (by simp) hi, Option.map_none]

end Renamed

/-- A name that is imported under another one makes no constant. -/
theorem not_rereads_renamed :
    (∃ m, Module.read? Renamed.code.toList = some m) ∧
      ∃ e, ((ofFile {} ⟨"app.js"⟩ Renamed.code).attempt.run {} .empty).result = .ok e ∧
        Module.read? e.code.toList = none := by
  refine ⟨⟨_, Renamed.read?_code⟩, ⟨[⟨⟨"x.css"⟩, ⟨"x.css.proxy.js"⟩⟩], Renamed.constant⟩, ?_,
    Renamed.read?_constant⟩
  rw [(run_ofFile {} .empty {} ⟨"app.js"⟩ Renamed.code).1, ofCode, Renamed.read?_code]
  decide +kernel

end Embedded
end SiteBuild
