import SiteBuild.Proofs.Embed.Splice
import SiteBuild.Proofs.Script.Leading
import SiteBuild.Proofs.Script.Scan

/-! Where the statements of a module stand that name a source. Their places follow one another in the
text, each begins with one of two words, and each holds the place of its source between two quotes. -/

namespace SiteBuild.Script

variable {goal : Goal} {c : Char} {k : String} {n i : Nat} {s r r' u w gap : List Char} {l : Lexeme}
  {d : Dependency} {m : Module} {parts : List (Dependency × List Char)} {is : List Item}

section keywords

namespace NameReader

variable {p q : NameReader}

/-- That a name which has no escape so far is spelled like the text that was read. -/
def Spells (u : List Char) (r : NameReader) : Prop :=
  r.place = .plain → r.escaped = false → r.reversed = u.reverse

theorem Spells.step (hp : p.Spells u) (h : NameReader.step p c = some q) : q.Spells (u ++ [c]) := by
  intro hplace he
  obtain ⟨place, reversed, escaped⟩ := p
  cases place with
  | plain =>
    simp only [NameReader.step] at h
    split at h
    · cases h
      rw [List.reverse_concat, ← hp rfl he]
    split at h
    · cases h
      cases hplace
    · cases h
  | backslash =>
    simp only [NameReader.step] at h
    split at h
    · cases h
      cases hplace
    · cases h
  | escape e =>
    simp only [NameReader.step] at h
    split at h
    · cases h
      cases hplace
    · -- the name has an escape from here on
      unfold spell at h
      split at h
      · cases h
        cases he
      · cases h
    · cases h

theorem Spells.foldlM (hp : p.Spells u) (h : w.foldlM NameReader.step p = some q) :
    q.Spells (u ++ w) := by
  induction w generalizing p u with
  | nil =>
    cases h
    rwa [List.append_nil]
  | cons c w ih =>
    rw [List.foldlM_cons] at h
    obtain ⟨p', hc, h⟩ := Option.bind_eq_some_iff.1 h
    rw [List.append_cons]
    exact ih (hp.step hc) h

/-- A keyword is spelled without an escape. -/
theorem Spells.eq_of_keyword (hq : q.Spells w) (h : q.token? = some (.keyword k)) :
    w = k.toList := by
  obtain ⟨x, hx, ht⟩ := Option.map_eq_some_iff.1 h
  unfold spelling? at hx
  split at hx
  · next hp =>
    cases hx
    unfold Spelling.token at ht
    simp only at ht
    split at ht
    · cases ht
    next he =>
    split at ht
    · cases ht
      rw [String.toList_ofList, hq (of_decide_eq_true (Bool.and_eq_true_iff.1 hp).1) (by simpa using he),
        List.reverse_reverse]
    · cases ht
  · cases hx

end NameReader

/-- Only the reader of names gives keywords. -/
theorem readTo_of_keyword (h : readToken goal c s = some (.keyword k, n)) :
    readTo NameReader.step NameReader.token? .start 0 (c :: s) = some (.keyword k, n) := by
  rcases readToken_cases h with
    ⟨-, ht, -⟩ | ⟨_, _, ht⟩ | ht | ht | ⟨_, ht⟩ | ⟨_, -, hr⟩ | ⟨x, hx, ht⟩
  · cases ht
  · cases ht
  · cases ht
  · cases ht
  · cases ht
  · exact hr
  · have hmarks : ∀ x ∈ marks, x.2.startsKey = true → x.2 = .openBracket := by decide
    have hopen := hmarks x hx (ht ▸ rfl)
    rw [ht] at hopen
    cases hopen

theorem text_of_keyword (hn : next goal s = some (l, r)) (hl : l.token = .keyword k) :
    l.text = k.toList := by
  obtain ⟨c, w, htext, -, -, ht⟩ := next_eq_some hn (by simp [hl])
  have hlen : 1 + w.length = 0 + (c :: w).length := by
    rw [List.length_cons]
    omega
  rw [hl] at ht
  have ht := readTo_of_keyword ht
  rw [hlen, ← List.cons_append] at ht
  obtain ⟨q, hq, hk, -⟩ := readTo_eq_iff.1 ht
  have hstart : NameReader.start.Spells [] := fun _ _ => rfl
  rw [htext]
  exact (hstart.foldlM hq).eq_of_keyword hk

/-- A word is read alike without its gap and in front of other text that looks alike. -/
theorem next_of_text (hn : next goal s = some (l, r)) (hf : l.token ≠ .finish) (hw : IsWord l.text)
    (ha : LookAlike r r') : next goal (l.text ++ r') = some (⟨[], false, l.token, l.text⟩, r') := by
  obtain ⟨c, w, hl, -, -, ht⟩ := next_eq_some hn hf
  rw [hl] at hw ⊢
  have hc : c.isAlpha = true := by simpa using hw.start
  have hg : gapLength .plain 0 false ([] ++ c :: (w ++ r')) = some (0, false) :=
    gapLength_of_ne (isGap_of_isAlphanum (hw.all c List.mem_cons_self))
      (ne_of_isAlpha hc (by decide)) 0 false _
  exact next_of_readToken hg (readToken_of_lookAlike ht ha)

end keywords

/-- Whether a text begins with a word: that word is its first token, and nothing stands in front. -/
def beginsWith (k : String) (w : List Char) : Bool :=
  (next .operand w).any fun x => x.1 = ⟨[], false, .keyword k, k.toList⟩

/-- The words that a statement with a source begins with. -/
def sourceWords : List String := ["import", "export"]

/-- That a dependency begins with one of the words. -/
def Dependency.IsOpened (d : Dependency) : Prop :=
  ∃ k ∈ sourceWords, d.keyword = k.toList ∧ beginsWith k d.source = true

namespace Dependency

/-- The two words tell imports from re-exports. -/
theorem IsOpened.isImport_eq (h : d.IsOpened) : d.isImport = beginsWith "import" d.source := by
  obtain ⟨k, hk, hword, hbegins⟩ := h
  obtain ⟨x, hx, hxk⟩ := (Option.any_eq_true _ _).1 hbegins
  have hxk := of_decide_eq_true hxk
  rw [isImport, beginsWith, hword, hx, Option.any_some, hxk]
  simp only [sourceWords, List.mem_cons, List.not_mem_nil, or_false] at hk
  rcases hk with rfl | rfl
  · decide
  · decide

end Dependency

theorem eq_of_moveDependency {t : Token} {more : List Expectation} {shape : Shape}
    (h : moveDependency t = .moveOn more shape) : ∃ k ∈ sourceWords, t = .keyword k := by
  unfold moveDependency at h
  split at h
  · exact ⟨_, by simp [sourceWords], rfl⟩
  · exact ⟨_, by simp [sourceWords], rfl⟩
  · cases h

theorem isWord_of_mem_sourceWords (h : k ∈ sourceWords) : IsWord k.toList := by
  simp only [sourceWords, List.mem_cons, List.not_mem_nil, or_false] at h
  rcases h with rfl | rfl
  all_goals exact .of_all (by decide) (by decide)

namespace Item

variable {j : Item}

theorem IsQuoted.of_dependency? (hj : j.IsQuoted) (hd : j.dependency? = some d) :
    Script.IsQuoted d.quoted := by
  unfold dependency? at hd
  split at hd
  · cases hd
    exact hj
  · cases hd

/-- A dependency that is read begins with one of the words, also by itself. -/
theorem isOpened_of_read? (h : read? s = some (j, r)) (hd : j.dependency? = some d) : d.IsOpened := by
  obtain ⟨l, hfirst, hkey, hsource, -⟩ := Module.addItem_of_some hd
  obtain ⟨hs, hquoted⟩ := read?_eq_some h
  obtain ⟨v, hv, hn, hf⟩ := exists_source_of_read? (hs ▸ h) hfirst
  obtain ⟨k, hk, hl⟩ : ∃ k ∈ sourceWords, l.token = .keyword k := by
    obtain ⟨x, hx, -⟩ := Option.bind_eq_some_iff.1 (readDependency?_of_some h hd)
    obtain ⟨l', _, _, _, _, hn', -, -, hm, -, -⟩ := opens_dependency.of_read hx
    rw [← hs, hn] at hn'
    obtain ⟨rfl, -⟩ := Prod.mk.inj (Option.some.inj hn')
    exact eq_of_moveDependency hm
  have htext : l.text = k.toList := text_of_keyword hn hl
  have hrest : v = d.clause ++ d.quoted ++ d.tail := by
    rw [hsource, Lexeme.source, List.append_assoc, List.append_cancel_left_eq, Dependency.source, hkey]
      at hv
    simpa using hv.symm
  -- the quotes keep apart what follows the word from what follows the dependency
  have hlen : 2 ≤ v.length := by
    obtain ⟨q, w, -, hq, -⟩ := hquoted.of_dependency? hd
    rw [hrest, hq]
    simp
    omega
  have halike : LookAlike (v ++ r) v := by
    simpa using LookAlike.of_length hlen r []
  have hnext := next_of_text hn hf (htext ▸ isWord_of_mem_sourceWords hk) halike
  refine ⟨k, hk, by rw [← hkey, htext], ?_⟩
  have hd : d.source = l.text ++ v := by
    rw [hrest, Dependency.source, hkey]
    simp
  rw [beginsWith, hd, hnext, Option.any_some, hl, htext]
  exact decide_eq_true rfl

theorem exists_read?_of_mem (h : readAll? s = some (is, gap)) (hj : j ∈ is) :
    ∃ u r, read? u = some (j, r) := by
  induction is generalizing s with
  | nil => cases hj
  | cons i is ih =>
    obtain ⟨hi, -⟩ | ⟨i', r, is', hi, hread, hall⟩ := readAll?_cases h
    · cases hi
    obtain ⟨rfl, rfl⟩ := List.cons.inj hi
    rcases List.mem_cons.1 hj with rfl | hj
    · exact ⟨s, r, hread⟩
    · exact ih hall hj

end Item

/-- The part of a text at a place. -/
def Span.text? (s : List Char) (x : Span) : Option (List Char) := Text.slice? s x.start x.stop

/-- That a statement with a source stands at a place of a text, and its source between two quotes. -/
structure IsSourcePlace (s : List Char) (x : Span × Span) : Prop where
  statement : ∃ w, x.1.text? s = some w ∧ ∃ k ∈ sourceWords, beginsWith k w = true
  source : ∃ w, x.2.text? s = some w
  inside : x.1.start < x.2.start ∧ x.2.start ≤ x.2.stop ∧ x.2.stop < x.1.stop
  within : x.1.stop ≤ Text.byteLength s
  quotes : ∃ q ∈ ['\x27', '\x22'], (Span.mk (x.2.start - 1) x.2.start).text? s = some [q] ∧
    (Span.mk x.2.stop (x.2.stop + 1)).text? s = some [q]

theorem Dependency.isSourcePlace (hx : d.StandsAt s i) (hq : IsQuoted d.quoted) (hd : d.IsOpened) :
    IsSourcePlace s (d.span i, d.specifierSpan i) := by
  obtain ⟨k, hk, -, hbegins⟩ := hd
  obtain ⟨a, b, hs, ha, -⟩ := Text.slice?_eq_some_iff.1 hx.source
  obtain ⟨q, w, hquote, hw, -⟩ := hq
  have hsize : q.utf8Size = 1 := by rcases hquote with rfl | rfl <;> rfl
  have hquoted : Text.byteLength d.quoted = Text.byteLength w + 2 := by
    simp [hw, hsize]
    omega
  let front := a ++ d.keyword ++ d.clause
  have hstart : (d.specifierSpan i).start = Text.byteLength front + 1 := by
    simp [specifierSpan, front, ha, span, Nat.add_assoc]
  have hstop : (d.specifierSpan i).stop = Text.byteLength front + 1 + Text.byteLength w := by
    simp [specifierSpan, front, ha, span, hquoted]
    omega
  refine ⟨⟨d.source, hx.source, k, hk, hbegins⟩, ⟨d.specifier, hx.specifier⟩, ?_,
    Text.le_byteLength_of_slice? hx.source, q, by simpa using hquote, ?_, ?_⟩
  · simp only [hstart, hstop, span, source, front, Text.byteLength_append, ha, hquoted]
    omega
  · refine Text.slice?_eq_some_iff.2 ⟨front, w ++ q :: d.tail ++ b, ?_, ?_, ?_⟩
    · simp [← hs, source, hw, front]
    · rw [hstart, Nat.add_sub_cancel]
    · simp [hstart, hsize]
  · refine Text.slice?_eq_some_iff.2 ⟨front ++ q :: w, d.tail ++ b, ?_, ?_, ?_⟩
    · simp [← hs, source, hw, front]
    · simp [hstop, hsize, Nat.add_assoc]
    · simp [hstop, hsize, Nat.add_assoc]

namespace Module

theorem mem_of_located {x : Nat × Dependency} (hx : x ∈ m.located) : x.2 ∈ m.parts.map Prod.fst :=
  map_snd_go m.parts (Text.byteLength m.head) ▸ List.mem_map_of_mem hx

theorem isOpened_of_mem (h : read? s = some m) {x : Nat × Dependency} (hx : x ∈ m.located) :
    x.2.IsOpened := by
  have hx := mem_of_located hx
  obtain ⟨⟨is, gap⟩, hr, rfl⟩ := Option.map_eq_some_iff.1 h
  rw [parts_addFront, parts_ofItems] at hx
  obtain ⟨j, hj, hd⟩ := List.mem_filterMap.1 hx
  obtain ⟨u, r, hread⟩ := Item.exists_read?_of_mem hr hj
  exact Item.isOpened_of_read? hread hd

theorem le_of_mem_go {x : Nat × Dependency} (hx : x ∈ located.go n parts) : n ≤ x.1 := by
  induction parts generalizing n with
  | nil => cases hx
  | cons p parts ih =>
    rcases List.mem_cons.1 hx with rfl | hx
    · exact Nat.le_refl n
    · have := ih hx
      omega

/-- Each dependency stands behind the end of those in front of it. -/
theorem pairwise_go (n : Nat) (parts : List (Dependency × List Char)) :
    (located.go n parts).Pairwise fun x y => (x.2.span x.1).stop ≤ y.1 := by
  induction parts generalizing n with
  | nil => exact .nil
  | cons p parts ih =>
    refine .cons (fun y hy => ?_) (ih _)
    exact Nat.le_trans (Nat.le_add_right _ _) (le_of_mem_go hy)

theorem isSourcePlace_of_mem (h : read? s = some m) {x : Nat × Dependency} (hx : x ∈ m.located) :
    IsSourcePlace s (x.2.span x.1, x.2.specifierSpan x.1) := by
  obtain ⟨p, hp, hpx⟩ := List.mem_map.1 (mem_of_located hx)
  exact Dependency.isSourcePlace (standsAt_of_read? h x hx) (hpx ▸ isQuoted_of_read? h p hp)
    (isOpened_of_mem h hx)

end Module

/-- Where the sources of a text stand, each with its statement, if the text is read; those of re-exports
are among them where they are asked for. -/
def scan? (withReexports : Bool) (s : List Char) : Option (List (Span × Span)) :=
  (Module.read? s).map (Module.scan withReexports)

/-- Whether an import stands at a place of a text. -/
def Span.isImport (s : List Char) (x : Span) : Bool := (x.text? s).any (beginsWith "import")

/-- The places of a text's sources follow one another, none reaching into the next one, and the imports
among them are those that begin with their word. -/
theorem scan?_places {xs : List (Span × Span)} (h : scan? true s = some xs) :
    (∀ x ∈ xs, IsSourcePlace s x) ∧
      xs.Pairwise (fun x y => x.1.start < y.1.start ∧ x.1.stop ≤ y.1.start) ∧
      scan? false s = some (xs.filter fun x => x.1.isImport s) := by
  obtain ⟨m, hm, rfl⟩ := Option.map_eq_some_iff.1 h
  have hall : m.scan true = m.located.map fun x => (x.2.span x.1, x.2.specifierSpan x.1) := by
    simp [Module.scan]
  have hplaces : ∀ x ∈ m.scan true, IsSourcePlace s x := by
    rw [hall]
    intro x hx
    obtain ⟨y, hy, rfl⟩ := List.mem_map.1 hx
    exact Module.isSourcePlace_of_mem hm hy
  refine ⟨hplaces, ?_, ?_⟩
  · have hpairs : (m.scan true).Pairwise fun x y => x.1.stop ≤ y.1.start := by
      rw [hall, List.pairwise_map]
      exact Module.pairwise_go _ _
    refine hpairs.imp_of_mem fun hx _ hle => ⟨?_, hle⟩
    have := (hplaces _ hx).inside
    omega
  · have himport : ∀ x ∈ m.located, (false || x.2.isImport) = (x.2.span x.1).isImport s := by
      intro x hx
      rw [Bool.false_or, (Module.isOpened_of_mem hm hx).isImport_eq, Span.isImport, Span.text?,
        (Module.standsAt_of_read? hm x hx).source, Option.any_some]
    rw [scan?, hm, Option.map_some, Module.scan, List.filter_congr himport, hall, List.filter_map]
    rfl

/-- An import and a re-export among lines that only look alike. -/
def mixed : List Line :=
  [.comment "é import 'a';".toList, .import (.default "x".toList) "ü".toList,
    .constant "k".toList "export * from 'c';".toList, .reexport "./b".toList, .load "f".toList]

theorem scan?_places_mixed :
    let s := mixed.flatMap Line.print
    let xs := [(⟨18, 37⟩, ⟨33, 35⟩), (⟨70, 90⟩, ⟨85, 88⟩)]
    scan? true s = some xs ∧ (∀ x ∈ xs, IsSourcePlace s x) ∧
      xs.Pairwise (fun x y => x.1.start < y.1.start ∧ x.1.stop ≤ y.1.start) ∧
      scan? false s = some [(⟨18, 37⟩, ⟨33, 35⟩)] := by
  intro s xs
  have hm : Module.read? s = some (Line.module mixed) := Line.read?_print (by decide +kernel)
  have hscan : scan? true s = some xs := by
    rw [scan?, hm]
    decide +kernel
  obtain ⟨hplaces, hpairs, himports⟩ := scan?_places hscan
  exact ⟨hscan, hplaces, hpairs, himports.trans (by decide +kernel)⟩

end SiteBuild.Script
