import SiteBuild.Proofs.Script.Gaps
import SiteBuild.Script.Module

/-! Cutting a text at its dependencies loses nothing of it, and the source of each dependency stands
between two quotes of one kind. -/

namespace SiteBuild.Script

variable {goal : Goal} {c q : Char} {t : Token} {n : Nat} {s r gap : List Char} {l : Lexeme} {m : Module}

/-- A text between two quotes of one kind, of which only the last one closes it. -/
def IsQuoted (w : List Char) : Prop :=
  ∃ q v, (q = '\x27' ∨ q = '\x22') ∧ w = q :: v ++ [q] ∧
    (v ++ [q]).foldlM (QuotePlace.step q) .text = some .closed

section quotes

variable {p : QuotePlace} {w : List Char}

theorem eq_of_textStep (h : QuotePlace.textStep q c = some .closed) : c = q := by
  unfold QuotePlace.textStep at h
  split at h
  · cases h
  split at h
  · assumption
  split at h <;> cases h

/-- Only the quote that opened a text closes it. -/
theorem eq_of_step_closed (h : QuotePlace.step q p c = some .closed) : c = q := by
  cases p with
  | text => exact eq_of_textStep h
  | escape p =>
    simp only [QuotePlace.step] at h
    split at h
    · cases h
    · split at h <;> cases h
  | lineEnd =>
    simp only [QuotePlace.step] at h
    split at h
    · cases h
    · exact eq_of_textStep h
  | closed => cases h

theorem exists_of_foldlM_closed (h : w.foldlM (QuotePlace.step q) .text = some .closed) :
    ∃ v, w = v ++ [q] := by
  obtain rfl | ⟨v, c, rfl⟩ := List.eq_nil_or_concat w
  · cases h
  · rw [List.concat_eq_append] at h ⊢
    rw [List.foldlM_append] at h
    obtain ⟨p, -, h⟩ := Option.bind_eq_some_iff.1 h
    obtain ⟨p', hp, h⟩ := Option.bind_eq_some_iff.1 h
    cases h
    exact ⟨v, by rw [eq_of_step_closed hp]⟩

/-- What a token is tells which reader gave it. -/
theorem readToken_cases (h : readToken goal c s = some (t, n)) :
    ((c = '\x27' ∨ c = '\x22') ∧ t = .string ∧
        readTo (QuotePlace.step c) QuotePlace.token? .text 1 s = some (t, n)) ∨
      (∃ continues reads, t = .template continues reads) ∨ t = .number ∨ t = .regex ∨
      (∃ x, t = .privateName x) ∨
      (∃ x : Spelling, t = x.token ∧
        readTo NameReader.step NameReader.token? .start 0 (c :: s) = some (t, n)) ∨
      ∃ m ∈ marks, m.2 = t := by
  unfold readToken at h
  split at h
  · next hc =>
    obtain ⟨q, hq⟩ := exists_of_readTo h
    cases q with
    | closed => exact .inl ⟨by simpa using hc, (Option.some.inj hq).symm, h⟩
    | _ => cases hq
  split at h
  · obtain ⟨q, hq⟩ := exists_of_readTo h
    cases q with
    | closed => exact .inr (.inl ⟨_, _, (Option.some.inj hq).symm⟩)
    | _ => cases hq
  split at h
  · obtain ⟨q, hq⟩ := exists_of_readTo h
    refine .inr (.inr (.inl ?_))
    cases q <;> first | exact (Option.some.inj hq).symm | cases hq
  split at h
  · obtain ⟨q, hq⟩ := exists_of_readTo h
    refine .inr (.inr (.inr (.inl ?_)))
    cases q with
    | flags w =>
      simp only [RegexPlace.token?] at hq
      split at hq
      · exact (Option.some.inj hq).symm
      · cases hq
    | _ => cases hq
  split at h
  · obtain ⟨q, hq⟩ := exists_of_readTo h
    obtain ⟨x, -, hx⟩ := Option.map_eq_some_iff.1 hq
    exact .inr (.inr (.inr (.inr (.inl ⟨_, hx.symm⟩))))
  split at h
  · obtain ⟨q, hq⟩ := exists_of_readTo h
    obtain ⟨x, -, hx⟩ := Option.map_eq_some_iff.1 hq
    exact .inr (.inr (.inr (.inr (.inr (.inl ⟨x, hx.symm, h⟩)))))
  · obtain ⟨m, hm, h⟩ := Option.map_eq_some_iff.1 h
    exact .inr (.inr (.inr (.inr (.inr (.inr
      ⟨m, List.mem_of_find?_eq_some hm, (Prod.mk.inj h).1⟩)))))

theorem isQuoted_of_readToken (h : readToken goal c (w ++ s) = some (.string, 1 + w.length)) :
    IsQuoted (c :: w) := by
  rcases readToken_cases h with
    ⟨hc, -, hr⟩ | ⟨_, _, ht⟩ | ht | ht | ⟨_, ht⟩ | ⟨x, ht, -⟩ | ⟨m, hm, ht⟩
  · obtain ⟨p, hw, ht, -⟩ := readTo_eq_iff.1 hr
    obtain rfl : p = .closed := by cases p <;> first | rfl | cases ht
    obtain ⟨v, rfl⟩ := exists_of_foldlM_closed hw
    exact ⟨c, v, hc, rfl, hw⟩
  -- no other reader gives a text in quotes
  · cases ht
  · cases ht
  · cases ht
  · cases ht
  · unfold Spelling.token at ht
    simp only at ht
    split at ht
    · cases ht
    split at ht <;> cases ht
  · have hmarks : ∀ m ∈ marks, m.2 ≠ .string := by decide
    exact absurd ht (hmarks m hm)

theorem isQuoted_of_next (h : next goal s = some (l, r)) (ht : l.token = .string) :
    IsQuoted l.text := by
  obtain ⟨c, w, hl, -, -, hr⟩ := next_eq_some h (by rw [ht]; nofun)
  rw [ht] at hr
  exact hl ▸ isQuoted_of_readToken hr

end quotes

namespace Item

def source : Item → List Char
  | .statement ps => Script.source ps
  | .dependency clause quoted tail => Script.source clause ++ quoted.source ++ Script.source tail

/-- Whether the source that an item names, if any, stands in quotes. -/
def IsQuoted : Item → Prop
  | .statement _ => True
  | .dependency _ quoted _ => Script.IsQuoted quoted.text

theorem readDependency?_eq_some {i : Item} (h : readDependency? s = some (i, r)) :
    i.source ++ r = s ∧ i.IsQuoted := by
  obtain ⟨clause, hc, h⟩ := Option.bind_eq_some_iff.1 h
  obtain ⟨⟨quoted, rest⟩, hq, h⟩ := Option.bind_eq_some_iff.1 h
  simp only at h
  split at h
  · next ht =>
    obtain ⟨tail, hl, h⟩ := Option.bind_eq_some_iff.1 h
    cases h
    refine ⟨?_, isQuoted_of_next hq ht⟩
    simp only [source, List.append_assoc]
    rw [read_source hl, next_source hq, read_source hc]
  · cases h

theorem read?_eq_some {i : Item} (h : read? s = some (i, r)) : i.source ++ r = s ∧ i.IsQuoted := by
  rcases Option.or_eq_some_iff.1 h with h | ⟨-, h⟩
  · exact readDependency?_eq_some h
  · obtain ⟨d, hd, h⟩ := Option.map_eq_some_iff.1 h
    cases h
    exact ⟨read_source hd, trivial⟩

theorem readAll?_eq_some {is : List Item} (h : readAll? s = some (is, gap)) :
    is.flatMap source ++ gap = s ∧ ∀ i ∈ is, i.IsQuoted := by
  fun_induction readAll? s generalizing is with
  | case1 => cases h
  | case2 s l _ hn hf =>
    cases h
    exact ⟨rfl, by simp⟩
  | case3 => cases h
  | case4 s l _ hn hf i r hi hlt ih =>
    obtain ⟨⟨js, g⟩, hj, h⟩ := Option.map_eq_some_iff.1 h
    cases h
    obtain ⟨hs, hq⟩ := ih hj
    obtain ⟨hi, hiq⟩ := read?_eq_some hi
    refine ⟨?_, ?_⟩
    · rw [List.flatMap_cons, List.append_assoc, hs, hi]
    · intro j hj
      rcases List.mem_cons.1 hj with rfl | hj
      · exact hiq
      · exact hq j hj
  | case5 => cases h

end Item

namespace Module

@[simp] theorem source_addFront (s : List Char) (m : Module) : (m.addFront s).source = s ++ m.source := by
  simp [source, addFront]

@[simp] theorem parts_addFront (s : List Char) (m : Module) : (m.addFront s).parts = m.parts := rfl

@[simp] theorem source_addItem (i : Item) (m : Module) : (addItem i m).source = i.source ++ m.source := by
  unfold addItem
  split
  · simp [Item.source]
  · simp [Item.source, source, Dependency.source, Piece.source, Lexeme.source]
  · simp [Item.source]

theorem source_ofItems (is : List Item) (gap : List Char) :
    (ofItems is gap).source = is.flatMap Item.source ++ gap := by
  induction is with
  | nil => simp [ofItems, source]
  | cons i is ih =>
    rw [ofItems, List.foldr_cons, ← ofItems, source_addItem, ih]
    simp

theorem interpreterLine_append (s : List Char) :
    interpreterLine s ++ s.drop (interpreterLine s).length = s := by
  refine List.prefix_iff_eq_append.1 ?_
  unfold interpreterLine
  split
  · exact List.takeWhile_prefix _
  · exact List.takeWhile_prefix _
  · exact List.nil_prefix

/-- A module spells out the text that it was read from. -/
theorem source_of_read? (h : read? s = some m) : m.source = s := by
  obtain ⟨⟨is, gap⟩, hr, rfl⟩ := Option.map_eq_some_iff.1 h
  rw [source_addFront, source_ofItems, (Item.readAll?_eq_some hr).1, interpreterLine_append]

theorem isQuoted_of_addItem {i : Item} (hi : i.IsQuoted) (hm : ∀ p ∈ m.parts, IsQuoted p.1.quoted) :
    ∀ p ∈ (addItem i m).parts, IsQuoted p.1.quoted := by
  unfold addItem
  split
  · exact hm
  · intro p hp
    rcases List.mem_cons.1 hp with rfl | hp
    · exact hi
    · exact hm p hp
  · exact hm

theorem isQuoted_of_read? (h : read? s = some m) : ∀ p ∈ m.parts, IsQuoted p.1.quoted := by
  obtain ⟨⟨is, gap⟩, hr, rfl⟩ := Option.map_eq_some_iff.1 h
  have hq := (Item.readAll?_eq_some hr).2
  rw [parts_addFront]
  clear hr h
  induction is with
  | nil => simp [ofItems]
  | cons i is ih =>
    rw [ofItems, List.foldr_cons, ← ofItems]
    exact isQuoted_of_addItem (hq i List.mem_cons_self) (ih fun j hj => hq j (List.mem_cons_of_mem _ hj))

end Module

end SiteBuild.Script
