import SiteBuild.Proofs.Script.Lines

/-! The dependencies of a text, and the line of an interpreter in front of it. Gaps and semicolons add
no dependency. -/

namespace SiteBuild.Script

variable {i : Item} {g s z : List Char} {b : Bool}

/-- The dependencies among the items of a text. -/
def dependencies? (s : List Char) : Option (List Dependency) :=
  (Item.readAll? s).map fun x => x.1.filterMap Item.dependency?

@[simp] theorem isSome_dependencies? (s : List Char) :
    (dependencies? s).isSome = (Item.readAll? s).isSome := by
  simp [dependencies?]

theorem dependencies?_append (hg : IsClosed g b) (s : List Char) :
    dependencies? (g ++ s) = dependencies? s := by
  simp [dependencies?, Item.readAll?_append hg, Function.comp_def]

theorem dependencies?_of_read? {r : List Char} (h : Item.read? s = some (i, r)) :
    dependencies? s = (dependencies? r).map fun ds => i.dependency?.toList ++ ds := by
  rw [dependencies?, dependencies?, Item.readAll?_cons h, Option.map_map, Option.map_map]
  refine congrArg (Option.map · _) (funext fun x => ?_)
  cases hd : i.dependency? <;> simp [hd]

/-- A semicolon by itself is an item. -/
theorem dependencies?_semicolon (s : List Char) : dependencies? (';' :: s) = dependencies? s := by
  have hr : Reads [.item] ([] ++ ([';'] ++ s)) [] s :=
    Reads.take (e := .item) isClosed_nil (isToken_mark ';' .semicolon (by simp) (by decide) s) rfl
      (by simp) []
  obtain ⟨ps, hi⟩ := read?_of_reads (s := ';' :: s) hr
  simp [dependencies?_of_read? hi, Item.dependency?]

theorem isGap_of_isLineBreak {c : Char} (hc : isLineBreak c = true) : isGap c = true := by
  simp only [isLineBreak, Bool.or_eq_true, decide_eq_true_eq] at hc
  rcases hc with ((rfl | rfl) | rfl) | rfl
  all_goals decide

/-- A gap that a text begins with is one in front of its first token. -/
theorem exists_gap_of_next {goal : Goal} {c : Char} {l : Lexeme} {r : List Char}
    (hn : next goal (c :: s) = some (l, r)) (hf : l.token ≠ .finish) (hc : isGap c = true) :
    ∃ g, l.gap = c :: g := by
  obtain ⟨c', w, -, hs, hg, -⟩ := next_eq_some hn hf
  cases hgap : l.gap with
  | cons d g =>
    rw [hgap] at hs
    exact ⟨g, by rw [(List.cons.inj hs).1]⟩
  | nil =>
    rw [hgap, List.length_nil] at hg
    have hstop := (gapStep_eq_none.1 (gapStep_of_gapLength hg).1).2.1
    rw [hc] at hstop
    cases hstop

namespace Module

/-- What begins with the mark of an interpreter is no module by itself. -/
theorem interpreterLine_of_readAll? (h : (Item.readAll? s).isSome) : interpreterLine s = [] := by
  have hnone (h' : next .operand s = none) : False := by
    rw [Item.readAll?, h'] at h
    cases h
  unfold interpreterLine
  split
  · exact (hnone rfl).elim
  · exact (hnone rfl).elim
  · rfl

theorem interpreterLine_eq (h : interpreterLine s ≠ []) :
    interpreterLine s = s.takeWhile fun c => !isLineBreak c := by
  unfold interpreterLine at h ⊢
  split
  · rfl
  · rfl
  · simp_all

/-- Behind the line of an interpreter that line ends. -/
theorem isLineBreak_of_interpreterLine {c : Char} {r : List Char} (h : interpreterLine s ≠ [])
    (hr : s.drop (interpreterLine s).length = c :: r) : isLineBreak c = true := by
  have hs := interpreterLine_append s
  rw [hr, interpreterLine_eq h] at hs
  have htake := List.takeWhile_append_dropWhile (p := fun c => !isLineBreak c) (l := s)
  have hnot := List.head?_dropWhile_not (fun c => !isLineBreak c) s
  rw [← List.append_cancel_left (hs.trans htake.symm)] at hnot
  simpa using hnot

theorem interpreterLine_append_of_isLineBreak (h : interpreterLine s ≠ [])
    (hz : ∀ c, z.head? = some c → isLineBreak c = true) :
    interpreterLine (interpreterLine s ++ z) = interpreterLine s := by
  let p : Char → Bool := fun c => !isLineBreak c
  have hend : z.takeWhile p = [] := by
    cases z with
    | nil => rfl
    | cons c z => exact List.takeWhile_cons_of_neg (by simp [p, hz c rfl])
  have htake : (s.takeWhile p ++ z).takeWhile p = s.takeWhile p := by
    rw [List.takeWhile_append_of_pos (List.all_eq_true.1 List.all_takeWhile), hend, List.append_nil]
  rw [interpreterLine_eq h]
  refine Eq.trans ?_ htake
  unfold interpreterLine at h
  split at h
  · rfl
  · rfl
  · exact absurd rfl h

theorem parts_ofItems (is : List Item) (gap : List Char) :
    (ofItems is gap).parts.map Prod.fst = is.filterMap Item.dependency? := by
  induction is with
  | nil => rfl
  | cons i is ih =>
    rw [ofItems, List.foldr_cons, ← ofItems]
    cases hd : i.dependency? with
    | none => rw [addItem_of_none hd, List.filterMap_cons_none hd, ← ih, parts_addFront]
    | some d =>
      obtain ⟨l, -, -, -, hadd⟩ := addItem_of_some hd
      rw [hadd, List.filterMap_cons_some hd, ← ih, List.map_cons]

end Module

end SiteBuild.Script
