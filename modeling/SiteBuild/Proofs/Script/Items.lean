import SiteBuild.Proofs.Script.Behind
import SiteBuild.Proofs.Script.Cut
import SiteBuild.Proofs.Script.Steps

/-! Items of a module in front of other texts. An item takes its first token, so that more of a gap in
front of it changes no more than that gap; it is an import or a statement, never both; and it is read
again in front of each text that may stand in the place of the one behind it. -/

namespace SiteBuild.Script

variable {s s' r r' g gap : List Char} {b : Bool} {t : Token} {e : Expectation} {st : List Expectation}
  {shape shape' : Shape} {ps : List Piece} {l : Lexeme}

section opening

theorem followedBy_eq_leave {m : Move} {below : List Expectation} (h : m.followedBy below = .leave shape) :
    m = .leave shape := by
  cases m with
  | leave s => exact h
  | _ => cases h

theorem movePrimary_ne_leave (scope : Scope) (t : Token) : movePrimary scope t ≠ .leave shape := by
  intro h
  unfold movePrimary moveTemplate at h
  repeat' split at h
  all_goals cases h

theorem moveOperand_ne_leave (k : Level) (t : Token) : moveOperand k t ≠ .leave shape := by
  intro h
  unfold moveOperand moveUnary moveStep at h
  repeat' split at h
  all_goals first | cases h | exact movePrimary_ne_leave _ _ (followedBy_eq_leave h)

theorem moveStatement_ne_leave (body : Bool) (scope : Scope) (t : Token) :
    moveStatement body scope t ≠ .leave shape := by
  intro h
  unfold moveStatement moveWordStatement moveNamedStatement moveStatementOperand at h
  repeat' split at h
  all_goals first | cases h | exact moveOperand_ne_leave _ _ (followedBy_eq_leave h)

/-- What an item begins with takes the first token or fails, wherever lines end. -/
structure Expectation.Opens (e : Expectation) : Prop where
  goal (b : Bool) : e.goal b = .operand
  move (shape : Shape) (b b' : Bool) (t : Token) : e.move shape b t = e.move shape b' t
  leave (shape shape' : Shape) (b : Bool) (t : Token) : e.move shape b t ≠ .leave shape'
  finish (shape : Shape) (b : Bool) : e.move shape b .finish = .fail
  dot (shape : Shape) (b : Bool) : e.move shape b .dot = .fail

theorem opens_item : Expectation.Opens .item where
  goal _ := rfl
  move _ _ _ _ := rfl
  leave _ _ _ t := by
    intro h
    change moveItem t = _ at h
    unfold moveItem moveStatementOperand at h
    split at h
    · cases h
    · exact moveOperand_ne_leave _ _ (followedBy_eq_leave h)
    · cases h
    · exact moveStatement_ne_leave _ _ _ h
  finish _ _ := rfl
  dot _ _ := rfl

theorem opens_dependency : Expectation.Opens .dependency where
  goal _ := rfl
  move _ _ _ _ := rfl
  leave _ _ _ t := by
    intro h
    change moveDependency t = _ at h
    unfold moveDependency at h
    split at h <;> cases h
  finish _ _ := rfl
  dot _ _ := rfl
/-- Where an item is read, its first token is taken. -/
theorem Expectation.Opens.of_read {d : Passage} (he : e.Opens) (h : read (e :: st) shape s = some d) :
    ∃ l y more shape' d', next .operand s = some (l, y) ∧ l.token ≠ .finish ∧ l.token ≠ .dot ∧
      e.move shape l.broken l.token = .moveOn more shape' ∧ read (more ++ st) shape' y = some d' ∧
      d = d'.behind [.lexeme l] := by
  obtain ⟨l, y, hn, ⟨more, shape', d', hm, hf, hd, rfl⟩ | ⟨_, _, hm, _⟩⟩ := read_cons_cases h
  · refine ⟨l, y, more, shape', d', he.goal l.broken ▸ hn, hf, fun ht => ?_, hm, hd, rfl⟩
    rw [ht, he.dot] at hm
    cases hm
  · exact absurd hm (he.leave _ _ _ _)

/-- More of a gap in front of what was read. -/
def behindGap (g : List Char) (b : Bool) : List Piece → List Piece
  | .lexeme l :: ps => .lexeme (l.behindGap g b) :: ps
  | ps => ps

theorem Expectation.Opens.read_append (he : e.Opens) (hg : IsClosed g b) (s : List Char) :
    read (e :: st) shape (g ++ s) =
      (read (e :: st) shape s).map fun d => { d with pieces := behindGap g b d.pieces } := by
  cases hn : next .operand s with
  | none =>
    have hgn : next (e.goal (lineEnds (g ++ s))) (g ++ s) = none := by
      rw [he.goal, next_append hg, hn]
      rfl
    rw [read_of_none hgn, read_of_none (by rw [he.goal, hn])]
    rfl
  | some x =>
    obtain ⟨l, y⟩ := x
    have hn' : next (e.goal (lineEnds s)) s = some (l, y) := by rw [he.goal, hn]
    have hgn : next (e.goal (lineEnds (g ++ s))) (g ++ s) = some (l.behindGap g b, y) := by
      rw [he.goal, next_append hg, hn]
      rfl
    have hmove : e.move shape (l.behindGap g b).broken (l.behindGap g b).token =
        e.move shape l.broken l.token := he.move _ _ _ _
    cases hm : e.move shape l.broken l.token with
    | leave _ => exact absurd hm (he.leave _ _ _ _)
    | fail => rw [read_of_fail hn' hm, read_of_fail hgn (hmove.trans hm), Option.map_none]
    | moveOn more shape' =>
      have hf : l.token ≠ .finish := by
        intro ht
        rw [ht, he.finish] at hm
        cases hm
      rw [read_of_take hn' hm hf, read_of_take hgn (hmove.trans hm) hf, Option.map_map]
      rfl

end opening

namespace Item

def behindGap (g : List Char) (b : Bool) : Item → Item
  | .statement ps => .statement (Script.behindGap g b ps)
  | .dependency clause quoted tail => .dependency (Script.behindGap g b clause) quoted tail

theorem readDependency?_append (hg : IsClosed g b) (s : List Char) :
    readDependency? (g ++ s) = (readDependency? s).map fun x => (x.1.behindGap g b, x.2) := by
  unfold readDependency?
  rw [opens_dependency.read_append hg]
  cases read [.dependency] .value s with
  | none => rfl
  | some d =>
    simp only [Option.map_some, Option.bind_eq_bind, Option.bind_some]
    cases next .operand d.rest with
    | none => rfl
    | some x =>
      simp only [Option.bind_some]
      split
      · cases read [.attributes, .ending] .value x.2 <;> rfl
      · rfl

theorem read?_append (hg : IsClosed g b) (s : List Char) :
    read? (g ++ s) = (read? s).map fun x => (x.1.behindGap g b, x.2) := by
  unfold read?
  rw [readDependency?_append hg, opens_item.read_append hg]
  cases readDependency? s with
  | some x => rfl
  | none => cases read [.item] .value s <;> rfl

/-- The lexeme that an item begins with. -/
def first? : Item → Option Lexeme
  | .statement (.lexeme l :: _) => some l
  | .dependency (.lexeme l :: _) _ _ => some l
  | _ => none

/-- An item begins with a token, which is no dot, and goes on in what follows it. -/
theorem next_of_read? {i : Item} (h : read? s = some (i, r)) :
    ∃ l y, i.first? = some l ∧ next .operand s = some (l, y) ∧ l.token ≠ .finish ∧ l.token ≠ .dot ∧
      r.length ≤ y.length := by
  rcases Option.or_eq_some_iff.1 h with h | ⟨-, h⟩
  · obtain ⟨clause, hc, h⟩ := Option.bind_eq_some_iff.1 h
    obtain ⟨l, y, more, shape', d, hn, hf, hd, -, hr, rfl⟩ := opens_dependency.of_read hc
    obtain ⟨⟨quoted, rest⟩, hq, h⟩ := Option.bind_eq_some_iff.1 h
    simp only at h
    split at h
    · obtain ⟨tail, hl, h⟩ := Option.bind_eq_some_iff.1 h
      cases h
      refine ⟨l, y, rfl, hn, hf, hd, ?_⟩
      have h1 := congrArg List.length (read_source hr)
      have h2 := congrArg List.length (next_source hq)
      have h3 := congrArg List.length (read_source hl)
      simp only [Passage.behind, List.length_append] at h1 h2 h3
      omega
    · cases h
  · obtain ⟨d, hi, h⟩ := Option.map_eq_some_iff.1 h
    cases h
    obtain ⟨l, y, more, shape', d, hn, hf, hd, -, hr, rfl⟩ := opens_item.of_read hi
    refine ⟨l, y, rfl, hn, hf, hd, ?_⟩
    have h1 := congrArg List.length (read_source hr)
    simp only [Passage.behind, List.length_append] at h1 ⊢
    omega

theorem length_of_read? {i : Item} (h : read? s = some (i, r)) : r.length < s.length := by
  obtain ⟨l, y, -, hn, hf, -, hl⟩ := next_of_read? h
  exact Nat.lt_of_le_of_lt hl (next_length hn hf)

theorem readAll?_cons {i : Item} (h : read? s = some (i, r)) :
    readAll? s = (readAll? r).map fun x => (i :: x.1, x.2) := by
  obtain ⟨l, y, -, hn, hf, -⟩ := next_of_read? h
  rw [readAll?]
  simp [hn, hf, h, length_of_read? h]

theorem readAll?_of_finish {y : List Char} (hn : next .operand s = some (l, y))
    (hl : l.token = .finish) : readAll? s = some ([], s) := by
  rw [readAll?]
  simp [hn, hl]

theorem readAll?_of_none {y : List Char} (hn : next .operand s = some (l, y))
    (hf : l.token ≠ .finish) (h : read? s = none) : readAll? s = none := by
  rw [readAll?]
  simp [hn, hf, h]

/-- Items are there to the end of a text, or one is read that more follow. -/
theorem readAll?_cases {is : List Item} (h : readAll? s = some (is, gap)) :
    (is = [] ∧ gap = s ∧ ∃ l y, next .operand s = some (l, y) ∧ l.token = .finish) ∨
      ∃ i r is', is = i :: is' ∧ read? s = some (i, r) ∧ readAll? r = some (is', gap) := by
  rw [readAll?] at h
  split at h
  · cases h
  next l y hn =>
  split at h
  · next hf =>
    cases h
    exact .inl ⟨rfl, rfl, l, y, hn, hf⟩
  split at h
  · cases h
  next i r hi =>
  split at h
  · obtain ⟨⟨is', gap'⟩, hr, h⟩ := Option.map_eq_some_iff.1 h
    cases h
    exact .inr ⟨i, r, is', rfl, hi, hr⟩
  · cases h

/-- More of a gap in front of what all was read. -/
def behindGapAll (g : List Char) (b : Bool) : List Item × List Char → List Item × List Char
  | ([], gap) => ([], g ++ gap)
  | (i :: is, gap) => (i.behindGap g b :: is, gap)

theorem readAll?_append (hg : IsClosed g b) (s : List Char) :
    readAll? (g ++ s) = (readAll? s).map (behindGapAll g b) := by
  cases hi : read? s with
  | some x =>
    obtain ⟨i, r⟩ := x
    have hgi : read? (g ++ s) = some (i.behindGap g b, r) := by rw [read?_append hg, hi]; rfl
    rw [readAll?_cons hi, readAll?_cons hgi, Option.map_map]
    rfl
  | none =>
    have hgi : read? (g ++ s) = none := by rw [read?_append hg, hi]; rfl
    have hgn : next .operand (g ++ s) = _ := next_append hg s
    rw [readAll?, readAll?]
    simp only [hi, hgi, hgn]
    cases next .operand s with
    | none => rfl
    | some x =>
      obtain ⟨l, y⟩ := x
      simp only [Option.map_some]
      have : (l.behindGap g b).token = l.token := rfl
      rw [this]
      split <;> rfl

/-- The dependency that an item is. -/
def dependency? : Item → Option Dependency
  | .dependency (.lexeme l :: clause) quoted tail =>
    some ⟨l.text, Script.source clause ++ quoted.gap, quoted.text, Script.source tail⟩
  | _ => none

@[simp] theorem dependency?_behindGap (g : List Char) (b : Bool) (i : Item) :
    (i.behindGap g b).dependency? = i.dependency? := by
  cases i with
  | statement _ => rfl
  | dependency clause _ _ =>
    rcases clause with _ | ⟨p, _⟩
    · rfl
    · cases p <;> rfl

@[simp] theorem filterMap_behindGapAll (g : List Char) (b : Bool) (x : List Item × List Char) :
    (behindGapAll g b x).1.filterMap dependency? = x.1.filterMap dependency? := by
  obtain ⟨_ | ⟨i, is⟩, gap⟩ := x
  · rfl
  · simp [behindGapAll, List.filterMap_cons]

end Item

section disjoint

/-- What is expected of names that are exported from elsewhere, given what is of names of the
module's own. -/
def exportedFrom : Expectation → Expectation
  | .entries .localNames scope => .entries .exportNames scope
  | .more .localNames scope => .more .exportNames scope
  | .exportName .localNames => .exportName .exportNames
  | e => e

/-- What is expected within the braces of an export. -/
def localList : List Expectation :=
  [.entries .localNames .module, .more .localNames .module, .exportName .localNames, .anyName]

theorem moveMore_exportedFrom {more : List Expectation}
    (h : moveMore .localNames .module t = .moveOn more shape) :
    moveMore .exportNames .module t = .moveOn (more.map exportedFrom) shape ∧
      ∀ e ∈ more, e ∈ localList := by
  cases t
  all_goals first | (cases h; exact ⟨rfl, by simp [localList]⟩) | cases h

theorem moveExportSpecifier_exportedFrom {more : List Expectation}
    (h : moveExportSpecifier .localNames t = .moveOn more shape) :
    moveExportSpecifier .exportNames t = .moveOn (more.map exportedFrom) shape ∧
      ∀ e ∈ more, e ∈ localList := by
  unfold moveExportSpecifier at h
  split at h
  · split at h
    · cases h
    · cases h
      exact ⟨rfl, by simp [localList]⟩
  · split at h
    · cases h
    · cases h
      exact ⟨rfl, by simp [localList]⟩
  · cases h
  · cases h
  · cases h

/-- Names of a module's own are names that may be exported from elsewhere. -/
theorem move_exportedFrom {more : List Expectation} (he : e ∈ localList)
    (h : e.move shape b t = .moveOn more shape') :
    (exportedFrom e).move shape b t = .moveOn (more.map exportedFrom) shape' ∧
      ∀ e' ∈ more, e' ∈ localList := by
  simp only [localList, List.mem_cons, List.not_mem_nil, or_false] at he
  rcases he with rfl | rfl | rfl | rfl
  · change moveEntries .localNames .module t = _ at h
    change moveEntries .exportNames .module t = _ ∧ _
    unfold moveEntries at h ⊢
    by_cases ht : t = .closeBrace
    · subst ht
      cases h
      exact ⟨rfl, by simp⟩
    · rw [if_neg (show t ≠ Listing.close .localNames from ht)] at h
      rw [if_neg (show t ≠ Listing.close .exportNames from ht)]
      exact moveExportSpecifier_exportedFrom h
  · exact moveMore_exportedFrom h
  · change (if t = .name "as" then .take [.anyName, .more .localNames .module]
      else moveMore .localNames .module t) = _ at h
    change (if t = .name "as" then .take [.anyName, .more .exportNames .module]
      else moveMore .exportNames .module t) = _ ∧ _
    by_cases ht : t = .name "as"
    · rw [if_pos ht] at h ⊢
      cases h
      exact ⟨rfl, by simp [localList]⟩
    · rw [if_neg ht] at h ⊢
      exact moveMore_exportedFrom h
  · change moveAnyName t = _ at h
    change moveAnyName t = _ ∧ _
    unfold moveAnyName at h ⊢
    split at h
    all_goals first | (cases h; exact ⟨rfl, by simp⟩) | cases h

theorem goal_exportedFrom (e : Expectation) (b : Bool) : (exportedFrom e).goal b = e.goal b := by
  unfold exportedFrom
  split <;> rfl

theorem localList_ne_leave (he : e ∈ localList) : e.move shape b t ≠ .leave shape' := by
  simp only [localList, List.mem_cons, List.not_mem_nil, or_false] at he
  intro h
  rcases he with rfl | rfl | rfl | rfl
  · change (if t = .closeBrace then .take [] else moveExportSpecifier .localNames t) = _ at h
    unfold moveExportSpecifier at h
    repeat' split at h
    all_goals cases h
  · change moveMore .localNames .module t = _ at h
    unfold moveMore at h
    repeat' split at h
    all_goals cases h
  · change (if t = .name "as" then .take [.anyName, .more .localNames .module]
      else moveMore .localNames .module t) = _ at h
    unfold moveMore at h
    repeat' split at h
    all_goals cases h
  · change moveAnyName t = _ at h
    unfold moveAnyName at h
    split at h <;> cases h

theorem read_exportedFrom {d : Passage} (hst : ∀ e ∈ st, e ∈ localList)
    (h : read st shape s = some d) : read (st.map exportedFrom) shape s = some d := by
  fun_induction read st shape s generalizing d with
  | case1 shape s => exact (read_nil shape s).trans h
  | case2 => cases h
  | case3 => cases h
  | case4 e st shape s l r hn more shape' hm hf _ ih =>
    obtain ⟨d', hd, rfl⟩ := Option.map_eq_some_iff.1 h
    obtain ⟨hm', hmore⟩ := move_exportedFrom (hst e List.mem_cons_self) hm
    rw [List.map_cons, read_of_take (by rw [goal_exportedFrom, hn]) hm' hf, ← List.map_append, ih ?_ hd]
    · rfl
    · intro e' he'
      rcases List.mem_append.1 he' with he' | he'
      · exact hmore e' he'
      · exact hst e' (List.mem_cons_of_mem _ he')
  | case5 e st shape s l r hn shape' hm ih =>
    exact absurd hm (localList_ne_leave (hst e List.mem_cons_self))
  | case6 => cases h

theorem moveImportClause_of_moveImported {scope : Scope} (h : moveImported scope t ≠ .fail) :
    moveImportClause t = .fail := by
  unfold moveImported at h
  split at h
  · rfl
  · rfl
  · exact absurd rfl h

theorem moveReexport_of_moveExported (h : moveExported t ≠ .fail) (ht : t ≠ .openBrace) :
    moveReexport t = .fail := by
  unfold moveReexport
  split
  · exact absurd rfl h
  · exact absurd rfl ht
  · rfl

/-- Behind the names that a module exports of its own no source follows. -/
theorem read_reexport_of_exported {d : Passage} (h : read [.exported] .value s = some d) :
    read [.reexport] .value s = none := by
  obtain ⟨l, y, hn, hmove⟩ := read_cons_cases h
  by_cases ht : l.token = .openBrace
  · have hm : Expectation.reexport.move .value l.broken l.token =
        .take [.entries .exportNames .module, .word "from"] := by
      rw [ht]
      rfl
    have hf : l.token ≠ .finish := by
      rw [ht]
      nofun
    obtain ⟨more, shape', d', hm', -, hd, -⟩ | ⟨_, _, hm', _⟩ := hmove
    · rw [ht] at hm'
      cases hm'
      rw [read_of_take (e := .reexport) hn hm hf]
      obtain ⟨names, hnames, hrest⟩ := Option.bind_eq_some_iff.1
        ((read_append [.entries .localNames .module] [.localEnding] .value y).symm.trans hd)
      obtain ⟨rest, hrest, -⟩ := Option.map_eq_some_iff.1 hrest
      have hlocal : ∀ e ∈ [Expectation.entries .localNames .module], e ∈ localList := by
        simp [localList]
      have hnames : read [.entries .exportNames .module] .value y = some names :=
        read_exportedFrom hlocal hnames
      change (read ([.entries .exportNames .module] ++ [.word "from"]) .value y).map _ = none
      rw [read_append, hnames, Option.bind_some]
      obtain ⟨k, z, hk, hmove⟩ := read_cons_cases hrest
      have hfrom : k.token ≠ .name "from" := by
        intro hfrom
        obtain ⟨_, _, _, hm, _⟩ | ⟨_, _, hm, _⟩ := hmove
        all_goals
          rw [hfrom] at hm
          cases hm
      rw [read_of_fail (e := .word "from") hk (if_neg hfrom)]
      rfl
    · rw [ht] at hm'
      cases hm'
  · refine read_of_fail (e := .reexport) hn (moveReexport_of_moveExported ?_ ht) []
    obtain ⟨_, _, _, hm, _⟩ | ⟨_, _, hm, _⟩ := hmove
    all_goals
      intro hfail
      cases hm.symm.trans hfail

/-- What is read as an item is no dependency. -/
theorem readDependency?_of_item {d : Passage} (h : read [.item] .value s = some d) :
    Item.readDependency? s = none := by
  obtain ⟨l, y, more, shape', d', hn, hf, -, hm, hr, -⟩ := opens_item.of_read h
  suffices hd : read [.dependency] .value s = none by
    rw [Item.readDependency?, hd]
    rfl
  -- only two words begin a dependency
  by_cases himport : l.token = .keyword "import"
  · rw [himport] at hm
    cases hm
    have hmove : Expectation.dependency.move .value l.broken l.token = .take [.importClause] := by
      rw [himport]
      rfl
    rw [read_of_take (e := .dependency) hn hmove hf, List.append_nil]
    obtain ⟨k, z, hk, hmove⟩ := read_cons_cases hr
    have hne : moveImported .module k.token ≠ .fail := by
      obtain ⟨_, _, _, hm, _⟩ | ⟨_, _, hm, _⟩ := hmove
      all_goals
        intro hfail
        cases hm.symm.trans hfail
    rw [read_of_fail (e := .importClause) hk (moveImportClause_of_moveImported hne)]
    rfl
  by_cases hexport : l.token = .keyword "export"
  · rw [hexport] at hm
    cases hm
    have hmove : Expectation.dependency.move .value l.broken l.token = .take [.reexport] := by
      rw [hexport]
      rfl
    rw [read_of_take (e := .dependency) hn hmove hf, List.append_nil, read_reexport_of_exported hr]
    rfl
  · refine read_of_fail (e := .dependency) hn ?_ []
    change moveDependency l.token = _
    unfold moveDependency
    split
    · exact absurd ‹_› himport
    · exact absurd ‹_› hexport
    · rfl

end disjoint

namespace Item

/-- The parts of a dependency, each in front of the next one. -/
theorem readDependency?_cases {i : Item} (h : readDependency? s = some (i, r)) :
    ∃ clause quoted tail shape shape', i = .dependency clause quoted tail ∧ quoted.token = .string ∧
      read [.dependency] .value s =
        some ⟨clause, shape, quoted.source ++ (Script.source tail ++ r)⟩ ∧
      next .operand (quoted.source ++ (Script.source tail ++ r)) =
        some (quoted, Script.source tail ++ r) ∧
      read [.attributes, .ending] .value (Script.source tail ++ r) = some ⟨tail, shape', r⟩ := by
  obtain ⟨⟨clause, shape, u⟩, hc, h⟩ := Option.bind_eq_some_iff.1 h
  obtain ⟨⟨quoted, v⟩, hq, h⟩ := Option.bind_eq_some_iff.1 h
  simp only at h
  split at h
  · next ht =>
    obtain ⟨⟨tail, shape', w⟩, hl, h⟩ := Option.bind_eq_some_iff.1 h
    cases h
    have hv : Script.source tail ++ w = v := read_source hl
    have hu : quoted.source ++ v = u := next_source hq
    subst hv hu
    exact ⟨clause, quoted, tail, shape, shape', rfl, ht, hc, hq, hl⟩
  · cases h

theorem readDependency?_of_replacedBy {i : Item} (hr : ReplacedBy r r')
    (h : readDependency? (i.source ++ r) = some (i, r)) :
    readDependency? (i.source ++ r') = some (i, r') := by
  obtain ⟨clause, quoted, tail, shape, shape', rfl, ht, hc, hq, hl⟩ := readDependency?_cases h
  have hf : quoted.token ≠ .finish := by
    rw [ht]
    nofun
  have hq' : next .operand (quoted.source ++ (Script.source tail ++ r')) =
      some (quoted, Script.source tail ++ r') :=
    next_of_lookAlike hq hf (hr.alike.append _)
  have hbehind : ReplacedBy (quoted.source ++ (Script.source tail ++ r))
      (quoted.source ++ (Script.source tail ++ r')) :=
    .of_next ((hr.alike.append _).append _) hq hq' hf
  have hc' := read_of_replacedBy (x := Script.source clause) hbehind (by simpa [Item.source] using hc)
  have hl' := read_of_replacedBy (x := Script.source tail) hr hl
  simp [readDependency?, Item.source, hc', hq', ht, hl']

theorem read?_of_readDependency? {x : Item × List Char} (h : readDependency? s = some x) :
    read? s = some x := by
  rw [read?, h, Option.some_or]

theorem read?_of_replacedBy {i : Item} (hr : ReplacedBy r r')
    (h : read? (i.source ++ r) = some (i, r)) : read? (i.source ++ r') = some (i, r') := by
  rcases Option.or_eq_some_iff.1 h with h | ⟨-, h⟩
  · exact read?_of_readDependency? (readDependency?_of_replacedBy hr h)
  · obtain ⟨⟨ps, shape, u⟩, hd, h⟩ := Option.map_eq_some_iff.1 h
    cases h
    have hd' := read_of_replacedBy (x := Script.source ps) hr hd
    rw [read?, Item.source, readDependency?_of_item hd', hd']
    rfl

end Item

/-- A text that is read as an item of some kind in front of every module. -/
def IsItem (P : Item → Prop) (w : List Char) : Prop :=
  ∀ r, (Item.readAll? r).isSome → ∃ i, Item.read? (w ++ r) = some (i, r) ∧ P i

/-- An item that ends by itself: it is read in front of every module. -/
def Item.Closes (i : Item) : Prop :=
  IsItem (fun j => j.first? = i.first? ∧ j.dependency? = i.dependency?) i.source

theorem Item.first?_of_isToken {i : Item} {w x : List Char} (hg : IsClosed g b)
    (hw : IsToken .operand w t x) (h : read? (g ++ (w ++ x)) = some (i, r)) :
    i.first? = some ⟨g, b, t, w⟩ := by
  obtain ⟨l, y, hl, hn, -⟩ := next_of_read? h
  obtain ⟨rfl, -⟩ := Prod.mk.inj (Option.some.inj (hn.symm.trans (next_of_isToken hg hw)))
  exact hl

theorem Item.exists_source_of_first? {i : Item} (h : i.first? = some l) :
    ∃ w, i.source = l.gap ++ w := by
  cases i with
  | statement ps =>
    rcases ps with _ | ⟨_ | _, ps⟩
    · cases h
    · cases h
      simp [Item.source, Piece.source, Lexeme.source]
    · cases h
  | dependency clause quoted tail =>
    rcases clause with _ | ⟨_ | _, clause⟩
    · cases h
    · cases h
      simp [Item.source, Piece.source, Lexeme.source]
    · cases h

namespace Module

/-- An item that is no dependency joins the text in front. -/
theorem addItem_of_none {i : Item} (h : i.dependency? = none) (m : Module) :
    addItem i m = m.addFront i.source := by
  cases i with
  | statement ps => rfl
  | dependency clause quoted tail =>
    rcases clause with _ | ⟨_ | _, clause⟩
    · rfl
    · cases h
    · rfl

/-- A dependency is cut out, up to the gap in front of it. -/
theorem addItem_of_some {i : Item} {d : Dependency} (h : i.dependency? = some d) :
    ∃ l, i.first? = some l ∧ l.text = d.keyword ∧ i.source = l.gap ++ d.source ∧
      ∀ m, addItem i m = ⟨l.gap, (d, m.head) :: m.parts⟩ := by
  cases i with
  | statement ps => cases h
  | dependency clause quoted tail =>
    rcases clause with _ | ⟨l | _, clause⟩
    · cases h
    · obtain rfl := Option.some.inj h
      refine ⟨l, rfl, rfl, ?_, fun m => rfl⟩
      simp [Item.source, Dependency.source, Piece.source, Lexeme.source]
    · cases h

end Module

end SiteBuild.Script
