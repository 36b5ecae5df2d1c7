import SiteBuild.Proofs.Script.Items
import SiteBuild.Proofs.Script.Print

/-! Reading printed lines: each is one item, or a part of the gap in front of the next one. -/

namespace SiteBuild.Script

variable {c : Clause} {g p s w x : List Char} {b : Bool} {l : Line}

/-- A statement that names a source, read up to its semicolon. -/
theorem readDependency?_of_reads {k : String} {e : Expectation} (hg : IsClosed g b)
    (hk : IsToken .operand k.toList (.keyword k) (p ++ ' ' :: (Line.quote w ++ ';' :: s)))
    (hm : Expectation.dependency.move .value b (.keyword k) = .take [e]) (hw : IsBare w)
    (hr : Reads [e] (p ++ ' ' :: (Line.quote w ++ ';' :: s)) []
      (' ' :: (Line.quote w ++ ';' :: s))) :
    ∃ ps, source ps = p ∧
      Item.readDependency? (g ++ (k.toList ++ (p ++ ' ' :: (Line.quote w ++ ';' :: s)))) =
        some (.dependency (.lexeme ⟨g, b, .keyword k, k.toList⟩ :: ps)
          ⟨[' '], false, .string, Line.quote w⟩ [.lexeme ⟨[], false, .semicolon, [';']⟩], s) := by
  obtain ⟨ps, hs, hr⟩ := hr.read_eq
  refine ⟨ps, List.append_cancel_right hs, ?_⟩
  have hclause : read [.dependency] .value
      (g ++ (k.toList ++ (p ++ ' ' :: (Line.quote w ++ ';' :: s)))) =
        some ⟨.lexeme ⟨g, b, .keyword k, k.toList⟩ :: ps, .value,
          ' ' :: (Line.quote w ++ ';' :: s)⟩ := by
    rw [read_of_take (e := .dependency) (next_of_isToken hg hk) hm (by simp), List.append_nil, hr]
    rfl
  have hsource : next .operand (' ' :: (Line.quote w ++ ';' :: s)) =
      some (⟨[' '], false, .string, Line.quote w⟩, ';' :: s) :=
    next_of_isToken isClosed_blank (isToken_quote hw _)
  have htail : read [.attributes, .ending] .value (';' :: s) =
      some ⟨[.lexeme ⟨[], false, .semicolon, [';']⟩], .value, s⟩ := by
    have ht (e : Expectation) (he : e.goal false ≠ .template) :
        next (e.goal false) (';' :: s) = some (⟨[], false, .semicolon, [';']⟩, s) :=
      next_of_isToken isClosed_nil (isToken_mark ';' .semicolon (by simp) he s)
    rw [read_of_leave (ht .attributes (by decide)) rfl,
      read_of_take (ht .ending (by decide)) rfl (by simp), List.append_nil, read_nil]
    rfl
  simp [Item.readDependency?, hclause, hsource, htail]

theorem endsName_print (c : Clause) (s : List Char) : EndsName (c.print ++ ' ' :: s) := by
  cases c
  all_goals exact endsName_blank _

theorem readDependency?_import (hg : IsClosed g b) (hc : c.IsSound) (hw : IsBare w)
    (s : List Char) :
    ∃ ps, source ps = c.print ∧
      Item.readDependency? (g ++ ((Line.import c w).text ++ s)) =
        some (.dependency (.lexeme ⟨g, b, .keyword "import", "import".toList⟩ :: ps)
          ⟨[' '], false, .string, Line.quote w⟩ [.lexeme ⟨[], false, .semicolon, [';']⟩], s) := by
  have hk : IsToken .operand "import".toList (.keyword "import")
      (c.print ++ ' ' :: (Line.quote w ++ ';' :: s)) :=
    isToken_keyword (.of_all (by decide) (by decide)) (by decide) (endsName_print c _)
  obtain ⟨ps, hs, hr⟩ := readDependency?_of_reads (e := .importClause) hg hk rfl hw
    (reads_clause hc hw (';' :: s))
  refine ⟨ps, hs, ?_⟩
  rw [← hr]
  simp [Line.text, between]

theorem readDependency?_reexport (hg : IsClosed g b) (hw : IsBare w) (s : List Char) :
    ∃ ps, source ps = " * from".toList ∧
      Item.readDependency? (g ++ ((Line.reexport w).text ++ s)) =
        some (.dependency (.lexeme ⟨g, b, .keyword "export", "export".toList⟩ :: ps)
          ⟨[' '], false, .string, Line.quote w⟩ [.lexeme ⟨[], false, .semicolon, [';']⟩], s) := by
  have hk : IsToken .operand "export".toList (.keyword "export")
      (" * from".toList ++ ' ' :: (Line.quote w ++ ';' :: s)) :=
    isToken_keyword (.of_all (by decide) (by decide)) (by decide) (endsName_blank _)
  have hfrom {goal : Goal} : IsToken goal "from".toList (.name "from")
      (' ' :: (Line.quote w ++ ';' :: s)) :=
    isToken_keyword (.of_all (by decide) (by decide)) (by decide) (endsName_blank _)
  have h1 := Reads.take (e := .reexport) isClosed_blank
    (isToken_star ("from".toList ++ ' ' :: (Line.quote w ++ ';' :: s))) rfl (by simp) []
  have h2 := Reads.take (e := .reexportAll) isClosed_blank hfrom rfl (by simp) []
  obtain ⟨ps, hs, hr⟩ := readDependency?_of_reads (e := .reexport) hg hk rfl hw (h1.trans h2)
  refine ⟨ps, hs, ?_⟩
  rw [← hr]
  simp [Line.text, between]

theorem reads_load (hg : IsClosed g b) (hw : IsBare w) (s : List Char) :
    Reads [.item] (g ++ ((Line.load w).text ++ s)) [] s := by
  have ht : (Line.load w).text ++ s =
      "import".toList ++ ([] ++ (['('] ++ ([] ++ (Line.quote w ++ ([] ++ ([')'] ++ ([] ++ ([';'] ++
        s)))))))) := by
    simp [Line.text, between]
  have hk : IsToken .operand "import".toList (.keyword "import")
      ([] ++ (['('] ++ ([] ++ (Line.quote w ++ ([] ++ ([')'] ++ ([] ++ ([';'] ++ s)))))))) :=
    isToken_keyword (.of_all (by decide) (by decide)) (by decide) (endsName_cons (by decide) (by decide) _)
  have hopen : IsToken .operand ['('] .openParen
      ([] ++ (Line.quote w ++ ([] ++ ([')'] ++ ([] ++ ([';'] ++ s)))))) :=
    isToken_mark '(' .openParen (by simp) (by decide) _
  have hquote : IsToken .operand (Line.quote w) .string ([] ++ ([')'] ++ ([] ++ ([';'] ++ s)))) :=
    isToken_quote hw _
  have hclose {goal : Goal} (hgoal : goal ≠ .template) :
      IsToken goal [')'] .closeParen ([] ++ ([';'] ++ s)) :=
    isToken_mark ')' .closeParen (by simp) hgoal _
  have hend : IsToken .operator [';'] .semicolon s :=
    isToken_mark ';' .semicolon (by simp) (by decide) s
  rw [ht]
  have h1 := Reads.take (e := .item) hg hk
    (show _ = Move.take [.imported .module, .rest (.expression .module) .value, .ending] from rfl)
    (by simp) []
  have h2 := Reads.take (e := .imported .module) isClosed_nil hopen rfl (by simp)
    [.rest (.expression .module) .value, .ending]
  have h3 := Reads.take (e := .operand (.assignment .module)) isClosed_nil hquote rfl (by simp)
    [.importedMore false .module, .rest (.expression .module) .value, .ending]
  have h4 := Reads.leave (e := .rest (.assignment .module) .value) isClosed_nil
    (hclose (by decide)) rfl [.importedMore false .module, .rest (.expression .module) .value, .ending]
  have h5 := Reads.take (e := .importedMore false .module) isClosed_nil (hclose (by decide)) rfl
    (by simp) [.rest (.expression .module) .value, .ending]
  have h6 := Reads.leave (e := .rest (.expression .module) .value) isClosed_nil hend rfl [.ending]
  have h7 := Reads.take (e := .ending) isClosed_nil hend rfl (by simp) []
  exact h1.trans (h2.trans (h3.trans (h4.trans (h5.trans (h6.trans h7)))))

/-- The declaration of one name with a value, from behind the word that opens it. -/
theorem reads_declarator {v : List Char} {t : Token} (hx : IsIdentifier x) (ht : t ≠ .finish)
    (hv : IsToken .operand v t (';' :: s))
    (hm : moveOperand (.assignment .module) t = .take [.rest (.assignment .module) .value]) :
    Reads [.declarator (.constants .module none)]
      (' ' :: (x ++ ' ' :: '=' :: ' ' :: (v ++ ';' :: s))) [] s := by
  let d : Declaration := .constants .module none
  have hdeclared : (Expectation.declarator d).move .value false (.name (String.ofList x)) =
      .take [.declared d true] := by
    simp [Expectation.move, moveDeclarator, d, Declaration.constants, moveBinding, moveBindingName,
      hx.isNameIn, Move.followedBy]
  have hend : IsToken .operator [';'] .semicolon s :=
    isToken_mark ';' .semicolon (by simp) (by decide) s
  have h1 := Reads.take (e := .declarator d) isClosed_blank
    (hx.isToken (endsName_blank ('=' :: ' ' :: (v ++ ';' :: s)))) hdeclared (by simp) []
  have h2 := Reads.take (e := .declared d true) isClosed_blank
    (isToken_assign (v ++ ';' :: s)) rfl (by simp) []
  have h3 := Reads.take (e := .operand (.assignment .module)) isClosed_blank hv hm ht
    [.declarators d]
  have h4 := Reads.leave (e := .rest (.assignment .module) .value) isClosed_nil hend rfl
    [.declarators d]
  have h5 := Reads.take (e := .declarators d) isClosed_nil hend rfl (by simp) []
  exact h1.trans (h2.trans (h3.trans (h4.trans h5)))

/-- The declaration of one name, with a text in quotes of either kind. -/
theorem reads_declaration {q : Char} (hg : IsClosed g b) (hx : IsIdentifier x)
    (hq : q = '\x27' ∨ q = '\x22') (hw : IsPlainIn q w) (s : List Char) :
    Reads [.item] (g ++ ("const ".toList ++ x ++ " = ".toList ++ (q :: w ++ [q]) ++ [';'] ++ s)) [] s := by
  have ht : "const ".toList ++ x ++ " = ".toList ++ (q :: w ++ [q]) ++ [';'] ++ s =
      "const".toList ++ ' ' :: (x ++ ' ' :: '=' :: ' ' :: (q :: w ++ [q] ++ ';' :: s)) := by
    simp
  have hk : IsToken .operand "const".toList (.keyword "const")
      (' ' :: (x ++ ' ' :: '=' :: ' ' :: (q :: w ++ [q] ++ ';' :: s))) :=
    isToken_keyword (.of_all (by decide) (by decide)) (by decide) (endsName_blank _)
  have h1 := Reads.take (e := .item) hg hk
    (show _ = Move.take [.declarator (.constants .module none)] from rfl) (by simp) []
  rw [ht]
  exact h1.trans (reads_declarator hx (by simp) (isToken_quoted hq hw (';' :: s)) rfl)

theorem reads_constant (hg : IsClosed g b) (hx : IsIdentifier x) (hw : IsLiteral w)
    (s : List Char) : Reads [.item] (g ++ ((Line.constant x w).text ++ s)) [] s := by
  have h := reads_declaration hg hx (.inr rfl) hw.isPlainIn s
  have ht : (Line.constant x w).text =
      "const ".toList ++ x ++ " = ".toList ++ ('\x22' :: w ++ ['\x22']) ++ [';'] := by
    simp [Line.text, between]
  rwa [ht]

/-- A statement that names no source is an item. -/
theorem read?_of_reads (hr : Reads [.item] s [] x) :
    ∃ ps, Item.read? s = some (.statement ps, x) := by
  obtain ⟨ps, -, hr⟩ := hr.read_eq
  exact ⟨ps, by simp [Item.read?, readDependency?_of_item hr, hr]⟩

namespace Line

/-- A line that is no comment begins with a word. -/
theorem opens_text (hc : ∀ w, l ≠ .comment w) :
    ∃ w t, ∀ s, ∃ y, l.text ++ s = w ++ y ∧ IsToken .operand w t y := by
  cases l with
  | «import» c w =>
    refine ⟨"import".toList, .keyword "import", fun s => ⟨c.print ++ ' ' :: (quote w ++ ';' :: s), ?_,
      isToken_keyword (.of_all (by decide) (by decide)) (by decide) (endsName_print c _)⟩⟩
    simp [text, between]
  | reexport w =>
    refine ⟨"export".toList, .keyword "export", fun s =>
      ⟨' ' :: ("* from ".toList ++ quote w ++ ';' :: s), ?_,
      isToken_keyword (.of_all (by decide) (by decide)) (by decide) (endsName_blank _)⟩⟩
    simp [text, between]
  | load w =>
    refine ⟨"import".toList, .keyword "import", fun s => ⟨'(' :: (quote w ++ ')' :: ';' :: s), ?_,
      isToken_keyword (.of_all (by decide) (by decide)) (by decide)
        (endsName_cons (by decide) (by decide) _)⟩⟩
    simp [text, between]
  | constant x w =>
    refine ⟨"const".toList, .keyword "const", fun s =>
      ⟨' ' :: (x ++ between " = \"" w "\"" ++ ';' :: s), ?_,
      isToken_keyword (.of_all (by decide) (by decide)) (by decide) (endsName_blank _)⟩⟩
    simp [text, between]
  | comment w => exact absurd rfl (hc w)

/-- A line that is no comment is one item. -/
theorem read?_text (hl : l.IsSound) (hc : ∀ w, l ≠ .comment w) (hg : IsClosed g b) (s : List Char) :
    ∃ i, Item.read? (g ++ (l.text ++ s)) = some (i, s) ∧ i.dependency? = l.dependency? := by
  cases l with
  | «import» c w =>
    obtain ⟨ps, hs, hr⟩ := readDependency?_import hg hl.1 hl.2 s
    refine ⟨_, Item.read?_of_readDependency? hr, ?_⟩
    simp [Item.dependency?, dependency?, hs, Piece.source, Lexeme.source]
  | reexport w =>
    obtain ⟨ps, hs, hr⟩ := readDependency?_reexport hg hl s
    refine ⟨_, Item.read?_of_readDependency? hr, ?_⟩
    simp [Item.dependency?, dependency?, hs, Piece.source, Lexeme.source]
  | load w =>
    obtain ⟨ps, hr⟩ := read?_of_reads (reads_load hg hl s)
    exact ⟨_, hr, rfl⟩
  | constant x w =>
    obtain ⟨ps, hr⟩ := read?_of_reads (reads_constant hg hl.1 hl.2 s)
    exact ⟨_, hr, rfl⟩
  | comment w => exact absurd rfl (hc w)

theorem source_of_read? {i : Item} (hi : Item.read? (g ++ (l.text ++ s)) = some (i, s)) :
    i.source = g ++ l.text := by
  have h := (Item.read?_eq_some hi).1
  rw [← List.append_assoc] at h
  exact List.append_cancel_right h

/-- A line ends by itself. -/
theorem closes_text {i : Item} (hl : l.IsSound) (hc : ∀ w, l ≠ .comment w) (hg : IsClosed g b)
    (hi : Item.read? (g ++ (l.text ++ s)) = some (i, s)) : i.Closes := by
  intro r _
  obtain ⟨w, t, hopens⟩ := opens_text hc
  have hfirst {i : Item} {s : List Char} (hi : Item.read? (g ++ (l.text ++ s)) = some (i, s)) :
      i.first? = some ⟨g, b, t, w⟩ := by
    obtain ⟨y, hy, ht⟩ := hopens s
    rw [hy] at hi
    exact Item.first?_of_isToken hg ht hi
  have hsource := source_of_read? hi
  obtain ⟨i', hi', hdep⟩ := read?_text hl hc hg s
  obtain rfl : i' = i := congrArg Prod.fst (Option.some.inj (hi'.symm.trans hi))
  obtain ⟨j, hj, hdep'⟩ := read?_text hl hc hg r
  refine ⟨j, by rw [hsource, List.append_assoc, hj], (hfirst hj).trans (hfirst hi).symm,
    hdep'.trans hdep.symm⟩

theorem source_dependency {l : Line} {d : Dependency} (hd : l.dependency? = some d) :
    d.source = l.text := by
  cases l with
  | «import» c w =>
    obtain rfl := Option.some.inj hd
    simp [Dependency.source, text, between]
  | reexport w =>
    obtain rfl := Option.some.inj hd
    simp [Dependency.source, text, between]
  | load w => cases hd
  | constant x w => cases hd
  | comment w => cases hd

/-- A line is cut as its item is. -/
theorem addItem_text {i : Item} (hd : i.dependency? = l.dependency?)
    (hi : Item.read? (g ++ (l.text ++ s)) = some (i, s)) (m : Module) :
    Module.addItem i m = (l.addTo m).addFront g := by
  have hsource : i.source = g ++ l.text := source_of_read? hi
  cases hl : l.dependency? with
  | none =>
    rw [Module.addItem_of_none (hd.trans hl), hsource]
    simp [addTo, hl, Module.addFront]
  | some d =>
    obtain ⟨k, -, -, hk, hadd⟩ := Module.addItem_of_some (hd.trans hl)
    rw [hsource, source_dependency hl] at hk
    rw [hadd, ← List.append_cancel_right hk]
    simp [addTo, hl, Module.addFront]

end Line

theorem readAll?_of_isClosed (hg : IsClosed g b) : Item.readAll? g = some ([], g) := by
  exact Item.readAll?_of_finish (next_of_isClosed hg) rfl

namespace Line

/-- Printed lines are the items of a text. -/
theorem exists_items {ls : List Line} (hs : ∀ l ∈ ls, l.IsSound) (hg : IsClosed g b) :
    ∃ is gap, Item.readAll? (g ++ ls.flatMap print) = some (is, gap) ∧
      Module.ofItems is gap = (module ls).addFront g ∧
      ∀ i ∈ is, i.Closes ∧ ∃ l ∈ ls, i.dependency? = l.dependency? := by
  induction ls generalizing g b with
  | nil =>
    refine ⟨[], g, ?_, ?_, by simp⟩
    · rw [List.flatMap_nil, List.append_nil, readAll?_of_isClosed hg]
    · simp [Module.ofItems, module, Module.addFront]
  | cons l ls ih =>
    have hl := hs l List.mem_cons_self
    have ih {g b} := @ih g b fun l hl => hs l (List.mem_cons_of_mem _ hl)
    have ht : (l :: ls).flatMap print = l.text ++ (['\n'] ++ ls.flatMap print) := by
      simp [print]
    by_cases hc : ∃ w, l = .comment w
    · obtain ⟨w, rfl⟩ := hc
      have hw : ∀ c ∈ ' ' :: w, isLineBreak c = false := by
        intro c hc
        rcases List.mem_cons.1 hc with rfl | hc
        · rfl
        · exact (hl c hc).2.2
      obtain ⟨is, gap, hr, hm, hi⟩ := ih (isClosed_append hg (isClosed_lineComment hw))
      refine ⟨is, gap, ?_, ?_, fun i h => ?_⟩
      · rw [ht, ← hr]
        simp [text]
      · rw [hm]
        simp [module, addTo, dependency?, text, Module.addFront]
      · obtain ⟨hc, k, hk, hd⟩ := hi i h
        exact ⟨hc, k, List.mem_cons_of_mem _ hk, hd⟩
    · have hc : ∀ w, l ≠ .comment w := fun w h => hc ⟨w, h⟩
      obtain ⟨j, hj, hd⟩ := read?_text hl hc hg (['\n'] ++ ls.flatMap print)
      obtain ⟨is, gap, hr, hm, hi⟩ := ih isClosed_newline
      refine ⟨j :: is, gap, ?_, ?_, fun i h => ?_⟩
      · rw [ht, Item.readAll?_cons hj, hr]
        rfl
      · rw [Module.ofItems, List.foldr_cons, ← Module.ofItems, hm, addItem_text hd hj]
        rfl
      · rcases List.mem_cons.1 h with rfl | h
        · exact ⟨closes_text hl hc hg hj, l, List.mem_cons_self, hd⟩
        · obtain ⟨hc, k, hk, hd⟩ := hi i h
          exact ⟨hc, k, List.mem_cons_of_mem _ hk, hd⟩

end Line

end SiteBuild.Script
