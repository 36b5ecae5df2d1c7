import SiteBuild.Proofs.Script.Dependencies

/-! Modules of more forms: items that name a source or none, and comments of both kinds, of which some
look like imports. Each item is read as one, whatever stands behind it. -/

namespace SiteBuild.Script

variable {g p s u w x : List Char} {b : Bool}

/-- A text that may stand as it is in a template, and in a comment between its marks. -/
structure IsBody (u : List Char) : Prop where
  free : ∀ c ∈ u, c ≠ '\x60' ∧ c ≠ '\\' ∧ c ≠ '$'
  unclosed : ¬['*', '/'] <:+: u

instance (u : List Char) : Decidable (IsBody u) :=
  -- instances of other libraries would go through all characters, and through all sublists
  have : Decidable (∀ c ∈ u, c ≠ '\x60' ∧ c ≠ '\\' ∧ c ≠ '$') := List.decidableBAll _ u
  have : Decidable (['*', '/'] <:+: u) := List.instDecidableIsInfixOfDecidableEq _ _
  decidable_of_iff (_ ∧ ¬['*', '/'] <:+: u) ⟨fun h => ⟨h.1, h.2⟩, fun h => ⟨h.1, h.2⟩⟩

/-- What an import takes from its source: a name, perhaps under another one. -/
structure Binding where
  name : List Char
  bound : Option (List Char)

namespace Binding

def print (y : Binding) : List Char :=
  match y.bound with
  | none => y.name
  | some z => y.name ++ " as ".toList ++ z

structure IsSound (y : Binding) : Prop where
  name : IsIdentifier y.name
  bound : ∀ z ∈ y.bound, IsIdentifier z

instance (y : Binding) : Decidable y.IsSound :=
  decidable_of_iff (IsIdentifier y.name ∧ ∀ z ∈ y.bound, IsIdentifier z)
    ⟨fun h => ⟨h.1, h.2⟩, fun h => ⟨h.1, h.2⟩⟩

end Binding

/-- An item of a module, or a comment between two of them. -/
inductive Phrase
  | line (l : Line)
  | «imports» (ys : List Binding) (specifier : List Char)
  | reexports (xs : List (List Char)) (specifier : List Char)
  | exported (x : List Char)
  | call (x : List Char)
  | template (x u : List Char)
  | note (u : List Char)

namespace Phrase

def text : Phrase → List Char
  | line l => l.text
  | «imports» ys w => between "import " (Clause.braces (ys.map Binding.print)) " from " ++ between "'" w "';"
  | reexports xs w => between "export " (Clause.braces xs) " from " ++ between "'" w "';"
  | exported x => between "export const " x " = 1;"
  | call x => x ++ "(import.meta.url);".toList
  | template x u => between "const " x " = " ++ between "\x60" u "\x60;"
  | note u => between "/* " u " */"

def print (p : Phrase) : List Char := p.text ++ ['\n']

def IsSound : Phrase → Prop
  | line l => l.IsSound
  | «imports» ys w => (∀ y ∈ ys, y.IsSound) ∧ IsBare w
  | reexports xs w => (∀ x ∈ xs, IsIdentifier x) ∧ IsBare w
  | exported x => IsIdentifier x
  | call x => IsIdentifier x
  | template x u => IsIdentifier x ∧ IsBody u
  | note u => IsBody u

instance : (q : Phrase) → Decidable q.IsSound
  | line l => inferInstanceAs (Decidable l.IsSound)
  | «imports» ys w => inferInstanceAs (Decidable ((∀ y ∈ ys, y.IsSound) ∧ IsBare w))
  | reexports xs w => inferInstanceAs (Decidable ((∀ x ∈ xs, IsIdentifier x) ∧ IsBare w))
  | exported x => inferInstanceAs (Decidable (IsIdentifier x))
  | call x => inferInstanceAs (Decidable (IsIdentifier x))
  | template x u => inferInstanceAs (Decidable (IsIdentifier x ∧ IsBody u))
  | note u => inferInstanceAs (Decidable (IsBody u))

/-- What a phrase names a source with, as it is cut out of a module. -/
def dependency? : Phrase → Option Dependency
  | line l => l.dependency?
  | «imports» ys w =>
    some ⟨"import".toList, between " " (Clause.braces (ys.map Binding.print)) " from ", Line.quote w, [';']⟩
  | reexports xs w =>
    some ⟨"export".toList, between " " (Clause.braces xs) " from ", Line.quote w, [';']⟩
  | _ => none

/-- Comments are no items. -/
def IsGap : Phrase → Prop
  | line (.comment _) => True
  | note _ => True
  | _ => False

end Phrase

section names

theorem IsIdentifier.isEntry_export (hx : IsIdentifier x) : IsEntry .exportNames x := by
  intro g s b st hg hs
  have hm : (Expectation.entries .exportNames .module).move .value b (.name (String.ofList x)) =
      .take [.exportName .exportNames] := by
    simp [Expectation.move, moveEntries, Listing.close, moveEntry, moveExportSpecifier]
  exact ⟨.exportName .exportNames, by decide, rfl, rfl, Reads.take hg (hx.isToken hs) hm (by simp) st⟩

theorem Binding.IsSound.isEntry {y : Binding} (hy : y.IsSound) : IsEntry .importNames y.print := by
  obtain ⟨name, bound⟩ := y
  have hname : IsIdentifier name := hy.name
  cases bound with
  | none => exact hname.isEntry_import
  | some z =>
    intro g s b st hg hs
    have hz : IsIdentifier z := hy.bound z rfl
    have hm : (Expectation.entries .importNames .module).move .value b (.name (String.ofList name)) =
        .take [.importName] := by
      simp [Expectation.move, moveEntries, Listing.close, moveEntry, moveImportSpecifier, hname.isNameIn]
    have hmz : (Expectation.bindingName .module).move .value false (.name (String.ofList z)) =
        .take [] := by
      simp [Expectation.move, moveBindingName, hz.isNameIn]
    have has {goal : Goal} : IsToken goal "as".toList (.name "as") (' ' :: (z ++ s)) :=
      isToken_keyword (.of_all (by decide) (by decide)) (by decide) (endsName_blank _)
    have hns : IsToken ((Expectation.entries .importNames .module).goal b) name
        (.name (String.ofList name)) (' ' :: ("as".toList ++ ' ' :: (z ++ s))) :=
      hname.isToken (endsName_blank _)
    have h1 := Reads.take (e := .entries .importNames .module) hg hns hm (by simp) st
    have h2 := Reads.take (e := .importName) isClosed_blank has rfl (by simp) st
    have h3 := Reads.take (e := .bindingName .module) isClosed_blank (hz.isToken hs) hmz (by simp)
      (.more .importNames .module :: st)
    refine ⟨.more .importNames .module, by decide, rfl, rfl, ?_⟩
    have h := h1.trans (h2.trans h3)
    simpa [Binding.print] using h

end names

section call

/-- The address of a module, as what a call is given. -/
theorem reads_address {e : Expectation} {k : Level} {more : List Expectation} (s : List Char)
    (st : List Expectation)
    (hm : e.move .value false (.keyword "import") = .take (.imported .module :: .rest k .value :: more))
    (hk : moveRest k .value false .dot = .take [.member, .rest k .member]) :
    Reads (e :: st) ("import.meta.url".toList ++ ')' :: s) (.rest k .member :: more ++ st) (')' :: s) := by
  have himport : IsToken (e.goal false) "import".toList (.keyword "import")
      (".meta.url".toList ++ ')' :: s) :=
    isToken_keyword (.of_all (by decide) (by decide)) (by decide)
      (endsName_cons (c := '.') (by decide) (by decide) _)
  have hmeta {goal : Goal} : IsToken goal "meta".toList (.name "meta") (".url".toList ++ ')' :: s) :=
    isToken_keyword (.of_all (by decide) (by decide)) (by decide)
      (endsName_cons (c := '.') (by decide) (by decide) _)
  have hurl {goal : Goal} : IsToken goal "url".toList (.name "url") (')' :: s) :=
    isToken_keyword (.of_all (by decide) (by decide)) (by decide)
      (endsName_cons (by decide) (by decide) _)
  have h1 := Reads.take (e := e) isClosed_nil himport hm (by simp) st
  have h2 := Reads.take (e := .imported .module) isClosed_nil
    (isToken_dot (.inl rfl) ("eta.url".toList ++ ')' :: s)) rfl (by simp) (.rest k .value :: more ++ st)
  have h3 := Reads.take (e := .importedMember .module) isClosed_nil hmeta rfl (by simp) (.rest k .value :: more ++ st)
  have h4 := Reads.take (e := .rest k .value) isClosed_nil
    (isToken_dot (.inr rfl) ("rl".toList ++ ')' :: s)) hk (by simp) (more ++ st)
  have h5 := Reads.take (e := .member) isClosed_nil hurl rfl (by simp) (.rest k .member :: more ++ st)
  exact h1.trans (h2.trans (h3.trans (h4.trans h5)))

/-- A call is the move of what a statement that begins with a name goes on with. -/
theorem exists_callee {y : String} (hy : isNameIn .module y) (hasync : y ≠ "async") :
    ∃ e : Expectation, moveItem (.name y) = .take [e] ∧ e.goal false ≠ .template ∧
      e.move .value false .openParen =
        .take [.entries .arguments .module, .rest (.expression .module) .value, .ending] := by
  by_cases hlet : y = "let"
  · exact ⟨.letStart false .module, by simp [moveItem, moveStatement, moveNamedStatement, hlet], by decide, rfl⟩
  by_cases husing : y = "using"
  · exact ⟨.usingStart .module, by simp [moveItem, moveStatement, moveNamedStatement, husing], by decide, rfl⟩
  · refine ⟨.labelled .module, ?_, by decide, rfl⟩
    have hawait : y ≠ "await" := by
      rintro rfl
      cases hy
    simp [moveItem, moveStatement, moveNamedStatement, hlet, husing, hasync, hawait, hy]

/-- The end of what may be the parameters of an arrow that waits, and of the statement. -/
theorem reads_asyncRest (s : List Char) :
    Reads [.rest (.entry .module) .member, .coveredMore .arguments .plain .list .module,
      .asyncRest (.expression .module), .ending] (')' :: ';' :: s) [] s := by
  have hclose : next .operator (')' :: ';' :: s) = some (⟨[], false, .closeParen, [')']⟩, ';' :: s) :=
    next_of_isToken isClosed_nil (isToken_mark ')' .closeParen (by simp) (by decide) (';' :: s))
  have hend : next .operator (';' :: s) = some (⟨[], false, .semicolon, [';']⟩, s) :=
    next_of_isToken isClosed_nil (isToken_mark ';' .semicolon (by simp) (by decide) s)
  refine ⟨[.lexeme ⟨[], false, .closeParen, [')']⟩, .lexeme ⟨[], false, .semicolon, [';']⟩], rfl, ?_⟩
  -- what was read leaves its shape to the call
  rw [read_of_leave (e := .rest (.entry .module) .member) hclose rfl,
    read_of_take (e := .coveredMore .arguments .plain .list .module) hclose rfl (by simp),
    List.nil_append, read_of_leave (e := .asyncRest (.expression .module)) hend rfl,
    read_of_take (e := .ending) hend rfl (by simp), Option.map_map, Option.map_map, Option.map_map]
  rfl

theorem reads_call (hg : IsClosed g b) (hx : IsIdentifier x) (s : List Char) :
    Reads [.item] (g ++ (x ++ "(import.meta.url);".toList ++ s)) [] s := by
  have hopen {goal : Goal} (h : goal ≠ .template) :
      IsToken goal ['('] .openParen ("import.meta.url".toList ++ ')' :: ';' :: s) :=
    isToken_mark '(' .openParen (by simp) h _
  have hclose {goal : Goal} (h : goal ≠ .template) : IsToken goal [')'] .closeParen (';' :: s) :=
    isToken_mark ')' .closeParen (by simp) h _
  have hend : IsToken .operator [';'] .semicolon s :=
    isToken_mark ';' .semicolon (by simp) (by decide) s
  have hname : IsToken .operand x (.name (String.ofList x))
      ('(' :: ("import.meta.url".toList ++ ')' :: ';' :: s)) :=
    hx.isToken (endsName_cons (by decide) (by decide) _)
  by_cases hasync : String.ofList x = "async"
  · have hm : moveItem (.name (String.ofList x)) = .take [.asyncStart false .module] := by
      simp [moveItem, moveStatement, moveNamedStatement, hasync]
    have h1 := Reads.take (e := .item) hg hname hm (by simp) []
    have h2 := Reads.take (e := .asyncStart false .module) isClosed_nil (hopen (by decide))
      (show _ = Move.take [.covered .arguments .list .module, .asyncRest (.expression .module), .ending]
        from rfl) (by simp) []
    have h3 := reads_address (e := .covered .arguments .list .module) (';' :: s)
      [.asyncRest (.expression .module), .ending] rfl rfl
    have h := h1.trans (h2.trans (h3.trans (reads_asyncRest s)))
    simpa using h
  · obtain ⟨e, hm, hgoal, hcall⟩ := exists_callee hx.isNameIn hasync
    have h1 := Reads.take (e := .item) hg hname hm (by simp) []
    have h2 := Reads.take (e := e) isClosed_nil (hopen hgoal) hcall (by simp) []
    have h3 := reads_address (e := .entries .arguments .module) (';' :: s)
      [.rest (.expression .module) .value, .ending] rfl rfl
    have h4 := Reads.leave_take (e := .rest (.assignment .module) .member)
      (f := .more .arguments .module) isClosed_nil (hclose (by decide)) rfl (hclose (by decide)) rfl
      (by simp) [.rest (.expression .module) .value, .ending]
    have h6 := Reads.leave (e := .rest (.expression .module) .value) isClosed_nil hend rfl [.ending]
    have h7 := Reads.take (e := .ending) isClosed_nil hend rfl (by simp) []
    have h := h1.trans (h2.trans (h3.trans (h4.trans (h6.trans h7))))
    simpa using h

end call

section items

/-- A statement that names a source is a dependency. -/
theorem exists_dependency {k : String} {e : Expectation} (hg : IsClosed g b)
    (hk : IsToken .operand k.toList (.keyword k) (p ++ ' ' :: (Line.quote w ++ ';' :: s)))
    (hm : Expectation.dependency.move .value b (.keyword k) = .take [e]) (hw : IsBare w)
    (hr : Reads [e] (p ++ ' ' :: (Line.quote w ++ ';' :: s)) [] (' ' :: (Line.quote w ++ ';' :: s))) :
    ∃ i, Item.read? (g ++ (k.toList ++ (p ++ ' ' :: (Line.quote w ++ ';' :: s)))) = some (i, s) ∧
      i.dependency? = some ⟨k.toList, p ++ [' '], Line.quote w, [';']⟩ := by
  obtain ⟨ps, hs, hi⟩ := readDependency?_of_reads hg hk hm hw hr
  refine ⟨_, Item.read?_of_readDependency? hi, ?_⟩
  simp [Item.dependency?, hs, Piece.source, Lexeme.source]

/-- A statement that names no source is an item without one. -/
theorem exists_statement {r : List Char} (hr : Reads [.item] s [] r) :
    ∃ i, Item.read? s = some (i, r) ∧ i.dependency? = none := by
  obtain ⟨ps, hi⟩ := read?_of_reads hr
  exact ⟨_, hi, rfl⟩

theorem reads_exported (hg : IsClosed g b) (hx : IsIdentifier x) (s : List Char) :
    Reads [.item] (g ++ ("export".toList ++ ' ' :: ("const".toList ++
      ' ' :: (x ++ ' ' :: '=' :: ' ' :: (['1'] ++ ';' :: s))))) [] s := by
  have hexport : IsToken .operand "export".toList (.keyword "export")
      (' ' :: ("const".toList ++ ' ' :: (x ++ ' ' :: '=' :: ' ' :: (['1'] ++ ';' :: s)))) :=
    isToken_keyword (.of_all (by decide) (by decide)) (by decide) (endsName_blank _)
  have hconst {goal : Goal} : IsToken goal "const".toList (.keyword "const")
      (' ' :: (x ++ ' ' :: '=' :: ' ' :: (['1'] ++ ';' :: s))) :=
    isToken_keyword (.of_all (by decide) (by decide)) (by decide) (endsName_blank _)
  have h1 := Reads.take (e := .item) hg hexport (show _ = Move.take [.exported] from rfl) (by simp) []
  have h2 := Reads.take (e := .exported) isClosed_blank hconst
    (show _ = Move.take [.declarator (.constants .module none)] from rfl) (by simp) []
  exact h1.trans (h2.trans (reads_declarator hx (by simp) (isToken_one s) rfl))

theorem reads_template (hg : IsClosed g b) (hx : IsIdentifier x) (hu : IsBody u) (s : List Char) :
    Reads [.item] (g ++ ("const".toList ++
      ' ' :: (x ++ ' ' :: '=' :: ' ' :: ('\x60' :: u ++ ['\x60'] ++ ';' :: s)))) [] s := by
  have hconst : IsToken .operand "const".toList (.keyword "const")
      (' ' :: (x ++ ' ' :: '=' :: ' ' :: ('\x60' :: u ++ ['\x60'] ++ ';' :: s))) :=
    isToken_keyword (.of_all (by decide) (by decide)) (by decide) (endsName_blank _)
  have h1 := Reads.take (e := .item) hg hconst
    (show _ = Move.take [.declarator (.constants .module none)] from rfl) (by simp) []
  exact h1.trans (reads_declarator hx (by simp) (isToken_template hu.free (';' :: s)) rfl)

end items

namespace Phrase

theorem dependency?_of_isGap {q : Phrase} (h : q.IsGap) : q.dependency? = none := by
  unfold IsGap at h
  split at h
  · rfl
  · rfl
  · exact h.elim

theorem not_infix_blanks (hu : ¬['*', '/'] <:+: u) : ¬['*', '/'] <:+: ' ' :: (u ++ [' ']) := by
  intro h
  rcases List.infix_cons_iff.1 h with h | h
  · cases (List.cons_prefix_cons.1 h).1
  · rcases List.infix_concat_iff.1 h with ⟨t, ht⟩ | h
    · have hlast := congrArg List.getLast? ht
      simp at hlast
    · exact hu h

theorem isClosed_print {p : Phrase} (hp : p.IsSound) (h : p.IsGap) : ∃ b, IsClosed p.print b := by
  unfold IsGap at h
  split at h
  · next w =>
    refine ⟨true, isClosed_lineComment (w := ' ' :: w) fun c hc => ?_⟩
    rcases List.mem_cons.1 hc with rfl | hc
    · rfl
    · exact (hp c hc).2.2
  · next u =>
    have hu : ¬['*', '/'] <:+: ' ' :: (u ++ [' ']) := not_infix_blanks hp.unclosed
    have h := isClosed_append (isClosed_blockComment hu) isClosed_newline
    exact ⟨_, by simpa [print, text, between] using h⟩
  · exact h.elim

/-- A phrase that is no comment is one item. -/
theorem read?_text {q : Phrase} (hq : q.IsSound) (hn : ¬q.IsGap) (hg : IsClosed g b) (s : List Char) :
    ∃ i, Item.read? (g ++ (q.text ++ s)) = some (i, s) ∧ i.dependency? = q.dependency? := by
  cases q with
  | line l =>
    refine Line.read?_text hq ?_ hg s
    rintro w rfl
    exact hn trivial
  | «imports» ys w =>
    have hr := reads_listFrom (l := .importNames) (e := .importClause) rfl (by decide) rfl
      (List.forall_mem_map.2 fun y h => (hq.1 y h).isEntry) (Line.quote w ++ ';' :: s)
    obtain ⟨i, hi, hd⟩ := exists_dependency (k := "import") hg
      (isToken_keyword (.of_all (by decide) (by decide)) (by decide) (endsName_blank _)) rfl hq.2 hr
    refine ⟨i, ?_, ?_⟩
    · rw [← hi]
      simp [text, between, Line.quote]
    · simp [hd, dependency?, between]
  | reexports xs w =>
    have hr := reads_listFrom (l := .exportNames) (e := .reexport) rfl (by decide) rfl
      (fun x h => (hq.1 x h).isEntry_export) (Line.quote w ++ ';' :: s)
    obtain ⟨i, hi, hd⟩ := exists_dependency (k := "export") hg
      (isToken_keyword (.of_all (by decide) (by decide)) (by decide) (endsName_blank _)) rfl hq.2 hr
    refine ⟨i, ?_, ?_⟩
    · rw [← hi]
      simp [text, between, Line.quote]
    · simp [hd, dependency?, between]
  | exported x =>
    obtain ⟨i, hi, hd⟩ := exists_statement (reads_exported hg hq s)
    exact ⟨i, by simpa [text, between] using hi, hd⟩
  | call x =>
    obtain ⟨i, hi, hd⟩ := exists_statement (reads_call hg hq s)
    exact ⟨i, by simpa [text] using hi, hd⟩
  | template x u =>
    obtain ⟨i, hi, hd⟩ := exists_statement (reads_template hg hq.1 hq.2 s)
    exact ⟨i, by simpa [text, between] using hi, hd⟩
  | note u => exact absurd trivial hn

theorem source_of_dependency? {q : Phrase} {d : Dependency} (h : q.dependency? = some d) : d.source = q.text := by
  cases q with
  | line l => exact Line.source_dependency h
  | «imports» ys w =>
    obtain rfl := Option.some.inj h
    simp [Dependency.source, text, between, Line.quote]
  | reexports xs w =>
    obtain rfl := Option.some.inj h
    simp [Dependency.source, text, between, Line.quote]
  | _ => cases h

end Phrase

end SiteBuild.Script
