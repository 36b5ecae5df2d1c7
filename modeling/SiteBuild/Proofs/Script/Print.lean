import SiteBuild.Proofs.Script.Steps

/-! Modules of a simple form, one item on each line, and what is read when they are printed: imports are
cut out with their clause and their source, and everything else stays between them. -/

namespace SiteBuild.Script

/-- What an import binds. -/
inductive Clause
  | nothing
  | default (x : List Char)
  | all (x : List Char)
  | named (xs : List (List Char))

/-- One item of a module, on a line of its own. -/
inductive Line
  | «import» (c : Clause) (specifier : List Char)
  | reexport (specifier : List Char)
  | load (specifier : List Char)
  | constant (x text : List Char)
  | comment (text : List Char)

/-- A text between two fixed ones. -/
def between (front : String) (w : List Char) (back : String) : List Char :=
  front.toList ++ w ++ back.toList

namespace Clause

/-- Names in braces. -/
def braces (xs : List (List Char)) : List Char := '\x7b' :: List.intercalate [',', ' '] xs ++ ['\x7d']

/-- The text between the word `import` and the blank in front of the source. -/
def print : Clause → List Char
  | nothing => []
  | default x => between " " x " from"
  | all x => between " * as " x " from"
  | named xs => between " " (braces xs) " from"

/-- What is bound: a name, or names in braces. -/
def names : Clause → List Char
  | nothing => []
  | default x => x
  | all x => x
  | named xs => braces xs

def IsSound : Clause → Prop
  | nothing => True
  | default x => IsIdentifier x
  | all x => IsIdentifier x
  | named xs => ∀ x ∈ xs, IsIdentifier x

instance : (c : Clause) → Decidable c.IsSound
  | nothing => .isTrue trivial
  | default x => inferInstanceAs (Decidable (IsIdentifier x))
  | all x => inferInstanceAs (Decidable (IsIdentifier x))
  | named xs => inferInstanceAs (Decidable (∀ x ∈ xs, IsIdentifier x))

end Clause

/-- A text that may stand as it is between quotes of both kinds, and behind the mark of a comment. -/
def IsBare (w : List Char) : Prop :=
  ∀ c ∈ w, c ≠ '\x27' ∧ c ≠ '\x22' ∧ c ≠ '\\' ∧ isLineBreak c = false

instance (w : List Char) : Decidable (IsBare w) := List.decidableBAll _ w

/-- A text that may stand as it is between double quotes. -/
def IsLiteral (w : List Char) : Prop := ∀ c ∈ w, c ≠ '\x22' ∧ c ≠ '\\' ∧ isLineBreak c = false

instance (w : List Char) : Decidable (IsLiteral w) := List.decidableBAll _ w

namespace Line

def quote (w : List Char) : List Char := '\x27' :: w ++ ['\x27']

/-- A line without its end. -/
def text : Line → List Char
  | «import» c w => between "import" (c.print ++ ' ' :: quote w) ";"
  | reexport w => between "export * from " (quote w) ";"
  | load w => between "import(" (quote w) ");"
  | constant x w => between "const " (x ++ between " = \"" w "\"") ";"
  | comment w => '/' :: '/' :: ' ' :: w

def print (l : Line) : List Char := l.text ++ ['\n']

def IsSound : Line → Prop
  | «import» c w => c.IsSound ∧ IsBare w
  | reexport w => IsBare w
  | load w => IsBare w
  | constant x w => IsIdentifier x ∧ IsLiteral w
  | comment w => IsLiteral w

instance : (l : Line) → Decidable l.IsSound
  | «import» c w => inferInstanceAs (Decidable (c.IsSound ∧ IsBare w))
  | reexport w => inferInstanceAs (Decidable (IsBare w))
  | load w => inferInstanceAs (Decidable (IsBare w))
  | constant x w => inferInstanceAs (Decidable (IsIdentifier x ∧ IsLiteral w))
  | comment w => inferInstanceAs (Decidable (IsLiteral w))

/-- What a line names a source with, as it is cut out of a module. -/
def dependency? : Line → Option Dependency
  | «import» c w => some ⟨"import".toList, c.print ++ [' '], quote w, [';']⟩
  | reexport w => some ⟨"export".toList, " * from ".toList, quote w, [';']⟩
  | _ => none

/-- The module with one more line in front, up to the line's end. -/
def addTo (l : Line) (m : Module) : Module :=
  match l.dependency? with
  | some d => ⟨[], (d, m.head) :: m.parts⟩
  | none => m.addFront l.text

/-- The module that lines make up. -/
def module : List Line → Module
  | [] => ⟨[], []⟩
  | l :: ls => l.addTo ((module ls).addFront ['\n'])

end Line

section reading

variable {w s : List Char} {b : Bool} {g : List Char} {st : List Expectation}

theorem IsBare.isPlainIn (h : IsBare w) : IsPlainIn '\x27' w := by
  intro c hc
  obtain ⟨h1, -, h2, h3⟩ := h c hc
  refine ⟨h1, h2, ?_, ?_⟩
  · rintro rfl
    cases h3
  · rintro rfl
    cases h3

theorem IsLiteral.isPlainIn (h : IsLiteral w) : IsPlainIn '\x22' w := by
  intro c hc
  obtain ⟨h1, h2, h3⟩ := h c hc
  refine ⟨h1, h2, ?_, ?_⟩
  · rintro rfl
    cases h3
  · rintro rfl
    cases h3

theorem isToken_quote {goal : Goal} (h : IsBare w) (s : List Char) :
    IsToken goal (Line.quote w) .string s :=
  isToken_quoted (.inl rfl) h.isPlainIn s

/-- The word `from`, up to the blank behind it. -/
theorem reads_from (s : List Char) :
    Reads (.word "from" :: st) (" from".toList ++ ' ' :: s) st (' ' :: s) := by
  have hw {goal : Goal} : IsToken goal "from".toList (.name "from") (' ' :: s) :=
    isToken_keyword (.of_all (by decide) (by decide)) (by decide) (endsName_blank s)
  exact Reads.take (e := .word "from") isClosed_blank hw rfl (by simp) st

/-- A text that is read as one name of a list in braces. -/
def IsEntry (l : Listing) (y : List Char) : Prop :=
  ∀ (g s : List Char) (b : Bool) (st : List Expectation), IsClosed g b → EndsName s →
    ∃ e : Expectation, e.goal false ≠ .template ∧
    e.move .value false .comma = .take [.entries l .module] ∧
    e.move .value false .closeBrace = .take [] ∧
    Reads (.entries l .module :: st) (g ++ (y ++ s)) (e :: st) s

theorem IsIdentifier.isEntry_import (hx : IsIdentifier x) : IsEntry .importNames x := by
  intro g s b st hg hs
  have hm : (Expectation.entries .importNames .module).move .value b (.name (String.ofList x)) =
      .take [.importName] := by
    simp [Expectation.move, moveEntries, Listing.close, moveEntry, moveImportSpecifier, hx.isNameIn]
  exact ⟨.importName, by decide, rfl, rfl, Reads.take hg (hx.isToken hs) hm (by simp) st⟩

/-- The names that stand in braces, from behind the mark that opens them. -/
theorem reads_entries {l : Listing} {ys : List (List Char)} (hl : l.close = .closeBrace)
    (hy : ∀ y ∈ ys, IsEntry l y) (hg : IsClosed g b) (s : List Char) (st : List Expectation) :
    Reads (.entries l .module :: st) (g ++ (List.intercalate [',', ' '] ys ++ '\x7d' :: s)) st s := by
  have hclose {goal : Goal} (h : goal ≠ .template) : IsToken goal ['\x7d'] .closeBrace s :=
    isToken_mark '\x7d' .closeBrace (by simp) h s
  induction ys generalizing g b with
  | nil =>
    have hm : (Expectation.entries l .module).move .value b .closeBrace = .take [] := by
      simp [Expectation.move, moveEntries, hl]
    exact Reads.take (e := .entries l .module) hg (hclose (by simp [Expectation.goal])) hm (by simp) st
  | cons y ys ih =>
    have hentry : IsEntry l y := hy y List.mem_cons_self
    cases ys with
    | nil =>
      obtain ⟨e, hgoal, -, hm, h1⟩ := hentry g ('\x7d' :: s) b st hg
        (endsName_cons (by decide) (by decide) s)
      have h2 := Reads.take (e := e) isClosed_nil (hclose hgoal) hm (by simp) st
      simpa using h1.trans h2
    | cons z zs =>
      have hrest := ih (fun y h => hy y (List.mem_cons_of_mem _ h)) isClosed_blank
      rw [List.intercalate_cons_cons]
      generalize List.intercalate [',', ' '] (z :: zs) = names at hrest ⊢
      obtain ⟨e, hgoal, hm, -, h1⟩ := hentry g (',' :: ' ' :: (names ++ '\x7d' :: s)) b st hg
        (endsName_cons (by decide) (by decide) _)
      have hcomma : IsToken (e.goal false) [','] .comma (' ' :: (names ++ '\x7d' :: s)) :=
        isToken_mark ',' .comma (by simp) hgoal _
      have h2 := Reads.take (e := e) isClosed_nil hcomma hm (by simp) st
      simpa using h1.trans (h2.trans hrest)

/-- Names in braces and the word `from`, behind the word that opens the statement. -/
theorem reads_listFrom {l : Listing} {e : Expectation} {ys : List (List Char)} (hl : l.close = .closeBrace)
    (hgoal : e.goal false ≠ .template)
    (hm : e.move .value false .openBrace = .take [.entries l .module, .word "from"])
    (hy : ∀ y ∈ ys, IsEntry l y) (s : List Char) :
    Reads [e] (between " " (Clause.braces ys) " from" ++ ' ' :: s) [] (' ' :: s) := by
  have h1 := Reads.take (e := e) isClosed_blank
    (isToken_mark '\x7b' .openBrace (by simp) hgoal (List.intercalate [',', ' '] ys ++ '\x7d' ::
      (" from".toList ++ ' ' :: s))) hm (by simp) []
  have h2 := reads_entries hl hy isClosed_nil (" from".toList ++ ' ' :: s) [.word "from"]
  simpa [between, Clause.braces] using h1.trans (h2.trans (reads_from s))

/-- The clause of an import, up to the blank in front of the source. -/
theorem reads_clause {c : Clause} (hc : c.IsSound) (hw : IsBare w) (s : List Char) :
    Reads [.importClause] (c.print ++ ' ' :: (Line.quote w ++ s)) [] (' ' :: (Line.quote w ++ s)) := by
  cases c with
  | nothing => exact Reads.leave (e := .importClause) isClosed_blank (isToken_quote hw s) rfl []
  | default x =>
    have hx : IsIdentifier x := hc
    have hb := endsName_blank ("from".toList ++ ' ' :: (Line.quote w ++ s))
    have hfrom {goal : Goal} : IsToken goal "from".toList (.name "from")
        (' ' :: (Line.quote w ++ s)) :=
      isToken_keyword (.of_all (by decide) (by decide)) (by decide) (endsName_blank _)
    have ht : (Clause.default x).print ++ ' ' :: (Line.quote w ++ s) =
        [' '] ++ (x ++ ' ' :: ("from".toList ++ ' ' :: (Line.quote w ++ s))) := by
      simp [Clause.print, between]
    rw [ht]
    -- the words that stand in front of other clauses are names here
    by_cases hsource : String.ofList x = "source"
    · have hm : Expectation.importClause.move .value false (.name (String.ofList x)) =
          .take [.importSource] := by
        simp [Expectation.move, moveImportClause, hsource]
      have h1 := Reads.take (e := .importClause) isClosed_blank (hx.isToken hb) hm (by simp) []
      have h2 := Reads.take (e := .importSource) isClosed_blank hfrom rfl (by simp) []
      have h3 := Reads.leave (e := .importFrom) isClosed_blank (isToken_quote hw s) rfl []
      exact h1.trans (h2.trans h3)
    by_cases hdefer : String.ofList x = "defer"
    · have hm : Expectation.importClause.move .value false (.name (String.ofList x)) =
          .take [.importDefer] := by
        simp [Expectation.move, moveImportClause, hdefer]
      have h1 := Reads.take (e := .importClause) isClosed_blank (hx.isToken hb) hm (by simp) []
      have h2 := Reads.take (e := .importDefer) isClosed_blank hfrom rfl (by simp) []
      exact h1.trans h2
    · have hm : Expectation.importClause.move .value false (.name (String.ofList x)) =
          .take [.importRest] := by
        simp [Expectation.move, moveImportClause, hsource, hdefer, hx.isNameIn]
      have h1 := Reads.take (e := .importClause) isClosed_blank (hx.isToken hb) hm (by simp) []
      have h2 := Reads.take (e := .importRest) isClosed_blank hfrom rfl (by simp) []
      exact h1.trans h2
  | all x =>
    have hx : IsIdentifier x := hc
    have hm : (Expectation.bindingName .module).move .value false (.name (String.ofList x)) =
        .take [] := by
      simp [Expectation.move, moveBindingName, hx.isNameIn]
    have has (s : List Char) {goal : Goal} : IsToken goal "as".toList (.name "as") (' ' :: s) :=
      isToken_keyword (.of_all (by decide) (by decide)) (by decide) (endsName_blank s)
    have h3 := Reads.take (e := .bindingName .module) isClosed_blank
      (hx.isToken (endsName_blank ("from".toList ++ ' ' :: (Line.quote w ++ s)))) hm (by simp)
      [.word "from"]
    have h2 := Reads.take (e := .word "as") isClosed_blank
      (has (x ++ ' ' :: ("from".toList ++ ' ' :: (Line.quote w ++ s))))
      rfl (by simp) [.bindingName .module, .word "from"]
    have h1 := Reads.take (e := .importClause) isClosed_blank (isToken_star
      ("as".toList ++ ' ' :: (x ++ ' ' :: ("from".toList ++ ' ' :: (Line.quote w ++ s))))) rfl (by simp) []
    have ht : (Clause.all x).print ++ ' ' :: (Line.quote w ++ s) =
        [' '] ++ (['*'] ++ ' ' :: ("as".toList ++ ' ' :: (x ++ ' ' :: ("from".toList ++
          ' ' :: (Line.quote w ++ s))))) := by
      simp [Clause.print, between]
    rw [ht]
    exact h1.trans (h2.trans (h3.trans (reads_from (Line.quote w ++ s))))
  | named xs =>
    exact reads_listFrom (l := .importNames) rfl (by decide) rfl (fun x h => (hc x h).isEntry_import) _

end reading

end SiteBuild.Script
