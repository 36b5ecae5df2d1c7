import SiteBuild.Proofs.Script.Phrases

/-! Where a module names its sources. Reading a printed module finds its imports and re-exports in their
order, each in its place, and takes nothing else for one. -/

namespace SiteBuild.Script

variable {g s w : List Char} {b : Bool}

namespace Phrase

/-- Whether a phrase names a source by an import, with the text up to the source and the source. -/
def source? : Phrase → Option (Bool × List Char × List Char)
  | line (.import c w) => some (true, between "import" c.print " '", w)
  | line (.reexport w) => some (false, "export * from '".toList, w)
  | «imports» ys w => some (true, between "import " (Clause.braces (ys.map Binding.print)) " from '", w)
  | reexports xs w => some (false, between "export " (Clause.braces xs) " from '", w)
  | _ => none

/-- A phrase that names a source ends with it, up to the quote and the semicolon behind it. -/
theorem text_of_source? {q : Phrase} {isImport : Bool} {front : List Char}
    (h : q.source? = some (isImport, front, w)) : q.text = front ++ w ++ ['\x27', ';'] := by
  unfold source? at h
  split at h
  all_goals cases h
  all_goals simp [text, Line.text, between, Line.quote]

/-- The statements that name a source, each with the place of its source, in the bytes of a printed
module; `start` is where its first phrase starts. -/
def spans (withReexports : Bool) (start : Nat) : List Phrase → List (Span × Span)
  | [] => []
  | p :: ps =>
    let rest := spans withReexports (start + Text.byteLength p.print) ps
    match p.source? with
    | some (isImport, front, w) =>
      let source := start + Text.byteLength front
      if withReexports || isImport then
        (⟨start, start + Text.byteLength p.text⟩, ⟨source, source + Text.byteLength w⟩) :: rest
      else rest
    | none => rest

/-- The dependencies of printed phrases, with the byte that each starts at. -/
def located (start : Nat) : List Phrase → List (Nat × Dependency)
  | [] => []
  | q :: qs => (q.dependency?.map (start, ·)).toList ++ located (start + Text.byteLength q.print) qs

theorem located_add (k start : Nat) (qs : List Phrase) :
    located (k + start) qs = (located start qs).map (Prod.map (k + ·) id) := by
  induction qs generalizing start with
  | nil => rfl
  | cons q qs ih =>
    rw [located, Nat.add_assoc, ih, located, List.map_append]
    cases q.dependency? <;> rfl

end Phrase

namespace Module

theorem go_add (k start : Nat) (parts : List (Dependency × List Char)) :
    located.go (k + start) parts = (located.go start parts).map (Prod.map (k + ·) id) := by
  induction parts generalizing start with
  | nil => rfl
  | cons part parts ih =>
    rw [located.go, located.go, Nat.add_assoc, Nat.add_assoc, ih, ← Nat.add_assoc]
    rfl

theorem located_addFront (m : Module) : (m.addFront w).located =
    m.located.map (Prod.map (Text.byteLength w + ·) id) := by
  rw [located, located, ← go_add, addFront, Text.byteLength_append]

/-- Where the imports of a module stand and where their sources do, in bytes; re-exports are among
them where they are asked for. -/
def scan (withReexports : Bool) (m : Module) : List (Span × Span) :=
  (m.located.filter fun x => withReexports || x.2.isImport).map fun x =>
    (x.2.span x.1, x.2.specifierSpan x.1)

end Module

namespace Phrase

theorem located_addItem {q : Phrase} {i : Item} (hi : Item.read? (g ++ (q.text ++ s)) = some (i, s))
    (hd : i.dependency? = q.dependency?) (m : Module) :
    (Module.addItem i m).located = (q.dependency?.map (Text.byteLength g, ·)).toList ++
      m.located.map (Prod.map (Text.byteLength (g ++ q.text) + ·) id) := by
  have hsource : i.source = g ++ q.text := by
    have h := (Item.read?_eq_some hi).1
    rw [← List.append_assoc] at h
    exact List.append_cancel_right h
  cases hq : q.dependency? with
  | none =>
    rw [Module.addItem_of_none (hd.trans hq), Module.located_addFront, hsource]
    rfl
  | some d =>
    obtain ⟨l, -, -, hl, hadd⟩ := Module.addItem_of_some (hd.trans hq)
    rw [hsource, source_of_dependency? hq] at hl
    have hgap : l.gap = g := (List.append_cancel_right hl).symm
    rw [hadd, Module.located, Module.located.go, Module.located, ← Module.go_add, hgap,
      source_of_dependency? hq, Text.byteLength_append]
    rfl

/-- The dependencies of a printed module are those of its phrases, each where its phrase stands. -/
theorem exists_located {qs : List Phrase} (hs : ∀ q ∈ qs, q.IsSound) (hg : IsClosed g b) :
    ∃ is gap, Item.readAll? (g ++ qs.flatMap print) = some (is, gap) ∧
      (Module.ofItems is gap).located = located (Text.byteLength g) qs := by
  induction qs generalizing g b with
  | nil =>
    refine ⟨[], g, ?_, rfl⟩
    rw [List.flatMap_nil, List.append_nil, readAll?_of_isClosed hg]
  | cons q qs ih =>
    obtain ⟨hq, hs⟩ := List.forall_mem_cons.1 hs
    by_cases hgap : q.IsGap
    · obtain ⟨d, hd⟩ := isClosed_print hq hgap
      obtain ⟨is, gap, hr, hl⟩ := ih hs (isClosed_append hg hd)
      refine ⟨is, gap, ?_, ?_⟩
      · rw [List.flatMap_cons, ← List.append_assoc, hr]
      · rw [hl, located, dependency?_of_isGap hgap, Text.byteLength_append]
        rfl
    · obtain ⟨i, hi, hd⟩ := read?_text hq hgap hg (['\n'] ++ qs.flatMap print)
      obtain ⟨is, gap, hr, hl⟩ := ih hs isClosed_newline
      refine ⟨i :: is, gap, ?_, ?_⟩
      · rw [List.flatMap_cons, print, List.append_assoc, Item.readAll?_cons hi, hr]
        rfl
      · rw [Module.ofItems, List.foldr_cons, ← Module.ofItems, located_addItem hi hd, hl, located,
          ← located_add]
        congr 2
        simp [print, Nat.add_assoc]

/-- A dependency is told by its keyword, the text up to its source, and the source. -/
theorem source?_eq (q : Phrase) : (q.source? = none ∧ q.dependency? = none) ∨ ∃ d w,
    q.dependency? = some d ∧ d.quoted = Line.quote w ∧
      q.source? = some (d.isImport, d.keyword ++ d.clause ++ ['\x27'], w) := by
  cases q with
  | line l =>
    cases l with
    | «import» c w => exact .inr ⟨_, w, rfl, rfl, by simp [source?, between, Dependency.isImport]⟩
    | reexport w => exact .inr ⟨_, w, rfl, rfl, rfl⟩
    | _ => exact .inl ⟨rfl, rfl⟩
  | «imports» ys w => exact .inr ⟨_, w, rfl, rfl, by simp [source?, between, Dependency.isImport]⟩
  | reexports xs w => exact .inr ⟨_, w, rfl, rfl, by simp [source?, between, Dependency.isImport]⟩
  | _ => exact .inl ⟨rfl, rfl⟩

theorem spans_eq (withReexports : Bool) (start : Nat) (qs : List Phrase) :
    spans withReexports start qs =
      ((located start qs).filter fun x => withReexports || x.2.isImport).map fun x =>
        (x.2.span x.1, x.2.specifierSpan x.1) := by
  induction qs generalizing start with
  | nil => rfl
  | cons q qs ih =>
    rcases q.source?_eq with ⟨hs, hd⟩ | ⟨d, w, hd, hw, hs⟩
    · simp only [spans, located, hs, hd, ih]
      rfl
    · have hspan : d.span start = ⟨start, start + Text.byteLength q.text⟩ := by
        rw [Dependency.span, source_of_dependency? hd]
      have hspecifier : d.specifierSpan start =
          let source := start + Text.byteLength (d.keyword ++ d.clause ++ ['\x27'])
          ⟨source, source + Text.byteLength w⟩ := by
        have hsize : '\x27'.utf8Size = 1 := rfl
        simp [Dependency.specifierSpan, hw, Line.quote, hsize]
        omega
      simp only [spans, located, hs, hd, ih]
      by_cases h : (withReexports || d.isImport) = true
      · simp [h, hspan, hspecifier]
      · simp [h]

/-- Look-alikes in a comment, in a template and in a text, with imports and a re-export among them. -/
def lookAlikes : List Phrase :=
  [note "é\nimport 'a';".toList, line (.import .nothing "ü".toList),
    template "t1".toList "\nimport 'b';\n".toList, line (.constant "x1".toList "import 'c'; ".toList),
    «imports» [⟨"x".toList, none⟩, ⟨"y".toList, some "z".toList⟩] "d".toList,
    reexports ["x".toList] "e".toList, line (.load "f".toList), call "x".toList]

end Phrase

end SiteBuild.Script
