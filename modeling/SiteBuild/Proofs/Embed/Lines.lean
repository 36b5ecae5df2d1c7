import SiteBuild.Proofs.Embed.Names
import SiteBuild.Proofs.FileTree.Change
import SiteBuild.Proofs.Optimize.Embedding
import SiteBuild.Proofs.Script.Lines

/-! Embedding the stylesheets of a printed module prints the module of the embedded lines. -/

namespace SiteBuild

open Script

variable {n : Naming} {file : Path} {t : FileTree}

namespace Embed

/-- The class map that a specifier leads to. -/
def mapAt? (t : FileTree) (file : Path) (specifier : String) : Option (List Char) :=
  match t.read (file.resolveFrom specifier) with
  | .ok text => ClassMap.ofProxy? text
  | .error _ => none

/-- A specifier of a proxy that holds a class map, if anything. -/
def IsModuleProxy (n : Naming) (specifier : String) : Prop :=
  n.isCssProxy specifier = true ∧ n.isCssModule (n.actual specifier) = true

end Embed

namespace Script.Line

/-- What becomes of an import that binds something. -/
def bound (n : Naming) (t : FileTree) (file : Path) (names : List Char) (specifier : String) :
    Embed.Outcome :=
  let e := Embed.entryOf n file specifier
  let actual := n.actual specifier
  if n.isCssModule actual then
    match Embed.mapAt? t file specifier with
    | some map => .replaced e (Embed.constant names map)
    | none => .kept
  else .replaced e (Embed.constant names (quote actual.toList))

/-- What becomes of a line of `file`. -/
def outcome (n : Naming) (t : FileTree) (file : Path) : Line → Embed.Outcome
  | «import» c w =>
    let s := String.ofList w
    if n.isCssProxy s then
      match c with
      | .nothing => .removed (Embed.entryOf n file s)
      | c => bound n t file c.names s
    else .kept
  | _ => .kept

/-- A line once its outcome is known: one that is removed goes with its end. -/
def printAs (l : Line) : Embed.Outcome → List Char
  | .kept => l.print
  | .removed _ => []
  | .replaced _ text => text ++ ['\n']

/-- The stylesheet of a line that does not stay. -/
def contribution (n : Naming) (t : FileTree) (file : Path) (l : Line) : Option CssEntry :=
  Embed.Outcome.entry? (l.outcome n t file)

def embed (n : Naming) (t : FileTree) (file : Path) (l : Line) : List Char :=
  l.printAs (l.outcome n t file)

/-- Whether the proxy of a line can be read, or is not there at all. -/
def IsReadable (n : Naming) (t : FileTree) (file : Path) : Line → Prop
  | «import» _ w => Embed.IsModuleProxy n (String.ofList w) →
    t.read (file.resolveFrom (String.ofList w)) = .error .notFound ∨
      ∃ text, t.read (file.resolveFrom (String.ofList w)) = .ok text
  | _ => True

theorem specifier_quote {k c q : List Char} (w : List Char) :
    (⟨k, c, quote w, q⟩ : Dependency).specifier = w := by
  simp [Dependency.specifier, quote]

theorem names_isEmpty {c : Clause} (hc : c.IsSound) (hn : c ≠ .nothing) : c.names.isEmpty = false := by
  cases c with
  | nothing => exact absurd rfl hn
  | default x => simpa [Clause.names] using IsIdentifier.ne_nil hc
  | all x => simpa [Clause.names] using IsIdentifier.ne_nil hc
  | named xs => simp [Clause.names, Clause.braces]

theorem outcome_bound {c : Clause} {w : List Char} (hn : c ≠ .nothing)
    (hp : n.isCssProxy (String.ofList w) = true) :
    (Line.import c w).outcome n t file = bound n t file c.names (String.ofList w) := by
  cases c
  · exact absurd rfl hn
  all_goals simp only [outcome, hp, if_true]

/-- The embedding makes of a dependency what it makes of the line. -/
theorem outcome_dependency {l : Line} {d : Dependency} (hl : l.IsSound)
    (hr : l.IsReadable n t file) (hd : l.dependency? = some d) :
    Embed.outcome t.read n file d = .ok (l.outcome n t file) := by
  cases l with
  | «import» c w =>
    obtain rfl := Option.some.inj hd
    have hi : (⟨"import".toList, c.print ++ [' '], quote w, [';']⟩ : Dependency).isImport = true := by
      rfl
    simp only [Embed.outcome, specifier_quote, Clause.boundNames_print hl.1, hi, Bool.true_and]
    by_cases hp : n.isCssProxy (String.ofList w) = true
    · simp only [hp, Bool.not_true, Bool.false_eq_true, if_false]
      by_cases hn : c = .nothing
      · subst hn
        simp only [outcome, hp, if_true]
        rfl
      · rw [names_isEmpty hl.1 hn, outcome_bound hn hp, bound]
        simp only [Bool.false_eq_true, if_false]
        by_cases hm : n.isCssModule (n.actual (String.ofList w)) = true
        · simp only [hm, if_true]
          rw [Embed.proxy_entryOf, Embed.mapAt?]
          rcases hr ⟨hp, hm⟩ with he | ⟨text, he⟩
          · rw [he]
          · cases hmap : ClassMap.ofProxy? text with
            | none => simp only [he, hmap]
            | some map => simp only [he, hmap]
        · simp only [hm, Bool.false_eq_true, if_false]
          rfl
    · simp [outcome, hp]
  | reexport w =>
    obtain rfl := Option.some.inj hd
    simp [Embed.outcome, outcome, Dependency.isImport]
  | load w => cases hd
  | constant x w => cases hd
  | comment w => cases hd

theorem outcome_of_dependency?_eq_none {l : Line} (hd : l.dependency? = none) :
    l.outcome n t file = .kept := by
  cases l with
  | «import» c w => cases hd
  | _ => rfl

/-- A dependency gives way to its outcome, and takes its line's end along where nothing is left. -/
theorem render_dependency {l : Line} {d : Dependency} (hd : l.dependency? = some d)
    (x : Embed.Outcome) (code : List Char) :
    x.render d ('\n' :: code) = l.printAs x ++ code := by
  cases x with
  | kept => simp [Embed.Outcome.render, printAs, print, source_dependency hd]
  | removed e => rfl
  | replaced e text =>
    have hcut : (Embed.Outcome.replaced e text).cut ('\n' :: code) = '\n' :: code := rfl
    simp [Embed.Outcome.render, hcut, printAs]

/-- The dependencies of lines, with what becomes of each. -/
theorem mapM_parts {ls : List Line} (hs : ∀ l ∈ ls, l.IsSound)
    (hr : ∀ l ∈ ls, l.IsReadable n t file) :
    ∃ parts, (module ls).parts.mapM (fun (d, code) =>
        return (← Embed.outcome t.read n file d, d, code) : _ → Except IoError _) = .ok parts ∧
      parts.filterMap (fun (x, _) => x.entry?) =
        ls.filterMap (contribution n t file) ∧
      (module ls).head ++ parts.flatMap (fun (x, d, code) => x.render d code) =
        ls.flatMap (embed n t file) := by
  induction ls with
  | nil => exact ⟨[], rfl, rfl, rfl⟩
  | cons l ls ih =>
    obtain ⟨parts, hm, he, hc⟩ := ih (fun l hl => hs l (List.mem_cons_of_mem _ hl))
      fun l hl => hr l (List.mem_cons_of_mem _ hl)
    cases hd : l.dependency? with
    | none =>
      have ho : l.outcome n t file = .kept := outcome_of_dependency?_eq_none hd
      refine ⟨parts, ?_, ?_, ?_⟩
      · rw [module, addTo, hd]
        exact hm
      · rw [List.filterMap_cons, contribution, ho]
        exact he
      · rw [List.flatMap_cons, embed, ho, ← hc, module, addTo, hd]
        simp [Module.addFront, printAs, print]
    | some d =>
      have ho := outcome_dependency (hs l List.mem_cons_self) (hr l List.mem_cons_self) hd
      refine ⟨(l.outcome n t file, d, '\n' :: (module ls).head) :: parts, ?_, ?_, ?_⟩
      · rw [module, addTo, hd]
        simp only [Module.addFront, List.mapM_cons, ho, hm]
        rfl
      · rw [List.filterMap_cons, List.filterMap_cons, he, contribution]
      · rw [List.flatMap_cons, List.flatMap_cons, ← hc, module, addTo, hd]
        simp only [render_dependency hd, embed]
        simp

theorem interpreterLine_print (ls : List Line) : Module.interpreterLine (ls.flatMap print) = [] := by
  cases ls with
  | nil => rfl
  | cons l ls =>
    cases l
    all_goals rfl

theorem read?_print {ls : List Line} (hs : ∀ l ∈ ls, l.IsSound) :
    Module.read? (ls.flatMap print) = some (module ls) := by
  obtain ⟨is, gap, hr, hm, -⟩ := exists_items hs isClosed_nil
  rw [List.nil_append] at hr
  rw [Module.read?, interpreterLine_print]
  simp [hr, hm, Module.addFront]

/-- A line that is no comment makes up a script, also without its end. -/
theorem read?_text_alone {l : Line} (hl : l.IsSound) (hc : ∀ w, l ≠ .comment w) :
    Module.read? l.text = some (l.addTo ⟨[], []⟩) := by
  obtain ⟨i, hi, hd⟩ := read?_text hl hc isClosed_nil []
  have hitems : Item.readAll? l.text = some ([i], []) := by
    rw [List.append_nil] at hi
    exact (Item.readAll?_cons hi).trans (by rw [readAll?_of_isClosed isClosed_nil]; rfl)
  have hline : Module.interpreterLine l.text = [] := by
    cases l
    all_goals rfl
  have hmodule : Module.ofItems [i] [] = l.addTo ⟨[], []⟩ := by
    rw [Module.ofItems, List.foldr_cons, List.foldr_nil, addItem_text hd hi]
    rfl
  rw [Module.read?, hline]
  simp only [List.length_nil, List.drop_zero, hitems, Option.map_some, hmodule]
  rfl

end Script.Line

/-- Whether a printed module imports a stylesheet is told by its lines. -/
theorem importsCss?_print {ls : List Line} (hs : ∀ l ∈ ls, l.IsSound) :
    importsCss? n (String.ofList (ls.flatMap Line.print)) =
      some ((Line.module ls).imports.any fun d => n.isCssProxy (String.ofList d.specifier)) := by
  rw [importsCss?, String.toList_ofList, Line.read?_print hs]
  rfl

theorem Embedded.ofCode_print {ls : List Line} (hs : ∀ l ∈ ls, l.IsSound)
    (hr : ∀ l ∈ ls, l.IsReadable n t file) :
    Embedded.ofCode t.read n file (String.ofList (ls.flatMap Line.print)) =
      .ok ⟨ls.filterMap (Line.contribution n t file),
        String.ofList (ls.flatMap (Line.embed n t file))⟩ := by
  obtain ⟨parts, hm, he, hc⟩ := Line.mapM_parts hs hr
  rw [Embedded.ofCode, String.toList_ofList, Line.read?_print hs]
  simp only [Embedded.ofModule, hm]
  rw [← he, ← hc]
  rfl

/-- What becomes of a script of one line that names a source. -/
theorem Embedded.ofCode_text {l : Line} {d : Dependency} (hl : l.IsSound)
    (hr : l.IsReadable n t file) (hd : l.dependency? = some d) :
    Embedded.ofCode t.read n file (String.ofList l.text) =
      .ok ⟨(l.contribution n t file).toList, String.ofList ((l.outcome n t file).render d [])⟩ := by
  have hc : ∀ w, l ≠ .comment w := by
    rintro w rfl
    cases hd
  rw [Embedded.ofCode, String.toList_ofList, Line.read?_text_alone hl hc, Line.addTo, hd]
  simp only [Embedded.ofModule, List.mapM_cons, Line.outcome_dependency hl hr hd, Line.contribution]
  cases l.outcome n t file
  all_goals simp [Embed.Outcome.entry?, pure, Except.pure, bind, Except.bind, Except.mapError]

/-- Embedding the stylesheets of a printed module prints its lines embedded. -/
theorem Embedded.run_ofFile_print (o : Outages) (t : FileTree) (n : Naming) (file : Path)
    {ls : List Line} (hs : ∀ l ∈ ls, l.IsSound) (hr : ∀ l ∈ ls, l.IsReadable n t file) :
    ((Embedded.ofFile n file (String.ofList (ls.flatMap Line.print))).attempt.run o t).result =
      .ok ⟨ls.filterMap (Line.contribution n t file),
        String.ofList (ls.flatMap (Line.embed n t file))⟩ :=
  (Embedded.run_ofFile o t n file _).1.trans (Embedded.ofCode_print hs hr)

/-- One proxy goes, two are replaced, and text that looks like an import stays. -/
theorem Embedded.run_ofFile_print_mixed :
    let t := FileTree.empty.put [] "x.module.css.proxy.js"
      (.file "let json = \x7b\"a\": \"a_1\"\x7d;\nexport default json;\n".toUTF8)
    let ls : List Line := [.comment "import './a.css.proxy.js';".toList,
      .import .nothing "./a.css.proxy.js".toList,
      .import (.all "s1".toList) "./a.css.proxy.js".toList,
      .import (.default "m1".toList) "./x.module.css.proxy.js".toList,
      .import (.named ["p1".toList, "q1".toList]) "./y.js".toList,
      .constant "k1".toList "import './a.css.proxy.js';".toList]
    (∀ l ∈ ls, l.IsSound) ∧ (∀ l ∈ ls, l.IsReadable {} t ⟨"app.js"⟩) ∧
      ((Embedded.ofFile {} ⟨"app.js"⟩ (String.ofList (ls.flatMap Line.print))).attempt.run {}
        t).result = .ok ⟨[⟨⟨"a.css"⟩, ⟨"a.css.proxy.js"⟩⟩, ⟨⟨"a.css"⟩, ⟨"a.css.proxy.js"⟩⟩,
          ⟨⟨"x.module.css"⟩, ⟨"x.module.css.proxy.js"⟩⟩],
        "// import './a.css.proxy.js';\nconst s1 = './a.css';\nconst m1 = \x7b\"a\": \"a_1\"\x7d;\nimport \x7bp1, q1\x7d from './y.js';\nconst k1 = \"import './a.css.proxy.js';\";\n"⟩ := by
  intro t ls
  have hread : t.read (Path.resolveFrom ⟨"app.js"⟩ "./x.module.css.proxy.js") =
      .ok "let json = \x7b\"a\": \"a_1\"\x7d;\nexport default json;\n" := by
    refine FileTree.read_of_find (k := [] ++ ["x.module.css.proxy.js"]) (FileTree.find_of_walk ?_ ?_ ?_ ?_)
    all_goals decide +kernel
  have hmap : Embed.mapAt? t ⟨"app.js"⟩ "./x.module.css.proxy.js" =
      some "\x7b\"a\": \"a_1\"\x7d".toList := by
    rw [Embed.mapAt?, hread]
    decide +kernel
  have ha : Naming.isCssProxy {} "./a.css.proxy.js" = true ∧
      Naming.actual {} "./a.css.proxy.js" = "./a.css" ∧ Naming.isCssModule {} "./a.css" = false ∧
      Embed.entryOf {} ⟨"app.js"⟩ "./a.css.proxy.js" = ⟨⟨"a.css"⟩, ⟨"a.css.proxy.js"⟩⟩ := by
    decide +kernel
  have hx : Naming.isCssProxy {} "./x.module.css.proxy.js" = true ∧
      Naming.actual {} "./x.module.css.proxy.js" = "./x.module.css" ∧
      Naming.isCssModule {} "./x.module.css" = true ∧
      Embed.entryOf {} ⟨"app.js"⟩ "./x.module.css.proxy.js" =
        ⟨⟨"x.module.css"⟩, ⟨"x.module.css.proxy.js"⟩⟩ := by
    decide +kernel
  have hy : Naming.isCssProxy {} "./y.js" = false := by decide +kernel
  have hs : ∀ l ∈ ls, l.IsSound := by decide +kernel
  have hr : ∀ l ∈ ls, l.IsReadable {} t ⟨"app.js"⟩ := by
    simp [ls, Line.IsReadable, Embed.IsModuleProxy, ha, hx, hy, hread]
  refine ⟨hs, hr, (Embedded.run_ofFile_print {} t {} ⟨"app.js"⟩ hs hr).trans ?_⟩
  have ho : ls.map (Line.outcome {} t ⟨"app.js"⟩) = [.kept,
      .removed ⟨⟨"a.css"⟩, ⟨"a.css.proxy.js"⟩⟩,
      .replaced ⟨⟨"a.css"⟩, ⟨"a.css.proxy.js"⟩⟩ "const s1 = './a.css';".toList,
      .replaced ⟨⟨"x.module.css"⟩, ⟨"x.module.css.proxy.js"⟩⟩
        "const m1 = \x7b\"a\": \"a_1\"\x7d;".toList, .kept, .kept] := by
    simp only [ls, List.map_cons, List.map_nil, Line.outcome, Line.bound, String.ofList_toList,
      ha, hx, hy, hmap]
    decide +kernel
  have hentries : ls.filterMap (Line.contribution {} t ⟨"app.js"⟩) =
      (ls.map (Line.outcome {} t ⟨"app.js"⟩)).filterMap Embed.Outcome.entry? := by
    rw [List.filterMap_map]
    rfl
  have htext : ls.flatMap (Line.embed {} t ⟨"app.js"⟩) =
      (List.zipWith Line.printAs ls (ls.map (Line.outcome {} t ⟨"app.js"⟩))).flatten := by
    rw [List.zipWith_map_right, List.zipWith_self]
    rfl
  rw [hentries, htext, ho]
  refine congrArg Except.ok (congrArg (Embedded.mk _) ?_)
  decide +kernel

end SiteBuild
