import Mathlib.Data.List.TakeWhile
import SiteBuild.Json.Value
import SiteBuild.Proofs.Embed.Lines

/-! Class maps, from the line of a proxy that declares one to the constant that an import becomes. A map is
cut out up to its first closing brace and has to hold something, so that it comes back whole just if it is
not empty and no name in it has such a brace. -/

namespace SiteBuild

namespace ClassMap

variable {l s w body value : List Char} {text : String} {pairs : List (String × String)} {c : Char}

/-- A map from the names of classes to the names that they were given, as it is written. -/
def write (pairs : List (String × String)) : List Char :=
  (Json.object (pairs.map fun p => (some p.1, .text p.2))).write

/-- The first line of a text with the mark of a map in front declares a value. -/
def Declares (text : String) (value : List Char) : Prop :=
  ∃ before rest after, text.toList.splitOn '\n' =
      before ++ ("let json = ".toList ++ value ++ ';' :: rest) :: after ∧
    ∀ l ∈ before, ¬ "let json".toList <+: l

/-! ## Lines -/

theorem prefix_of_prefix_append (hc : c ∉ w) (h : w <+: l ++ c :: s) : w <+: l := by
  rcases Nat.lt_or_ge l.length w.length with hlt | hle
  · have hp : l ++ [c] <+: w := by
      refine List.prefix_of_prefix_length_le ⟨s, by simp⟩ h ?_
      rw [List.length_append, List.length_singleton]
      exact hlt
    exact absurd (hp.subset (by simp)) hc
  · exact List.prefix_of_prefix_length_le h (List.prefix_append _ _) hle

theorem readAt?_of_not_prefix (h : ¬ "let json".toList <+: s) : readAt? s = none := by
  have hword : Text.after? "let json".toList s = none := by
    rw [Text.after?, if_neg fun hp => h (List.isPrefixOf_iff_prefix.1 hp)]
  rw [readAt?, hword]
  rfl

/-- Within a line no map is looked for. -/
theorem find?_within (hl : '\n' ∉ l) (s : List Char) :
    find? false (l ++ '\n' :: s) = find? true s := by
  induction l with
  | nil => simp [find?]
  | cons c l ih =>
    obtain ⟨hc, hl⟩ := List.ne_and_not_mem_of_not_mem_cons hl
    rw [List.cons_append, find?]
    simp [Ne.symm hc, ih hl]

/-- A line without the mark of a map is passed over. -/
theorem find?_line (hl : '\n' ∉ l) (h : ¬ "let json".toList <+: l) (s : List Char) :
    find? true (l ++ '\n' :: s) = find? true s := by
  have hnone : readAt? (l ++ '\n' :: s) = none :=
    readAt?_of_not_prefix fun hp => h (prefix_of_prefix_append (by decide) hp)
  cases l with
  | nil =>
    rw [List.nil_append] at hnone ⊢
    rw [find?, hnone]
    rfl
  | cons c l =>
    obtain ⟨hc, hl⟩ := List.ne_and_not_mem_of_not_mem_cons hl
    rw [List.cons_append] at hnone ⊢
    rw [find?, hnone]
    simpa [Ne.symm hc] using find?_within hl s

theorem find?_lines {before : List (List Char)} (hb : ∀ l ∈ before, '\n' ∉ l)
    (h : ∀ l ∈ before, ¬ "let json".toList <+: l) (after : List (List Char)) (hne : after ≠ []) :
    find? true (List.intercalate ['\n'] (before ++ after)) =
      find? true (List.intercalate ['\n'] after) := by
  induction before with
  | nil => rfl
  | cons l before ih =>
    obtain ⟨hl, hb⟩ := List.forall_mem_cons.1 hb
    obtain ⟨hm, h⟩ := List.forall_mem_cons.1 h
    obtain ⟨m, ls, hls⟩ := List.exists_cons_of_ne_nil (l := before ++ after) (by simp [hne])
    rw [← ih hb h, List.cons_append, hls, List.intercalate_cons_cons, List.append_assoc]
    exact find?_line hl hm _

/-! ## Maps -/

/-- A map is cut out up to its first closing brace, if there is something in front of that. -/
theorem readAt?_body (hb : '}' ∉ body) (s : List Char) :
    readAt? ("let json = ".toList ++ ('{' :: body ++ '}' :: s)) =
      if body.isEmpty then none else some ('{' :: body ++ ['}']) := by
  have htake : (body ++ '}' :: s).takeWhile (· ≠ '}') = body := by
    rw [List.takeWhile_append_of_pos fun c hc => by
      simpa using ne_of_mem_of_not_mem hc hb]
    simp
  have hsign : Text.trimStart (" = \x7b".toList ++ (body ++ '}' :: s)) =
      ['='] ++ (" \x7b".toList ++ (body ++ '}' :: s)) := rfl
  have hbrace : Text.trimStart (" \x7b".toList ++ (body ++ '}' :: s)) =
      ['{'] ++ (body ++ '}' :: s) := rfl
  have hword : "let json = ".toList ++ ('{' :: body ++ '}' :: s) =
      "let json".toList ++ (" = \x7b".toList ++ (body ++ '}' :: s)) := by
    simp
  simp only [readAt?, hword, hsign, hbrace, Text.after?_append, Option.bind_eq_bind,
    Option.bind_some, htake]
  simp

/-- A map that is found is the shortest text in braces, and not empty. -/
theorem exists_body_of_readAt? {m : List Char} (h : readAt? s = some m) :
    ∃ body, body ≠ [] ∧ '}' ∉ body ∧ m = '{' :: body ++ ['}'] := by
  obtain ⟨s, -, h⟩ := Option.bind_eq_some_iff.1 h
  obtain ⟨s, -, h⟩ := Option.bind_eq_some_iff.1 h
  obtain ⟨s, -, h⟩ := Option.bind_eq_some_iff.1 h
  simp only [Bool.or_eq_true, decide_eq_true_eq] at h
  split at h
  · cases h
  · next hne =>
    refine ⟨_, fun hnil => hne (.inl (by rw [hnil]; rfl)), fun hm => ?_, (Option.some.inj h).symm⟩
    simpa using List.mem_takeWhile_imp hm

theorem find?_of_readAt? {m : List Char} (h : readAt? s = some m) : find? true s = some m := by
  cases s with
  | nil => cases h
  | cons c s => rw [find?, if_pos rfl, h, Option.some_or]

theorem exists_body_of_find? {b : Bool} {m : List Char} (h : find? b s = some m) :
    ∃ body, body ≠ [] ∧ '}' ∉ body ∧ m = '{' :: body ++ ['}'] := by
  induction s generalizing b with
  | nil => cases h
  | cons c s ih =>
    rcases Option.or_eq_some_iff.1 h with h | ⟨-, h⟩
    · split at h
      · exact exists_body_of_readAt? h
      · cases h
    · exact ih h

/-- A text in braces that is declared is found whole just if it holds something, and no other closing
brace. -/
theorem ofProxy?_eq_some_iff (h : Declares text ('{' :: body ++ ['}'])) :
    ofProxy? text = some ('{' :: body ++ ['}']) ↔ body ≠ [] ∧ '}' ∉ body := by
  constructor
  · intro hfind
    obtain ⟨found, hne, hb, heq⟩ := exists_body_of_find? hfind
    obtain rfl : body = found := List.append_cancel_right (List.cons.inj heq).2
    exact ⟨hne, hb⟩
  · rintro ⟨hne, hb⟩
    obtain ⟨before, rest, after, hlines, hbefore⟩ := h
    have hbreak : ∀ l ∈ before, '\n' ∉ l := fun l hl =>
      Text.not_mem_of_mem_splitOn (hlines ▸ List.mem_append_left _ hl)
    obtain ⟨s, hs⟩ : ∃ s, List.intercalate ['\n']
        (("let json = ".toList ++ ('{' :: body ++ ['}']) ++ ';' :: rest) :: after) =
          "let json = ".toList ++ ('{' :: body ++ '}' :: s) := by
      cases after with
      | nil => exact ⟨';' :: rest, by simp⟩
      | cons l after => exact ⟨';' :: rest ++ '\n' :: List.intercalate ['\n'] (l :: after), by simp⟩
    have hread := readAt?_body hb s
    rw [if_neg (by simpa using hne)] at hread
    have htext : List.intercalate ['\n'] (text.toList.splitOn '\n') = text.toList :=
      List.intercalate_splitOn _
    rw [ofProxy?, ← htext, hlines, find?_lines hbreak hbefore _ (List.cons_ne_nil _ _), hs]
    exact find?_of_readAt? hread

/-! ## Written maps -/

/-- A name and what it was given. -/
def writePair (p : String × String) : List Char := Json.quote p.1 ++ ':' :: Json.quote p.2

/-- The text between the braces of a map. -/
def writeBody (pairs : List (String × String)) : List Char :=
  List.intercalate [','] (pairs.map writePair)

theorem writeBody_cons_cons (p q : String × String) (pairs : List (String × String)) :
    writeBody (p :: q :: pairs) = writePair p ++ ',' :: writeBody (q :: pairs) := by
  simp [writeBody, List.intercalate_cons_cons]

theorem writeMembers_eq (p : String × String) (pairs : List (String × String)) :
    Json.writeMembers ((p :: pairs).map fun p => (some p.1, .text p.2)) =
      ',' :: writeBody (p :: pairs) ++ ['}'] := by
  induction pairs generalizing p with
  | nil => simp [Json.writeMembers, Json.write, writeBody, writePair]
  | cons q pairs ih =>
    rw [List.map_cons, Json.writeMembers, ih, writeBody_cons_cons]
    simp [Json.write, writePair]

theorem write_eq (pairs : List (String × String)) : write pairs = '{' :: writeBody pairs ++ ['}'] := by
  cases pairs with
  | nil => rfl
  | cons p pairs =>
    rw [write, List.map_cons, Json.write]
    cases pairs with
    | nil => simp [Json.writeMembers, Json.write, writeBody, writePair]
    | cons q pairs =>
      rw [writeMembers_eq, writeBody_cons_cons]
      simp [Json.write, writePair]

theorem writeBody_eq_nil : writeBody pairs = [] ↔ pairs = [] := by
  constructor
  · intro h
    match pairs with
    | [] => rfl
    | [p] => simp [writeBody, writePair] at h
    | p :: q :: pairs => simp [writeBody_cons_cons] at h
  · rintro rfl
    rfl

/-- Nothing but a closing brace is written with one. -/
theorem mem_escape : '}' ∈ Json.escape c ↔ c = '}' := by
  have hdigit : ∀ n < 16, '}' ≠ Text.hexDigit n := by decide
  unfold Json.escape
  split_ifs with h1 h2 h3 h4 h5 h6 h7 hlow
  rotate_left 7
  · have hc : c.toNat < 32 := hlow
    have hne : c ≠ '}' := by
      rintro rfl
      exact absurd hlow (by decide)
    simp [hne, hdigit (c.toNat / 16) (by omega), hdigit (c.toNat % 16) (by omega)]
  · simp [eq_comm]
  -- the characters with an escape of their own
  all_goals
    subst c
    decide

theorem mem_quote {t : String} : '}' ∈ Json.quote t ↔ '}' ∈ t.toList := by
  simp [Json.quote, mem_escape]

theorem mem_writePair {p : String × String} :
    '}' ∈ writePair p ↔ '}' ∈ p.1.toList ∨ '}' ∈ p.2.toList := by
  simp [writePair, mem_quote]

theorem mem_writeBody : '}' ∈ writeBody pairs ↔
    ∃ p ∈ pairs, '}' ∈ p.1.toList ∨ '}' ∈ p.2.toList := by
  induction pairs with
  | nil => simp [writeBody]
  | cons p pairs ih =>
    cases pairs with
    | nil => simp [writeBody, mem_writePair]
    | cons q pairs =>
      rw [writeBody_cons_cons, List.mem_append, mem_writePair, List.mem_cons, ih]
      simp

/-- A written map that is declared is found whole just if it is not empty and no name has a closing
brace. -/
theorem ofProxy?_write (h : Declares text (write pairs)) : ofProxy? text = some (write pairs) ↔
    pairs ≠ [] ∧ ∀ p ∈ pairs, '}' ∉ p.1.toList ∧ '}' ∉ p.2.toList := by
  rw [write_eq] at h ⊢
  rw [ofProxy?_eq_some_iff h, ne_eq, writeBody_eq_nil, mem_writeBody]
  simp only [not_exists, not_and, not_or]

end ClassMap

namespace Embedded

open Script

variable {n : Naming} {file : Path} {t : FileTree} {x w text : String} {pairs : List (String × String)}

theorem ofList_constant (x : String) (value : List Char) :
    String.ofList (Embed.constant x.toList value) =
      "const " ++ x ++ " = " ++ String.ofList value ++ ";" := by
  have hend : ";".toList = [';'] := rfl
  refine String.toList_inj.1 ?_
  unfold Embed.constant
  simp only [String.toList_append, String.toList_ofList, hend]

/-- What becomes of a script that imports the map of a proxy and nothing else. -/
theorem ofCode_import (hx : IsIdentifier x.toList) (hw : IsBare w.toList)
    (hp : Embed.IsModuleProxy n w) (hread : t.read (file.resolveFrom w) = .ok text) :
    ofCode t.read n file ("import " ++ x ++ " from '" ++ w ++ "';") =
      .ok ((ClassMap.ofProxy? text).elim ⟨[], "import " ++ x ++ " from '" ++ w ++ "';"⟩ fun map =>
        ⟨[Embed.entryOf n file w], "const " ++ x ++ " = " ++ String.ofList map ++ ";"⟩) := by
  let l : Line := .import (.default x.toList) w.toList
  have htext : String.ofList l.text = "import " ++ x ++ " from '" ++ w ++ "';" := by
    rw [← String.toList_inj]
    simp [l, Line.text, between, Clause.print, Line.quote]
  have hl : l.IsSound := ⟨hx, hw⟩
  have hr : l.IsReadable n t file := fun _ => .inr ⟨text, by rwa [String.ofList_toList]⟩
  have hd : l.dependency? = some ⟨"import".toList, between " " x.toList " from" ++ [' '],
    Line.quote w.toList, [';']⟩ := rfl
  have houtcome : l.outcome n t file = (ClassMap.ofProxy? text).elim .kept fun map =>
      .replaced (Embed.entryOf n file w) (Embed.constant x.toList map) := by
    simp only [l, Line.outcome, String.ofList_toList, hp.1, if_true, Line.bound, hp.2, Embed.mapAt?,
      hread, Clause.names]
    cases ClassMap.ofProxy? text
    all_goals rfl
  rw [← htext, ofCode_text hl hr hd, Line.contribution, houtcome]
  cases ClassMap.ofProxy? text with
  | none =>
    simp only [Option.elim_none, Embed.Outcome.entry?, Option.toList_none, Embed.Outcome.render,
      Line.source_dependency hd, List.append_nil]
  | some map =>
    have hcut (e : CssEntry) (text : List Char) : (Embed.Outcome.replaced e text).cut [] = [] := rfl
    simp only [Option.elim_some, Embed.Outcome.entry?, Option.toList_some, Embed.Outcome.render, hcut,
      List.append_nil, ofList_constant]

/-- An import of a map becomes a constant with the map just if it is not empty and no name in it has a
closing brace. -/
theorem run_ofFile_classMap_iff (o : Outages) (hx : IsIdentifier x.toList) (hw : IsBare w.toList)
    (hp : Embed.IsModuleProxy n w) (hread : t.read (file.resolveFrom w) = .ok text)
    (hmap : ClassMap.Declares text (ClassMap.write pairs)) :
    ((ofFile n file ("import " ++ x ++ " from '" ++ w ++ "';")).attempt.run o t).result =
        .ok ⟨[Embed.entryOf n file w],
          "const " ++ x ++ " = " ++ String.ofList (ClassMap.write pairs) ++ ";"⟩ ↔
      pairs ≠ [] ∧ ∀ p ∈ pairs, '}' ∉ p.1.toList ∧ '}' ∉ p.2.toList := by
  rw [(run_ofFile o t n file _).1, ofCode_import hx hw hp hread, ← ClassMap.ofProxy?_write hmap]
  cases hfound : ClassMap.ofProxy? text with
  | none => simp
  | some map =>
    simp only [Option.elim_some, Option.some.injEq, Except.ok.injEq, Embedded.mk.injEq, true_and]
    constructor
    · intro h
      have h := congrArg String.toList h
      simpa using h
    · rintro rfl
      rfl

/-- A map with a quote and an opening brace in its names, behind a line that is no declaration. -/
theorem run_ofFile_classMap_escaped :
    let pairs := [("btn", "btn_a1"), ("\x22\x7b", "")]
    let text := "// let json = 1;\nlet json = \x7b\"btn\":\"btn_a1\",\"\\\"\x7b\":\"\"\x7d;\nexport default json;\n"
    let t := FileTree.empty.put [] "x.module.css.proxy.js" (.file text.toUTF8)
    IsIdentifier "s".toList ∧ IsBare "./x.module.css.proxy.js".toList ∧
      Embed.IsModuleProxy {} "./x.module.css.proxy.js" ∧
      t.read (Path.resolveFrom ⟨"app.js"⟩ "./x.module.css.proxy.js") = .ok text ∧
      ClassMap.Declares text (ClassMap.write pairs) ∧
      ((ofFile {} ⟨"app.js"⟩ "import s from './x.module.css.proxy.js';").attempt.run {} t).result =
        .ok ⟨[⟨⟨"x.module.css"⟩, ⟨"x.module.css.proxy.js"⟩⟩],
          "const s = \x7b\"btn\":\"btn_a1\",\"\\\"\x7b\":\"\"\x7d;"⟩ := by
  intro pairs text t
  have hx : IsIdentifier "s".toList := by decide
  have hw : IsBare "./x.module.css.proxy.js".toList := by decide
  have hp : Embed.IsModuleProxy {} "./x.module.css.proxy.js" := by
    constructor
    all_goals decide
  have hread : t.read (Path.resolveFrom ⟨"app.js"⟩ "./x.module.css.proxy.js") = .ok text := by
    refine FileTree.read_of_find (k := [] ++ ["x.module.css.proxy.js"])
      (FileTree.find_of_walk ?_ ?_ ?_ ?_)
    all_goals decide
  have hmap : ClassMap.Declares text (ClassMap.write pairs) := by
    refine ⟨["// let json = 1;".toList], [], ["export default json;".toList, []], ?_⟩
    decide
  have hpairs : pairs ≠ [] ∧ ∀ p ∈ pairs, '}' ∉ p.1.toList ∧ '}' ∉ p.2.toList := by decide
  refine ⟨hx, hw, hp, hread, hmap, ?_⟩
  have h := (run_ofFile_classMap_iff {} hx hw hp hread hmap).2 hpairs
  refine Eq.trans h ?_
  decide

/-- A closing brace in the name of a class ends its map, and what is left of it is no value. -/
theorem classMap_cut_short :
    let pairs := [("a\x7db", "x")]
    let text := "let json = \x7b\"a\x7db\":\"x\"\x7d;\n"
    let t := FileTree.empty.put [] "x.module.css.proxy.js" (.file text.toUTF8)
    ClassMap.Declares text (ClassMap.write pairs) ∧
      ((ofFile {} ⟨"app.js"⟩ "import s from './x.module.css.proxy.js';").attempt.run {} t).result =
        .ok ⟨[⟨⟨"x.module.css"⟩, ⟨"x.module.css.proxy.js"⟩⟩], "const s = \x7b\"a\x7d;"⟩ ∧
      "const s = \x7b\"a\x7d;" ≠ "const s = " ++ String.ofList (ClassMap.write pairs) ++ ";" := by
  intro pairs text t
  have hread : t.read (Path.resolveFrom ⟨"app.js"⟩ "./x.module.css.proxy.js") = .ok text := by
    refine FileTree.read_of_find (k := [] ++ ["x.module.css.proxy.js"])
      (FileTree.find_of_walk ?_ ?_ ?_ ?_)
    all_goals decide
  have hp : Embed.IsModuleProxy {} "./x.module.css.proxy.js" := by
    constructor
    all_goals decide
  refine ⟨⟨[], [], [[]], by decide⟩, ?_, by decide⟩
  have h := ofCode_import (x := "s") (by decide) (by decide) hp hread
  refine ((run_ofFile {} t {} _ _).1.trans h).trans ?_
  decide

end Embedded

end SiteBuild
