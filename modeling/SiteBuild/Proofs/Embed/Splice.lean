import SiteBuild.Proofs.Embed.Lines
import SiteBuild.Proofs.Script.Cut
import SiteBuild.Proofs.Text.Slice

/-! Embedding as edits of a text. All text but the imports that go stays, byte by byte, and where an
edit begins and ends is told by the places of the imports alone. -/

namespace SiteBuild

open Script

variable {f : Path → Except IoError String} {n : Naming} {file : Path} {d : Dependency} {m : Module}
  {s : List Char} {start : Nat}

namespace Script

/-- The imports of proxies, each with the byte that it starts at. -/
def Module.proxyImports (n : Naming) (m : Module) : List (Nat × Dependency) :=
  m.located.filter fun x => x.2.isImport && n.isCssProxy (String.ofList x.2.specifier)

/-- That what is read of a dependency are slices of a text. -/
structure Dependency.StandsAt (s : List Char) (start : Nat) (d : Dependency) : Prop where
  source : Text.slice? s (d.span start).start (d.span start).stop = some d.source
  clause : Text.slice? s start ((d.specifierSpan start).start - 1) = some (d.keyword ++ d.clause)
  specifier : Text.slice? s (d.specifierSpan start).start (d.specifierSpan start).stop = some d.specifier

theorem Dependency.standsAt {a b : List Char} (hq : IsQuoted d.quoted) :
    d.StandsAt (a ++ (d.source ++ b)) (Text.byteLength a) := by
  obtain ⟨q, w, hq, hw, -⟩ := hq
  have hsize : q.utf8Size = 1 := by rcases hq with rfl | rfl <;> rfl
  have hspec : d.specifier = w := by simp [specifier, hw]
  constructor
  · exact Text.slice?_append a d.source b
  · refine Text.slice?_eq_some_iff.2 ⟨a, d.quoted ++ d.tail ++ b, by simp [Dependency.source], rfl, ?_⟩
    simp [specifierSpan]
  · rw [hspec]
    refine Text.slice?_eq_some_iff.2
      ⟨a ++ d.keyword ++ d.clause ++ [q], q :: d.tail ++ b, by simp [Dependency.source, hw], ?_, ?_⟩
    all_goals
      simp [specifierSpan, hw, hsize]
      omega

end Script

namespace Embed

/-- Whether an import binds names of a proxy without a class map. -/
def lacksMap (f : Path → Except IoError String) (n : Naming) (file : Path) (d : Dependency) : Bool :=
  needsMap n d &&
    match f (file.resolveFrom (String.ofList d.specifier)) with
    | .ok text => (ClassMap.ofProxy? text).isNone
    | .error cause => cause = .notFound

/-- Whether an import of a proxy is to go. -/
def goes (f : Path → Except IoError String) (n : Naming) (file : Path) (d : Dependency) : Bool :=
  d.isImport && n.isCssProxy (String.ofList d.specifier) && !lacksMap f n file d

/-- What stands in the place of an import that goes. -/
def Outcome.text : Outcome → List Char
  | .replaced _ text => text
  | _ => []

theorem constant_ne_nil (names value : List Char) : constant names value ≠ [] :=
  List.append_ne_nil_of_right_ne_nil _ (List.cons_ne_nil _ _)

theorem goes_eq (h : (d.isImport && n.isCssProxy (String.ofList d.specifier)) = true) :
    goes f n file d = !lacksMap f n file d := by
  rw [goes, h, Bool.true_and]

/-- What becomes of a dependency: what goes is bundled, and leaves nothing exactly if no names are
bound. -/
theorem outcome_eq_ok {x : Outcome} (h : outcome f n file d = .ok x) :
    (goes f n file d = true → x.entry? = some (entryOf n file (String.ofList d.specifier)) ∧
      (x.text = [] ↔ boundNames d = [])) ∧
    (goes f n file d = false → x = .kept) := by
  unfold outcome at h
  simp only at h
  split at h
  · next hp =>
    cases h
    rw [Bool.not_eq_true'] at hp
    rw [goes, hp]
    exact ⟨fun h => (by cases h), fun _ => rfl⟩
  next hp =>
  rw [Bool.not_eq_true, Bool.not_eq_false'] at hp
  rw [goes_eq hp, Bool.not_eq_true', Bool.not_eq_false']
  split at h
  · next hb =>
    cases h
    have hl : lacksMap f n file d = false := by simp [lacksMap, needsMap, hb]
    rw [hl]
    exact ⟨fun _ => ⟨rfl, by simpa [Outcome.text] using hb⟩, fun h => by cases h⟩
  next hb =>
  have hbound : boundNames d ≠ [] := fun h => hb (by rw [h]; rfl)
  rw [Bool.not_eq_true] at hb
  split at h
  · next hm =>
    have hneeds : needsMap n d = true := by simp [needsMap, hp, hb, hm]
    rw [proxy_entryOf] at h
    simp only [lacksMap, hneeds, Bool.true_and]
    split at h
    · next text ht =>
      cases h
      simp only [ht]
      cases ClassMap.ofProxy? text with
      | none => exact ⟨fun h => (by cases h), fun _ => rfl⟩
      | some map => exact ⟨fun _ => ⟨rfl, iff_of_false (constant_ne_nil _ _) hbound⟩, fun h => by cases h⟩
    · next ht =>
      cases h
      rw [ht]
      exact ⟨fun h => (by cases h), fun _ => rfl⟩
    · cases h
  · next hm =>
    cases h
    have hl : lacksMap f n file d = false := by simp [lacksMap, needsMap, hm]
    rw [hl]
    exact ⟨fun _ => ⟨rfl, iff_of_false (constant_ne_nil _ _) hbound⟩, fun h => by cases h⟩

/-- What an edit may take along behind a statement. -/
def semicolons : List (List Char) := [[], [';']]

/-- What a removal may take along behind that. -/
def lineEnds : List (List Char) := [[], ['\n'], ['\r', '\n']]

/-- Behind an import that goes, one semicolon may go along, and one end of a line if nothing is left. -/
theorem Outcome.exists_cut (x : Outcome) (code : List Char) :
    ∃ u ∈ semicolons, ∃ v ∈ lineEnds, code = u ++ v ++ x.cut code ∧
      ((∃ e, x = .removed e) ∨ v = []) := by
  obtain ⟨u, hu, hrest⟩ : ∃ u ∈ semicolons, code = u ++ (Text.after? [';'] code).getD code := by
    cases h : Text.after? [';'] code with
    | none => exact ⟨[], by simp [semicolons], rfl⟩
    | some rest => exact ⟨[';'], by simp [semicolons], (Text.append_of_after? h).symm⟩
  cases x with
  | kept => exact ⟨[], by simp [semicolons], [], by simp [lineEnds], rfl, .inr rfl⟩
  | replaced e text => exact ⟨u, hu, [], by simp [lineEnds], by simpa [cut] using hrest, .inr rfl⟩
  | removed e =>
    simp only [cut]
    generalize (Text.after? [';'] code).getD code = rest at hrest
    obtain ⟨v, hv, hr⟩ : ∃ v ∈ lineEnds, rest =
        v ++ ((Text.after? ['\r', '\n'] rest).or (Text.after? ['\n'] rest)).getD rest := by
      cases h : Text.after? ['\r', '\n'] rest with
      | some r => exact ⟨['\r', '\n'], by simp [lineEnds], (Text.append_of_after? h).symm⟩
      | none =>
        cases h : Text.after? ['\n'] rest with
        | some r => exact ⟨['\n'], by simp [lineEnds], (Text.append_of_after? h).symm⟩
        | none => exact ⟨[], by simp [lineEnds], rfl⟩
    exact ⟨u, hu, v, hv, by rw [List.append_assoc, ← hr, hrest], .inl ⟨e, rfl⟩⟩

/-- An edit that stands for an import: it begins where the import does, ends where that does or a
little later, and leaves nothing exactly if no names are bound. -/
structure IsEditOf (s : List Char) (start : Nat) (d : Dependency) (e : Text.Edit) : Prop where
  start_eq : e.start = start
  text_eq_nil_iff : e.text = [] ↔ boundNames d = []
  taken : ∃ u ∈ semicolons, ∃ v ∈ lineEnds,
    Text.slice? s (d.span start).stop e.stop = some (u ++ v) ∧ (e.text ≠ [] → v = [])

theorem Outcome.render_of_entry? {x : Outcome} {e : CssEntry} (h : x.entry? = some e) (d : Dependency)
    (code : List Char) : x.render d code = x.text ++ x.cut code := by
  cases x with
  | kept => cases h
  | removed e => rfl
  | replaced e text => rfl

/-- What becomes of each part of a module. -/
def outcomes (f : Path → Except IoError String) (n : Naming) (file : Path)
    (parts : List (Dependency × List Char)) :
    Except IoError (List (Outcome × Dependency × List Char)) :=
  parts.mapM fun (d, code) => return (← outcome f n file d, d, code)

theorem outcomes_cons_eq_ok {code : List Char} {parts : List (Dependency × List Char)}
    {outs : List (Outcome × Dependency × List Char)}
    (h : outcomes f n file ((d, code) :: parts) = .ok outs) :
    ∃ x outs', outcome f n file d = .ok x ∧ outcomes f n file parts = .ok outs' ∧
      outs = (x, d, code) :: outs' := by
  rw [outcomes, List.mapM_cons, ← outcomes] at h
  simp only at h
  cases hx : outcome f n file d with
  | error e =>
    rw [hx] at h
    cases h
  | ok x =>
    cases ho : outcomes f n file parts with
    | error e =>
      rw [hx, ho] at h
      cases h
    | ok outs' =>
      rw [hx, ho] at h
      cases h
      exact ⟨x, outs', rfl, rfl, rfl⟩

/-- The edit of an import that goes, behind the text `a`. -/
theorem exists_isEditOf {x : Outcome} (a code b : List Char) (hx : outcome f n file d = .ok x)
    (hg : goes f n file d = true) :
    ∃ w, code = w ++ x.cut code ∧
      IsEditOf (a ++ (d.source ++ (code ++ b))) (Text.byteLength a) d
        ⟨Text.byteLength a, Text.byteLength (a ++ d.source ++ w), x.text⟩ := by
  obtain ⟨u, hu, v, hv, hcode, hr⟩ := x.exists_cut code
  refine ⟨u ++ v, hcode, rfl, ((outcome_eq_ok hx).1 hg).2, u, hu, v, hv, ?_, fun ht => ?_⟩
  · refine Text.slice?_eq_some_iff.2
      ⟨a ++ d.source, x.cut code ++ b, ?_, by simp [Dependency.span], by simp⟩
    rw [List.append_assoc _ (u ++ v), ← List.append_assoc (u ++ v), ← hcode, List.append_assoc]
  · obtain ⟨e, rfl⟩ | h := hr
    · exact absurd rfl ht
    · exact h

/-- Embedding cuts the text at the imports that go: behind what was copied up to `a`, where `pending`
is still to be copied, one edit follows for each of them. -/
theorem exists_edits {parts : List (Dependency × List Char)}
    {outs : List (Outcome × Dependency × List Char)} (h : outcomes f n file parts = .ok outs)
    (a pending : List Char) (hs : a ++ (pending ++ parts.flatMap fun p => p.1.source ++ p.2) = s) :
    ∃ es : List ((Nat × Dependency) × Text.Edit),
      es.map Prod.fst = (Module.located.go (Text.byteLength (a ++ pending)) parts).filter
        (fun x => goes f n file x.2) ∧
      (∀ x ∈ es, IsEditOf s x.1.1 x.1.2 x.2) ∧
      Text.splice? s (Text.byteLength a) (es.map Prod.snd) =
        some (pending ++ outs.flatMap fun (x, d, code) => x.render d code) ∧
      outs.filterMap (fun (x, _) => x.entry?) =
        es.map fun x => entryOf n file (String.ofList x.1.2.specifier) := by
  induction parts generalizing a pending outs with
  | nil =>
    cases h
    refine ⟨[], rfl, by simp, ?_, rfl⟩
    exact Text.slice?_eq_some_iff.2 ⟨a, [], by simpa using hs, rfl, by simp [← hs]⟩
  | cons p parts ih =>
    obtain ⟨d, code⟩ := p
    obtain ⟨x, outs, hx, ho, rfl⟩ := outcomes_cons_eq_ok h
    rw [List.flatMap_cons] at hs
    obtain ⟨hgo, hkeep⟩ := outcome_eq_ok hx
    cases hg : goes f n file d with
    | false =>
      -- the import joins what is still to be copied
      obtain rfl := hkeep hg
      obtain ⟨es, hes, hedit, hsplice, hentries⟩ :=
        ih ho a (pending ++ d.source ++ code) (by rw [← hs]; simp)
      refine ⟨es, ?_, hedit, ?_, hentries⟩
      · rw [hes, Module.located.go, List.filter_cons_of_neg (by simp [hg])]
        simp [Nat.add_assoc]
      · rw [hsplice]
        simp [Outcome.render]
    | true =>
      have he := (hgo hg).1
      obtain ⟨w, hcode, hw⟩ :=
        exists_isEditOf (a ++ pending) code (parts.flatMap fun p => p.1.source ++ p.2) hx hg
      have hs' : a ++ pending ++ (d.source ++ (code ++ parts.flatMap fun p => p.1.source ++ p.2)) = s := by
        rw [← hs]
        simp
      have hrest : a ++ pending ++ d.source ++ w ++ x.cut code = a ++ pending ++ d.source ++ code := by
        rw [List.append_assoc, ← hcode]
      obtain ⟨es, hes, hedit, hsplice, hentries⟩ :=
        ih ho (a ++ pending ++ d.source ++ w) (x.cut code) (by rw [← hs', ← List.append_assoc, hrest]; simp)
      rw [hs'] at hw
      refine ⟨((Text.byteLength (a ++ pending), d), ⟨Text.byteLength (a ++ pending),
        Text.byteLength (a ++ pending ++ d.source ++ w), x.text⟩) :: es, ?_, ?_, ?_, ?_⟩
      · rw [List.map_cons, hes, hrest, Module.located.go, List.filter_cons_of_pos (by simp [hg])]
        simp [Nat.add_assoc]
      · intro y hy
        rcases List.mem_cons.1 hy with rfl | hy
        · exact hw
        · exact hedit y hy
      · have hslice : Text.slice? s (Text.byteLength a) (Text.byteLength (a ++ pending)) = some pending :=
          Text.slice?_eq_some_iff.2 ⟨a, _, by simpa using hs', rfl, rfl⟩
        simp only [List.map_cons, Text.splice?, hslice, hsplice, List.flatMap_cons,
          Outcome.render_of_entry? he]
        simp
      · simp [he, hentries]

theorem outcomes_of_no_proxy {parts : List (Dependency × List Char)}
    (h : ∀ p ∈ parts, (p.1.isImport && n.isCssProxy (String.ofList p.1.specifier)) = false) :
    outcomes f n file parts = .ok (parts.map fun p => (.kept, p)) := by
  induction parts with
  | nil => rfl
  | cons p parts ih =>
    obtain ⟨d, code⟩ := p
    have hp : outcome f n file d = .ok .kept := by
      rw [outcome, h _ List.mem_cons_self]
      rfl
    have hrest := ih fun q hq => h q (List.mem_cons_of_mem _ hq)
    rw [outcomes] at hrest ⊢
    rw [List.mapM_cons, hrest]
    simp only [hp]
    rfl

end Embed

namespace Script.Module

theorem standsAt_of_go {parts : List (Dependency × List Char)} (hq : ∀ p ∈ parts, IsQuoted p.1.quoted)
    (a : List Char) (hs : a ++ (parts.flatMap fun p => p.1.source ++ p.2) = s) :
    ∀ x ∈ located.go (Text.byteLength a) parts, x.2.StandsAt s x.1 := by
  induction parts generalizing a with
  | nil => simp [located.go]
  | cons p parts ih =>
    intro x hx
    rcases List.mem_cons.1 hx with rfl | hx
    · rw [← hs, List.flatMap_cons, List.append_assoc]
      exact Dependency.standsAt (hq p List.mem_cons_self)
    · refine ih (fun q h => hq q (List.mem_cons_of_mem _ h)) (a ++ p.1.source ++ p.2) ?_ x ?_
      · rw [← hs]
        simp
      · simpa [Nat.add_assoc] using hx

/-- All that is read of the dependencies of a text stands in it. -/
theorem standsAt_of_read? (hm : read? s = some m) : ∀ x ∈ m.located, x.2.StandsAt s x.1 :=
  standsAt_of_go (isQuoted_of_read? hm) m.head (source_of_read? hm)

theorem map_snd_go (parts : List (Dependency × List Char)) (start : Nat) :
    (located.go start parts).map Prod.snd = parts.map Prod.fst := by
  induction parts generalizing start with
  | nil => rfl
  | cons p parts ih => rw [located.go, List.map_cons, ih, List.map_cons]

theorem mem_located {x : Dependency} (hx : x ∈ m.parts.map Prod.fst) : ∃ i, (i, x) ∈ m.located := by
  rw [← map_snd_go m.parts (Text.byteLength m.head)] at hx
  obtain ⟨⟨i, y⟩, hi, rfl⟩ := List.mem_map.1 hx
  exact ⟨i, hi⟩

end Script.Module

namespace Embedded

variable {code : String} {e : Embedded} {o : Outages} {t : FileTree}

theorem ofModule_eq_ok (h : ofModule f n file m = .ok e) :
    ∃ outs, Embed.outcomes f n file m.parts = .ok outs ∧
      e.imports = outs.filterMap (fun (x, _) => x.entry?) ∧
      e.code = String.ofList (m.head ++ outs.flatMap fun (x, d, code) => x.render d code) := by
  rw [ofModule, ← Embed.outcomes] at h
  cases ho : Embed.outcomes f n file m.parts with
  | error x =>
    rw [ho] at h
    cases h
  | ok outs =>
    rw [ho] at h
    cases h
    exact ⟨outs, rfl, rfl, rfl⟩

/-- What an embedding does to a text: it makes one edit for each import of a proxy but those that lack
their map, and bundles one stylesheet for each. -/
structure IsSplice (f : Path → Except IoError String) (n : Naming) (file : Path) (s : List Char)
    (m : Script.Module) (e : Embedded) (es : List ((Nat × Dependency) × Text.Edit)) : Prop where
  records : es.map Prod.fst = (m.proxyImports n).filter fun x => !Embed.lacksMap f n file x.2
  edits : ∀ x ∈ es, Embed.IsEditOf s x.1.1 x.1.2 x.2
  ordered : (es.map Prod.snd).IsChain fun x y => x.stop ≤ y.start
  code_eq : Text.splice? s 0 (es.map Prod.snd) = some e.code.toList
  imports_eq : e.imports = es.map fun x => Embed.entryOf n file (String.ofList x.1.2.specifier)

theorem exists_isSplice (hm : Script.Module.read? s = some m) (h : ofModule f n file m = .ok e) :
    ∃ es, IsSplice f n file s m e es := by
  obtain ⟨outs, ho, hi, hc⟩ := ofModule_eq_ok h
  obtain ⟨es, hes, hedit, hsplice, hentries⟩ :=
    Embed.exists_edits ho [] m.head (Script.Module.source_of_read? hm)
  refine ⟨es, ?_, hedit, Text.isChain_of_splice? hsplice, ?_, hi.trans hentries⟩
  · rw [hes, Script.Module.proxyImports, List.filter_filter]
    refine List.filter_congr fun x _ => ?_
    rw [Embed.goes, Bool.and_comm]
  · rw [hc, String.toList_ofList]
    exact hsplice

theorem ofModule_of_proxyImports_eq_nil (hm : Script.Module.read? code.toList = some m)
    (h : m.proxyImports n = []) : ofModule f n file m = .ok ⟨[], code⟩ := by
  have hnone : ∀ p ∈ m.parts, (p.1.isImport && n.isCssProxy (String.ofList p.1.specifier)) = false := by
    intro p hp
    obtain ⟨i, hi⟩ := Script.Module.mem_located (List.mem_map_of_mem hp)
    simpa using List.filter_eq_nil_iff.1 h _ hi
  have ho : Embed.outcomes f n file m.parts = .ok _ := Embed.outcomes_of_no_proxy hnone
  have hsource := Script.Module.source_of_read? hm
  rw [ofModule, ← Embed.outcomes, ho]
  refine congrArg Except.ok (congr (congrArg mk ?_) ?_)
  · induction m.parts with
    | nil => rfl
    | cons p parts ih => exact ih
  · rw [← String.ofList_toList (s := code), ← hsource, Script.Module.source, List.flatMap_map]
    rfl

/-- Embedding edits the imports of proxies that go, and no other byte. -/
theorem run_ofFile_isSplice (o : Outages) (t : FileTree) (n : Naming) (file : Path)
    (hm : Script.Module.read? code.toList = some m) :
    (∀ x ∈ m.located, x.2.StandsAt code.toList x.1) ∧
    (∀ e, ((ofFile n file code).attempt.run o t).result = .ok e →
      ∃ es, IsSplice t.read n file code.toList m e es) ∧
    (m.proxyImports n = [] → ((ofFile n file code).attempt.run o t).result = .ok ⟨[], code⟩) := by
  have hrun : ((ofFile n file code).attempt.run o t).result = (ofModule t.read n file m).mapError .io := by
    rw [(run_ofFile o t n file code).1, ofCode, hm]
  refine ⟨Script.Module.standsAt_of_read? hm, fun e he => ?_, fun hn => ?_⟩
  · exact exists_isSplice hm (eq_ok_of_mapError (hrun ▸ he))
  · rw [hrun, ofModule_of_proxyImports_eq_nil hm hn]
    rfl

/-- A side effect goes with its line, and a bound import is replaced. -/
theorem run_ofFile_isSplice_two :
    let ls : List Line := [.import .nothing "./a.css.proxy.js".toList,
      .constant "k1".toList "import './a.css.proxy.js';".toList,
      .import (.all "s1".toList) "./a.css.proxy.js".toList]
    let code := String.ofList (ls.flatMap Line.print)
    ∃ m, Script.Module.read? code.toList = some m ∧
      ∃ e es, ((ofFile {} ⟨"app.js"⟩ code).attempt.run {} .empty).result = .ok e ∧
        IsSplice FileTree.empty.read {} ⟨"app.js"⟩ code.toList m e es ∧
        es.map (fun x => x.1.1) = [0, 68] := by
  intro ls code
  have hs : ∀ l ∈ ls, l.IsSound := by decide +kernel
  have hm : Script.Module.read? code.toList = some (Line.module ls) := by
    rw [String.toList_ofList]
    exact Line.read?_print hs
  have hr : ∀ l ∈ ls, l.IsReadable {} .empty ⟨"app.js"⟩ := by
    have ha : Naming.isCssModule {} (Naming.actual {} "./a.css.proxy.js") = false := by decide +kernel
    simp [ls, Line.IsReadable, Embed.IsModuleProxy, ha]
  obtain ⟨-, hok, -⟩ := run_ofFile_isSplice {} .empty {} ⟨"app.js"⟩ hm
  have he := (run_ofFile {} .empty {} ⟨"app.js"⟩ code).1.trans (ofCode_print hs hr)
  obtain ⟨es, hes⟩ := hok _ he
  refine ⟨_, hm, _, es, he, hes, ?_⟩
  have h := congrArg (List.map Prod.fst) hes.records
  rw [List.map_map] at h
  refine h.trans ?_
  decide +kernel

end Embedded

end SiteBuild
