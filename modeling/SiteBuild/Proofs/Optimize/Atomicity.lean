import SiteBuild.Proofs.Optimize.Styles
import SiteBuild.Proofs.Optimize.Unchanged
import SiteBuild.Proofs.Plan.Accesses

/-! Work on a file is done as a whole or not at all. It reads the file, makes a text of it that nobody sees
before it is complete, and writes that in one call; where any of these fails, all files are what they
were. -/

namespace SiteBuild

open FileTree

variable {α β : Type} {o : Outages} {t : FileTree} {g : Path}

/-- What is made of the text of a file, and whether it is written even if it stays as it is. -/
structure Task (α : Type) where
  text : String → Except Fault (String × α)
  always : Bool

def Task.map (h : α → β) (task : Task α) : Task β :=
  { task with text := fun old => (task.text old).map fun x => (x.1, h x.2) }

theorem Task.map_of_text (f : String → Except Fault String) (always : Bool) (b : β) :
    (Task.mk (fun old => (f old).map fun new => (new, ())) always).map (fun _ => b) =
      ⟨fun old => (f old).map fun new => (new, b), always⟩ := by
  unfold map
  congr 1
  funext old
  dsimp only
  cases f old <;> rfl

variable {task : Task α}

/-- How a task goes that is carried out on a file: what comes of it, the files that it leaves, and the
calls that it makes. -/
inductive CarriesOut (o : Outages) (t : FileTree) (g : Path) (task : Task α) :
    Except Fault α → FileTree → List Exchange → Prop
  | unread {e : IoError} (read : (t.answer o (.read g)).1 = .error e) :
      CarriesOut o t g task (.error (.io e)) t [⟨.read g, .error e⟩]
  | unmade {old : String} {e : Fault} (read : (t.answer o (.read g)).1 = .ok old)
      (text : task.text old = .error e) : CarriesOut o t g task (.error e) t [⟨.read g, .ok old⟩]
  | kept {old : String} {a : α} (read : (t.answer o (.read g)).1 = .ok old)
      (text : task.text old = .ok (old, a)) (spares : task.always = false) :
      CarriesOut o t g task (.ok a) t [⟨.read g, .ok old⟩]
  | unwritten {old new : String} {a : α} {e : IoError} (read : (t.answer o (.read g)).1 = .ok old)
      (text : task.text old = .ok (new, a)) :
      CarriesOut o t g task (.error (.io e)) t [⟨.read g, .ok old⟩, ⟨.write g new, .error e⟩]
  | written {old new : String} {a : α} (read : (t.answer o (.read g)).1 = .ok old)
      (text : task.text old = .ok (new, a)) (changes : task.always = true ∨ new ≠ old) :
      CarriesOut o t g task (.ok a) (t.write g new.toUTF8).1
        [⟨.read g, .ok old⟩, ⟨.write g new, .ok ()⟩]

/-- What is made of the result in the end makes no other work of it. -/
theorem CarriesOut.map {r : Except Fault α} {u : FileTree} {l : List Exchange} (h : α → β)
    (hx : CarriesOut o t g task r u l) : CarriesOut o t g (task.map h) (r.map h) u l := by
  have htext {old : String} {r : Except Fault (String × α)} (ht : task.text old = r) :
      (task.map h).text old = r.map fun x => (x.1, h x.2) := by
    rw [← ht]
    rfl
  cases hx with
  | unread read => exact .unread read
  | unmade read text => exact .unmade read (htext text)
  | kept read text spares => exact .kept read (htext text) spares
  | unwritten read text => exact .unwritten read (htext text)
  | written read text changes => exact .written read (htext text) changes

theorem Call.looks_of_isAccess {c : Call} (h : c.isAccess = false) : Looks c := by
  cases c <;> first | exact trivial | cases h

/-- A file that is there can be written, unless this is made to fail. -/
theorem answer_write_of_answer_read {old : String} (h : (t.answer o (.read g)).1 = .ok old)
    (new : String) :
    (∃ e, t.answer o (.write g new) = (.error e, t)) ∨
      t.answer o (.write g new) = (.ok (), (t.write g new.toUTF8).1) := by
  obtain ⟨k, hf⟩ := find_of_read (answer_read_of_ok h).2
  simp only [answer]
  cases o.write g with
  | some e => exact .inl ⟨e, rfl⟩
  | none => exact .inr (Prod.ext (write_of_find hf).1 rfl)

namespace Job

theorem run_map (f : α → β) (x : Job α) :
    (f <$> x).attempt.run o t =
      ⟨(x.attempt.run o t).result.map f, (x.attempt.run o t).tree, (x.attempt.run o t).exchanges⟩ := by
  rw [← bind_pure_comp, run_bind]
  dsimp only
  cases (x.attempt.run o t).result with
  | ok a => simp [Except.map]
  | error e => rfl

/-- Changes the text of a file, which is written if it became another, or always. -/
def rework (always : Bool) (g : Path) (f : String → Job (String × α)) : Job α := do
  let text ← read g
  let (new, a) ← f text
  if always ∨ new ≠ text then write g new
  return a

theorem revise_eq_rework (f : String → Job (String × α)) : revise g f = rework false g f := by
  simp [revise, rework]

variable {x : Job α} {f : α → Job β} {R : Except Fault β → FileTree → List Exchange → Prop}

theorem result_forM_tell (es : List Event) : ((es.forM tell).attempt.run o t).result = .ok () := by
  induction es with
  | nil => rfl
  | cons e es ih =>
    change ((tell e >>= fun _ => es.forM tell).attempt.run o t).result = .ok ()
    rw [run_bind_of_ok (a := ()) rfl]
    exact ih

/-- What comes of a job whose first part leaves the files as they are. -/
theorem result_bind (hx : (x.attempt.run o t).tree = t) :
    ((x >>= f).attempt.run o t).result =
      (x.attempt.run o t).result >>= fun a => ((f a).attempt.run o t).result := by
  rw [run_bind]
  dsimp only
  cases (x.attempt.run o t).result with
  | error e => rfl
  | ok a =>
    dsimp only
    rw [hx]
    rfl

/-- A job goes on where the first part of it is through. -/
theorem goes_on {a : α} {u : FileTree} {l : List Exchange}
    (hresult : (x.attempt.run o t).result = .ok a) (htree : (x.attempt.run o t).tree = u)
    (haccesses : (x.attempt.run o t).accesses = l)
    (h : R ((f a).attempt.run o u).result ((f a).attempt.run o u).tree
      (l ++ ((f a).attempt.run o u).accesses)) :
    R ((x >>= f).attempt.run o t).result ((x >>= f).attempt.run o t).tree
      ((x >>= f).attempt.run o t).accesses := by
  subst htree haccesses
  rw [accesses_bind_of_ok hresult, run_bind_of_ok hresult]
  exact h

/-- A job stops where the first part of it fails. -/
theorem stops {e : Fault} {u : FileTree} {l : List Exchange}
    (hresult : (x.attempt.run o t).result = .error e) (htree : (x.attempt.run o t).tree = u)
    (haccesses : (x.attempt.run o t).accesses = l) (h : R (.error e) u l) :
    R ((x >>= f).attempt.run o t).result ((x >>= f).attempt.run o t).tree
      ((x >>= f).attempt.run o t).accesses := by
  subst htree haccesses
  rw [accesses_bind_of_error hresult, run_bind_of_error hresult]
  exact h

theorem carriesOut_rework (task : Task α) {f : String → Job (String × α)}
    (hquiet : ∀ text, (f text).Calls fun c => c.isAccess = false)
    (htext : ∀ text, ((f text).attempt.run o t).result = task.text text) :
    CarriesOut o t g task ((rework task.always g f).attempt.run o t).result
      ((rework task.always g f).attempt.run o t).tree
      ((rework task.always g f).attempt.run o t).accesses := by
  cases hold : (t.answer o (.read g)).1 with
  | error e =>
    obtain ⟨hresult, htree, haccesses⟩ := run_read_of_answer hold
    exact stops (R := CarriesOut o t g task) hresult htree haccesses (.unread hold)
  | ok old =>
    obtain ⟨hresult, htree, haccesses⟩ := run_read_of_answer hold
    refine goes_on (R := CarriesOut o t g task) hresult htree haccesses ?_
    have hstays : ((f old).attempt.run o t).tree = t :=
      ((hquiet old).mono fun _ => Call.looks_of_isAccess).attempt.looks
    have hnone : ((f old).attempt.run o t).accesses = [] := (hquiet old).attempt.accesses_eq_nil
    let R (r : Except Fault α) (u : FileTree) (l : List Exchange) : Prop :=
      CarriesOut o t g task r u (⟨.read g, .ok old⟩ :: l)
    cases hmade : task.text old with
    | error e => exact stops (R := R) ((htext old).trans hmade) hstays hnone (.unmade hold hmade)
    | ok made =>
      obtain ⟨new, a⟩ := made
      refine goes_on (R := R) ((htext old).trans hmade) hstays hnone ?_
      dsimp only
      by_cases hw : task.always = true ∨ new ≠ old
      · rw [if_pos hw]
        rcases answer_write_of_answer_read hold new with ⟨e, ha⟩ | ha
        · obtain ⟨hresult, htree, haccesses⟩ := run_write_of_answer ha
          exact stops (R := R) hresult htree haccesses (.unwritten hold hmade)
        · obtain ⟨hresult, htree, haccesses⟩ := run_write_of_answer ha
          exact goes_on (R := R) hresult htree haccesses (.written hold hmade hw)
      · rw [if_neg hw]
        obtain ⟨halways, rfl⟩ : task.always = false ∧ new = old := by simpa using hw
        exact .kept hold hmade halways

end Job

namespace Setting

/-- The text that a script is to have: with its stylesheets embedded, and made small, as far as this is
asked for. Class maps are looked up in the files as they are. -/
def scriptText (s : Setting) (look : Path → Except IoError String) (g : Path) (old : String) :
    Except Fault (String × List CssEntry) := do
  let e ← if s.embedCss then Embedded.ofCode look s.options.naming g old else .ok ⟨[], old⟩
  let new ← if s.options.minifyScripts then s.minifier.script g e.code else .ok e.code
  return (new, e.imports)

/-- The text that a page is to have: linked to the combined stylesheet, with hints for the modules that it
loads, and made small, as far as this is asked for. -/
def pageText (s : Setting) (g : Path) (old : String) : Except Fault String :=
  let linked :=
    if s.embedCss then Page.inject (Page.stylesheetLink s.options.combinedName) old else old
  let hinted :=
    match s.graph with
    | some m => if s.options.preloadModules then Page.preloadModules m g linked else linked
    | none => linked
  if s.options.minifyPages then s.minifier.page hinted else .ok hinted

/-- What is to be done to the text of a file, if anything is asked for. -/
def task? (s : Setting) (look : Path → Except IoError String) (g : Path) :
    Option (Task FileResult) :=
  match FileKind.classify s.options.naming g with
  | .script =>
    if s.embedCss || s.options.minifyScripts then
      some ⟨fun old => (s.scriptText look g old).map fun x => (x.1, ⟨g, x.2⟩), false⟩
    else none
  | .page =>
    if s.embedCss || (s.options.preloadModules && s.graph.isSome) || s.options.minifyPages then
      some ⟨fun old => (s.pageText g old).map fun new => (new, ⟨g, []⟩), false⟩
    else none
  | .css =>
    if s.options.minifyStyles then
      some ⟨fun old => (s.minifier.style g old).map fun new => (new, ⟨g, []⟩), true⟩
    else none
  | .cssProxy => none
  | .other => none

variable {s : Setting}

/-- The stylesheets of a script embedded in it, where this is asked for. -/
def embedIfAsked (s : Setting) (g : Path) (code : String) : Job Embedded :=
  if s.embedCss then Embedded.ofFile s.options.naming g code else pure ⟨[], code⟩

theorem optimizeScript_eq_revise (h : (s.embedCss || s.options.minifyScripts) = true) :
    s.optimizeScript g = Job.revise g fun code => s.embedIfAsked g code >>= fun e =>
      (fun new => (new, e.imports)) <$> Job.ofExcept (s.minifyScript g e.code) := by
  unfold optimizeScript embedIfAsked
  rw [if_pos h]
  congr 1
  funext code
  split <;> simp only [bind_pure_comp]

theorem run_embedIfAsked (code : String) :
    ((s.embedIfAsked g code).attempt.run o t).result =
        (if s.embedCss then Embedded.ofCode t.read s.options.naming g code else .ok ⟨[], code⟩) ∧
      ((s.embedIfAsked g code).attempt.run o t).tree = t := by
  unfold embedIfAsked
  split
  · exact Embedded.run_ofFile o t s.options.naming g code
  · exact ⟨rfl, rfl⟩

theorem carriesOut_script (h : (s.embedCss || s.options.minifyScripts) = true) :
    CarriesOut o t g ⟨s.scriptText t.read g, false⟩ ((s.optimizeScript g).attempt.run o t).result
      ((s.optimizeScript g).attempt.run o t).tree
      ((s.optimizeScript g).attempt.run o t).accesses := by
  rw [optimizeScript_eq_revise h, Job.revise_eq_rework]
  refine Job.carriesOut_rework ⟨s.scriptText t.read g, false⟩ (fun code => ?_) fun code => ?_
  · refine .bind ?_ fun e => .map _ (.ofExcept _)
    unfold embedIfAsked
    split
    · exact Embedded.ofFile_calls fun _ _ _ => rfl
    · exact .pure _
  · obtain ⟨hresult, htree⟩ := run_embedIfAsked (s := s) (o := o) (t := t) (g := g) code
    rw [Job.result_bind htree, hresult]
    simp only [Job.run_map, Job.run_ofExcept]
    unfold scriptText minifyScript
    cases s.embedCss <;> cases s.options.minifyScripts <;> rfl

theorem preloadGraph_isSome :
    s.preloadGraph.isSome = (s.options.preloadModules && s.graph.isSome) := by
  unfold preloadGraph
  cases s.options.preloadModules <;> rfl

theorem minifyPage_linkPage (old : String) :
    s.minifyPage (s.linkPage g old) = s.pageText g old := by
  unfold minifyPage linkPage pageText preloadGraph
  cases s.options.preloadModules <;> cases s.graph <;> rfl

theorem carriesOut_page
    (h : (s.embedCss || (s.options.preloadModules && s.graph.isSome) || s.options.minifyPages) = true) :
    CarriesOut o t g ⟨fun old => (s.pageText g old).map fun new => (new, ()), false⟩
      ((s.optimizePage g).attempt.run o t).result ((s.optimizePage g).attempt.run o t).tree
      ((s.optimizePage g).attempt.run o t).accesses := by
  unfold optimizePage
  rw [preloadGraph_isSome, if_pos h, Job.revise_eq_rework]
  simp only [bind_pure_comp, minifyPage_linkPage]
  refine Job.carriesOut_rework ⟨_, false⟩ (fun old => .map _ (.ofExcept _)) fun old => ?_
  rw [Job.run_map, Job.run_ofExcept]

theorem carriesOut_style (h : s.options.minifyStyles = true) :
    CarriesOut o t g ⟨fun old => (s.minifier.style g old).map fun new => (new, ()), true⟩
      ((s.minifyStyle g).attempt.run o t).result ((s.minifyStyle g).attempt.run o t).tree
      ((s.minifyStyle g).attempt.run o t).accesses := by
  have hquiet (old : String) : ((s.minifier.onStyle g old).forM Job.tell).Calls
      fun c => c.isAccess = false := .forM fun e _ => .tell (by rfl)
  have heq : s.minifyStyle g = Job.rework true g fun old =>
      (s.minifier.onStyle g old).forM Job.tell >>= fun _ =>
        (fun new => (new, ())) <$> Job.ofExcept (s.minifier.style g old) := by
    unfold minifyStyle Job.rework
    rw [if_pos h]
    simp
  rw [heq]
  refine Job.carriesOut_rework ⟨_, true⟩
    (fun old => .bind (hquiet old) fun _ => .map _ (.ofExcept _)) fun old => ?_
  have hstays : (((s.minifier.onStyle g old).forM Job.tell).attempt.run o t).tree = t :=
    ((hquiet old).mono fun _ => Call.looks_of_isAccess).attempt.looks
  rw [Job.result_bind hstays, Job.result_forM_tell, Job.run_map, Job.run_ofExcept]
  rfl

/-- The work on a file carries out what is asked for, or it leaves the file alone. -/
theorem carriesOut_optimize (s : Setting) (o : Outages) (t : FileTree) (g : Path) :
    match s.task? t.read g with
    | some task => CarriesOut o t g task ((s.optimize g).attempt.run o t).result
        ((s.optimize g).attempt.run o t).tree ((s.optimize g).attempt.run o t).accesses
    | none => (s.optimize g).attempt.run o t =
        ⟨.ok ⟨g, []⟩, t, [⟨.tell (.fileTaken g (FileKind.classify s.options.naming g)), ()⟩]⟩ := by
  unfold optimize task?
  rw [Job.run_bind_of_ok (a := ()) rfl, Job.run_tell]
  cases FileKind.classify s.options.naming g with
  | css =>
    dsimp only
    rw [bind_pure_comp, Job.run_map]
    by_cases h : s.options.minifyStyles = true
    · rw [if_pos h]
      have hx := (carriesOut_style (o := o) (t := t) (g := g) h).map fun _ => FileResult.mk g []
      rw [Task.map_of_text] at hx
      exact hx
    · rw [if_neg h, minifyStyle, if_neg h]
      rfl
  | script =>
    dsimp only
    rw [bind_pure_comp, Job.run_map]
    by_cases h : (s.embedCss || s.options.minifyScripts) = true
    · rw [if_pos h]
      exact (carriesOut_script (o := o) (t := t) (g := g) h).map (FileResult.mk g)
    · rw [if_neg h, optimizeScript, if_neg h]
      rfl
  | page =>
    dsimp only
    rw [bind_pure_comp, Job.run_map]
    by_cases h : (s.embedCss || (s.options.preloadModules && s.graph.isSome) ||
        s.options.minifyPages) = true
    · rw [if_pos h]
      have hx := (carriesOut_page (o := o) (t := t) (g := g) h).map fun _ => FileResult.mk g []
      rw [Task.map_of_text] at hx
      exact hx
    · rw [if_neg h, optimizePage, preloadGraph_isSome, if_neg h]
      rfl
  | cssProxy => rfl
  | other => rfl

end Setting

/-- That work is done on a file as a whole or not at all. It is read and then written, once each if at
all, and nothing else is accessed; other files stay, and where the work fails so does this one. -/
structure IsAtomic (t : FileTree) (g : Path) (x : Run (Except Fault α)) : Prop where
  accesses : ∃ r text w, x.accesses <+: [⟨.read g, r⟩, ⟨.write g text, w⟩]
  others : ∀ k, ¬LeadsTo t g k → x.tree.node? k = t.node? k
  fails : ∀ e, x.result = .error e → x.tree = t

/-- What becomes of a file on which a task is carried out without fault. -/
def Fulfils (t : FileTree) (g : Path) (task : Task α) (a : α) (x : Run (Except Fault α)) : Prop :=
  ∃ old new, t.read g = .ok old ∧ task.text old = .ok (new, a) ∧ x.tree.read g = .ok new ∧
    x.accesses = ⟨.read g, .ok old⟩ ::
      if task.always ∨ new ≠ old then [⟨.write g new, .ok ()⟩] else []

namespace CarriesOut

variable {x : Run (Except Fault α)}

theorem isAtomic (h : CarriesOut o t g task x.result x.tree x.accesses) : IsAtomic t g x := by
  have hstays {l : List Exchange} (hl : x.accesses = l) (htree : x.tree = t)
      (hcalls : ∃ r text w, l <+: [⟨.read g, r⟩, ⟨.write g text, w⟩]) : IsAtomic t g x :=
    ⟨hl ▸ hcalls, fun _ _ => by rw [htree], fun _ _ => htree⟩
  have hread (r : Except IoError String) : ∃ r' text w,
      ([⟨.read g, r⟩] : List Exchange) <+: [⟨.read g, r'⟩, ⟨.write g text, w⟩] :=
    ⟨r, "", .ok (), List.prefix_append _ _⟩
  generalize hr : x.result = r, hu : x.tree = u, hl : x.accesses = l at h
  cases h with
  | unread read => exact hstays hl hu (hread _)
  | unmade read text => exact hstays hl hu (hread _)
  | kept read text spares => exact hstays hl hu (hread _)
  | unwritten read text => exact hstays hl hu ⟨_, _, _, List.prefix_rfl⟩
  | written read text changes =>
    obtain ⟨k, hf⟩ := find_of_read (answer_read_of_ok read).2
    refine ⟨?_, fun j hj => ?_, fun e he => ?_⟩
    · rw [hl]
      exact ⟨_, _, _, List.prefix_rfl⟩
    · rw [hu, (write_of_find hf).2, if_neg]
      rintro rfl
      exact hj ⟨_, hf⟩
    · rw [hr] at he
      cases he

theorem fulfils {a : α} (h : CarriesOut o t g task x.result x.tree x.accesses)
    (ha : x.result = .ok a) : Fulfils t g task a x := by
  generalize hr : x.result = r, hu : x.tree = u, hl : x.accesses = l at h
  rw [ha] at hr
  cases h with
  | unread read => cases hr
  | unmade read text => cases hr
  | unwritten read text => cases hr
  | kept read text spares =>
    cases hr
    have hold := (answer_read_of_ok read).2
    refine ⟨_, _, hold, text, hu ▸ hold, ?_⟩
    rw [hl, if_neg (by simp [spares])]
  | written read text changes =>
    cases hr
    have hold := (answer_read_of_ok read).2
    obtain ⟨k, hf⟩ := find_of_read hold
    refine ⟨_, _, hold, text, hu ▸ read_of_write (write_of_find hf).1, ?_⟩
    rw [hl, if_pos changes]

end CarriesOut

/-- The work on a file is done as a whole or not at all. Without fault the file holds what its text is made
into as far as this is asked for; proxies and files of no known kind are not even read. -/
theorem Setting.optimize_isAtomic (s : Setting) (o : Outages) (t : FileTree) (g : Path) :
    let x := (s.optimize g).attempt.run o t
    IsAtomic t g x ∧
      match s.task? t.read g with
      | some task => ∀ r, x.result = .ok r → Fulfils t g task r x
      | none => x.result = .ok ⟨g, []⟩ ∧ x.tree = t ∧ x.accesses = [] := by
  intro x
  have h := carriesOut_optimize s o t g
  cases htask : s.task? t.read g with
  | some task =>
    rw [htask] at h
    exact ⟨CarriesOut.isAtomic h, fun r hr => CarriesOut.fulfils h hr⟩
  | none =>
    rw [htask] at h
    rw [show x = _ from h]
    exact ⟨⟨⟨.error .notFound, "", .ok (), List.nil_prefix⟩, fun _ _ => rfl, fun _ _ => rfl⟩,
      rfl, rfl, rfl⟩

namespace Setting.Linked

def page : Path := ⟨"build/index.html"⟩

def tree : FileTree :=
  (FileTree.empty.put [] "build" .directory).put ["build"] "index.html"
    (.file "<head></head>".toUTF8)

def setting : Setting := ⟨.standard, { minifyPages := false }, true, none⟩

/-- What is asked for on a page that is linked and not made small. -/
def linking : Task FileResult :=
  ⟨fun old => (setting.pageText page old).map fun new => (new, ⟨page, []⟩), false⟩

theorem run_ok : FileKind.classify setting.options.naming page = .page ∧
    ((setting.optimize page).attempt.run {} tree).result = .ok ⟨page, []⟩ := by
  decide +kernel

theorem optimize_fulfils :
    ((setting.optimize page).attempt.run {} tree).result = .ok ⟨page, []⟩ ∧
      Fulfils tree page linking ⟨page, []⟩ ((setting.optimize page).attempt.run {} tree) := by
  obtain ⟨hkind, hok⟩ := run_ok
  have htask : setting.task? tree.read page = some linking := by
    unfold task?
    rw [hkind]
    rfl
  have h := (setting.optimize_isAtomic {} tree page).2
  rw [htask] at h
  exact ⟨hok, h _ hok⟩

end Setting.Linked

end SiteBuild
