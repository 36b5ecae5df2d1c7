import SiteBuild.Optimize.Survey
import SiteBuild.Proofs.Embed.Splice

/-! The search for an import of a stylesheet. It goes through the scripts one by one, passes over those
that can be read and import no proxy, and ends at the first other one. Where it finds nothing there is
nothing to embed either. -/

namespace SiteBuild

variable {o o' : Outages} {t t' : FileTree} {n : Naming} {p q : Path} {ps front rest : List Path}
  {text : String}

/-- A file that can be read. -/
def FileTree.IsRead (t : FileTree) (p : Path) : Prop := ∃ text, t.read p = .ok text

/-- A script that can be read and imports a proxy of a stylesheet. -/
def FileTree.ImportsProxy (t : FileTree) (n : Naming) (p : Path) : Prop :=
  ∃ text m, t.read p = .ok text ∧ Script.Module.read? text.toList = some m ∧
    ∃ d ∈ m.imports, n.isCssProxy (String.ofList d.specifier) = true

theorem importsCss?_eq_some_true : importsCss? n text = some true ↔
    ∃ m, Script.Module.read? text.toList = some m ∧
      ∃ d ∈ m.imports, n.isCssProxy (String.ofList d.specifier) = true := by
  simp [importsCss?, List.any_eq_true]

theorem FileTree.importsProxy_iff (h : t.read p = .ok text) :
    t.ImportsProxy n p ↔ importsCss? n text = some true := by
  rw [importsCss?_eq_some_true]
  constructor
  · rintro ⟨s, m, hs, hm⟩
    rw [h] at hs
    cases hs
    exact ⟨m, hm⟩
  · rintro ⟨m, hm⟩
    exact ⟨text, m, h, hm⟩

/-- A script that a search passes over. -/
def FileTree.Passes (t : FileTree) (n : Naming) (p : Path) : Prop :=
  t.IsRead p ∧ ¬t.ImportsProxy n p

theorem FileTree.passes_or (t : FileTree) (n : Naming) (p : Path) :
    t.Passes n p ∨ t.ImportsProxy n p ∨ ∃ e, t.read p = .error e := by
  cases hr : t.read p with
  | error e => exact .inr (.inr ⟨e, rfl⟩)
  | ok text =>
    by_cases hp : t.ImportsProxy n p
    · exact .inr (.inl hp)
    · exact .inl ⟨⟨text, hr⟩, hp⟩

theorem FileTree.not_isRead_iff : ¬t.IsRead p ↔ ∃ e, t.read p = .error e := by
  unfold IsRead
  cases t.read p <;> simp

theorem FileTree.ImportsProxy.isRead (h : t.ImportsProxy n p) : t.IsRead p := by
  obtain ⟨text, m, hr, -⟩ := h
  exact ⟨text, hr⟩

theorem FileTree.ImportsProxy.congr (h : t.ImportsProxy n p) (hr : t'.read p = t.read p) :
    t'.ImportsProxy n p := by
  rw [ImportsProxy, hr]
  exact h

theorem FileTree.Passes.congr (h : t.Passes n p) (hr : t'.read p = t.read p) : t'.Passes n p := by
  rw [Passes, IsRead, ImportsProxy, hr]
  exact h

namespace Job

/-- What a search asks and tells about a script. -/
def noted (n : Naming) (t : FileTree) (p : Path) : List Exchange :=
  ⟨.inspect p, t.read p⟩ ::
    match t.read p with
    | .ok text =>
      if (SiteBuild.importsCss? n text).isNone then
        [⟨.tell (.checkSkipped p (.unreadable none)), ()⟩]
      else []
    | .error _ => []

theorem importsCss_cons (n : Naming) (p : Path) (ps : List Path) :
    importsCss n (p :: ps) = inspect p >>= fun text =>
      match SiteBuild.importsCss? n text with
      | some true => pure true
      | some false => importsCss n ps
      | none => tell (.checkSkipped p (.unreadable none)) >>= fun _ => importsCss n ps := rfl

theorem run_inspect (p : Path) : (inspect p).attempt.run o t =
    ⟨(t.read p).mapError .io, t, [⟨.inspect p, t.read p⟩]⟩ := rfl

theorem run_inspect_ok (hr : t.read p = .ok text) :
    ((inspect p).attempt.run o t).result = .ok text := by
  rw [run_inspect, hr]
  rfl

/-- A search goes on behind a script that it passes over. -/
theorem run_importsCss_of_passes (h : t.Passes n p) :
    (importsCss n (p :: ps)).attempt.run o t =
      { (importsCss n ps).attempt.run o t with
        exchanges := noted n t p ++ ((importsCss n ps).attempt.run o t).exchanges } := by
  obtain ⟨⟨text, hr⟩, hp⟩ := h
  rw [t.importsProxy_iff hr] at hp
  rw [importsCss_cons, run_bind_of_ok (run_inspect_ok hr), run_inspect, noted, hr]
  dsimp only
  cases hc : SiteBuild.importsCss? n text with
  | none => rfl
  | some hit =>
    cases hit with
    | true => exact absurd hc hp
    | false => rfl

/-- A search ends at a script that imports a proxy. -/
theorem run_importsCss_of_importsProxy (h : t.ImportsProxy n p) :
    (importsCss n (p :: ps)).attempt.run o t = ⟨.ok true, t, noted n t p⟩ := by
  obtain ⟨text, hr⟩ := h.isRead
  rw [t.importsProxy_iff hr] at h
  rw [importsCss_cons, run_bind_of_ok (run_inspect_ok hr), run_inspect, noted, hr]
  dsimp only
  rw [h]
  rfl

/-- A search fails at a script that cannot be read. -/
theorem run_importsCss_of_error {e : IoError} (h : t.read p = .error e) :
    (importsCss n (p :: ps)).attempt.run o t = ⟨.error (.io e), t, noted n t p⟩ := by
  rw [importsCss_cons, run_bind_of_error (e := .io e) (by rw [run_inspect, h]; rfl), run_inspect,
    noted, h]

/-- A script that imports a stylesheet ends the search for one. -/
theorem importsCss_of_read (hr : t.read p = .ok text)
    (hc : SiteBuild.importsCss? n text = some true) :
    ((importsCss n (p :: ps)).attempt.run o t).result = .ok true := by
  rw [run_importsCss_of_importsProxy ((t.importsProxy_iff hr).2 hc)]

/-- After a script that imports none the search for a stylesheet goes on. -/
theorem importsCss_cons_of_read (hr : t.read p = .ok text)
    (hc : SiteBuild.importsCss? n text = some false) :
    ((importsCss n (p :: ps)).attempt.run o t).result =
      ((importsCss n ps).attempt.run o t).result := by
  have hp : ¬t.ImportsProxy n p := by simp [t.importsProxy_iff hr, hc]
  rw [run_importsCss_of_passes ⟨⟨text, hr⟩, hp⟩]

theorem importsCss_append (h : ∀ q ∈ front, t.Passes n q) :
    ((importsCss n (front ++ ps)).attempt.run o t).result =
      ((importsCss n ps).attempt.run o t).result := by
  induction front with
  | nil => rfl
  | cons q front ih =>
    obtain ⟨hq, h⟩ := List.forall_mem_cons.1 h
    rw [List.cons_append, run_importsCss_of_passes hq]
    exact ih h

/-- How a search ends: behind all scripts, at one that imports a proxy, or at one that cannot be read. -/
theorem importsCss_cases (o : Outages) (t : FileTree) (n : Naming) (ps : List Path) :
    let x := ((importsCss n ps).attempt.run o t).result
    (x = .ok false ∧ ∀ p ∈ ps, t.Passes n p) ∨
      ∃ front p rest, ps = front ++ p :: rest ∧ (∀ q ∈ front, t.Passes n q) ∧
        ((x = .ok true ∧ t.ImportsProxy n p) ∨ ∃ e, x = .error (.io e) ∧ t.read p = .error e) := by
  induction ps with
  | nil => exact .inl ⟨rfl, by simp⟩
  | cons p ps ih =>
    intro x
    rcases t.passes_or n p with hp | hp | ⟨e, he⟩
    · have hx : x = ((importsCss n ps).attempt.run o t).result := by
        simp only [x, run_importsCss_of_passes hp]
      rw [hx]
      rcases ih with ⟨hf, h⟩ | ⟨front, q, rest, rfl, hfront, hq⟩
      · exact .inl ⟨hf, List.forall_mem_cons.2 ⟨hp, h⟩⟩
      · exact .inr ⟨p :: front, q, rest, rfl, List.forall_mem_cons.2 ⟨hp, hfront⟩, hq⟩
    · refine .inr ⟨[], p, ps, rfl, by simp, .inl ⟨?_, hp⟩⟩
      simp only [x, run_importsCss_of_importsProxy hp]
    · refine .inr ⟨[], p, ps, rfl, by simp, .inr ⟨e, ?_, he⟩⟩
      simp only [x, run_importsCss_of_error he]

theorem importsCss_eq_ok_true : ((importsCss n ps).attempt.run o t).result = .ok true ↔
    ∃ front p rest, ps = front ++ p :: rest ∧ (∀ q ∈ front, t.Passes n q) ∧ t.ImportsProxy n p := by
  constructor
  · intro h
    rcases importsCss_cases o t n ps with ⟨hx, -⟩ | ⟨front, p, rest, hps, hf, ⟨-, hp⟩ | ⟨e, hx, -⟩⟩
    · rw [h] at hx
      cases hx
    · exact ⟨front, p, rest, hps, hf, hp⟩
    · rw [h] at hx
      cases hx
  · rintro ⟨front, p, rest, rfl, hf, hp⟩
    rw [importsCss_append hf, run_importsCss_of_importsProxy hp]

theorem importsCss_eq_ok_false :
    ((importsCss n ps).attempt.run o t).result = .ok false ↔ ∀ p ∈ ps, t.Passes n p := by
  constructor
  · intro h
    rcases importsCss_cases o t n ps with ⟨-, hp⟩ | ⟨front, p, rest, -, -, ⟨hx, -⟩ | ⟨e, hx, -⟩⟩
    · exact hp
    · rw [h] at hx
      cases hx
    · rw [h] at hx
      cases hx
  · intro h
    rw [← List.append_nil ps, importsCss_append h]
    rfl

/-- A search fails just if a script that cannot be read stands before any that imports a proxy. -/
theorem importsCss_eq_error : (∃ f, ((importsCss n ps).attempt.run o t).result = .error f) ↔
    ∃ front p rest, ps = front ++ p :: rest ∧ (∀ q ∈ front, ¬t.ImportsProxy n q) ∧ ¬t.IsRead p := by
  constructor
  · rintro ⟨f, h⟩
    rcases importsCss_cases o t n ps with ⟨hx, -⟩ | ⟨front, p, rest, hps, hf, ⟨hx, -⟩ | ⟨e, hx, he⟩⟩
    · rw [h] at hx
      cases hx
    · rw [h] at hx
      cases hx
    · exact ⟨front, p, rest, hps, fun q hq => (hf q hq).2, FileTree.not_isRead_iff.2 ⟨e, he⟩⟩
  · rintro ⟨front, p, rest, rfl, hf, hp⟩
    induction front with
    | nil =>
      obtain ⟨e, he⟩ := FileTree.not_isRead_iff.1 hp
      exact ⟨_, congrArg Run.result (run_importsCss_of_error he)⟩
    | cons q front ih =>
      obtain ⟨hq, hf⟩ := List.forall_mem_cons.1 hf
      rw [List.cons_append]
      rcases t.passes_or n q with hpass | himport | ⟨e, he⟩
      · rw [run_importsCss_of_passes hpass]
        exact ih hf
      · exact absurd himport hq
      · exact ⟨_, congrArg Run.result (run_importsCss_of_error he)⟩

/-- What stands behind a script that imports a proxy is not looked at. -/
theorem importsCss_ignores_rest (hp : t.ImportsProxy n p)
    (hr : ∀ q ∈ front ++ [p], t'.read q = t.read q) (rest rest' : List Path) :
    let x := (importsCss n (front ++ p :: rest)).attempt.run o t
    let x' := (importsCss n (front ++ p :: rest')).attempt.run o' t'
    x'.result = x.result ∧ x'.exchanges = x.exchanges := by
  have hnoted {q : Path} (hq : t'.read q = t.read q) : noted n t' q = noted n t q := by
    simp only [noted, hq]
  induction front with
  | nil =>
    have hq := hr p (by simp)
    intro x x'
    simp only [x, x', List.nil_append, run_importsCss_of_importsProxy hp,
      run_importsCss_of_importsProxy (hp.congr hq), hnoted hq, and_self]
  | cons q front ih =>
    intro x x'
    obtain ⟨hq, hr⟩ := List.forall_mem_cons.1 hr
    obtain ⟨hresult, hexchanges⟩ := ih hr
    simp only [x, x', List.cons_append]
    rcases t.passes_or n q with h | h | ⟨e, he⟩
    · rw [run_importsCss_of_passes h, run_importsCss_of_passes (h.congr hq), hnoted hq]
      exact ⟨hresult, congrArg (noted n t q ++ ·) hexchanges⟩
    · rw [run_importsCss_of_importsProxy h, run_importsCss_of_importsProxy (h.congr hq), hnoted hq]
      exact ⟨rfl, rfl⟩
    · rw [run_importsCss_of_error he, run_importsCss_of_error (hq.trans he), hnoted hq]
      exact ⟨rfl, rfl⟩

end Job

namespace Script.Module

variable {m : Module}

theorem proxyImports_eq_nil (h : ∀ d ∈ m.imports, n.isCssProxy (String.ofList d.specifier) = false) :
    m.proxyImports n = [] := by
  refine List.filter_eq_nil_iff.2 fun x hx => ?_
  rw [Bool.not_eq_true, Bool.and_eq_false_imp]
  intro hi
  have hd : x.2 ∈ m.parts.map Prod.fst := by
    rw [← map_snd_go m.parts (Text.byteLength m.head)]
    exact List.mem_map_of_mem hx
  exact h x.2 (List.mem_filter.2 ⟨hd, hi⟩)

theorem proxiesRead_eq_nil (h : ∀ d ∈ m.imports, n.isCssProxy (String.ofList d.specifier) = false)
    (file : Path) : Embedded.proxiesRead n file m = [] := by
  refine List.map_eq_nil_iff.2 (List.filter_eq_nil_iff.2 fun d hd hn => ?_)
  simp only [Embed.needsMap, Bool.and_eq_true] at hn
  rw [h d (List.mem_filter.2 ⟨hd, hn.1.1.1⟩)] at hn
  exact Bool.false_ne_true hn.1.1.2

end Script.Module

/-- Embedding asks for nothing in a script that a search passes over, and leaves it as it is, if it is a
module at all. -/
theorem Embedded.run_ofFile_of_passes (h : t.Passes n p) (hr : t.read p = .ok text) (o : Outages)
    (t' : FileTree) :
    (ofFile n p text).attempt.run o t' = ⟨.error (.unreadable none), t', []⟩ ∨
      (ofFile n p text).attempt.run o t' = ⟨.ok ⟨[], text⟩, t', []⟩ := by
  unfold ofFile
  cases hm : Script.Module.read? text.toList with
  | none => exact .inl rfl
  | some m =>
    have hnone : ∀ d ∈ m.imports, n.isCssProxy (String.ofList d.specifier) = false := by
      intro d hd
      by_contra hp
      exact h.2 ⟨text, m, hr, hm, d, hd, by simpa using hp⟩
    dsimp only
    simp only [Script.Module.proxiesRead_eq_nil hnone,
      ofModule_of_proxyImports_eq_nil hm (Script.Module.proxyImports_eq_nil hnone)]
    exact .inr rfl

namespace Job

/-- The search for an import of a stylesheet is exact: it finds one just if a script imports a proxy and
all scripts before the first such one can be read, and fails just if one that cannot stands before any.
What stands behind the first one is of no account. And where it finds none nothing is lost: embedding
leaves each of the scripts as it is, or fails since it is no module. -/
theorem importsCss_exact (o : Outages) (t : FileTree) (n : Naming) (ps : List Path) :
    let x := (importsCss n ps).attempt.run o t
    (x.result = .ok true ↔ ∃ front p rest, ps = front ++ p :: rest ∧
      (∀ q ∈ front, t.Passes n q) ∧ t.ImportsProxy n p) ∧
    ((∃ f, x.result = .error f) ↔ ∃ front p rest, ps = front ++ p :: rest ∧
      (∀ q ∈ front, ¬t.ImportsProxy n q) ∧ ¬t.IsRead p) ∧
    (x.result = .ok false ↔ ∀ p ∈ ps, t.Passes n p) ∧
    (∀ front p rest, ps = front ++ p :: rest → t.ImportsProxy n p →
      ∀ o' t' rest', (∀ q ∈ front ++ [p], t'.read q = t.read q) →
        let x' := (importsCss n (front ++ p :: rest')).attempt.run o' t'
        x'.result = x.result ∧ x'.exchanges = x.exchanges) ∧
    (x.result = .ok false → ∀ p ∈ ps, ∃ text, t.read p = .ok text ∧ ∀ o' t',
      (Embedded.ofFile n p text).attempt.run o' t' = ⟨.error (.unreadable none), t', []⟩ ∨
        (Embedded.ofFile n p text).attempt.run o' t' = ⟨.ok ⟨[], text⟩, t', []⟩) := by
  refine ⟨importsCss_eq_ok_true, importsCss_eq_error, importsCss_eq_ok_false, ?_, ?_⟩
  · rintro front p rest rfl hp o' t' rest' hr
    exact importsCss_ignores_rest hp hr rest rest'
  · intro h p hp
    have hpass := importsCss_eq_ok_false.1 h p hp
    obtain ⟨text, hr⟩ := hpass.1
    exact ⟨text, hr, Embedded.run_ofFile_of_passes hpass hr⟩

/-- A script that is not there matters in front of one that imports a proxy, and not behind it. -/
example :
    let lines : List Script.Line := [.import .nothing "./a.css.proxy.js".toList]
    let text := String.ofList (lines.flatMap Script.Line.print)
    let t := FileTree.empty.put [] "a.js" (.file text.toUTF8)
    ((importsCss {} [⟨"a.js"⟩, ⟨"b.js"⟩]).attempt.run {} t).result = .ok true ∧
      ((importsCss {} [⟨"b.js"⟩, ⟨"a.js"⟩]).attempt.run {} t).result = .error (.io .notFound) := by
  intro lines text t
  have hsound : ∀ l ∈ lines, l.IsSound := by decide +kernel
  have hread : t.read ⟨"a.js"⟩ = .ok text ∧ t.read ⟨"b.js"⟩ = .error .notFound := by decide +kernel
  have himports : ((Script.Line.module lines).imports.any fun d =>
    Naming.isCssProxy {} (String.ofList d.specifier)) = true := by decide +kernel
  have hcss : SiteBuild.importsCss? {} text = some true := himports ▸ importsCss?_print hsound
  exact ⟨importsCss_of_read hread.1 hcss, congrArg Run.result (run_importsCss_of_error hread.2)⟩

end Job

end SiteBuild
