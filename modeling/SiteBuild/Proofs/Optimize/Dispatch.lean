import SiteBuild.Optimize.Report
import SiteBuild.Proofs.FileTree.Listing
import SiteBuild.Proofs.Optimize.Embedding

/-! Work on the files of a build, one after the other. A file is written in its own place only and
the proxies that it is embedded with are not written at all, so that what becomes of a file does not
depend on the work on the others. -/

namespace SiteBuild

variable {o : Outages} {t t' t'' : FileTree} {n : Naming} {g p : Path} {k : Place} {b : ByteArray}

/-- That proxies are told by the names of their files. -/
def Naming.IsPlain (n : Naming) : Prop := Path.IsNameEnd n.cssProxySuffix.toList

theorem Naming.isPlain_default : Naming.IsPlain {} := ⟨by decide, by decide, by decide⟩

theorem FileKind.classify_eq_cssProxy :
    FileKind.classify n p = .cssProxy ↔ n.isCssProxy (p.fileName?.getD "") = true := by
  unfold FileKind.classify
  split
  · next h => simp [h]
  · next h =>
    simp only [h]
    unfold FileKind.ofPath FileKind.ofExtension
    split <;> simp

/-- The kind of a proxy's file is told by the specifier that leads to it. -/
theorem FileKind.classify_resolveFrom {s : String} (hn : n.IsPlain) (h : n.isCssProxy s = true) :
    FileKind.classify n (g.resolveFrom s) = .cssProxy := by
  obtain ⟨x, hx, hw⟩ := Path.fileName?_resolveFrom (p := g) hn (List.isSuffixOf_iff_suffix.1 h)
  rw [classify_eq_cssProxy, hx]
  exact List.isSuffixOf_iff_suffix.2 hw

/-- The places of proxies. -/
def IsProxyPlace (n : Naming) (k : Place) : Prop := ∃ j x, k = j ++ [x] ∧ n.isCssProxy x = true

theorem FileTree.isProxyPlace_iff {j : Place} {x : String} (h : t.target p = .ok (.entry j x)) :
    IsProxyPlace n (j ++ [x]) ↔ FileKind.classify n p = .cssProxy := by
  rw [FileKind.classify_eq_cssProxy, fileName?_of_target h]
  constructor
  · rintro ⟨i, m, he, hm⟩
    obtain ⟨-, he⟩ := List.append_inj' he rfl
    rw [List.singleton_inj.1 he]
    exact hm
  · intro hn
    exact ⟨j, x, rfl, hn⟩

theorem FileTree.Alike.node?_file (h : FileTree.Alike t t') (hb : t.node? k = some (.file b)) :
    ∃ c, t'.node? k = some (.file c) := by
  obtain ⟨hd, hn⟩ := h k
  rw [hb] at hd hn
  cases hx : t'.node? k with
  | none => simp [hx] at hn
  | some x =>
    cases x with
    | directory => simp [hx] at hd
    | file c => exact ⟨c, rfl⟩

theorem FileTree.Alike.find_file (h : FileTree.Alike t t') (hf : t.find p = .ok (k, .file b)) :
    ∃ c, t'.find p = .ok (k, .file c) := by
  obtain ⟨hs, hb, j, n, rfl, ht⟩ := FileTree.find_eq_file.1 hf
  obtain ⟨c, hc⟩ := h.node?_file hb
  exact ⟨c, FileTree.find_eq_file.2 ⟨hs, hc, j, n, rfl, h.target p ▸ ht⟩⟩

/-- The calls of the work on a file. -/
def Handles (n : Naming) (g : Path) : Call → Prop
  | .read p => p = g
  | .write p _ => p = g ∧ FileKind.classify n g ≠ .cssProxy
  | .inspect p => FileKind.classify n p = .cssProxy
  | .tell _ => True
  | _ => False

/-- What the work on the file at a place may change. -/
structure Rewrites (n : Naming) (k : Place) (t t' : FileTree) : Prop where
  alike : t.Alike t'
  eq : ∀ j, t'.node? j = t.node? j ∨ j = k ∧ ¬IsProxyPlace n k

namespace Rewrites

theorem refl (n : Naming) (k : Place) (t : FileTree) : Rewrites n k t t := ⟨.refl t, fun _ => .inl rfl⟩

theorem trans (h : Rewrites n k t t') (h' : Rewrites n k t' t'') : Rewrites n k t t'' := by
  refine ⟨h.alike.trans h'.alike, fun j => ?_⟩
  rcases h'.eq j with he | he
  · rw [he]
    exact h.eq j
  · exact .inr he

end Rewrites

theorem answer_write_of_find (hf : t.find g = .ok (k, .file b)) (text : String) :
    (t.answer o (.write g text)).2 = t ∧ o.write g ≠ none ∨
      o.write g = none ∧ (t.answer o (.write g text)).1 = .ok () ∧
        ∀ j, (t.answer o (.write g text)).2.node? j =
          if j = k then some (.file text.toUTF8) else t.node? j := by
  simp only [FileTree.answer]
  cases hw : o.write g with
  | some e => exact .inl ⟨rfl, by simp⟩
  | none => exact .inr ⟨rfl, FileTree.write_of_find hf⟩

theorem alike_of_rewritten (hf : t.find g = .ok (k, .file b)) {c : ByteArray}
    (h : ∀ j, t'.node? j = if j = k then some (.file c) else t.node? j) : t.Alike t' := by
  have hb := (FileTree.find_eq_file.1 hf).2.1
  intro j
  rw [h]
  split
  · next hj => simp [hj, hb]
  · exact ⟨.rfl, .rfl⟩

theorem answer_rewrites {c : Call} (hc : Handles n g c) (hf : t.find g = .ok (k, .file b)) :
    Rewrites n k t (t.answer o c).2 := by
  cases c with
  | read p =>
    rw [FileTree.answer_read_tree]
    exact .refl n k t
  | write p text =>
    obtain ⟨rfl, hk⟩ := hc
    rcases answer_write_of_find (o := o) hf text with ⟨h, -⟩ | ⟨-, -, h⟩
    · rw [h]
      exact .refl n k t
    · refine ⟨alike_of_rewritten hf h, fun j => ?_⟩
      rw [h]
      by_cases hj : j = k
      · obtain ⟨-, -, i, x, rfl, ht⟩ := FileTree.find_eq_file.1 hf
        exact .inr ⟨hj, fun hp => hk ((FileTree.isProxyPlace_iff ht).1 hp)⟩
      · exact .inl (if_neg hj)
  | inspect p => exact .refl n k t
  | tell e => exact .refl n k t
  | remove p => cases hc
  | isThere p => cases hc
  | isDirectory p => cases hc
  | list p => cases hc
  | now => cases hc

/-- Trees that differ at most in the texts of files at some places. -/
structure Agree (S : Place → Prop) (t t' : FileTree) : Prop where
  alike : t.Alike t'
  eq : ∀ k, S k → t.node? k = t'.node? k

namespace Agree

variable {S : Place → Prop}

theorem read (h : Agree S t t') (hS : ∀ j n, t.target p = .ok (.entry j n) → S (j ++ [n])) :
    t.read p = t'.read p :=
  h.alike.read fun j n ht => h.eq _ (hS j n ht)

theorem answer {c : Call} (h : Agree S t t') (hc : Handles n g c)
    (hf : t.find g = .ok (k, .file b)) (hk : S k) (hp : ∀ k, IsProxyPlace n k → S k) :
    (t.answer o c).1 = (t'.answer o c).1 ∧ Agree S (t.answer o c).2 (t'.answer o c).2 := by
  have hg : ∀ j n, t.target g = .ok (.entry j n) → S (j ++ [n]) := by
    intro j n ht
    obtain ⟨-, -, i, m, rfl, ht'⟩ := FileTree.find_eq_file.1 hf
    rw [ht] at ht'
    cases ht'
    exact hk
  cases c with
  | read p =>
    obtain rfl : p = g := hc
    refine ⟨?_, by rw [FileTree.answer_read_tree, FileTree.answer_read_tree]; exact h⟩
    simp only [FileTree.answer]
    cases o.read p with
    | some e => rfl
    | none => exact h.read hg
  | write p text =>
    obtain ⟨rfl, -⟩ := hc
    obtain ⟨c, hf'⟩ := h.alike.find_file hf
    rcases answer_write_of_find (o := o) hf text with ⟨ha, hw⟩ | ⟨hw, hr, ha⟩ <;>
      rcases answer_write_of_find (o := o) hf' text with ⟨ha', hw'⟩ | ⟨hw', hr', ha'⟩
    · rw [ha, ha']
      refine ⟨?_, h⟩
      simp only [FileTree.answer]
      cases hx : o.write p with
      | some e => rfl
      | none => exact absurd hx hw
    · exact absurd hw' hw
    · exact absurd hw hw'
    · refine ⟨hr.trans hr'.symm, ?_, fun j hj => ?_⟩
      · exact (alike_of_rewritten hf ha).symm.trans (h.alike.trans (alike_of_rewritten hf' ha'))
      · rw [ha, ha', h.eq j hj]
  | inspect p =>
    refine ⟨h.read fun j x ht => hp _ ?_, h⟩
    exact (FileTree.isProxyPlace_iff ht).2 hc
  | tell e => exact ⟨rfl, h⟩
  | remove p => cases hc
  | isThere p => cases hc
  | isDirectory p => cases hc
  | list p => cases hc
  | now => cases hc

end Agree

theorem Plan.inspectAll_calls {P : Call → Prop} {ps : List Path} (h : ∀ p ∈ ps, P (.inspect p)) :
    (Plan.inspectAll ps).Calls P :=
  .mapM fun p hp => (Plan.Calls.ask (h p hp)).bind fun _ => .done _

theorem Embedded.ofFile_calls {P : Call → Prop} {code : String}
    (h : ∀ m, ∀ p ∈ Embedded.proxiesRead n g m, P (.inspect p)) :
    (Embedded.ofFile n g code).Calls P := by
  unfold Embedded.ofFile
  split
  · exact .throw _
  · next m _ => exact .bind (.lift (Plan.inspectAll_calls (h m))) fun _ => .ofExcept _

theorem Job.revise_calls {α : Type} {P : Call → Prop} {f : String → Job (String × α)}
    (hr : P (.read g)) (hw : ∀ text, P (.write g text)) (hf : ∀ text, (f text).Calls P) :
    (Job.revise g f).Calls P := by
  unfold Job.revise
  refine .bind (.read hr) fun text => .bind (hf text) fun (new, a) => ?_
  dsimp only
  split
  · exact .bind (.write (hw new)) fun _ => .pure a
  · exact .pure a

namespace Setting

variable {s : Setting}

/-- The calls on a file: it is read and written in its place, proxies are looked into. -/
theorem optimize_calls {P : Call → Prop} {g : Path} (ht : ∀ e, P (.tell e)) (hr : P (.read g))
    (hi : ∀ m, ∀ p ∈ Embedded.proxiesRead s.options.naming g m, P (.inspect p))
    (hw : FileKind.classify s.options.naming g ≠ .cssProxy → ∀ text, P (.write g text)) :
    (s.optimize g).Calls P := by
  unfold optimize
  refine .bind (.tell (ht _)) fun _ => ?_
  cases hk : FileKind.classify s.options.naming g with
  | css =>
    refine .bind ?_ fun _ => .pure _
    unfold minifyStyle
    split
    · refine .bind (.read hr) fun text => .bind ?_ fun _ => .bind (.ofExcept _) fun new => ?_
      · exact .forM fun _ _ => .tell (ht _)
      · exact .write (hw (by simp [hk]) new)
    · exact .pure ()
  | script =>
    refine .bind ?_ fun _ => .pure _
    unfold optimizeScript
    split
    · refine Job.revise_calls hr (hw (by simp [hk])) fun text => ?_
      have hm (e : Embedded) : Job.Calls P (do
          return (← Job.ofExcept (s.minifyScript g e.code), e.imports)) :=
        .bind (.ofExcept _) fun _ => .pure _
      dsimp only
      split
      · exact .bind (Embedded.ofFile_calls hi) hm
      · exact .bind (.pure _) hm
    · exact .pure []
  | page =>
    refine .bind ?_ fun _ => .pure _
    unfold optimizePage
    split
    · refine Job.revise_calls hr (hw (by simp [hk])) fun text => ?_
      exact .bind (.ofExcept _) fun _ => .pure _
    · exact .pure ()
  | cssProxy => exact .pure _
  | other => exact .pure _

theorem optimize_handles (hs : s.options.naming.IsPlain) (g : Path) :
    (s.optimize g).Calls (Handles s.options.naming g) := by
  refine optimize_calls (fun _ => trivial) rfl (fun m p hp => ?_) fun hk text => ?_
  · obtain ⟨d, -, hn, rfl⟩ := Embedded.mem_proxiesRead.1 hp
    simp only [Embed.needsMap, Bool.and_eq_true] at hn
    exact FileKind.classify_resolveFrom hs hn.1.1.2
  · exact ⟨rfl, hk⟩

theorem optimize_rewrites (hs : s.options.naming.IsPlain) (hf : t.find g = .ok (k, .file b)) :
    Rewrites s.options.naming k t ((s.optimize g).attempt.run o t).tree := by
  refine (optimize_handles hs g).attempt.keeps (fun t' c hc h => ?_) (.refl _ k t)
  obtain ⟨c', hf'⟩ := h.alike.find_file hf
  exact h.trans (answer_rewrites hc hf')

theorem optimize_agree {S : Place → Prop} (hs : s.options.naming.IsPlain) (h : Agree S t t')
    (hf : t.find g = .ok (k, .file b)) (hk : S k)
    (hp : ∀ k, IsProxyPlace s.options.naming k → S k) :
    ((s.optimize g).attempt.run o t).result = ((s.optimize g).attempt.run o t').result ∧
      Agree S ((s.optimize g).attempt.run o t).tree ((s.optimize g).attempt.run o t').tree := by
  let R (t t' : FileTree) : Prop := Agree S t t' ∧ ∃ b, t.find g = .ok (k, .file b)
  refine ((optimize_handles hs g).attempt.agree (R := R) ?_ ⟨h, b, hf⟩).imp_right And.left
  rintro t t' c hc ⟨h, b, hf⟩
  obtain ⟨hr, ha⟩ := h.answer (o := o) hc hf hk hp
  exact ⟨hr, ha, (answer_rewrites hc hf).alike.find_file hf⟩

/-- What becomes of a file that is worked on first. -/
def outcome (s : Setting) (o : Outages) (t : FileTree) (g : Path) : Except Failure FileResult :=
  ((s.optimize g).attempt.run o t).result.mapError (⟨g, ·⟩)

theorem run_optimizeAll_cons (fs : List Path) :
    let left := ((s.optimize g).attempt.run o t).tree
    ((s.optimizeAll (g :: fs)).run o t).result =
        s.outcome o t g :: ((s.optimizeAll fs).run o left).result ∧
      ((s.optimizeAll (g :: fs)).run o t).tree = ((s.optimizeAll fs).run o left).tree := by
  unfold optimizeAll
  simp only [Plan.run_during, Plan.run_mapM_cons]
  rw [Plan.run_bind]
  exact ⟨rfl, rfl⟩

/-- The places that the work on some files looks at. -/
def Stake (n : Naming) (t : FileTree) (fs : List Path) (k : Place) : Prop :=
  IsProxyPlace n k ∨ ∃ g ∈ fs, ∃ b, t.find g = .ok (k, .file b)

theorem agree_optimize {fs : List Path} (hs : s.options.naming.IsPlain)
    (hf : t.find g = .ok (k, .file b)) (hg : ∀ q ∈ fs, t.Apart g q)
    (h : Agree (Stake s.options.naming t (g :: fs)) t t') :
    Agree (Stake s.options.naming t fs) t ((s.optimize g).attempt.run o t').tree := by
  obtain ⟨c, hf'⟩ := h.alike.find_file hf
  have hr := optimize_rewrites (o := o) hs hf'
  refine ⟨h.alike.trans hr.alike, fun j hj => ?_⟩
  rcases hr.eq j with he | ⟨rfl, hn⟩
  · rw [he]
    exact h.eq j (hj.imp id fun ⟨q, hq, hb⟩ => ⟨q, List.mem_cons_of_mem _ hq, hb⟩)
  · rcases hj with hj | ⟨q, hq, d, hd⟩
    · exact absurd hj hn
    · exact absurd hd (hg q hq _ _ _ hf)

/-- Each file fares as if it were the only one. -/
theorem run_optimizeAll {fs : List Path} (hs : s.options.naming.IsPlain) (hf : ∀ g ∈ fs, t.IsFile g)
    (ha : fs.Pairwise t.Apart) : ((s.optimizeAll fs).run o t).result = fs.map (s.outcome o t) := by
  suffices h : ∀ t', Agree (Stake s.options.naming t fs) t t' → ((fs.mapM fun p => do
      return (← (s.optimize p).attempt).mapError (Failure.mk p)).run o t').result =
      fs.map (s.outcome o t) by
    unfold optimizeAll
    rw [Plan.run_during]
    exact h t ⟨.refl t, fun _ _ => rfl⟩
  induction fs with
  | nil => exact fun _ _ => rfl
  | cons g fs ih =>
    intro t' h
    obtain ⟨k, b, hg⟩ := hf g List.mem_cons_self
    obtain ⟨hgs, ha⟩ := List.pairwise_cons.1 ha
    have hrest := ih (fun q hq => hf q (List.mem_cons_of_mem _ hq)) ha _
      (agree_optimize (o := o) hs hg hgs h)
    have hres := (optimize_agree (o := o) hs h hg (.inr ⟨g, List.mem_cons_self, b, hg⟩)
      fun _ => .inl).1
    rw [Plan.run_mapM_cons, Plan.run_bind]
    simp only [Plan.run_pure]
    rw [hrest, ← hres]
    rfl

/-- The work on some files changes nothing but their texts. -/
theorem optimizeAll_rewrites {fs : List Path} (hs : s.options.naming.IsPlain)
    (hf : ∀ g ∈ fs, t.IsFile g) :
    t.Alike ((s.optimizeAll fs).run o t).tree ∧
      ∀ k, (∀ g ∈ fs, ∀ b, t.find g ≠ .ok (k, .file b)) →
        ((s.optimizeAll fs).run o t).tree.node? k = t.node? k := by
  induction fs generalizing t with
  | nil => exact ⟨.refl t, fun _ _ => rfl⟩
  | cons g fs ih =>
    obtain ⟨j, b, hg⟩ := hf g List.mem_cons_self
    have hstep := optimize_rewrites (o := o) hs hg
    obtain ⟨hrest, heq⟩ := ih fun q hq => by
      obtain ⟨i, c, hq⟩ := hf q (List.mem_cons_of_mem _ hq)
      exact ⟨i, hstep.alike.find_file hq⟩
    rw [(run_optimizeAll_cons fs).2]
    refine ⟨hstep.alike.trans hrest, fun k hk => ?_⟩
    rw [heq k fun q hq c hc => ?_, (hstep.eq k).resolve_right ?_]
    · rintro ⟨rfl, -⟩
      exact hk g List.mem_cons_self b hg
    · obtain ⟨c, hc⟩ := hstep.alike.symm.find_file hc
      exact hk q (List.mem_cons_of_mem _ hq) c hc

/-- After the work on all files each holds what the work on it alone makes of it. -/
theorem node?_optimizeAll {fs : List Path} (hs : s.options.naming.IsPlain)
    (hf : ∀ g ∈ fs, t.IsFile g) (ha : fs.Pairwise t.Apart) (hg : g ∈ fs)
    (hk : t.find g = .ok (k, .file b)) :
    ((s.optimizeAll fs).run o t).tree.node? k = ((s.optimize g).attempt.run o t).tree.node? k := by
  suffices h : ∀ t', Agree (Stake s.options.naming t fs) t t' →
      ((s.optimizeAll fs).run o t').tree.node? k =
        ((s.optimize g).attempt.run o t).tree.node? k from h t ⟨.refl t, fun _ _ => rfl⟩
  induction fs with
  | nil => cases hg
  | cons q fs ih =>
    intro t' h
    obtain ⟨j, c, hq⟩ := hf q List.mem_cons_self
    obtain ⟨hqs, ha⟩ := List.pairwise_cons.1 ha
    have hfs : ∀ g ∈ fs, t.IsFile g := fun g hg => hf g (List.mem_cons_of_mem _ hg)
    have hrest := agree_optimize (o := o) hs hq hqs h
    rw [(run_optimizeAll_cons fs).2]
    by_cases hmem : g ∈ fs
    · exact ih hfs ha hmem _ hrest
    · obtain rfl : g = q := (List.mem_cons.1 hg).resolve_right hmem
      obtain ⟨rfl, -⟩ := Prod.mk.inj (Except.ok.inj (hk.symm.trans hq))
      -- the others are apart from it, and leave it alone
      have hstake : Stake s.options.naming t (g :: fs) k := .inr ⟨g, List.mem_cons_self, b, hk⟩
      have hown := (optimize_agree (o := o) hs h hk hstake fun _ => .inl).2
      rw [hown.eq k hstake]
      refine (optimizeAll_rewrites hs ?_).2 k ?_
      · exact fun p hp => (hfs p hp).imp fun i ⟨c, hc⟩ => hrest.alike.find_file hc
      · intro p hp c hc
        obtain ⟨c, hc⟩ := hrest.alike.symm.find_file hc
        exact hqs p hp _ _ _ hk hc

/-- A file whose text was changed without fault has been read, and written if it became another. -/
theorem revise_ok {α : Type} {f : String → Job (String × α)} {a : α}
    (h : ((Job.revise g f).attempt.run o t).result = .ok a) :
    ∃ text new, t.read g = .ok text ∧ ((f text).attempt.run o t).result = .ok (new, a) ∧
      o.read g = none ∧ (new ≠ text → o.write g = none) := by
  obtain ⟨text, hr, h, -⟩ := Job.run_bind_ok h
  rw [Job.run_read] at hr h
  obtain ⟨hread, htext⟩ := FileTree.answer_read_of_ok (eq_ok_of_mapError hr)
  obtain ⟨⟨new, b⟩, hf, h, -⟩ := Job.run_bind_ok h
  dsimp only at h hf
  by_cases hne : new = text
  · simp only [hne, ne_eq, not_true_eq_false, if_false] at h
    cases h
    exact ⟨text, new, htext, hf, hread, fun h => absurd hne h⟩
  · simp only [ne_eq, hne, not_false_eq_true, if_true] at h
    obtain ⟨u, hw, h, -⟩ := Job.run_bind_ok h
    cases h
    refine ⟨text, new, htext, hf, hread, fun _ => ?_⟩
    rw [Job.run_write] at hw
    exact FileTree.answer_write_of_ok (eq_ok_of_mapError hw)

/-- The text of a script with its stylesheets embedded, and which these are. -/
def embedScript (s : Setting) (file : Path) (code : String) : Job (String × List CssEntry) := do
  let e ← Embedded.ofFile s.options.naming file code
  return (← Job.ofExcept (s.minifyScript file e.code), e.imports)

theorem optimizeScript_eq (he : s.embedCss = true) :
    s.optimizeScript g = Job.revise g (s.embedScript g) := by
  simp only [optimizeScript, he, Bool.true_or, if_true]
  rfl

theorem embedScript_ok {code new : String} {es : List CssEntry}
    (h : ((s.embedScript g code).attempt.run o t).result = .ok (new, es)) :
    ∃ e, Embedded.ofCode t.read s.options.naming g code = .ok e ∧
      s.minifyScript g e.code = .ok new ∧ es = e.imports := by
  obtain ⟨e, he, h, -⟩ := Job.run_bind_ok h
  obtain ⟨x, hx, h, -⟩ := Job.run_bind_ok h
  cases h
  exact ⟨e, (Embedded.run_ofFile o t s.options.naming g code).1 ▸ he, hx, rfl⟩

theorem optimizeScript_ok {es : List CssEntry} (he : s.embedCss = true)
    (h : ((s.optimizeScript g).attempt.run o t).result = .ok es) :
    ∃ code e new, t.read g = .ok code ∧ Embedded.ofCode t.read s.options.naming g code = .ok e ∧
      es = e.imports ∧ o.read g = none ∧ s.minifyScript g e.code = .ok new ∧
      (new ≠ code → o.write g = none) := by
  rw [optimizeScript_eq he] at h
  obtain ⟨code, new, hr, h, hread, hwrite⟩ := revise_ok h
  obtain ⟨e, hc, hnew, hes⟩ := embedScript_ok h
  exact ⟨code, e, new, hr, hc, hes, hread, hnew, hwrite⟩

/-- The work on a script is to embed it, and to tell what went into it. -/
theorem run_optimize_of_script (hk : FileKind.classify s.options.naming g = .script) :
    ((s.optimize g).attempt.run o t).result =
        ((s.optimizeScript g).attempt.run o t).result.map (⟨g, ·⟩) ∧
      ((s.optimize g).attempt.run o t).tree = ((s.optimizeScript g).attempt.run o t).tree := by
  unfold optimize
  rw [Job.run_bind_of_ok (a := ()) rfl, Job.run_tell, hk]
  dsimp only
  rw [Job.run_bind]
  dsimp only
  cases ((s.optimizeScript g).attempt.run o t).result with
  | error e => exact ⟨rfl, rfl⟩
  | ok es => exact ⟨rfl, rfl⟩

/-- The work on a script where nothing is made smaller: it is embedded, and written if it changes. -/
theorem run_optimize_of_ofCode {code : String} {e : Embedded} (he : s.embedCss = true)
    (hm : s.options.minifyScripts = false)
    (hk : FileKind.classify s.options.naming g = .script)
    (hr : (t.answer o (.read g)).1 = .ok code)
    (hc : Embedded.ofCode t.read s.options.naming g code = .ok e) :
    let x := (if e.code ≠ code then Job.write g e.code else pure () : Job Unit).attempt.run o t
    ((s.optimize g).attempt.run o t).result = x.result.map (fun _ => ⟨g, e.imports⟩) ∧
      ((s.optimize g).attempt.run o t).tree = x.tree := by
  intro x
  have hread : ((Job.read g).attempt.run o t).result = .ok code := by
    rw [Job.run_read, hr]
    rfl
  obtain ⟨hofile, htree⟩ := Embedded.run_ofFile o t s.options.naming g code
  obtain ⟨hresult, hend⟩ := run_optimize_of_script (o := o) (t := t) hk
  rw [hresult, hend, optimizeScript_eq he]
  unfold Job.revise embedScript
  simp only [bind_assoc]
  rw [Job.run_bind_of_ok hread, Job.run_read, Job.run_bind_of_ok (hofile.trans hc), htree]
  simp only [minifyScript, hm]
  rw [Job.run_bind_of_ok (a := e.code) rfl]
  simp only [Job.run_ofExcept, pure_bind]
  by_cases hne : e.code = code
  · simp only [x, hne, ne_eq, not_true_eq_false, if_false]
    exact ⟨rfl, rfl⟩
  · simp only [x, hne, ne_eq, not_false_eq_true, if_true]
    rw [Job.run_bind, Job.run_write]
    dsimp only
    cases (t.answer o (.write g e.code)).1 with
    | ok u => exact ⟨rfl, rfl⟩
    | error f => exact ⟨rfl, rfl⟩

/-- A script that changes where nothing is made smaller is written as it is embedded. -/
theorem optimize_of_embeds {code : String} {e : Embedded} (he : s.embedCss = true)
    (hm : s.options.minifyScripts = false)
    (hk : FileKind.classify s.options.naming g = .script)
    (hr : (t.answer o (.read g)).1 = .ok code)
    (hc : Embedded.ofCode t.read s.options.naming g code = .ok e) (hne : e.code ≠ code)
    (hw : (t.answer o (.write g e.code)).1 = .ok ()) :
    ((s.optimize g).attempt.run o t).result = .ok ⟨g, e.imports⟩ ∧
      ((s.optimize g).attempt.run o t).tree = (t.answer o (.write g e.code)).2 := by
  obtain ⟨hresult, htree⟩ := run_optimize_of_ofCode he hm hk hr hc
  rw [hresult, htree]
  simp only [if_pos hne, Job.run_write, hw]
  exact ⟨rfl, trivial⟩

/-- A script that stays as it is where nothing is made smaller is not written. -/
theorem optimize_of_keeps {code : String} {e : Embedded} (he : s.embedCss = true)
    (hm : s.options.minifyScripts = false)
    (hk : FileKind.classify s.options.naming g = .script)
    (hr : (t.answer o (.read g)).1 = .ok code)
    (hc : Embedded.ofCode t.read s.options.naming g code = .ok e) (heq : e.code = code) :
    ((s.optimize g).attempt.run o t).result = .ok ⟨g, e.imports⟩ ∧
      ((s.optimize g).attempt.run o t).tree = t := by
  obtain ⟨hresult, htree⟩ := run_optimize_of_ofCode he hm hk hr hc
  rw [hresult, htree]
  simp only [heq, ne_eq, not_true_eq_false, if_false]
  exact ⟨rfl, rfl⟩

theorem outcome_ok {r : FileResult} (h : s.outcome o t g = .ok r) :
    ((s.optimize g).attempt.run o t).result = .ok r :=
  eq_ok_of_mapError h

theorem outcome_error {f : Failure} (h : s.outcome o t g = .error f) : f.file = g := by
  unfold outcome at h
  cases hx : ((s.optimize g).attempt.run o t).result with
  | error e =>
    rw [hx] at h
    cases h
    rfl
  | ok x =>
    rw [hx] at h
    cases h

/-- What a file contributes: a script what is embedded in it, any other file nothing. -/
theorem optimize_ok {r : FileResult} (h : ((s.optimize g).attempt.run o t).result = .ok r) :
    r.file = g ∧ if FileKind.classify s.options.naming g = .script then
      ((s.optimizeScript g).attempt.run o t).result = .ok r.css else r.css = [] := by
  obtain ⟨-, -, h, -⟩ := Job.run_bind_ok h
  rw [Job.run_tell] at h
  cases hk : FileKind.classify s.options.naming g with
  | script =>
    rw [hk] at h
    obtain ⟨es, he, h, -⟩ := Job.run_bind_ok h
    cases h
    exact ⟨rfl, he⟩
  | css =>
    rw [hk] at h
    obtain ⟨-, -, h, -⟩ := Job.run_bind_ok h
    cases h
    exact ⟨rfl, rfl⟩
  | page =>
    rw [hk] at h
    obtain ⟨-, -, h, -⟩ := Job.run_bind_ok h
    cases h
    exact ⟨rfl, rfl⟩
  | cssProxy =>
    rw [hk] at h
    cases h
    exact ⟨rfl, rfl⟩
  | other =>
    rw [hk] at h
    cases h
    exact ⟨rfl, rfl⟩

/-- A script contributes nothing where nothing is embedded. -/
theorem optimizeScript_nil {es : List CssEntry} (he : s.embedCss = false)
    (h : ((s.optimizeScript g).attempt.run o t).result = .ok es) : es = [] := by
  unfold optimizeScript at h
  split at h
  · obtain ⟨code, new, -, h, -⟩ := revise_ok h
    simp only [he] at h
    obtain ⟨e, he, h, -⟩ := Job.run_bind_ok h
    cases he
    obtain ⟨x, -, h, -⟩ := Job.run_bind_ok h
    cases h
    rfl
  · cases h
    rfl

theorem optimizeScript_entries {es : List CssEntry}
    (h : ((s.optimizeScript g).attempt.run o t).result = .ok es) :
    ∀ e ∈ es, ∃ w, s.options.naming.isCssProxy w = true ∧ e = Embed.entryOf s.options.naming g w := by
  cases he : s.embedCss with
  | true =>
    obtain ⟨code, e, -, -, hc, rfl, -⟩ := optimizeScript_ok he h
    exact fun i hi => Embedded.mem_imports hc hi
  | false => simp [optimizeScript_nil he h]

/-- No file contributes anything where nothing is embedded. -/
theorem optimize_nil {r : FileResult} (he : s.embedCss = false)
    (h : ((s.optimize g).attempt.run o t).result = .ok r) : r.css = [] := by
  obtain ⟨-, h⟩ := optimize_ok h
  split at h
  · exact optimizeScript_nil he h
  · exact h

/-- What a file contributes is named by specifiers as seen from it. -/
theorem optimize_entries {r : FileResult} (h : ((s.optimize g).attempt.run o t).result = .ok r) :
    ∀ e ∈ r.css, ∃ w, s.options.naming.isCssProxy w = true ∧
      e = Embed.entryOf s.options.naming g w := by
  obtain ⟨-, h⟩ := optimize_ok h
  split at h
  · exact optimizeScript_entries h
  · simp [h]

end Setting

end SiteBuild
