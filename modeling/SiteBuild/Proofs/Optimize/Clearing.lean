import SiteBuild.Proofs.FileTree.Removal
import SiteBuild.Proofs.Optimize.Course

/-! Removing files one path after another. Every removal takes the file that its path leads to, or finds
none there, or fails; so what all of them take are the files that the paths led to at the outset, each
once, and a failure only cuts the list of paths short. -/

namespace SiteBuild

open FileTree

variable {o : Outages} {t t' t'' : FileTree} {p q : Path} {j k : Place} {b : ByteArray}
variable {taken taken' : Place → Prop}

/-- Trees between which files at some places are gone. -/
structure Lacks (taken : Place → Prop) (t t' : FileTree) : Prop where
  keeps : KeepsDirectories t t'
  keepsBack : KeepsDirectories t' t
  gone : ∀ k, taken k → t'.node? k = none
  stays : ∀ k, ¬taken k → t'.node? k = t.node? k

/-- The place of a file that some path leads to. -/
def LeadsTo (t : FileTree) (p : Path) (k : Place) : Prop := ∃ b, t.find p = .ok (k, .file b)

theorem LeadsTo.unique (h : LeadsTo t p j) (h' : LeadsTo t p k) : j = k := by
  obtain ⟨b, hb⟩ := h
  obtain ⟨c, hc⟩ := h'
  rw [hb] at hc
  cases hc
  rfl

theorem LeadsTo.node?_ne_none (h : LeadsTo t p k) : t.node? k ≠ none := by
  obtain ⟨b, hb⟩ := h
  rw [(find_eq_file.1 hb).2.1]
  exact Option.some_ne_none _

/-- A path misses a file where its walk does, or where nothing is at the end of it. -/
theorem find_eq_notFound : t.find p = .error .notFound ↔ t.target p = .error .notFound ∨
    ∃ k n, t.target p = .ok (.entry k n) ∧ t.node? (k ++ [n]) = none := by
  cases ht : t.target p with
  | error e => simp [find, ht, bind, Except.bind]
  | ok x =>
    cases x with
    | directory k => simp [find, ht, bind, Except.bind, pure, Except.pure]
    | entry k n =>
      rw [find_of_target ht]
      cases hn : t.node? (k ++ [n]) with
      | none => simp [hn]
      | some x => cases x <;> cases hs : p.endsInSlash <;> simp [hn]

/-- Removing finds no file where looking for one misses it. -/
theorem remove_eq_ok_false : t.remove p = (t, .ok false) ↔ t.find p = .error .notFound := by
  rw [find_eq_notFound]
  fun_cases remove t p <;> simp_all

namespace Lacks

theorem refl (h : ∀ k, taken k → t.node? k = none) : Lacks taken t t :=
  ⟨.refl t, .refl t, h, fun _ _ => rfl⟩

theorem congr (h : Lacks taken t t') (hk : ∀ k, taken k ↔ taken' k) : Lacks taken' t t' :=
  ⟨h.keeps, h.keepsBack, fun k hk' => h.gone k ((hk k).2 hk'),
    fun k hk' => h.stays k fun hn => hk' ((hk k).1 hn)⟩

theorem trans (h : Lacks taken t t') (h' : Lacks taken' t' t'') :
    Lacks (fun k => taken k ∨ taken' k) t t'' := by
  refine ⟨h.keeps.trans h'.keeps, h'.keepsBack.trans h.keepsBack, fun k hk => ?_, fun k hk => ?_⟩
  · by_cases hk' : taken' k
    · exact h'.gone k hk'
    · rw [h'.stays k hk', h.gone k (hk.resolve_right hk')]
  · rw [h'.stays k fun hn => hk (.inr hn), h.stays k fun hn => hk (.inl hn)]

/-- Where a path led to before, it leads to still, unless the file is gone. -/
theorem leadsTo_iff (h : Lacks taken t t') : LeadsTo t' p k ↔ LeadsTo t p k ∧ ¬taken k := by
  by_cases hk : taken k
  · simp only [hk, not_true_eq_false, and_false, iff_false]
    exact fun hp => hp.node?_ne_none (h.gone k hk)
  · simp only [hk, not_false_eq_true, and_true]
    exact exists_congr fun b => (find_file_congr h.keeps h.keepsBack (h.stays k hk).symm).symm

/-- A path that led to files which are gone leads to none any more. -/
theorem not_isFile (h : Lacks taken t t') (hp : ∀ k, LeadsTo t p k → taken k) : ¬t'.IsFile p := by
  rintro ⟨k, hk⟩
  obtain ⟨hk, hn⟩ := h.leadsTo_iff.1 hk
  exact hn (hp k hk)

theorem node?_eq_none (h : Lacks taken t t') (hk : t.node? k = none) : t'.node? k = none := by
  by_cases hn : taken k
  · exact h.gone k hn
  · rw [h.stays k hn, hk]

theorem enter_notFound (h : Lacks taken t t') {c : Component}
    (hk : t.enter k c = .error .notFound) : t'.enter k c = .error .notFound := by
  cases c with
  | root => rfl
  | here => exact hk
  | up => exact hk
  | name n =>
    simp only [FileTree.enter] at hk ⊢
    cases hn : t.node? (k ++ [n]) with
    | none =>
      rw [hn] at hk
      rw [h.node?_eq_none hn]
      exact hk
    | some x =>
      rw [hn] at hk
      cases x <;> cases hk

/-- A walk that misses what it looks for misses it still. -/
theorem walk_notFound (h : Lacks taken t t') {cs : List Component}
    (hk : t.walk k cs = .error .notFound) : t'.walk k cs = .error .notFound := by
  fun_induction FileTree.walk t k cs with
  | case1 => cases hk
  | case2 => cases hk
  | case3 => cases hk
  | case4 k c cs hc ih =>
    have hw (t : FileTree) : t.walk k (c :: cs) = t.enter k c >>= fun k => t.walk k cs := by
      rw [FileTree.walk]
      exact hc
    rw [hw]
    cases he : t.enter k c with
    | error e =>
      rw [he] at hk
      cases hk
      rw [h.enter_notFound he]
      rfl
    | ok i =>
      rw [he] at hk
      rw [h.keeps.enter he]
      exact ih i hk

theorem target_notFound (h : Lacks taken t t') (hp : t.target p = .error .notFound) :
    t'.target p = .error .notFound := by
  unfold FileTree.target at hp ⊢
  split at hp
  · cases hp
  · next h0 =>
    rw [if_neg h0]
    split
    · rfl
    · next hs =>
      split at hp
      · next hn => exact absurd hn hs
      · exact h.walk_notFound hp

/-- What is not found is not found after files are gone. -/
theorem find_notFound (h : Lacks taken t t') (hp : t.find p = .error .notFound) :
    t'.find p = .error .notFound := by
  rcases find_eq_notFound.1 hp with ht | ⟨k, n, ht, hn⟩
  · exact find_eq_notFound.2 (.inl (h.target_notFound ht))
  · exact find_eq_notFound.2 (.inr ⟨k, n, h.keeps.target ht, h.node?_eq_none hn⟩)

end Lacks

/-- What one removal does: the file goes, or none is found, or the tree stays as it is. -/
theorem answer_remove_cases (o : Outages) (t : FileTree) (p : Path) :
    let x := t.answer o (.remove p)
    (x.1 = .ok true ∧ o.remove p = none ∧ x.2.find p = .error .notFound ∧
        ∃ k, LeadsTo t p k ∧ Lacks (· = k) t x.2) ∨
      (x.1 = .ok false ∧ o.remove p = none ∧ t.find p = .error .notFound ∧ x.2 = t) ∨
      ∃ e, x.1 = .error e ∧ x.2 = t := by
  intro x
  cases ho : o.remove p with
  | some e => exact .inr (.inr ⟨e, by simp [x, answer, ho], by simp [x, answer, ho]⟩)
  | none =>
    have hx : x = (t.remove p).swap := by simp only [x, answer, ho]
    rw [hx]
    rcases remove_cases t p with ⟨ht, hr⟩ | ⟨hr, k, b, hf, hn⟩
    · cases hr' : (t.remove p).2 with
      | error e => exact .inr (.inr ⟨e, hr', ht⟩)
      | ok found =>
        cases found with
        | true => exact absurd hr' hr
        | false => exact .inr (.inl ⟨hr', rfl, remove_eq_ok_false.1 (Prod.ext ht hr'), ht⟩)
    · obtain ⟨-, hb, i, n, rfl, ht⟩ := find_eq_file.1 hf
      have hk := t.remove_keepsDirectories p
      refine .inl ⟨hr, rfl, ?_, i ++ [n], ⟨b, hf⟩, hk, fun j hj => ?_, fun j hj => ?_, fun j hj => ?_⟩
      · exact find_eq_notFound.2 (.inr ⟨i, n, hk.target ht, by simp [hn]⟩)
      · change (t.remove p).1.node? j = _ at hj
        rw [hn] at hj
        split at hj
        · cases hj
        · exact hj
      · exact (hn j).trans (if_pos hj)
      · exact (hn j).trans (if_neg hj)

/-- A removal that fails leaves the tree as it is. -/
theorem answer_remove_of_error {e : IoError} (h : (t.answer o (.remove p)).1 = .error e) :
    (t.answer o (.remove p)).2 = t := by
  rcases answer_remove_cases o t p with ⟨hx, -⟩ | ⟨-, -, -, ht⟩ | ⟨-, -, ht⟩
  · rw [h] at hx
    cases hx
  · exact ht
  · exact ht

/-- Whether a tree is left without the files that some paths led to, `n` in number. -/
def Clears (t : FileTree) (ps : List Path) (n : Nat) (t' : FileTree) : Prop :=
  ∃ ks : List Place, ks.Nodup ∧ ks.length = n ∧ (∀ k, k ∈ ks ↔ ∃ p ∈ ps, LeadsTo t p k) ∧
    Lacks (· ∈ ks) t t'

theorem Clears.lacks {ps : List Path} {n : Nat} (h : Clears t ps n t') :
    Lacks (fun k => ∃ p ∈ ps, LeadsTo t p k) t t' := by
  obtain ⟨ks, -, -, hk, hl⟩ := h
  exact hl.congr hk

theorem Clears.cons_found {ps : List Path} {n : Nat} (hp : LeadsTo t p k) (hl : Lacks (· = k) t t')
    (h : Clears t' ps n t'') : Clears t (p :: ps) (n + 1) t'' := by
  obtain ⟨ks, hd, hn, hk, hl'⟩ := h
  have hmem (j : Place) : j ∈ k :: ks ↔ ∃ q ∈ p :: ps, LeadsTo t q j := by
    simp only [List.mem_cons, hk, exists_eq_or_imp, hl.leadsTo_iff]
    constructor
    · rintro (rfl | ⟨q, hq, hj, -⟩)
      · exact .inl hp
      · exact .inr ⟨q, hq, hj⟩
    · rintro (hj | ⟨q, hq, hj⟩)
      · exact .inl (hj.unique hp)
      · exact or_iff_not_imp_left.2 fun he => ⟨q, hq, hj, he⟩
  -- the file is gone, so that no later path leads to it
  have hnot : k ∉ ks := by
    rw [hk]
    rintro ⟨q, -, hq⟩
    exact (hl.leadsTo_iff.1 hq).2 rfl
  refine ⟨k :: ks, List.nodup_cons.2 ⟨hnot, hd⟩, by simp [hn], hmem, ?_⟩
  exact (hl.trans hl').congr fun j => List.mem_cons.symm

theorem Clears.cons_notFound {ps : List Path} {n : Nat} (hp : t.find p = .error .notFound)
    (h : Clears t ps n t') : Clears t (p :: ps) n t' := by
  obtain ⟨ks, hd, hn, hk, hl⟩ := h
  refine ⟨ks, hd, hn, fun j => ?_, hl⟩
  simp only [hk, List.mem_cons, exists_eq_or_imp, iff_or_self]
  rintro ⟨b, hb⟩
  rw [hp] at hb
  cases hb

namespace FileResult

variable {ps : List Path} {n : Nat} {e : IoError}

theorem run_removeAll_of_ok {found : Bool} (ps : List Path)
    (h : (t.answer o (.remove p)).1 = .ok found) :
    let s := (removeAll ps).attempt.run o (t.answer o (.remove p)).2
    ((removeAll (p :: ps)).attempt.run o t).result =
        s.result.map (fun n => if found then n + 1 else n) ∧
      ((removeAll (p :: ps)).attempt.run o t).tree = s.tree := by
  have hr : ((Job.remove p).attempt.run o t).result = .ok found := by
    rw [Job.run_remove, h]
    rfl
  rw [show removeAll (p :: ps) = Job.remove p >>= fun found => removeAll ps >>= fun n =>
    pure (if found then n + 1 else n) from rfl, Job.run_bind_of_ok hr, Job.run_remove]
  dsimp only
  cases hs : ((removeAll ps).attempt.run o (t.answer o (.remove p)).2).result with
  | ok n =>
    rw [Job.run_bind_of_ok hs]
    exact ⟨rfl, rfl⟩
  | error f =>
    rw [Job.run_bind_of_error hs]
    exact ⟨rfl, rfl⟩

theorem run_removeAll_of_error (ps : List Path) (h : (t.answer o (.remove p)).1 = .error e) :
    ((removeAll (p :: ps)).attempt.run o t).result = .error (.io e) ∧
      ((removeAll (p :: ps)).attempt.run o t).tree = (t.answer o (.remove p)).2 := by
  have hr : ((Job.remove p).attempt.run o t).result = .error (.io e) := by
    rw [Job.run_remove, h]
    rfl
  rw [show removeAll (p :: ps) = Job.remove p >>= fun found => removeAll ps >>= fun n =>
    pure (if found then n + 1 else n) from rfl, Job.run_bind_of_error hr, Job.run_remove]
  exact ⟨rfl, rfl⟩

/-- What is gone when all of some paths are removed: the files that they led to, each counted once. -/
theorem clears_of_removeAll (h : ((removeAll ps).attempt.run o t).result = .ok n) :
    Clears t ps n ((removeAll ps).attempt.run o t).tree := by
  induction ps generalizing t n with
  | nil =>
    cases h
    exact ⟨[], List.nodup_nil, rfl, by simp, .refl (by simp)⟩
  | cons p ps ih =>
    rcases answer_remove_cases o t p with ⟨hx, -, -, k, hk, hl⟩ | ⟨hx, -, hf, ht⟩ | ⟨e, hx, -⟩
    · obtain ⟨hr, ht⟩ := run_removeAll_of_ok ps hx
      rw [hr] at h
      rw [ht]
      obtain ⟨m, hm, rfl⟩ := exists_of_map h
      exact (ih hm).cons_found hk hl
    · obtain ⟨hr, ht'⟩ := run_removeAll_of_ok ps hx
      rw [hr] at h
      rw [ht']
      obtain ⟨m, hm, rfl⟩ := exists_of_map h
      rw [ht] at hm ⊢
      exact (ih hm).cons_notFound hf
    · rw [(run_removeAll_of_error ps hx).1] at h
      cases h

/-- After all of some paths were removed none of them is found. -/
theorem find_of_removeAll (h : ((removeAll ps).attempt.run o t).result = .ok n) :
    ∀ p ∈ ps, o.remove p = none ∧
      ((removeAll ps).attempt.run o t).tree.find p = .error .notFound := by
  induction ps generalizing t n with
  | nil => simp
  | cons p ps ih =>
    have hlater {found : Bool} (hx : (t.answer o (.remove p)).1 = .ok found)
        (ho : o.remove p = none) (hf : (t.answer o (.remove p)).2.find p = .error .notFound) :
        ∀ q ∈ p :: ps, o.remove q = none ∧
          ((removeAll (p :: ps)).attempt.run o t).tree.find q = .error .notFound := by
      obtain ⟨hr, ht⟩ := run_removeAll_of_ok ps hx
      rw [hr] at h
      rw [ht]
      obtain ⟨m, hm, -⟩ := exists_of_map h
      exact List.forall_mem_cons.2 ⟨⟨ho, (clears_of_removeAll hm).lacks.find_notFound hf⟩, ih hm⟩
    rcases answer_remove_cases o t p with ⟨hx, ho, hf, -⟩ | ⟨hx, ho, hf, ht⟩ | ⟨e, hx, -⟩
    · exact hlater hx ho hf
    · exact hlater hx ho (ht.symm ▸ hf)
    · rw [(run_removeAll_of_error ps hx).1] at h
      cases h

/-- Where no path is found there is nothing to remove. -/
theorem removeAll_of_notFound (h : ∀ p ∈ ps, o.remove p = none ∧ t.find p = .error .notFound) :
    ((removeAll ps).attempt.run o t).result = .ok 0 ∧
      ((removeAll ps).attempt.run o t).tree = t := by
  induction ps with
  | nil => exact ⟨rfl, rfl⟩
  | cons p ps ih =>
    obtain ⟨⟨ho, hf⟩, h⟩ := List.forall_mem_cons.1 h
    obtain ⟨hr, ht⟩ := ih h
    have hx : t.answer o (.remove p) = (.ok false, t) := by
      simp only [answer, ho, remove_eq_ok_false.2 hf, Prod.swap_prod_mk]
    obtain ⟨hr', ht'⟩ := run_removeAll_of_ok ps (congrArg Prod.fst hx)
    rw [hr', ht', hx, hr, ht]
    exact ⟨rfl, rfl⟩

/-- A failure stands behind paths that were all removed, and leaves the tree as these have left it. -/
theorem removeAll_error {f : Fault} (h : ((removeAll ps).attempt.run o t).result = .error f) :
    let t' := ((removeAll ps).attempt.run o t).tree
    ∃ front p rest n e, ps = front ++ p :: rest ∧ f = .io e ∧
      ((removeAll front).attempt.run o t).result = .ok n ∧
      ((removeAll front).attempt.run o t).tree = t' ∧
      t'.answer o (.remove p) = (.error e, t') := by
  induction ps generalizing t with
  | nil => cases h
  | cons p ps ih =>
    intro t'
    cases hx : (t.answer o (.remove p)).1 with
    | ok found =>
      obtain ⟨hr, ht⟩ := run_removeAll_of_ok ps hx
      rw [hr] at h
      cases hs : ((removeAll ps).attempt.run o (t.answer o (.remove p)).2).result with
      | ok n =>
        rw [hs] at h
        cases h
      | error g =>
        rw [hs] at h
        cases h
        obtain ⟨front, q, rest, n, e, rfl, rfl, hn, hf, hq⟩ := ih hs
        obtain ⟨hr', ht'⟩ := run_removeAll_of_ok front hx
        refine ⟨p :: front, q, rest, _, e, rfl, rfl, by rw [hr', hn]; rfl, ?_, ?_⟩
        · rw [ht', hf, ← ht]
        · rw [← ht] at hq
          exact hq
    | error e =>
      have ht := answer_remove_of_error hx
      obtain ⟨hr, ht'⟩ := run_removeAll_of_error ps hx
      rw [hr] at h
      rw [ht] at ht'
      cases h
      refine ⟨[], p, ps, 0, e, rfl, rfl, rfl, ht'.symm, ?_⟩
      simp only [t', ht']
      exact Prod.ext hx ht

/-- The paths of what some results have replaced, in the order of their entries. -/
def replaced (rs : List FileResult) : List Path :=
  (rs.flatMap css).flatMap fun e => [e.actual, e.proxy]

theorem mem_replaced {rs : List FileResult} :
    p ∈ replaced rs ↔ ∃ e ∈ rs.flatMap css, p = e.actual ∨ p = e.proxy := by
  simp [replaced]

/-- Removing what results have replaced is exact and can be repeated. It counts the files that stylesheets
and proxies led to, each once, and takes these and nothing else; doing it again finds nothing. When it
fails, it has taken just the files of the paths before the one that cannot be removed. -/
theorem removeCss_exact (o : Outages) (t : FileTree) (rs : List FileResult) :
    let x := (removeCss rs).attempt.run o t
    match x.result with
    | .ok n => Clears t (replaced rs) n x.tree ∧
        ((removeCss rs).attempt.run o x.tree).result = .ok 0 ∧
        ((removeCss rs).attempt.run o x.tree).tree = x.tree
    | .error f => ∃ front p rest n e, replaced rs = front ++ p :: rest ∧ f = .io e ∧
        x.tree.answer o (.remove p) = (.error e, x.tree) ∧ Clears t front n x.tree ∧
        ∀ k, (∀ q ∈ replaced rs, ¬LeadsTo t q k) → x.tree.node? k = t.node? k := by
  intro x
  cases hx : x.result with
  | ok n =>
    exact ⟨clears_of_removeAll hx, removeAll_of_notFound (find_of_removeAll hx)⟩
  | error f =>
    obtain ⟨front, p, rest, n, e, hps, hf, hn, ht, hp⟩ := removeAll_error hx
    have hc : Clears t front n x.tree := ht ▸ clears_of_removeAll hn
    refine ⟨front, p, rest, n, e, hps, hf, hp, hc, fun k hk => hc.lacks.stays k ?_⟩
    rintro ⟨q, hq, hqk⟩
    have hps : replaced rs = front ++ p :: rest := hps
    exact hk q (hps ▸ List.mem_append_left _ hq) hqk

/-- A stylesheet that two scripts share counts once, and what stands behind a failure stays. -/
example :
    let t := (FileTree.empty.put [] "a.css" (.file "a".toUTF8)).put [] "b.css" (.file "b".toUTF8)
    let a : CssEntry := ⟨⟨"a.css"⟩, ⟨"a.css.proxy.js"⟩⟩
    let b : CssEntry := ⟨⟨"b.css"⟩, ⟨"b.css.proxy.js"⟩⟩
    let jobs := removeCss [⟨⟨"x.js"⟩, [a]⟩, ⟨⟨"y.js"⟩, [a, b]⟩]
    let refused : Outages := { remove := fun p => if p.same b.actual then some .notFound else none }
    (jobs.attempt.run {} t).result = .ok 2 ∧
      (jobs.attempt.run refused t).result = .error (.io .notFound) ∧
      (jobs.attempt.run refused t).tree.node? ["a.css"] = none ∧
      (jobs.attempt.run refused t).tree.node? ["b.css"] = some (.file "b".toUTF8) := by
  decide +kernel

end FileResult

end SiteBuild
