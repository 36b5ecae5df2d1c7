import SiteBuild.Proofs.FileTree.Removal
import SiteBuild.Proofs.Plan.Calls

/-! What a run makes of the file at one place can be read off its exchanges: the writes and removals by
paths that lead there, in their order. All other calls leave the file as it is. -/

namespace SiteBuild

variable {α : Type} {o : Outages} {t t' u : FileTree} {p : Path} {k : Place} {b : ByteArray}

namespace FileTree

/-- What the file at a place holds. -/
def bytes? (t : FileTree) (k : Place) : Option ByteArray :=
  match t.node? k with
  | some (.file b) => some b
  | _ => none

theorem bytes?_eq_some : t.bytes? k = some b ↔ t.node? k = some (.file b) := by
  unfold bytes?
  split
  · next h => simp [h]
  · next h =>
    refine iff_of_false (by simp) fun hb => ?_
    exact h b hb

/-- The place that a path leads to, whether a file is there or may be put there. -/
def place? (t : FileTree) (p : Path) : Option Place :=
  match t.target p with
  | .ok (.entry k n) => some (k ++ [n])
  | _ => none

theorem place?_of_target {n : String} (h : t.target p = .ok (.entry k n)) :
    t.place? p = some (k ++ [n]) := by
  simp [place?, h]

theorem place?_of_find (h : t.find p = .ok (k, .file b)) : t.place? p = some k := by
  obtain ⟨-, -, j, n, rfl, ht⟩ := find_eq_file.1 h
  exact place?_of_target ht

theorem KeepsDirectories.place? (h : KeepsDirectories t t') (hk : t.place? p = some k) :
    t'.place? p = some k := by
  unfold FileTree.place? at hk
  split at hk
  · next j n ht =>
    rw [place?_of_target (h.target ht)]
    exact hk
  · cases hk

theorem Extends.bytes? (h : Extends t t') : t'.bytes? k = t.bytes? k := by
  refine Option.ext fun b => ?_
  rw [bytes?_eq_some, bytes?_eq_some, h.node?_file]

/-- A write that changes a file leads to its place; one that fails changes none. -/
theorem bytes?_write (hu : KeepsDirectories (t.write p b).1 u) :
    (t.write p b).1.bytes? k =
      if (t.write p b).2 = .ok () ∧ u.place? p = some k then some b else t.bytes? k := by
  obtain ⟨s, hs, ⟨ht, e, he⟩ | ⟨hstore, hok⟩⟩ := write_cases t p b
  · rw [he, if_neg (by simp), ht, hs.bytes?]
  · have hk := hstore.keepsDirectories
    obtain ⟨j, n, hj, -, hn⟩ := hstore
    rw [hu.place? (hk.place? (place?_of_target hj)), ← hs.bytes?]
    simp only [hok, true_and, Option.some.injEq]
    unfold bytes?
    rw [hn]
    by_cases hjk : k = j ++ [n]
    · rw [if_pos hjk, if_pos hjk.symm]
    · rw [if_neg hjk, if_neg (Ne.symm hjk)]

theorem bytes?_remove (hu : KeepsDirectories (t.remove p).1 u) :
    (t.remove p).1.bytes? k =
      if (t.remove p).2 = .ok true ∧ u.place? p = some k then none else t.bytes? k := by
  rcases remove_cases t p with ⟨ht, hr⟩ | ⟨hr, j, c, hf, hn⟩
  · rw [if_neg fun h => hr h.1, ht]
  · have hj := hu.place? ((remove_keepsDirectories t p).place? (place?_of_find hf))
    rw [hj, hr]
    simp only [true_and, Option.some.injEq]
    unfold bytes?
    rw [hn]
    by_cases hjk : k = j
    · rw [if_pos hjk, if_pos hjk.symm]
    · rw [if_neg hjk, if_neg (Ne.symm hjk)]

theorem answer_keepsDirectories (o : Outages) (t : FileTree) (c : Call) :
    KeepsDirectories t (t.answer o c).2 := by
  cases c with
  | read p =>
    rw [answer_read_tree]
    exact .refl t
  | write p text =>
    simp only [answer]
    cases o.write p with
    | some e => exact .refl t
    | none => exact write_keepsDirectories t p _
  | remove p =>
    simp only [answer]
    cases o.remove p with
    | some e => exact .refl t
    | none => exact remove_keepsDirectories t p
  | inspect p => exact .refl t
  | isThere p => exact .refl t
  | isDirectory p => exact .refl t
  | list p => exact .refl t
  | tell e => exact .refl t
  | now => exact .refl t

end FileTree

open FileTree

/-- What an exchange makes of the file at a place. Where paths lead is told by a tree. -/
def Exchange.effect (t : FileTree) (k : Place) (b : Option ByteArray) : Exchange → Option ByteArray
  | ⟨.write p text, .ok ()⟩ => if t.place? p = some k then some text.toUTF8 else b
  | ⟨.remove p, .ok true⟩ => if t.place? p = some k then none else b
  | _ => b

theorem bytes?_answer {c : Call} (hu : KeepsDirectories (t.answer o c).2 u) :
    (t.answer o c).2.bytes? k = Exchange.effect u k (t.bytes? k) ⟨c, (t.answer o c).1⟩ := by
  cases c with
  | read p =>
    rw [answer_read_tree]
    rfl
  | write p text =>
    simp only [answer] at hu ⊢
    cases hp : o.write p with
    | some e => rfl
    | none =>
      simp only [hp, Prod.fst_swap, Prod.snd_swap] at hu ⊢
      rw [bytes?_write hu]
      cases (t.write p text.toUTF8).2 with
      | ok v => simp [Exchange.effect]
      | error e => simp [Exchange.effect]
  | remove p =>
    simp only [answer] at hu ⊢
    cases hp : o.remove p with
    | some e => rfl
    | none =>
      simp only [hp, Prod.fst_swap, Prod.snd_swap] at hu ⊢
      rw [bytes?_remove hu]
      cases (t.remove p).2 with
      | ok found => cases found <;> simp [Exchange.effect]
      | error e => simp [Exchange.effect]
  | inspect p => rfl
  | isThere p => rfl
  | isDirectory p => rfl
  | list p => rfl
  | tell e => rfl
  | now => rfl

namespace Plan

theorem run_keepsDirectories (o : Outages) (t : FileTree) (x : Plan α) :
    KeepsDirectories t (x.run o t).tree := by
  induction x generalizing t with
  | done a => exact .refl t
  | call c next ih => exact (answer_keepsDirectories o t c).trans (ih _ _)

/-- What a file holds after a run is what the exchanges of the run make of it, one after the other. -/
theorem bytes?_run (x : Plan α) (hu : KeepsDirectories (x.run o t).tree u) :
    (x.run o t).tree.bytes? k = (x.run o t).exchanges.foldl (Exchange.effect u k) (t.bytes? k) := by
  induction x generalizing t with
  | done a => rfl
  | call c next ih =>
    have hstep := (run_keepsDirectories o (t.answer o c).2 (next (t.answer o c).1)).trans hu
    have hrest := @ih (t.answer o c).1 (t.answer o c).2 hu
    rw [bytes?_answer hstep] at hrest
    exact hrest

end Plan

namespace Run

/-- A run writes a file, and its path leads to a place. -/
def WritesAt (x : Run α) (p : Path) (k : Place) : Prop :=
  (∃ text, ⟨.write p text, .ok ()⟩ ∈ x.exchanges) ∧ x.tree.place? p = some k

/-- A run removes a file that was there, and its path leads to a place. -/
def RemovesAt (x : Run α) (p : Path) (k : Place) : Prop :=
  ⟨.remove p, .ok true⟩ ∈ x.exchanges ∧ x.tree.place? p = some k

end Run

theorem effect_none {x : Exchange}
    (hw : ∀ p text, x = ⟨.write p text, .ok ()⟩ → t.place? p ≠ some k) :
    Exchange.effect t k none x = none := by
  unfold Exchange.effect
  split
  · next p text => rw [if_neg (hw p text rfl)]
  · split <;> rfl
  · rfl

theorem effect_some {x : Exchange}
    (hw : ∀ p text, x = ⟨.write p text, .ok ()⟩ → t.place? p ≠ some k) :
    Exchange.effect t k (some b) x = some b ∧
        (∀ p, x = ⟨.remove p, .ok true⟩ → t.place? p ≠ some k) ∨
      Exchange.effect t k (some b) x = none ∧ ∃ p, x = ⟨.remove p, .ok true⟩ ∧ t.place? p = some k := by
  unfold Exchange.effect
  split
  · next p text => exact .inl ⟨if_neg (hw p text rfl), fun q hq => by cases hq⟩
  · next p =>
    by_cases hp : t.place? p = some k
    · exact .inr ⟨if_pos hp, p, rfl, hp⟩
    · refine .inl ⟨if_neg hp, fun q hq => ?_⟩
      cases hq
      exact hp
  · next hr =>
    refine .inl ⟨rfl, fun q hq => ?_⟩
    exact absurd hq (hr q)

theorem foldl_effect_none {es : List Exchange}
    (hw : ∀ p text, ⟨.write p text, .ok ()⟩ ∈ es → t.place? p ≠ some k) :
    es.foldl (Exchange.effect t k) none = none := by
  induction es with
  | nil => rfl
  | cons x es ih =>
    rw [List.foldl_cons, effect_none fun p text h => hw p text (h ▸ List.mem_cons_self)]
    exact ih fun p text h => hw p text (List.mem_cons_of_mem _ h)

/-- Where nothing is written, a file stays as it is just if it is not removed. -/
theorem foldl_effect_some {es : List Exchange}
    (hw : ∀ p text, ⟨.write p text, .ok ()⟩ ∈ es → t.place? p ≠ some k) :
    es.foldl (Exchange.effect t k) (some b) = some b ↔
      ∀ p, ⟨.remove p, .ok true⟩ ∈ es → t.place? p ≠ some k := by
  induction es with
  | nil => simp
  | cons x es ih =>
    have hx : ∀ p text, x = ⟨.write p text, .ok ()⟩ → t.place? p ≠ some k :=
      fun p text h => hw p text (h ▸ List.mem_cons_self)
    have hes : ∀ p text, ⟨.write p text, .ok ()⟩ ∈ es → t.place? p ≠ some k :=
      fun p text h => hw p text (List.mem_cons_of_mem _ h)
    rw [List.foldl_cons]
    rcases effect_some (b := b) hx with ⟨he, hr⟩ | ⟨he, p, rfl, hp⟩
    · rw [he, ih hes]
      constructor
      · intro h p hp
        rcases List.mem_cons.1 hp with hp | hp
        · exact hr p hp.symm
        · exact h p hp
      · exact fun h p hp => h p (List.mem_cons_of_mem _ hp)
    · rw [he, foldl_effect_none hes]
      exact iff_of_false (by simp) fun h => h p List.mem_cons_self hp

/-- Where nothing is written, a file that is there was there before. -/
theorem eq_of_foldl_effect {es : List Exchange} {c : Option ByteArray}
    (hw : ∀ p text, ⟨.write p text, .ok ()⟩ ∈ es → t.place? p ≠ some k)
    (h : es.foldl (Exchange.effect t k) c = some b) : c = some b := by
  induction es generalizing c with
  | nil => exact h
  | cons x es ih =>
    have hx : ∀ p text, x = ⟨.write p text, .ok ()⟩ → t.place? p ≠ some k :=
      fun p text h => hw p text (h ▸ List.mem_cons_self)
    have he := ih (fun p text h => hw p text (List.mem_cons_of_mem _ h)) h
    cases c with
    | none =>
      rw [effect_none hx] at he
      cases he
    | some d =>
      rcases effect_some (b := d) hx with ⟨hd, -⟩ | ⟨hd, -⟩
      · exact hd.symm.trans he
      · rw [hd] at he
        cases he

/-- A file that is there after a run and that the run does not write was the same before. -/
theorem Plan.bytes?_of_run {x : Plan α} (hw : ∀ p, ¬(x.run o t).WritesAt p k)
    (h : (x.run o t).tree.bytes? k = some b) : t.bytes? k = some b := by
  rw [bytes?_run x (.refl _)] at h
  exact eq_of_foldl_effect (fun p text hp hplace => hw p ⟨⟨text, hp⟩, hplace⟩) h

/-- A file that a run does not write is the same in the end just if the run does not remove it. -/
theorem Plan.node?_run {x : Plan α} (hk : t.node? k = some (.file b))
    (hw : ∀ p, ¬(x.run o t).WritesAt p k) :
    (x.run o t).tree.node? k = some (.file b) ↔ ∀ p, ¬(x.run o t).RemovesAt p k := by
  have hw' : ∀ p text, ⟨.write p text, .ok ()⟩ ∈ (x.run o t).exchanges →
      (x.run o t).tree.place? p ≠ some k := fun p text h hp => hw p ⟨⟨text, h⟩, hp⟩
  rw [← bytes?_eq_some, bytes?_run x (.refl _), bytes?_eq_some.2 hk, foldl_effect_some hw']
  exact ⟨fun h p hp => h p hp.1 hp.2, fun h p hp hk => h p ⟨hp, hk⟩⟩

/-- Where nothing is removed, some file stays. -/
theorem exists_foldl_effect {es : List Exchange}
    (hr : ∀ p, ⟨.remove p, .ok true⟩ ∈ es → t.place? p ≠ some k) :
    ∃ c, es.foldl (Exchange.effect t k) (some b) = some c := by
  induction es generalizing b with
  | nil => exact ⟨b, rfl⟩
  | cons x es ih =>
    have hx : ∃ c, Exchange.effect t k (some b) x = some c := by
      unfold Exchange.effect
      split
      · next p text =>
        split
        · exact ⟨_, rfl⟩
        · exact ⟨b, rfl⟩
      · next p => exact ⟨b, if_neg (hr p List.mem_cons_self)⟩
      · exact ⟨b, rfl⟩
    obtain ⟨c, hc⟩ := hx
    rw [List.foldl_cons, hc]
    exact ih fun p hp => hr p (List.mem_cons_of_mem _ hp)

/-- A file that is gone after a run was removed by it. -/
theorem Plan.exists_removesAt {x : Plan α} (hk : t.node? k = some (.file b))
    (hg : (x.run o t).tree.bytes? k = none) : ∃ p, (x.run o t).RemovesAt p k := by
  by_contra hno
  have hstays : ∃ c, (x.run o t).exchanges.foldl (Exchange.effect (x.run o t).tree k) (some b) =
      some c := exists_foldl_effect fun p hp hplace => hno ⟨p, hp, hplace⟩
  obtain ⟨c, hc⟩ := hstays
  rw [← bytes?_eq_some.2 hk, ← bytes?_run x (.refl _), hg] at hc
  cases hc

end SiteBuild
