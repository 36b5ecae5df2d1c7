import Mathlib.Data.List.Nodup
import Mathlib.Data.List.Pairwise
import Mathlib.Logic.Relation
import SiteBuild.Proofs.Optimize.Course

/-! Work on several files at a time. The tasks of a pool make their calls in any order, one call at a
time. Since no task reads what another one writes, each comes to what it would come to alone, and the
tree in the end holds what each has made of its own file. -/

namespace SiteBuild

variable {α : Type} {o : Outages} {t : FileTree} {n : Naming} {fs : List Path} {limit : Nat}

/-- Tasks on one tree, each with the index of its file. -/
structure Pool (α : Type) where
  tree : FileTree
  /-- The files that no task was started for yet. -/
  waiting : List (Path × Nat)
  /-- What is left to do of the tasks that were started. -/
  active : List (Plan α × Nat)
  /-- What became of the files, by their indices. -/
  slots : List (Option α)

namespace Pool

variable {task : Path → Plan α} {i j : Nat} {g : Path} {k : Place}

def start (t : FileTree) (fs : List Path) : Pool α := ⟨t, fs.zipIdx, [], fs.map fun _ => none⟩

/-- Files are taken in turn, while there are fewer active tasks than the limit. Any active task may
make the next call, and one that is done leaves its result in its slot. -/
inductive Step (o : Outages) (task : Path → Plan α) (limit : Nat) : Pool α → Pool α → Prop
  | start {t g i ws as ss} : as.length < limit →
      Step o task limit ⟨t, (g, i) :: ws, as, ss⟩ ⟨t, ws, (task g, i) :: as, ss⟩
  | call {t c next i ws as bs ss} :
      Step o task limit ⟨t, ws, as ++ (.call c next, i) :: bs, ss⟩
        ⟨(t.answer o c).2, ws, as ++ (next (t.answer o c).1, i) :: bs, ss⟩
  | finish {t a i ws as bs ss} :
      Step o task limit ⟨t, ws, as ++ (.done a, i) :: bs, ss⟩ ⟨t, ws, as ++ bs, ss.set i (some a)⟩

def Reaches (o : Outages) (task : Path → Plan α) (limit : Nat) : Pool α → Pool α → Prop :=
  Relation.ReflTransGen (Step o task limit)

/-- That nothing is left to do. -/
def IsIdle (p : Pool α) : Prop := p.waiting = [] ∧ p.active = []

/-- Where the file of an index is. -/
def IsAt (t : FileTree) (fs : List Path) (i : Nat) (k : Place) : Prop :=
  ∃ g b, fs[i]? = some g ∧ t.find g = .ok (k, .file b)

theorem IsAt.place_eq {k' : Place} (h : IsAt t fs i k) (h' : IsAt t fs i k') : k = k' := by
  obtain ⟨g, b, hg, hf⟩ := h
  obtain ⟨g', b', hg', hf'⟩ := h'
  rw [hg] at hg'
  cases hg'
  rw [hf] at hf'
  cases hf'
  rfl

/-- Files that are apart are at different places. -/
theorem IsAt.index_eq (ha : fs.Pairwise t.Apart) (h : IsAt t fs i k) (h' : IsAt t fs j k) : i = j := by
  obtain ⟨g, b, hg, hf⟩ := h
  obtain ⟨g', b', hg', hf'⟩ := h'
  obtain ⟨hi, rfl⟩ := List.getElem?_eq_some_iff.1 hg
  obtain ⟨hj, rfl⟩ := List.getElem?_eq_some_iff.1 hg'
  rcases Nat.lt_trichotomy i j with hlt | rfl | hlt
  · exact absurd hf' (List.pairwise_iff_getElem.1 ha i j hi hj hlt _ _ _ hf)
  · rfl
  · exact absurd hf (List.pairwise_iff_getElem.1 ha j i hj hi hlt _ _ _ hf')

/-- A tree that shows at the place of each file what the task on that file sees, were it alone. -/
structure Shows (n : Naming) (t : FileTree) (fs : List Path) (view : Nat → FileTree)
    (u : FileTree) : Prop where
  alike : t.Alike u
  rewrites : ∀ i k, IsAt t fs i k → Rewrites n k t (view i)
  own : ∀ i k, IsAt t fs i k → u.node? k = (view i).node? k
  other : ∀ k, (∀ i, ¬IsAt t fs i k) → u.node? k = t.node? k

namespace Shows

variable {view : Nat → FileTree} {u : FileTree}

theorem refl : Shows n t fs (fun _ => t) t :=
  ⟨.refl t, fun _ k _ => .refl n k t, fun _ _ _ => rfl, fun _ _ => rfl⟩

theorem node?_proxy (h : Shows n t fs view u) (hk : IsProxyPlace n k) : u.node? k = t.node? k := by
  by_cases hat : ∃ i, IsAt t fs i k
  · obtain ⟨i, hi⟩ := hat
    rw [h.own i k hi]
    exact (h.rewrites i k hi).eq k |>.resolve_right fun ⟨_, hn⟩ => hn hk
  · exact h.other k fun i hi => hat ⟨i, hi⟩

theorem agree (h : Shows n t fs view u) (hi : IsAt t fs i k) :
    Agree (fun j => IsProxyPlace n j ∨ j = k) (view i) u := by
  have hr := h.rewrites i k hi
  refine ⟨fun j => ?_, fun j hj => ?_⟩
  · exact (hr.alike.symm.trans h.alike) j
  · rcases hj with hj | rfl
    · rw [h.node?_proxy hj]
      exact (hr.eq j).resolve_right fun ⟨hk, hn⟩ => hn (hk ▸ hj)
    · exact (h.own i j hi).symm

/-- A call is answered in the pool as the task would be answered alone, and its tree goes on to show
what the tasks see. -/
theorem answer (ha : fs.Pairwise t.Apart) (h : Shows n t fs view u) {b : ByteArray} {c : Call}
    (hg : fs[i]? = some g) (hf : t.find g = .ok (k, .file b)) (hc : Handles n g c) :
    (u.answer o c).1 = ((view i).answer o c).1 ∧
      Shows n t fs (Function.update view i ((view i).answer o c).2) (u.answer o c).2 := by
  have hi : IsAt t fs i k := ⟨g, b, hg, hf⟩
  have hr := h.rewrites i k hi
  obtain ⟨_, hfv⟩ := hr.alike.find_file hf
  obtain ⟨_, hfu⟩ := h.alike.find_file hf
  obtain ⟨hans, hagree⟩ := (h.agree hi).answer (o := o) hc hfv (.inr rfl) fun _ => .inl
  have hrv := answer_rewrites (o := o) hc hfv
  have hru := answer_rewrites (o := o) hc hfu
  refine ⟨hans.symm, h.alike.trans hru.alike, fun j k' hj => ?_, fun j k' hj => ?_, fun k' hk' => ?_⟩
  · by_cases hij : j = i
    · subst hij
      rw [Function.update_self, ← hi.place_eq hj]
      exact hr.trans hrv
    · rw [Function.update_of_ne hij]
      exact h.rewrites j k' hj
  · by_cases hij : j = i
    · subst hij
      rw [Function.update_self, ← hi.place_eq hj]
      exact (hagree.eq k (.inr rfl)).symm
    · rw [Function.update_of_ne hij, ← h.own j k' hj]
      refine (hru.eq k').resolve_right ?_
      rintro ⟨rfl, -⟩
      exact hij (hj.index_eq ha hi)
  · rw [← h.other k' hk']
    refine (hru.eq k').resolve_right ?_
    rintro ⟨rfl, -⟩
    exact hk' i hi

end Shows

/-- A task that is under way: what is left of it comes to what all of it comes to. -/
structure Underway (o : Outages) (n : Naming) (t : FileTree) (g : Path) (x q : Plan α)
    (u : FileTree) : Prop where
  calls : q.Calls (Handles n g)
  result : (q.run o u).result = (x.run o t).result
  tree : (q.run o u).tree = (x.run o t).tree

/-- The books of a pool: each index is waiting, active or done, and what is done is right. -/
structure Keeps (o : Outages) (n : Naming) (t : FileTree) (fs : List Path) (task : Path → Plan α)
    (view : Nat → FileTree) (p : Pool α) : Prop where
  nodup : (p.waiting.map Prod.snd ++ p.active.map Prod.snd).Nodup
  waiting : ∀ x ∈ p.waiting, fs[x.2]? = some x.1 ∧ view x.2 = t
  active : ∀ x ∈ p.active, ∃ g, fs[x.2]? = some g ∧ Underway o n t g (task g) x.1 (view x.2)
  done : ∀ i g, fs[i]? = some g → i ∉ p.waiting.map Prod.snd → i ∉ p.active.map Prod.snd →
    p.slots[i]? = some (some ((task g).run o t).result) ∧ view i = ((task g).run o t).tree
  length_eq : p.slots.length = fs.length

/-- What every step of a pool preserves. -/
def Sound (o : Outages) (n : Naming) (t : FileTree) (fs : List Path) (task : Path → Plan α)
    (p : Pool α) : Prop :=
  ∃ view, Keeps o n t fs task view p ∧ Shows n t fs view p.tree

theorem sound_start : Sound o n t fs task (start t fs) := by
  refine ⟨fun _ => t, ⟨?_, fun x hx => ?_, by simp [start], fun i g hg hw => ?_, ?_⟩, .refl⟩
  · simp [start, List.nodup_range']
  · exact ⟨List.mem_zipIdx_iff_getElem?.1 hx, rfl⟩
  · refine absurd ?_ hw
    exact List.mem_map.2 ⟨(g, i), List.mem_zipIdx_iff_getElem?.2 hg, rfl⟩
  · simp [start]

namespace Keeps

variable {view : Nat → FileTree} {ws : List (Path × Nat)} {as bs : List (Plan α × Nat)}
  {ss : List (Option α)} {u u' : FileTree}

/-- The task in the midst of the active ones has an index of its own. -/
theorem index_ne {q : Plan α} (h : Keeps o n t fs task view ⟨u, ws, as ++ (q, i) :: bs, ss⟩) :
    (∀ x ∈ ws, x.2 ≠ i) ∧ ∀ x ∈ as ++ bs, x.2 ≠ i := by
  obtain ⟨-, hactive, hapart⟩ := List.nodup_append.1 h.nodup
  rw [List.map_append, List.map_cons] at hactive
  constructor
  · intro x hx
    exact hapart _ (List.mem_map_of_mem hx) _ (by simp)
  · rintro x hx rfl
    have hi := (List.nodup_cons.1 (List.perm_middle.nodup_iff.1 hactive)).1
    exact hi (by simpa using List.mem_map_of_mem (f := Prod.snd) hx)

theorem start (hc : (task g).Calls (Handles n g))
    (h : Keeps o n t fs task view ⟨u, (g, i) :: ws, as, ss⟩) :
    Keeps o n t fs task view ⟨u, ws, (task g, i) :: as, ss⟩ := by
  obtain ⟨hg, hv⟩ := h.waiting (g, i) List.mem_cons_self
  refine ⟨?_, fun x hx => h.waiting x (List.mem_cons_of_mem _ hx), fun x hx => ?_,
    fun j g' hj hw hn => ?_, h.length_eq⟩
  · exact (List.perm_middle.symm.nodup_iff).1 h.nodup
  · rcases List.mem_cons.1 hx with rfl | hx
    · exact ⟨g, hg, hc, by rw [hv], by rw [hv]⟩
    · exact h.active x hx
  · rw [List.map_cons, List.mem_cons, not_or] at hn
    refine h.done j g' hj ?_ hn.2
    rw [List.map_cons, List.mem_cons, not_or]
    exact ⟨hn.1, hw⟩

/-- The task that called sees its own call only. -/
theorem call {c : Call} {next : c.Answer → Plan α}
    (h : Keeps o n t fs task view ⟨u, ws, as ++ (.call c next, i) :: bs, ss⟩) :
    Keeps o n t fs task (Function.update view i ((view i).answer o c).2)
      ⟨u', ws, as ++ (next ((view i).answer o c).1, i) :: bs, ss⟩ := by
  obtain ⟨hwaiting, hactive⟩ := h.index_ne
  refine ⟨by simpa using h.nodup, fun x hx => ?_, fun x hx => ?_, fun j g' hj hw hn => ?_, h.length_eq⟩
  · rw [Function.update_of_ne (hwaiting x hx)]
    exact h.waiting x hx
  · rcases List.mem_cons.1 (List.perm_middle.mem_iff.1 hx) with rfl | hx
    · obtain ⟨g, hg, hu⟩ := h.active (.call c next, i) (by simp)
      refine ⟨g, hg, hu.calls.of_call.2 _, ?_, ?_⟩
      · rw [Function.update_self]
        exact hu.result
      · rw [Function.update_self]
        exact hu.tree
    · rw [Function.update_of_ne (hactive x hx)]
      exact h.active x (List.perm_middle.mem_iff.2 (List.mem_cons_of_mem _ hx))
  · have hji : j ≠ i := fun h => hn (by simp [h])
    rw [Function.update_of_ne hji]
    exact h.done j g' hj hw (by simpa using hn)

theorem finish {a : α} (h : Keeps o n t fs task view ⟨u, ws, as ++ (.done a, i) :: bs, ss⟩) :
    Keeps o n t fs task view ⟨u, ws, as ++ bs, ss.set i (some a)⟩ := by
  obtain ⟨g, hg, hu⟩ := h.active (.done a, i) (by simp)
  refine ⟨h.nodup.sublist (by simp), h.waiting, fun x hx => ?_, fun j g' hj hw hn => ?_,
    by simp [h.length_eq]⟩
  · exact h.active x (List.perm_middle.mem_iff.2 (List.mem_cons_of_mem _ hx))
  · by_cases hji : j = i
    · subst hji
      rw [hg] at hj
      cases hj
      have hlt : j < ss.length := h.length_eq ▸ (List.getElem?_eq_some_iff.1 hg).1
      refine ⟨?_, hu.tree⟩
      rw [List.getElem?_set_self hlt, ← hu.result]
      rfl
    · rw [List.getElem?_set_ne (Ne.symm hji)]
      exact h.done j g' hj hw (by simpa [hji] using hn)

end Keeps

/-- One step keeps a pool sound. -/
theorem Sound.step {p q : Pool α} (hc : ∀ g, (task g).Calls (Handles n g))
    (hf : ∀ g ∈ fs, t.IsFile g) (ha : fs.Pairwise t.Apart) (hp : Sound o n t fs task p)
    (h : Step o task limit p q) : Sound o n t fs task q := by
  obtain ⟨view, hk, hs⟩ := hp
  cases h with
  | start _ => exact ⟨view, hk.start (hc _), hs⟩
  | @call u c next i ws as bs ss =>
    obtain ⟨g, hg, hu⟩ := hk.active (.call c next, i) (by simp)
    obtain ⟨k, b, hgf⟩ := hf g (List.mem_of_getElem? hg)
    obtain ⟨hans, hs⟩ := hs.answer (o := o) ha hg hgf hu.calls.of_call.1
    rw [hans]
    exact ⟨_, hk.call, hs⟩
  | finish => exact ⟨view, hk.finish, hs⟩

theorem Sound.reaches {p q : Pool α} (hc : ∀ g, (task g).Calls (Handles n g))
    (hf : ∀ g ∈ fs, t.IsFile g) (ha : fs.Pairwise t.Apart) (hp : Sound o n t fs task p)
    (h : p.Reaches o task limit q) : Sound o n t fs task q := by
  induction h with
  | refl => exact hp
  | tail _ h ih => exact ih.step hc hf ha h

/-- What became of the files once nothing is left to do. -/
theorem Sound.slots_eq {p : Pool α} (h : Sound o n t fs task p) (hp : p.IsIdle) :
    p.slots = fs.map fun g => some ((task g).run o t).result := by
  obtain ⟨view, hk, -⟩ := h
  refine List.ext_getElem? fun i => ?_
  rw [List.getElem?_map]
  cases hg : fs[i]? with
  | none =>
    rw [List.getElem?_eq_none_iff] at hg
    exact List.getElem?_eq_none (hk.length_eq ▸ hg)
  | some g => exact (hk.done i g hg (by simp [hp.1]) (by simp [hp.2])).1

/-- There is one tree that pools of the same tasks leave. -/
theorem Sound.tree_eq {p q : Pool α} (h : Sound o n t fs task p) (hp : p.IsIdle)
    (h' : Sound o n t fs task q) (hq : q.IsIdle) : p.tree = q.tree := by
  obtain ⟨view, hk, hs⟩ := h
  obtain ⟨view', hk', hs'⟩ := h'
  refine FileTree.ext_node? fun k => ?_
  by_cases hat : ∃ i, IsAt t fs i k
  · obtain ⟨i, hi⟩ := hat
    obtain ⟨g, _, hg, -⟩ := id hi
    rw [hs.own i k hi, hs'.own i k hi, (hk.done i g hg (by simp [hp.1]) (by simp [hp.2])).2,
      (hk'.done i g hg (by simp [hq.1]) (by simp [hq.2])).2]
  · rw [hs.other k fun i hi => hat ⟨i, hi⟩, hs'.other k fun i hi => hat ⟨i, hi⟩]

/-- An active task can be brought to its end at once. -/
theorem reaches_done (q : Plan α) (i : Nat) (t : FileTree) (ws : List (Path × Nat))
    (as bs : List (Plan α × Nat)) (ss : List (Option α)) :
    Reaches o task limit ⟨t, ws, as ++ (q, i) :: bs, ss⟩
      ⟨(q.run o t).tree, ws, as ++ bs, ss.set i (some (q.run o t).result)⟩ := by
  induction q generalizing t with
  | done a => exact .single .finish
  | call c next ih => exact .head .call (ih _ _)

theorem reaches_of_active (t : FileTree) (ws : List (Path × Nat)) (as : List (Plan α × Nat))
    (ss : List (Option α)) : ∃ u ss', Reaches o task limit ⟨t, ws, as, ss⟩ ⟨u, ws, [], ss'⟩ := by
  induction as generalizing t ss with
  | nil => exact ⟨t, ss, .refl⟩
  | cons x as ih =>
    obtain ⟨u, ss', h⟩ := ih (x.1.run o t).tree (ss.set x.2 (some (x.1.run o t).result))
    exact ⟨u, ss', (reaches_done x.1 x.2 t ws [] as ss).trans h⟩

/-- The files that wait can be worked on one after the other. -/
theorem reaches_of_waiting (hl : 0 < limit) (t : FileTree) (ws : List (Path × Nat))
    (ss : List (Option α)) :
    ∃ ss', Reaches o task limit ⟨t, ws, [], ss⟩
      ⟨(((ws.map Prod.fst).mapM task).run o t).tree, [], [], ss'⟩ := by
  induction ws generalizing t ss with
  | nil => exact ⟨ss, .refl⟩
  | cons w ws ih =>
    obtain ⟨ss', h⟩ := ih ((task w.1).run o t).tree (ss.set w.2 (some ((task w.1).run o t).result))
    refine ⟨ss', .head (.start hl) ((reaches_done _ w.2 t ws [] [] ss).trans ?_)⟩
    rw [List.map_cons, Plan.run_mapM_cons]
    exact h

/-- However far a pool has come, it can be brought to its end. -/
theorem exists_isIdle (hl : 0 < limit) (p : Pool α) : ∃ q, p.Reaches o task limit q ∧ q.IsIdle := by
  obtain ⟨u, ss, h⟩ : ∃ u ss, Reaches o task limit p ⟨u, p.waiting, [], ss⟩ :=
    reaches_of_active p.tree p.waiting p.active p.slots
  obtain ⟨ss', h'⟩ := reaches_of_waiting hl u p.waiting ss
  exact ⟨_, h.trans h', rfl, rfl⟩

end Pool

namespace Setting

variable {s : Setting}

/-- The work on one file, whose fault stops no other. -/
def task (s : Setting) (p : Path) : Plan (Except Failure FileResult) :=
  return (← (s.optimize p).attempt).mapError (⟨p, ·⟩)

theorem task_handles (hs : s.options.naming.IsPlain) (g : Path) :
    (s.task g).Calls (Handles s.options.naming g) :=
  (optimize_handles hs g).attempt.bind fun _ => .done _

theorem run_task (o : Outages) (t : FileTree) (g : Path) :
    ((s.task g).run o t).result = s.outcome o t g := by
  unfold task
  rw [Plan.run_bind]
  rfl

theorem tree_optimizeAll (fs : List Path) :
    ((s.optimizeAll fs).run o t).tree = ((fs.mapM s.task).run o t).tree := by
  unfold optimizeAll
  rw [Plan.run_during]
  rfl

/-- The work on files of a scan comes to the same in any order of the calls, and with any limit to the
tasks at a time: the outcomes stand at the indices of their files, and the tree is the one that work on
one file after the other leaves. -/
theorem pool_optimizeAll {root : Path} {exclude : List String} {all : List Path}
    (hn : s.options.naming.IsPlain)
    (hscan : ((Job.scan root exclude).attempt.run o t).result = .ok all)
    (hsub : ∀ g ∈ fs, g ∈ all) (hd : fs.Nodup) {p : Pool (Except Failure FileResult)}
    (hp : (Pool.start t fs).Reaches o s.task limit p) :
    (0 < limit → ∃ q, p.Reaches o s.task limit q ∧ q.IsIdle) ∧
    (p.IsIdle → p.slots = ((s.optimizeAll fs).run o t).result.map some ∧
      p.tree = ((s.optimizeAll fs).run o t).tree) := by
  obtain ⟨hfiles, hapart⟩ := Job.scan_ok hscan
  have hf : ∀ g ∈ fs, t.IsFile g := fun g hg => hfiles g (hsub g hg)
  have hsymm : Std.Symm t.Apart := ⟨fun _ _ h k x y hq hp => h k y x hp hq⟩
  have ha : fs.Pairwise t.Apart :=
    hd.pairwise_of_forall_ne fun g hg q hq hne => hapart.forall (hsub g hg) (hsub q hq) hne
  have hsound := Pool.sound_start.reaches (task_handles hn) hf ha hp
  refine ⟨fun hl => Pool.exists_isIdle hl p, fun hidle => ⟨?_, ?_⟩⟩
  · rw [hsound.slots_eq hidle, run_optimizeAll hn hf ha, List.map_map]
    exact List.map_congr_left fun g _ => congrArg some (run_task o t g)
  · -- work on one file after the other is one of the orders
    obtain ⟨ss, hseq⟩ := Pool.reaches_of_waiting (o := o) Nat.zero_lt_one t fs.zipIdx
      (fs.map fun _ => none)
    rw [tree_optimizeAll]
    rw [List.zipIdx_map_fst] at hseq
    exact hsound.tree_eq hidle (Pool.sound_start.reaches (task_handles hn) hf ha hseq) ⟨rfl, rfl⟩

/-- Two stylesheets, worked on at the same time. -/
theorem pool_optimizeAll_two :
    let t := (FileTree.empty.put [] "a.css" (.file "a \x7b\x7d".toUTF8)).put [] "b.css"
      (.file "b \x7b\x7d".toUTF8)
    let s : Setting := ⟨⟨fun _ x => .ok x, fun _ x => .ok (x ++ "\n"), .ok, fun _ => [], fun _ _ => [],
      []⟩, {}, false, none⟩
    let fs : List Path := [⟨"./a.css"⟩, ⟨"./b.css"⟩]
    s.options.naming.IsPlain ∧
    ((Job.scan ⟨"."⟩ []).attempt.run {} t).result = .ok fs ∧ fs.Nodup ∧
    ∃ p : Pool (Except Failure FileResult), (Pool.start t fs).Reaches {} s.task 2 p ∧ p.IsIdle ∧
      p.slots = ((s.optimizeAll fs).run {} t).result.map some ∧
      p.tree = ((s.optimizeAll fs).run {} t).tree := by
  intro t s fs
  have hscan : ((Job.scan ⟨"."⟩ []).attempt.run {} t).result = .ok fs := by decide +kernel
  have hd : fs.Nodup := by decide
  obtain ⟨p, hp, hidle⟩ := (pool_optimizeAll (s := s) Naming.isPlain_default hscan
    (fun _ hg => hg) hd .refl).1 Nat.zero_lt_two
  have hresult := (pool_optimizeAll Naming.isPlain_default hscan (fun _ hg => hg) hd hp).2 hidle
  exact ⟨Naming.isPlain_default, hscan, hd, p, hp, hidle, hresult.1, hresult.2⟩

end Setting

end SiteBuild
