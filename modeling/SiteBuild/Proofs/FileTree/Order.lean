import Mathlib.Data.List.Sort
import SiteBuild.Proofs.FileTree.Listing
import SiteBuild.Proofs.Table

/-! The order of a listing. A walk that goes through each directory by its names in their order, and through
all below a name before the next one, meets the files in the order of their places: that of a listing. -/

namespace SiteBuild.FileTree

variable {t : FileTree} {k s : Place} {out : List Place}

theorem node?_of_append (h : t.node? (k ++ s) ≠ none) : t.node? k ≠ none := by
  by_cases hs : s = []
  · simpa [hs] using h
  · simp [node?_below h hs]

/-- What a walk meets at a place and below it, as seen from there. -/
inductive Walks (t : FileTree) : Place → List Place → Prop
  | file {k : Place} {b : ByteArray} (here : t.node? k = some (.file b)) : Walks t k [[]]
  | directory {k : Place} {names : List String} {below : String → List Place}
      (here : t.node? k = some .directory) (ascending : names.Pairwise (· < ·))
      (present : ∀ n, n ∈ names ↔ t.node? (k ++ [n]) ≠ none)
      (inner : ∀ n ∈ names, Walks t (k ++ [n]) (below n)) :
      Walks t k (names.flatMap fun n => (below n).map (n :: ·))

theorem Walks.mem_iff (h : t.Walks k out) : s ∈ out ↔ ∃ b, t.node? (k ++ s) = some (.file b) := by
  induction h generalizing s with
  | @file k b here =>
    rw [List.mem_singleton]
    constructor
    · rintro rfl
      exact ⟨b, by simpa using here⟩
    · rintro ⟨c, hc⟩
      by_contra hs
      have hdir := node?_below (t := t) (k := k) (s := s) (by simp [hc]) hs
      simp [here] at hdir
  | @directory k names below here ascending present inner ih =>
    simp only [List.mem_flatMap, List.mem_map]
    constructor
    · rintro ⟨n, hn, r, hr, rfl⟩
      obtain ⟨b, hb⟩ := (ih n hn).1 hr
      exact ⟨b, by simpa using hb⟩
    · rintro ⟨b, hb⟩
      cases s with
      | nil => simp [here] at hb
      | cons n r =>
        have hb : t.node? (k ++ [n] ++ r) = some (.file b) := by simpa using hb
        have hn : n ∈ names := (present n).2 (node?_of_append (hb ▸ Option.some_ne_none _))
        exact ⟨n, hn, r, (ih n hn).2 ⟨b, hb⟩, rfl⟩

/-- The order of the names in each directory makes the order of the places. -/
theorem Walks.ascending (h : t.Walks k out) : out.Pairwise (· < ·) := by
  induction h with
  | file => simp
  | directory here ascending present inner ih =>
    rw [List.pairwise_flatMap]
    refine ⟨fun n hn => ?_, ascending.imp fun hlt x hx y hy => ?_⟩
    · rw [List.pairwise_map]
      exact (ih n hn).imp fun hlt => List.cons_lt_cons_iff.2 (.inr ⟨rfl, hlt⟩)
    · obtain ⟨x, -, rfl⟩ := List.mem_map.1 hx
      obtain ⟨y, -, rfl⟩ := List.mem_map.1 hy
      exact List.cons_lt_cons_iff.2 (.inl hlt)

/-! ### Walks exist -/

/-- The name of what stands at a place in a directory. -/
def nameIn? (k k' : Place) : Option String :=
  if k <+: k' then
    match k'.drop k.length with
    | [n] => some n
    | _ => none
  else none

theorem nameIn?_eq_some {k' : Place} {n : String} : nameIn? k k' = some n ↔ k' = k ++ [n] := by
  constructor
  · intro h
    unfold nameIn? at h
    split at h
    · next hk =>
      obtain ⟨r, rfl⟩ := hk
      rw [List.drop_left] at h
      split at h
      · rw [Option.some.inj h]
      · cases h
    · cases h
  · rintro rfl
    simp [nameIn?]

/-- The names of what stands in a directory. -/
def names (t : FileTree) (k : Place) : List String := t.nodes.keys.filterMap (nameIn? k)

theorem mem_keys {k : Place} : k ∈ t.nodes.keys ↔ t.node? k ≠ none := by
  rw [Table.keys, List.mem_map]
  constructor
  · rintro ⟨⟨k', x⟩, hx, rfl⟩
    rw [node?, Table.get?_of_mem hx]
    exact Option.some_ne_none x
  · intro h
    obtain ⟨x, hx⟩ := Option.ne_none_iff_exists'.1 h
    exact ⟨(k, x), Table.mem_of_get? hx, rfl⟩

theorem mem_names {n : String} : n ∈ t.names k ↔ t.node? (k ++ [n]) ≠ none := by
  simp only [names, List.mem_filterMap, nameIn?_eq_some, exists_eq_right, mem_keys]

theorem names_ascending (t : FileTree) (k : Place) : (t.names k).Pairwise (· < ·) := by
  refine List.Pairwise.filterMap _ (fun i j hlt n hn m hm => ?_) t.nodes.keys_ascending
  obtain rfl := nameIn?_eq_some.1 hn
  obtain rfl := nameIn?_eq_some.1 hm
  rcases List.cons_lt_cons_iff.1 (lt_of_append_lt hlt) with hlt | ⟨-, hlt⟩
  · exact hlt
  · exact absurd hlt (List.not_lt_nil [])

/-- A tree is no deeper than it has names in all. -/
theorem length_le (h : t.node? k ≠ none) : k.length ≤ t.nodes.keys.flatten.length :=
  (List.sublist_flatten_of_mem (mem_keys.2 h)).length_le

theorem exists_walks {k : Place} (h : t.node? k ≠ none) : ∃ out, t.Walks k out := by
  obtain ⟨x, hx⟩ := Option.ne_none_iff_exists'.1 h
  cases x with
  | file b => exact ⟨_, .file hx⟩
  | directory =>
    have hbelow (n : String) : ∃ out, n ∈ t.names k → t.Walks (k ++ [n]) out := by
      by_cases hn : n ∈ t.names k
      · have hdepth := length_le (mem_names.1 hn)
        obtain ⟨out, hout⟩ := exists_walks (mem_names.1 hn)
        exact ⟨out, fun _ => hout⟩
      · exact ⟨[], fun h => absurd h hn⟩
    obtain ⟨below, hbelow⟩ := Classical.skolem.1 hbelow
    exact ⟨_, .directory hx (t.names_ascending k) (fun n => mem_names) hbelow⟩
  termination_by t.nodes.keys.flatten.length - k.length
  decreasing_by
    rw [List.length_append, List.length_singleton] at hdepth ⊢
    omega

/-- A listing is what a walk meets. -/
theorem walks_iff : t.Walks k out ↔ t.node? k ≠ none ∧ out = t.filesWithin k := by
  have hfiles {out : List Place} (h : t.Walks k out) : out = t.filesWithin k :=
    h.ascending.eq_of_mem_iff (t.filesWithin_ascending k) fun s => h.mem_iff.trans mem_filesWithin.symm
  constructor
  · intro h
    refine ⟨?_, hfiles h⟩
    cases h with
    | file here => simp [here]
    | directory here => simp [here]
  · rintro ⟨h, rfl⟩
    obtain ⟨out, hout⟩ := exists_walks h
    exact hfiles hout ▸ hout

end SiteBuild.FileTree
