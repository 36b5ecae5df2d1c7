import SiteBuild.Fault
import SiteBuild.Table

/-!
Trees of files. Every node stands in a directory, and what an operation changes is told by what is
found at each place afterwards: one node put there, or a place and all below it gone.
-/
namespace SiteBuild

/-- The names from the top of a tree down to a node. -/
abbrev Place := List String

instance decidableEqBytes : DecidableEq ByteArray := ByteArray.instDecidableEq

inductive Node
  | directory
  | file (bytes : ByteArray)
  deriving DecidableEq

/-- Whether a name is longer than the name of any file. -/
def isTooLong (n : String) : Bool := 255 < n.utf8ByteSize

/-- What may be the name of a file: one segment of a path that stands for itself. -/
def IsFileName (n : String) : Prop :=
  Path.component? n.toList = some (.name n) ∧ '/' ∉ n.toList ∧ '\x00' ∉ n.toList ∧
    isTooLong n = false

instance (n : String) : Decidable (IsFileName n) := inferInstanceAs (Decidable (_ ∧ _))

structure FileTree where
  nodes : Table Place Node
  top : nodes.get? [] = some .directory
  rooted : ∀ k n, nodes.get? (k ++ [n]) ≠ none → nodes.get? k = some .directory
  named : ∀ k n, nodes.get? (k ++ [n]) ≠ none → IsFileName n

namespace FileTree

def node? (t : FileTree) (k : Place) : Option Node := t.nodes.get? k

def empty : FileTree where
  nodes := Table.empty.insert [] .directory
  top := by simp
  rooted := by simp
  named := by simp

/-- A tree is told by what is found at each place. -/
theorem ext_node? {t t' : FileTree} (h : ∀ k, t.node? k = t'.node? k) : t = t' := by
  obtain ⟨nodes, _, _, _⟩ := t
  obtain ⟨nodes', _, _, _⟩ := t'
  obtain rfl : nodes = nodes' := Table.ext_get? h
  rfl

@[simp] theorem node?_top (t : FileTree) : t.node? [] = some .directory := t.top

theorem node?_parent {t : FileTree} {k : Place} {n : String} (h : t.node? (k ++ [n]) ≠ none) :
    t.node? k = some .directory :=
  t.rooted k n h

theorem isFileName {t : FileTree} {k : Place} {n : String} (h : t.node? (k ++ [n]) ≠ none) :
    IsFileName n :=
  t.named k n h

/-- Whether a node may be put under a name of a directory. A directory is never replaced. -/
def Admits (t : FileTree) (k : Place) (n : String) : Prop :=
  IsFileName n ∧ t.node? k = some .directory ∧ t.node? (k ++ [n]) ≠ some .directory

instance (t : FileTree) (k : Place) (n : String) : Decidable (t.Admits k n) :=
  inferInstanceAs (Decidable (_ ∧ _))

/-- The tree with a node under a name of a directory. -/
def put (t : FileTree) (k : Place) (n : String) (x : Node) : FileTree :=
  if h : t.Admits k n then
    { nodes := t.nodes.insert (k ++ [n]) x
      top := by simp [t.top]
      rooted := by
        intro k' n' h'
        simp only [Table.get?_insert] at h' ⊢
        by_cases e : k' ++ [n'] = k ++ [n]
        · obtain ⟨rfl, -⟩ := List.append_inj' e rfl
          rw [if_neg (by simp)]
          exact h.2.1
        · rw [if_neg e] at h'
          have := t.rooted k' n' h'
          have hk : k' ≠ k ++ [n] := fun hk => h.2.2 (by rw [← hk]; exact this)
          rw [if_neg hk]
          exact this
      named := by
        intro k' n' h'
        simp only [Table.get?_insert] at h'
        by_cases e : k' ++ [n'] = k ++ [n]
        · obtain ⟨-, e⟩ := List.append_inj' e rfl
          rw [List.singleton_inj.1 e]
          exact h.1
        · rw [if_neg e] at h'
          exact t.named k' n' h' }
  else t

theorem node?_put {t : FileTree} {k : Place} {n : String} (h : t.Admits k n) (x : Node)
    (k' : Place) : (t.put k n x).node? k' = if k' = k ++ [n] then some x else t.node? k' := by
  simp [put, h, node?]

/-- The tree without a place and all below it. The top itself stays. -/
def prune (t : FileTree) (k : Place) : FileTree where
  nodes := t.nodes.filter fun k' => k'.isEmpty || !decide (k <+: k')
  top := by simp [Table.get?_filter, t.top]
  rooted := by
    intro k' n h
    simp only [Table.get?_filter] at h ⊢
    have hn : ¬k <+: k' ++ [n] := fun hn => by simp [hn] at h
    have hk : ¬k <+: k' := fun hk => hn (hk.trans (List.prefix_append _ _))
    simp [hn] at h
    simpa [hk] using t.rooted k' n h
  named := by
    intro k' n h
    rw [Table.get?_filter] at h
    exact t.named k' n fun h' => h (by simp [h'])

theorem node?_prune (t : FileTree) (k k' : Place) :
    (t.prune k).node? k' = if k' ≠ [] ∧ k <+: k' then none else t.node? k' := by
  by_cases h : k' = [] <;> by_cases hk : k <+: k' <;>
    simp [prune, node?, Table.get?_filter, h, hk, t.top]

theorem node?_below {t : FileTree} {k s : Place} (h : t.node? (k ++ s) ≠ none) (hs : s ≠ []) :
    t.node? k = some .directory := by
  induction s generalizing k with
  | nil => exact absurd rfl hs
  | cons n s ih =>
    by_cases hs' : s = []
    · exact node?_parent (hs' ▸ h)
    · have := ih (k := k ++ [n]) (by simpa using h) hs'
      exact node?_parent (n := n) (by simp [this])

theorem node?_prune_file {t : FileTree} {k : Place} {b : ByteArray} (h : t.node? k = some (.file b))
    (k' : Place) : (t.prune k).node? k' = if k' = k then none else t.node? k' := by
  have hk : k ≠ [] := fun hk => by simp [hk] at h
  rw [node?_prune]
  by_cases e : k' = k
  · simp [e, hk]
  · rw [if_neg e]
    split
    · next hp =>
      obtain ⟨s, rfl⟩ := hp.2
      cases hs : t.node? (k ++ s) with
      | none => rfl
      | some x =>
        have := node?_below (t := t) (k := k) (s := s) (by simp [hs]) (by rintro rfl; simp at e)
        simp [h] at this
    · rfl

/-- The files at a place and below it, as seen from there. -/
def filesWithin (t : FileTree) (k : Place) : List Place :=
  t.nodes.entries.filterMap fun (k', x) =>
    match x with
    | .directory => none
    | .file _ => if k <+: k' then some (k'.drop k.length) else none

/-- The nodes that nothing stands in. -/
def leaves (t : FileTree) : List (Place × Node) :=
  t.nodes.entries.filter fun (k, _) => !t.nodes.keys.any fun k' => k <+: k' && k ≠ k'

end FileTree

end SiteBuild
