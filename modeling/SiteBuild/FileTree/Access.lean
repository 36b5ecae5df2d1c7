import SiteBuild.FileTree

/-!
Reaching into a tree by paths. A path is walked from the top, one component at a time, and everything
in front of its last component has to be a directory. Nothing stands above the top, and no absolute
path leads into a tree.
-/
namespace SiteBuild

namespace Path

/-- The components in the order of a walk. A `.` at the end counts: a directory has to stand there. -/
def steps (p : Path) : List Component :=
  p.components ++
    if ((segments p.text.toList).filter (!·.isEmpty)).getLast? = some ['.'] then [.here] else []

/-- Whether a path can only name a directory. -/
def endsInSlash (p : Path) : Bool := p.text.toList.getLast? = some '/'

/-- The path and what it lies in, up to the outermost of these; `n` bounds their number. -/
def outward : Nat → Path → List Path
  | 0, _ => []
  | n + 1, p =>
    if p.text.isEmpty then [] else p :: (p.parent?.map (outward n)).getD []

/-- The path and what it lies in. -/
def ancestors (p : Path) : List Path := outward (p.components.length + 1) p

end Path

namespace FileTree

/-- Where a walk ends: in a directory, or at a name in one. -/
inductive Target
  | directory (k : Place)
  | entry (k : Place) (name : String)
  deriving DecidableEq, Repr

/-- One step of a walk from a directory to a directory. -/
def enter (t : FileTree) (k : Place) : Component → Except IoError Place
  | .root => .error .notFound
  | .here => .ok k
  | .up => if k = [] then .error .notFound else .ok k.dropLast
  | .name n =>
    match t.node? (k ++ [n]) with
    | some .directory => .ok (k ++ [n])
    | some (.file _) => .error .notADirectory
    | none => .error (if isTooLong n then .nameTooLong else .notFound)

def walk (t : FileTree) (k : Place) : List Component → Except IoError Target
  | [] => .ok (.directory k)
  | [.name n] => if isTooLong n then .error .nameTooLong else .ok (.entry k n)
  | c :: cs => do walk t (← t.enter k c) cs

@[irreducible] def target (t : FileTree) (p : Path) : Except IoError Target :=
  if p.text.toList.contains '\x00' then .error .invalidName
  else match p.steps with
    | [] => .error .notFound
    | cs => t.walk [] cs

theorem enter_directory {t : FileTree} {k k' : Place} {c : Component}
    (hk : t.node? k = some .directory) (h : t.enter k c = .ok k') :
    t.node? k' = some .directory := by
  fun_cases enter t k c with
  | case1 => simp [enter] at h
  | case2 => exact Except.ok.inj h ▸ hk
  | case3 hn => simp [enter, hn] at h
  | case4 hn =>
    obtain rfl : k.dropLast = k' := by simpa [enter, hn] using h
    refine node?_parent (n := k.getLast hn) ?_
    rw [List.dropLast_concat_getLast hn, hk]
    simp
  | case5 n hn =>
    obtain rfl : k ++ [n] = k' := by simpa [enter, hn] using h
    exact hn
  | case6 n _ hn => simp [enter, hn] at h
  | case7 n hn => simp [enter, hn] at h

/-- A walk that ends at a name ends in a directory. -/
theorem walk_entry {t : FileTree} {k k' : Place} {n : String} {cs : List Component}
    (hk : t.node? k = some .directory) (h : t.walk k cs = .ok (.entry k' n)) :
    t.node? k' = some .directory := by
  fun_induction walk t k cs with
  | case1 => simp at h
  | case2 => simp at h
  | case3 k m =>
    obtain ⟨rfl, rfl⟩ := Target.entry.inj (Except.ok.inj h)
    exact hk
  | case4 k c cs _ ih =>
    cases he : t.enter k c with
    | error e => simp [he, bind, Except.bind] at h
    | ok k'' =>
      simp only [he, bind, Except.bind] at h
      exact ih k'' (enter_directory hk he) h

theorem target_entry {t : FileTree} {p : Path} {k : Place} {n : String}
    (h : t.target p = .ok (.entry k n)) : t.node? k = some .directory := by
  unfold target at h
  split at h
  · simp at h
  · split at h
    · simp at h
    · exact walk_entry t.node?_top h

/-- The place of a node that is there, and the node. -/
def find (t : FileTree) (p : Path) : Except IoError (Place × Node) := do
  match ← t.target p with
  | .directory k => return (k, .directory)
  | .entry k n =>
    match t.node? (k ++ [n]) with
    | none => .error .notFound
    | some (.file b) =>
      if p.endsInSlash then .error .notADirectory else return (k ++ [n], .file b)
    | some .directory => return (k ++ [n], .directory)

def read (t : FileTree) (p : Path) : Except IoError String := do
  match ← t.find p with
  | (_, .directory) => .error .isADirectory
  | (_, .file b) => (String.fromUTF8? b).elim (.error .invalidText) .ok

def isThere (t : FileTree) (p : Path) : Bool := (t.find p).isOk

def isDirectory (t : FileTree) (p : Path) : Bool :=
  match t.find p with
  | .ok (_, .directory) => true
  | _ => false

/-- The files at a path and below it, spelled from there on, in the order of their places. -/
def list (t : FileTree) (p : Path) : Except IoError (List Path) := do
  let (k, _) ← t.find p
  return (t.filesWithin k).map fun names => names.foldl (fun q n => q.join ⟨n⟩) p

/-- Makes one directory in a directory. -/
def make (t : FileTree) (p : Path) : Except IoError FileTree := do
  match ← t.target p with
  | .directory _ => .error .alreadyExists
  | .entry k n =>
    match t.node? (k ++ [n]) with
    | none => return t.put k n .directory
    | some _ => .error .alreadyExists

/-- Makes a directory, given what it lies in, which is made where it is missing. What was made stays,
also where a file stands in the way. -/
def makeAll (t : FileTree) : List Path → FileTree × Except IoError Unit
  | [] => (t, .ok ())
  | p :: outer =>
    match t.make p with
    | .ok t => (t, .ok ())
    | .error .notFound =>
      match t.makeAll outer with
      | (t, .ok ()) =>
        match t.make p with
        | .ok t => (t, .ok ())
        | .error e => (t, if t.isDirectory p then .ok () else .error e)
      | (t, .error e) => (t, .error e)
    | .error e => (t, if t.isDirectory p then .ok () else .error e)

def createAll (t : FileTree) (p : Path) : FileTree × Except IoError Unit := t.makeAll p.ancestors

/-- Writes over a file, or puts a new one into a directory. -/
def store (t : FileTree) (p : Path) (bytes : ByteArray) : FileTree × Except IoError Unit :=
  match t.target p with
  | .error e => (t, .error e)
  | .ok (.directory _) => (t, .error .isADirectory)
  | .ok (.entry k n) =>
    if p.endsInSlash ∨ t.node? (k ++ [n]) = some .directory then (t, .error .isADirectory)
    else (t.put k n (.file bytes), .ok ())

/-- Writes a file and makes the directories that it needs. -/
def write (t : FileTree) (p : Path) (bytes : ByteArray) : FileTree × Except IoError Unit :=
  match p.parent? with
  | none => t.store p bytes
  | some directory =>
    match t.createAll directory with
    | (t, .ok ()) => t.store p bytes
    | (t, .error e) => (t, .error e)

/-- Removes a file. One that is not there is no error. -/
def remove (t : FileTree) (p : Path) : FileTree × Except IoError Bool :=
  match t.target p with
  | .error .notFound => (t, .ok false)
  | .error e => (t, .error e)
  | .ok (.directory _) => (t, .error .isADirectory)
  | .ok (.entry k n) =>
    match t.node? (k ++ [n]) with
    | none => (t, .ok false)
    | some .directory => (t, .error .isADirectory)
    | some (.file _) =>
      if p.endsInSlash then (t, .error .notADirectory) else (t.prune (k ++ [n]), .ok true)

end FileTree

end SiteBuild
