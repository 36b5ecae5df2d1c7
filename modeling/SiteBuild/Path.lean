import SiteBuild.Text.Match

/-!
Paths. A path keeps its spelling; what it names is read off its components, which leave out empty
segments and every `.` but a leading one. Joining works on the spelling, resolving on components.
-/
namespace SiteBuild

inductive Component
  | root
  | here
  | up
  | name (s : String)
  deriving DecidableEq, Repr

structure Path where
  text : String
  deriving DecidableEq, Repr

namespace Path

/-- The parts of a text between its slashes. -/
def segments (s : List Char) : List (List Char) := s.splitOn '/'

/-- What a segment behind the first one names. -/
def component? : List Char → Option Component
  | [] => none
  | ['.'] => none
  | ['.', '.'] => some .up
  | s => some (.name (String.ofList s))

def components (p : Path) : List Component :=
  match segments p.text.toList with
  | [] :: s :: rest => .root :: (s :: rest).filterMap component?
  | ['.'] :: rest => .here :: rest.filterMap component?
  | rest => rest.filterMap component?

/-- Two spellings of one path. -/
def same (p q : Path) : Bool := p.components = q.components

def isAbsolute (p : Path) : Bool := p.text.toList.head? = some '/'

/-- The path `q` seen from the directory `p`; an absolute `q` stands for itself. -/
def join (p q : Path) : Path :=
  if q.isAbsolute then q
  else match p.text.toList.getLast? with
    | none => q
    | some '/' => ⟨p.text ++ q.text⟩
    | some _ => ⟨p.text ++ "/" ++ q.text⟩

def Component.text : Component → String
  | .root => "/"
  | .here => "."
  | .up => ".."
  | .name s => s

/-- The spelling with one slash between components. -/
def ofComponents (cs : List Component) : Path :=
  cs.foldl (fun p c => p.join ⟨Component.text c⟩) ⟨""⟩

def fileName? (p : Path) : Option String :=
  match p.components.getLast? with
  | some (.name s) => some s
  | _ => none

/-- A name cut at its last dot, unless nothing stands in front of the dot. -/
def stemAndExtension (name : List Char) : List Char × Option (List Char) :=
  match (name.reverse.dropWhile (· ≠ '.')).drop 1 with
  | [] => (name, none)
  | stem => (stem.reverse, some (name.drop (stem.length + 1)))

def extension? (p : Path) : Option String :=
  p.fileName?.bind fun s => (stemAndExtension s.toList).2.map String.ofList

/-- Segments that name nothing, so that a path may end in them. -/
def isIdle (s : List Char) : Bool := s.isEmpty || s = ['.']

def dropIdleEnd (ss : List (List Char)) : List (List Char) :=
  (ss.reverse.dropWhile isIdle).reverse

def ofSegments (ss : List (List Char)) : Path :=
  ⟨String.ofList (List.intercalate ['/'] ss)⟩

/-- The spelling up to the component in front of the last one. -/
def parent? (p : Path) : Option Path :=
  match segments p.text.toList with
  | [] => none
  | first :: rest =>
    match dropIdleEnd rest with
    | [] => if first.isEmpty then none else some ⟨""⟩
    | rest =>
      match first, dropIdleEnd rest.dropLast with
      | [], [] => some ⟨"/"⟩
      | first, rest => some (ofSegments (first :: rest))

/-- One step of lexical resolution, on the components so far with the last one in front. -/
def resolveStep : List Component → Component → List Component
  | done, .here => done
  | [], .up => [.up]
  | .root :: done, .up => .up :: .root :: done
  | _ :: done, .up => done
  | done, c => c :: done

/-- The components with `.` left out and each `..` resolved against what stands before it. -/
def resolve (cs : List Component) : List Component := (cs.foldl resolveStep []).reverse

def normalize (p : Path) : Path := ofComponents (resolve p.components)

/-- A specifier as seen from the directory of the file that holds it. -/
def resolveFrom (importer : Path) (specifier : String) : Path :=
  ((importer.parent?.getD ⟨""⟩).join ⟨specifier⟩).normalize

/-- The components behind those of `base`. -/
def stripPrefix? (base p : Path) : Option (List Component) :=
  if base.components.isPrefixOf p.components then
    some (p.components.drop base.components.length)
  else none

def relativeName? : Component → Option String
  | .name s => some s
  | .up => some ".."
  | _ => none

/-- The components of `p` below `base`, joined by slashes. -/
def relativeTo (base p : Path) : String :=
  "/".intercalate (((stripPrefix? base p).getD p.components).filterMap relativeName?)

/-- The address of a file of the site whose root directory is `base`. -/
def urlFrom (base p : Path) : String := "/" ++ relativeTo base p

end Path

/-- Addresses of another host, which are none of the site's files. -/
def isRemote (specifier : String) : Bool :=
  ["//", "http://", "https://"].any fun w => w.toList.isPrefixOf specifier.toList

def dropLeadingSlashes (s : String) : String :=
  String.ofList (s.toList.dropWhile fun c => c = '/' || c = '\\')

/-- A specifier without its query and fragment. -/
def dropQuery (specifier : String) : String :=
  String.ofList (specifier.toList.takeWhile fun c => c ≠ '?' && c ≠ '#')

/-- The file that a specifier names. Addresses of another host name none, nor do bare names. -/
def resolveLocal? (root importer : Path) (specifier : String) : Option Path :=
  let specifier := dropQuery specifier
  let startsWith (w : String) := w.toList.isPrefixOf specifier.toList
  if isRemote specifier then none
  else if startsWith "/" then some (root.join ⟨dropLeadingSlashes specifier⟩).normalize
  else if startsWith "./" || startsWith "../" then some (importer.resolveFrom specifier)
  else none

end SiteBuild
