import SiteBuild.Fault
import SiteBuild.Naming
import SiteBuild.Script.Module
import SiteBuild.Text.Blank

/-!
Imports of stylesheets, turned into what a page without a bundler can run. An import that binds
nothing goes away, one that binds names becomes a constant: the address of the stylesheet, or its map
of class names. All other text stays as it is.
-/
namespace SiteBuild

namespace ClassMap

/-- The map that a proxy holds where `let json` starts a line. -/
def readAt? (s : List Char) : Option (List Char) := do
  let s ← Text.after? "let json".toList s
  let s ← Text.after? ['='] (Text.trimStart s)
  let s ← Text.after? ['{'] (Text.trimStart s)
  let body := s.takeWhile (· ≠ '}')
  if body.isEmpty || s.length = body.length then none else some ('{' :: body ++ ['}'])

/-- The leftmost map that stands at the start of a line. -/
def find? (lineStart : Bool) : List Char → Option (List Char)
  | [] => none
  | c :: s => (if lineStart then readAt? (c :: s) else none).or (find? (c = '\n') s)

def ofProxy? (s : String) : Option (List Char) := find? true s.toList

end ClassMap

namespace Embed

/-- The rest behind the `as` of a namespace, given the text behind its star. -/
def afterNamespace? (s : List Char) : Option (List Char) :=
  if s.head?.any Text.isBlank then
    (Text.after? ['a', 's'] (Text.trimStart s)).bind fun s =>
      if s.head?.any Text.isBlank then some (Text.trimStart s) else none
  else none

/-- A clause with every `* as` left out; `skip` more characters belong to one. -/
def dropNamespaces (skip : Nat) : List Char → List Char
  | [] => []
  | c :: s =>
    match skip with
    | skip + 1 => dropNamespaces skip s
    | 0 =>
      if c = '*' then
        match afterNamespace? s with
        | some r => dropNamespaces (s.length - r.length) s
        | none => c :: dropNamespaces 0 s
      else c :: dropNamespaces 0 s

/-- What an import binds: the text in front of `from`, a namespace by its name alone. -/
def boundNames (d : Script.Dependency) : List Char :=
  let clause := Text.trim d.clause
  dropNamespaces 0 (Text.trim ((Text.before? "from".toList clause).getD clause))

/-- What becomes of a dependency. -/
inductive Outcome
  | kept
  | removed (e : CssEntry)
  | replaced (e : CssEntry) (text : List Char)
  deriving DecidableEq, Repr

namespace Outcome

def entry? : Outcome → Option CssEntry
  | .kept => none
  | .removed e => some e
  | .replaced e _ => some e

/-- The code behind a dependency. An edit takes one more semicolon along, a removal a line's end. -/
def cut (o : Outcome) (code : List Char) : List Char :=
  let rest := (Text.after? [';'] code).getD code
  match o with
  | .kept => code
  | .replaced _ _ => rest
  | .removed _ =>
    ((Text.after? ['\r', '\n'] rest).or (Text.after? ['\n'] rest)).getD rest

def render (o : Outcome) (d : Script.Dependency) (code : List Char) : List Char :=
  match o with
  | .kept => d.source ++ code
  | .removed _ => o.cut code
  | .replaced _ text => text ++ o.cut code

end Outcome

def constant (names value : List Char) : List Char :=
  "const ".toList ++ names ++ " = ".toList ++ value ++ [';']

/-- The stylesheet and the proxy that a specifier in a file names. -/
def entryOf (n : Naming) (file : Path) (specifier : String) : CssEntry :=
  ⟨file.resolveFrom (n.actual specifier), file.resolveFrom specifier⟩

/-- Whether an import needs the map of its proxy. -/
def needsMap (n : Naming) (d : Script.Dependency) : Bool :=
  let specifier := String.ofList d.specifier
  d.isImport && n.isCssProxy specifier && !(boundNames d).isEmpty &&
    n.isCssModule (n.actual specifier)

/-- What becomes of a dependency of `file`. Without its map an import is kept. -/
def outcome (proxyText : Path → Except IoError String) (n : Naming) (file : Path)
    (d : Script.Dependency) : Except IoError Outcome :=
  let specifier := String.ofList d.specifier
  if !(d.isImport && n.isCssProxy specifier) then .ok .kept
  else
    let e := entryOf n file specifier
    let names := boundNames d
    if names.isEmpty then .ok (.removed e)
    else if n.isCssModule (n.actual specifier) then
      match proxyText e.proxy with
      | .ok text =>
        .ok (match ClassMap.ofProxy? text with
          | some map => .replaced e (constant names map)
          | none => .kept)
      | .error .notFound => .ok .kept
      | .error cause => .error cause
    else .ok (.replaced e (constant names ('\x27' :: (n.actual specifier).toList ++ ['\x27'])))

end Embed

/-- A script with its stylesheets embedded, and an entry for each import that went. -/
structure Embedded where
  imports : List CssEntry
  code : String
  deriving DecidableEq, Repr

namespace Embedded

def ofModule (proxyText : Path → Except IoError String) (n : Naming) (file : Path)
    (m : Script.Module) : Except IoError Embedded := do
  let parts ← m.parts.mapM fun (d, code) =>
    return (← Embed.outcome proxyText n file d, d, code)
  return ⟨parts.filterMap fun (o, _) => o.entry?,
    String.ofList (m.head ++ parts.flatMap fun (o, d, code) => o.render d code)⟩

/-- The proxies whose text the embedding asks for. -/
def proxiesRead (n : Naming) (file : Path) (m : Script.Module) : List Path :=
  (m.parts.map Prod.fst).filter (Embed.needsMap n) |>.map fun d =>
    (Embed.entryOf n file (String.ofList d.specifier)).proxy

def ofCode (proxyText : Path → Except IoError String) (n : Naming) (file : Path) (code : String) :
    Except Fault Embedded :=
  match Script.Module.read? code.toList with
  | none => .error (.unreadable none)
  | some m => (ofModule proxyText n file m).mapError .io

end Embedded

/-- Whether a script imports a proxy of a stylesheet, if it is a module at all. -/
def importsCss? (n : Naming) (code : String) : Option Bool :=
  (Script.Module.read? code.toList).map fun m =>
    m.imports.any fun d => n.isCssProxy (String.ofList d.specifier)

end SiteBuild
