import SiteBuild.Json.Decode
import SiteBuild.Naming

/-!
The record of a run: for each file the stylesheets that were embedded into it, by root-relative
paths, and what the run generated.
-/
namespace SiteBuild

/-- What one file contributed to a run. -/
structure FileResult where
  file : Path
  css : List CssEntry
  deriving DecidableEq, Repr

namespace FileResult

/-- The entries whose stylesheet no earlier one names. -/
def distinct (seen : List Path) : List CssEntry → List CssEntry
  | [] => []
  | e :: es =>
    if seen.any e.actual.same then distinct seen es else e :: distinct (e.actual :: seen) es

/-- The stylesheets of some results, each once, in the order of their first entry. -/
def uniqueCss (rs : List FileResult) : List CssEntry := distinct [] (rs.flatMap FileResult.css)

end FileResult

/-- Paths of a stylesheet and its proxy below the root. -/
structure ManifestCss where
  actual : String
  proxy : String
  deriving DecidableEq, Repr

structure Manifest where
  imports : Table String (List ManifestCss)
  generated : List String

namespace ManifestCss

def of (root : Path) (e : CssEntry) : ManifestCss :=
  ⟨root.relativeTo e.actual, root.relativeTo e.proxy⟩

def toJson (c : ManifestCss) : Json :=
  .object [("actual", .text c.actual), ("proxy", .text c.proxy)]

def ofJson : Json.Decoder ManifestCss := fun v => do
  match ← Json.fields ["actual", "proxy"] true v with
  | [actual, proxy] =>
    return ⟨← Json.required "actual" Json.asText actual, ← Json.required "proxy" Json.asText proxy⟩
  | _ => .error "invalid length"

end ManifestCss

namespace Manifest

def build (root : Path) (results : List FileResult) (generated : List Path) : Manifest :=
  ⟨Table.ofList (results.map fun r => (root.relativeTo r.file, r.css.map (ManifestCss.of root))),
    generated.map root.relativeTo⟩

/-- A file without stylesheets has an empty record. -/
def fileToJson (css : List ManifestCss) : Json :=
  if css.isEmpty then .object [] else .object [("css", .array (css.map ManifestCss.toJson))]

def fileOfJson : Json.Decoder (List ManifestCss) := fun v => do
  match ← Json.fields ["css"] false v with
  | [css] => Json.withDefault [] (Json.asList ManifestCss.ofJson) css
  | _ => .error "invalid length"

def toJson (m : Manifest) : Json :=
  .object [("imports", .object (m.imports.entries.map fun e => (some e.1, fileToJson e.2))),
    ("generated", .array (m.generated.map .text))]

def ofJson : Json.Decoder Manifest := fun v => do
  match ← Json.fields ["imports", "generated"] true v with
  | [imports, generated] =>
    return ⟨← Json.required "imports" (Json.asTable fileOfJson) imports,
      ← Json.required "generated" (Json.asList Json.asText) generated⟩
  | _ => .error "invalid length"

def toText (m : Manifest) : String := m.toJson.toText

def parse (text : String) : Except String Manifest := Json.parse text >>= ofJson

end Manifest

end SiteBuild
