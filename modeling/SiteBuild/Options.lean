import SiteBuild.Fault
import SiteBuild.Json.Decode
import SiteBuild.Naming

/-!
What a run is asked to do. Options come from the command line, from a configuration file, or are
given by default, in this order.
-/
namespace SiteBuild

structure Options where
  minifyScripts : Bool := true
  minifyPages : Bool := true
  minifyStyles : Bool := true
  preloadModules : Bool := false
  /-- The address of the combined stylesheet below the site's root. -/
  combinedName : String := "/imported-styles.css"
  exclude : List String := []
  /-- How many files may be worked on at once, where something is said about it. -/
  concurrency : Option Nat := none
  naming : Naming := {}
  deriving DecidableEq, Repr

/-- A configuration file, of which every entry may be missing. -/
structure Config where
  minifyScripts : Option Bool := none
  minifyPages : Option Bool := none
  minifyStyles : Option Bool := none
  preloadModules : Option Bool := none
  combinedName : Option String := none
  exclude : Option (List String) := none
  concurrency : Option Nat := none
  naming : Option Naming := none
  deriving DecidableEq, Repr

/-- What the command line says. -/
structure Overrides where
  minifyScripts : Option Bool := none
  minifyPages : Option Bool := none
  minifyStyles : Option Bool := none
  preloadModules : Option Bool := none
  combinedName : Option String := none
  exclude : List String := []
  concurrency : Option Nat := none
  deriving DecidableEq, Repr

/-- At least one file is worked on at once. -/
def Options.workers (o : Options) : Nat := max 1 (o.concurrency.getD 1)

namespace Naming

def fieldNames : List String := ["proxySuffix", "cssExtension", "moduleMarker"]

def ofJson : Json.Decoder Naming := fun v => do
  match ← Json.fields fieldNames false v with
  | [proxySuffix, cssExtension, moduleMarker] =>
    let n : Naming := {}
    return ⟨← Json.withDefault n.proxySuffix Json.asText proxySuffix,
      ← Json.withDefault n.cssExtension Json.asText cssExtension,
      ← Json.withDefault n.moduleMarker Json.asText moduleMarker⟩
  | _ => .error "invalid length"

def toJson (n : Naming) : Json :=
  .object [("proxySuffix", .text n.proxySuffix), ("cssExtension", .text n.cssExtension),
    ("moduleMarker", .text n.moduleMarker)]

end Naming

namespace Options

def fieldNames : List String :=
  ["minifyJS", "minifyHTML", "minifyCSS", "preloadModules", "combinedCSSName", "exclude",
    "concurrency", "naming"]

def ofJson : Json.Decoder Options := fun v => do
  match ← Json.fields fieldNames false v with
  | [scripts, pages, styles, preload, combined, exclude, concurrency, naming] =>
    let o : Options := {}
    return ⟨← Json.withDefault o.minifyScripts Json.asBool scripts,
      ← Json.withDefault o.minifyPages Json.asBool pages,
      ← Json.withDefault o.minifyStyles Json.asBool styles,
      ← Json.withDefault o.preloadModules Json.asBool preload,
      ← Json.withDefault o.combinedName Json.asText combined,
      ← Json.withDefault o.exclude (Json.asList Json.asText) exclude,
      ← Json.withDefault o.concurrency (fun v => some <$> Json.asCount v) concurrency,
      ← Json.withDefault o.naming Naming.ofJson naming⟩
  | _ => .error "invalid length"

end Options

namespace Config

def ofJson : Json.Decoder Config := fun v => do
  match ← Json.fields Options.fieldNames true v with
  | [scripts, pages, styles, preload, combined, exclude, concurrency, naming] =>
    return ⟨← Json.withDefault none (Json.asOption Json.asBool) scripts,
      ← Json.withDefault none (Json.asOption Json.asBool) pages,
      ← Json.withDefault none (Json.asOption Json.asBool) styles,
      ← Json.withDefault none (Json.asOption Json.asBool) preload,
      ← Json.withDefault none (Json.asOption Json.asText) combined,
      ← Json.withDefault none (Json.asOption (Json.asList Json.asText)) exclude,
      ← Json.withDefault none (Json.asOption Json.asCount) concurrency,
      ← Json.withDefault none (Json.asOption Naming.ofJson) naming⟩
  | _ => .error "invalid length"

/-- An entry that is written only where it is given. -/
def member (name : String) (toJson : α → Json) : Option α → List (Option String × Json)
  | none => []
  | some a => [(some name, toJson a)]

def toJson (c : Config) : Json :=
  .object (member "minifyJS" .bool c.minifyScripts ++ member "minifyHTML" .bool c.minifyPages ++
    member "minifyCSS" .bool c.minifyStyles ++ member "preloadModules" .bool c.preloadModules ++
    member "combinedCSSName" .text c.combinedName ++
    member "exclude" (fun es => .array (es.map .text)) c.exclude ++
    member "concurrency" (fun n => .number (toString n)) c.concurrency ++
    member "naming" Naming.toJson c.naming)

def parse (text : String) : Except String Config := Json.parse text >>= ofJson

end Config

namespace Options

/-- Command line over file over defaults; what is excluded adds up. -/
def merge (file : Option Config) (cli : Overrides) : Except Fault Options :=
  let base := file.getD {}
  let defaults : Options := {}
  let concurrency := cli.concurrency.or base.concurrency
  let combinedName := (cli.combinedName.or base.combinedName).getD defaults.combinedName
  if concurrency = some 0 then .error (.config .noConcurrency)
  else if ".css".toList.isSuffixOf combinedName.toList then
    .ok ⟨(cli.minifyScripts.or base.minifyScripts).getD defaults.minifyScripts,
      (cli.minifyPages.or base.minifyPages).getD defaults.minifyPages,
      (cli.minifyStyles.or base.minifyStyles).getD defaults.minifyStyles,
      (cli.preloadModules.or base.preloadModules).getD defaults.preloadModules,
      combinedName, base.exclude.getD [] ++ cli.exclude, concurrency,
      base.naming.getD defaults.naming⟩
  else .error (.config (.notAStylesheet combinedName))

end Options

/-- One run on one build directory. -/
structure Request where
  root : Path
  /-- Where the manifest goes, as seen from the root. -/
  metaDirectory : Path := ⟨"_snowpack"⟩
  options : Options := {}
  deriving DecidableEq, Repr

namespace Request

def manifestPath (r : Request) : Path :=
  (r.root.join r.metaDirectory).join ⟨"optimize-manifest.json"⟩

def combinedPath (r : Request) : Path :=
  r.root.join ⟨dropLeadingSlashes r.options.combinedName⟩

/-- The patterns of the files that a run leaves alone; the metadata is among them. -/
def excluded (r : Request) : List String :=
  (Path.relativeTo ⟨""⟩ r.metaDirectory ++ "/**") :: r.options.exclude

end Request

end SiteBuild
