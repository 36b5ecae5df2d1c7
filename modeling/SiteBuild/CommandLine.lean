import SiteBuild.Command
import SiteBuild.Text.Digit

/-!
Reading a command line, word by word. Words that start with `-` are options until `--` ends them, a
value follows its option or a `=`, and all other words are parameters in their order.
-/
namespace SiteBuild

inductive Parameter
  | verbose
  | help
  | metaDirectory
  | exclude
  | noScripts
  | noPages
  | noStyles
  | preloadModules
  | combinedName
  | concurrency
  | config
  | buildDirectory
  | file
  deriving DecidableEq, Repr

/-- Why no command is carried out. -/
inductive Refusal
  | help
  | usage
  deriving DecidableEq, Repr

structure Invocation where
  verbose : Bool
  command : Command
  deriving DecidableEq, Repr

namespace Parameter

def name : Parameter → String
  | .verbose => "verbose"
  | .help => "help"
  | .metaDirectory => "meta-dir"
  | .exclude => "exclude"
  | .noScripts => "no-minify-js"
  | .noPages => "no-minify-html"
  | .noStyles => "no-minify-css"
  | .preloadModules => "preload-modules"
  | .combinedName => "combined-css-name"
  | .concurrency => "concurrency"
  | .config => "config"
  | .buildDirectory => "build_dir"
  | .file => "file"

def letter? : Parameter → Option Char
  | .verbose => some 'v'
  | .help => some 'h'
  | _ => none

def takesValue : Parameter → Bool
  | .verbose | .help | .noScripts | .noPages | .noStyles | .preloadModules => false
  | _ => true

/-- A number of files in decimal digits, perhaps behind a sign. -/
def count? (s : String) : Option Nat :=
  let digits := (Text.after? ['+'] s.toList).getD s.toList
  if !digits.isEmpty && digits.all Char.isDigit && Text.decimalValue digits < UInt64.size then
    some (Text.decimalValue digits)
  else none

/-- Whether a value means something. Paths are not empty. -/
def accepts (p : Parameter) (value : String) : Bool :=
  match p with
  | .concurrency => (count? value).isSome
  | .metaDirectory | .config | .buildDirectory | .file => !value.isEmpty
  | _ => true

end Parameter

/-- What has been read of a command's words. -/
structure Words where
  options : List Parameter
  /-- The parameters that words without an option are still to fill. -/
  places : List Parameter
  /-- The option that waits for its value. -/
  pending : Option Parameter := none
  /-- Whether options have ended. -/
  ended : Bool := false
  /-- The values in reverse; an option without one has the empty text. -/
  values : List (Parameter × String) := []

namespace Words

def has (w : Words) (p : Parameter) : Bool := w.values.any fun v => v.1 = p

def all (w : Words) (p : Parameter) : List String :=
  (w.values.filterMap fun v => if v.1 = p then some v.2 else none).reverse

def value? (w : Words) (p : Parameter) : Option String := (w.all p).head?

/-- Only the patterns to exclude may be given more than once. -/
def add (w : Words) (p : Parameter) (value : String) : Except Refusal Words :=
  if p = .help then .error .help
  else if !p.accepts value || (p ≠ .exclude && w.has p) then .error .usage
  else .ok { w with pending := none, values := (p, value) :: w.values }

/-- A word that is no option. -/
def fill (w : Words) (word : String) : Except Refusal Words :=
  match w.pending, w.places with
  | some p, _ => w.add p word
  | none, p :: places => { w with places }.add p word
  | none, [] => .error .usage

def addLetter (w : Words) (c : Char) : Except Refusal Words :=
  match w.pending, w.options.find? fun p => p.letter? = some c with
  | none, some p => w.add p ""
  | _, _ => .error .usage

/-- An option by its name, perhaps with a value behind `=`. -/
def addNamed (w : Words) (word : List Char) : Except Refusal Words :=
  let name := word.takeWhile (· ≠ '=')
  match w.pending, w.options.find? fun p => p.name.toList = name with
  | none, some p =>
    match p.takesValue, word.drop name.length with
    | true, [] => .ok { w with pending := some p }
    | true, _ :: value => w.add p (String.ofList value)
    | false, [] => w.add p ""
    | false, _ => .error .usage
  | _, _ => .error .usage

def step (w : Words) (word : String) : Except Refusal Words :=
  if w.ended then w.fill word
  else match word.toList with
    | ['-', '-'] => if w.pending.isSome then .error .usage else .ok { w with ended := true }
    | '-' :: '-' :: s => w.addNamed s
    | '-' :: c :: s => (c :: s).foldlM addLetter w
    | _ => w.fill word

/-- The words of a command, of which none may be missing. -/
def read (w : Words) (words : List String) : Except Refusal Words := do
  let w ← words.foldlM step w
  if w.pending.isSome || !w.places.isEmpty then .error .usage else .ok w

def path (w : Words) (p : Parameter) : Path := ⟨(w.value? p).getD ""⟩

end Words

namespace CommandLine

def commonOptions : List Parameter := [.verbose, .help]

def optimizeWords : Words where
  options := commonOptions ++ [.metaDirectory, .exclude, .noScripts, .noPages, .noStyles,
    .preloadModules, .combinedName, .concurrency, .config]
  places := [.buildDirectory]

def scanWords : Words where
  options := commonOptions
  places := [.file]

def overrides (w : Words) : Overrides where
  minifyScripts := if w.has .noScripts then some false else none
  minifyPages := if w.has .noPages then some false else none
  minifyStyles := if w.has .noStyles then some false else none
  preloadModules := if w.has .preloadModules then some true else none
  combinedName := w.value? .combinedName
  exclude := w.all .exclude
  concurrency := (w.value? .concurrency).bind Parameter.count?

def optimizeCommand (w : Words) : Command :=
  .optimize ⟨w.path .buildDirectory,
    ((w.value? .metaDirectory).map Path.mk).getD ⟨"_snowpack"⟩,
    (w.value? .config).map Path.mk, overrides w⟩

/-- Help is given on a command that there is. -/
def readHelp : List String → Refusal
  | [] | ["optimize"] | ["scan"] | ["help"] => .help
  | _ => .usage

/-- The words in front of a command are options; the words behind it are its own. -/
def readFrom (w : Words) : List String → Except Refusal Invocation
  | [] => .error .usage
  | word :: words =>
    if w.ended then .error .usage
    else match word with
      | "optimize" => do
        let own ← optimizeWords.read words
        return ⟨w.has .verbose || own.has .verbose, optimizeCommand own⟩
      | "scan" => do
        let own ← scanWords.read words
        return ⟨w.has .verbose || own.has .verbose, .scan (own.path .file)⟩
      | "help" => .error (readHelp words)
      | _ => do readFrom (← w.step word) words

def read (words : List String) : Except Refusal Invocation :=
  readFrom { options := commonOptions, places := [] } words

end CommandLine

end SiteBuild
