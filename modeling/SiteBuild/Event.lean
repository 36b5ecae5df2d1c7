import SiteBuild.Duration
import SiteBuild.Fault
import SiteBuild.Glob.Kind
import SiteBuild.Naming
import SiteBuild.Script.Module
import SiteBuild.Text.Quoted

/-!
What a run tells about itself while it works, and the lines that it is told in.
-/
namespace SiteBuild

/-- How much a line matters. -/
inductive Level
  | error
  | warn
  | info
  | debug
  deriving DecidableEq, Repr

namespace Level

def text : Level → String
  | .error => "ERROR"
  | .warn => "WARN"
  | .info => "INFO"
  | .debug => "DEBUG"

/-- The detail that a log needs to have for a line to be in it. -/
def detail : Level → Nat
  | .error => 1
  | .warn => 2
  | .info => 3
  | .debug => 4

end Level

/-- What takes its time. -/
inductive Activity
  | scanning
  | optimizing
  | combining
  | bundling
  | styling (file : Path)
  deriving DecidableEq, Repr

def Activity.text : Activity → String
  | .scanning => "Scanning build output"
  | .optimizing => "Optimizing files"
  | .combining => "Combining CSS"
  | .bundling => "Bundling CSS files"
  | .styling file => "Processing CSS " ++ file.fileName?.getD "unknown"

inductive Event
  | started (a : Activity)
  | finished (a : Activity)
  | configMissing
  | configFound (p : Path)
  | rootChosen (root : Path)
  | workersChosen (n : Nat)
  /-- A pattern that is matched as a regular expression. -/
  | patternRead (pattern expression : String)
  | patternsRead (t : Glob.Tally)
  | filesFound (files scripts : Nat)
  | checkSkipped (p : Path) (f : Fault)
  | checkFailed (f : Fault)
  | embeddingChosen (on : Bool)
  | moduleUnread (p : Path) (e : IoError)
  | moduleUnreadable (p : Path) (f : Fault)
  | minifierStarted (workers : Nat)
  | minifierStopped
  | fileTaken (p : Path) (kind : FileKind)
  | fileFailed (p : Path) (f : Fault)
  | styleRejected (p : Path)
  | styleSkipped (p : Path) (f : Fault)
  | combinedWritten (p : Path) (bytes : Nat)
  | filesRemoved (n : Nat)
  | manifestWritten (p : Path)
  | summary (done failed nanos : Nat)
  | combinedAt (p : Path)
  | reported (done failed nanos : Nat)
  | importsFound (n : Nat) (p : Path)
  | importFound (specifier : String) (span specifierSpan : Script.Span)
  | stopped (f : Fault)
  deriving DecidableEq, Repr

namespace Event

def spanText (s : Script.Span) : String := toString s.start ++ ".." ++ toString s.stop

def reportText (done failed nanos : Nat) : String :=
  "Optimized " ++ toString done ++ " files (" ++ toString failed ++ " failed) in " ++
    Duration.text nanos

def tallyText (t : Glob.Tally) : String :=
  "built glob set; " ++ toString t.paths ++ " literals, " ++ toString t.names ++ " basenames, " ++
    toString t.extensions ++ " extensions, " ++ toString t.starts ++ " prefixes, " ++
    toString t.endings ++ " suffixes, " ++ toString t.endsOfNames ++ " required extensions, " ++
    toString t.wildcards ++ " regexes"

/-- The lines of an event. An activity took `nanos`, which only its end tells. -/
def lines (nanos : Nat) : Event → List (Level × String)
  | .started a => [(.debug, "⏱️  Starting: " ++ a.text)]
  | .finished a => [(.debug, "⏱️  Completed: " ++ a.text ++ " in " ++ Duration.text nanos)]
  | .configMissing => [(.debug, "No optimize.config.json found, using defaults")]
  | .configFound p => [(.debug, "Loading config from " ++ p.text)]
  | .rootChosen root => [(.info, "🔧 [optimize] Optimizing " ++ root.text)]
  | .workersChosen n => [(.debug, "⚙️  Worker concurrency: " ++ toString n)]
  | .patternRead pattern expression =>
    [(.debug, "glob \x60Glob(" ++ Text.quoted pattern ++ ")\x60 converted to regex: \x60" ++
      Text.quoted expression ++ "\x60")]
  | .patternsRead t => [(.debug, tallyText t)]
  | .filesFound files scripts =>
    [(.info, "📁 Found " ++ toString files ++ " files (" ++ toString scripts ++ " JS modules)")]
  | .checkSkipped p f => [(.debug, "CSS import check skipped " ++ p.text ++ ": " ++ f.message)]
  | .checkFailed f =>
    [(.warn, "⚠️  CSS import check failed, embedding disabled: " ++ f.message)]
  | .embeddingChosen true =>
    [(.info, "🎨 CSS imports detected - embedding and combining styles")]
  | .embeddingChosen false => [(.debug, "⚡ No CSS imports found - skipping CSS embedding")]
  | .moduleUnread p e =>
    [(.debug, "Module graph: cannot read " ++ p.text ++ ": " ++ e.message)]
  | .moduleUnreadable p f =>
    [(.debug, "Module graph: cannot scan " ++ p.text ++ ": " ++ f.message)]
  | .minifierStarted workers =>
    [(.debug, "Minifier service started with " ++ toString workers ++ " workers")]
  | .minifierStopped => [(.debug, "Minifier service stopped")]
  | .fileTaken p kind => [(.debug, "⚡ Processing: " ++ p.text ++ " (" ++ kind.text ++ ")")]
  | .fileFailed p f => [(.error, "[optimize] Error: " ++ p.text ++ " " ++ f.detailed)]
  | .styleRejected p =>
    [(.warn, "⚠️  " ++ (Fault.minify ("CSS parse error in " ++ p.text ++ ": ")).message ++
      ", using fallback minification")]
  | .styleSkipped p f =>
    [(.debug, "Skipping " ++ p.text ++ " in combined CSS: " ++ f.message)]
  | .combinedWritten p bytes =>
    [(.info, "📦 Combined CSS written: " ++ p.text ++ " (" ++ toString bytes ++ " bytes)")]
  | .filesRemoved n => [(.debug, "🗑️  Removed " ++ toString n ++ " embedded CSS files")]
  | .manifestWritten p => [(.debug, "📝 Manifest written: " ++ p.text)]
  | .summary done failed nanos =>
    [(.info, ""), (.info, "📊 Optimization Statistics:"),
      (.info, "  • Files optimized: " ++ toString done),
      (.info, "  • Files failed: " ++ toString failed),
      (.info, "  • Time: " ++ Duration.text nanos),
      if failed = 0 then (.info, "✅ Optimization completed successfully!")
      else (.warn, "⚠️  Optimization completed with " ++ toString failed ++ " failures")]
  | .combinedAt p => [(.debug, "Combined stylesheet: " ++ p.text)]
  | .reported done failed nanos => [(.debug, reportText done failed nanos)]
  | .importsFound n p =>
    [(.info, "📦 " ++ toString n ++ " static imports in " ++ p.text)]
  | .importFound specifier span specifierSpan =>
    [(.info, "  • " ++ specifier ++ " [" ++ spanText span ++ "] specifier [" ++
      spanText specifierSpan ++ "]")]
  | .stopped f => [(.error, "❌ " ++ f.detailed)]

end Event

end SiteBuild
