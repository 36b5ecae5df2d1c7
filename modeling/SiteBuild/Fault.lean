import SiteBuild.Glob.Pattern
import SiteBuild.Path

/-!
What can go wrong, by cause, and how each cause reads.
-/
namespace SiteBuild

inductive IoError
  | notFound
  | notADirectory
  | isADirectory
  | alreadyExists
  | invalidText
  | nameTooLong
  /-- A path that holds the character of code zero. -/
  | invalidName
  | other (message : String)
  deriving DecidableEq, Repr

def IoError.message : IoError → String
  | .notFound => "No such file or directory (os error 2)"
  | .notADirectory => "Not a directory (os error 20)"
  | .isADirectory => "Is a directory (os error 21)"
  | .alreadyExists => "File exists (os error 17)"
  | .invalidText => "stream did not contain valid UTF-8"
  | .nameTooLong => "File name too long (os error 36)"
  | .invalidName => "file name contained an unexpected NUL byte"
  | .other message => message

inductive ConfigFault
  | missingFile (p : Path)
  | missingBuild (p : Path)
  | malformed (p : Path) (detail : String)
  | noConcurrency
  | notAStylesheet (name : String)
  | other (message : String)
  deriving DecidableEq, Repr

def ConfigFault.message : ConfigFault → String
  | .missingFile p => "Config file not found: " ++ p.text
  | .missingBuild p => "Build directory not found: " ++ p.text
  | .malformed p detail => "Failed to parse " ++ p.text ++ ": " ++ detail
  | .noConcurrency => "concurrency must be at least 1"
  | .notAStylesheet name => "combinedCSSName must name a .css file, got " ++ name
  | .other message => message

/-- Where a script could not be read. -/
structure Context where
  file : Option Path
  deriving DecidableEq, Repr

inductive Fault
  | io (e : IoError)
  | parse (message : String) (context : Option Context)
  | minify (message : String)
  | config (c : ConfigFault)
  | glob (f : Glob.Fault)
  | serialize (message : String)
  | task (message : String)
  | setup (message : String)
  deriving DecidableEq, Repr

namespace Fault

def message : Fault → String
  | .io e => "IO error: " ++ e.message
  | .parse message _ => "Parse error: " ++ message
  | .minify message => "Minification error: " ++ message
  | .config c => "Configuration error: " ++ c.message
  | .glob f => "Invalid glob pattern: " ++ f.message
  | .serialize message => "Serialization error: " ++ message
  | .task message => "Task failed: " ++ message
  | .setup message => "Minifier service failed to start: " ++ message

/-- The message with the file that it is about, where the fault knows one. -/
def detailed : Fault → String
  | .parse message (some context) =>
    "❌ Parse Error: " ++ message ++
      ((context.file.map fun p => "\n📁 File: " ++ p.text).getD "")
  | f => f.message

/-- A script that is no module. -/
def unreadable (context : Option Context) : Fault :=
  .parse "Parse error: Unexpected token" context

end Fault

end SiteBuild
