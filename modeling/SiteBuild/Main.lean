import SiteBuild.CommandLine
import SiteBuild.Event.Filter

/-!
The program: a command line, carried out on the disk. Each call of a plan is answered by the disk,
and what the plan tells goes to standard output.
-/
namespace SiteBuild.Main

def faultOf : IO.Error → IoError
  | .noFileOrDirectory .. | .noSuchThing .. => .notFound
  | .alreadyExists .. => .alreadyExists
  | .inappropriateType _ code _ => if code = 21 then .isADirectory else .notADirectory
  | e => .other (toString e)

def trying (x : IO α) : IO (Except IoError α) := do
  try return .ok (← x)
  catch e => return .error (faultOf e)

def readText (p : Path) : IO (Except IoError String) := do
  match ← trying (IO.FS.readBinFile p.text) with
  | .error e => return .error e
  | .ok b => return (String.fromUTF8? b).elim (.error .invalidText) .ok

def writeText (p : Path) (text : String) : IO (Except IoError Unit) := trying do
  match p.parent? with
  | none => pure ()
  | some directory => if !directory.text.isEmpty then IO.FS.createDirAll directory.text
  IO.FS.writeFile p.text text

def removeFile (p : Path) : IO (Except IoError Bool) := do
  match ← trying (IO.FS.removeFile p.text) with
  | .ok () => return .ok true
  | .error .notFound => return .ok false
  | .error e => return .error e

/-- The regular files below a directory, in the order of their names. -/
partial def filesBelow (p : Path) : IO (List Path) := do
  let here ← IO.currentDir
  match (← (here / p.text).symlinkMetadata).type with
  | .file => return [p]
  | .dir =>
    let entries ← (here / p.text).readDir
    let names := (entries.toList.map fun e => e.fileName).mergeSort fun a b => a ≤ b
    return (← names.mapM fun n => filesBelow (p.join ⟨n⟩)).flatten
  | _ => return []

def tell (f : Filter) (e : Event) : StateT (List Nat) IO Unit := do
  let time ← IO.monoNanosNow
  let starts ← get
  match e with
  | .started _ => set (time :: starts)
  | .finished _ => set starts.tail
  | _ => pure ()
  for (level, line) in e.shown f (time - starts.headD time) do
    IO.println (level.text ++ " " ++ line)

/-- The disk's answer to a call. The state holds when each open activity has started. -/
def answer (f : Filter) : (c : Call) → StateT (List Nat) IO c.Answer
  | .read p | .inspect p => readText p
  | .write p text => writeText p text
  | .remove p => removeFile p
  | .isThere p => do (← IO.currentDir) / p.text |>.pathExists
  | .isDirectory p => do (← IO.currentDir) / p.text |>.isDir
  | .list p => trying (filesBelow p)
  | .tell e => tell f e
  | .now => IO.monoNanosNow

def perform (f : Filter) : Plan α → StateT (List Nat) IO α
  | .done a => return a
  | .call c next => do perform f (next (← answer f c))

/-- The exit code says whether the command was carried out, and 2 that none was understood. -/
def run (words : List String) : IO UInt32 := do
  match CommandLine.read words with
  | .error .help => return 0
  | .error .usage => return 2
  | .ok i =>
    let filter := Filter.ofSetting (← IO.getEnv "RUST_LOG") i.verbose
    let (finished, _) ← (perform filter i.command.finish).run []
    return if finished then 0 else 1

end SiteBuild.Main

def main (words : List String) : IO UInt32 := SiteBuild.Main.run words
