import SiteBuild.Glob.Pattern

/-!
Kinds of patterns: what tells the paths that a pattern matches from others, where less than the whole
pattern does.
-/
namespace SiteBuild.Glob

inductive Kind
  /-- One path. -/
  | path (s : List Char)
  /-- The name of a file. -/
  | name (s : List Char)
  /-- What ends the name of a file, from its last dot on. -/
  | extension (s : List Char)
  | start (s : List Char)
  /-- The last segments of a path, behind a slash. -/
  | ending (s : List Char)
  /-- What ends the name of a file, beside wildcards in front of it. -/
  | endOfName (s : List Char)
  | wildcards
  deriving DecidableEq, Repr

def literals? (p : Pattern) : Option (List Char) :=
  p.mapM fun
    | .literal c => some c
    | _ => none

/-- The characters from the last dot on, if no slash and no wildcard stands among them. -/
def endOfName? (found : List Char) : List Token → Option (List Char)
  | .literal c :: ts =>
    if c = '/' then none
    else if c = '.' then some (c :: found)
    else endOfName? (c :: found) ts
  | _ => none

namespace Pattern

def name? : Pattern → Option (List Char)
  | .leading :: ts => (literals? ts).filter fun s => !s.isEmpty && !s.contains '/'
  | _ => none

def path? (p : Pattern) : Option (List Char) := (literals? p).filter fun s => !s.isEmpty

def extension? : Pattern → Option (List Char)
  | .leading :: .star :: .literal '.' :: ts =>
    ((literals? ts).filter fun s => !s.contains '.' && !s.contains '/').map ('.' :: ·)
  | _ => none

def start? (p : Pattern) : Option (List Char) :=
  match p.getLast? with
  | some .trailing => (literals? p.dropLast).map (· ++ ['/'])
  | _ => none

def ending? : Pattern → Option (List Char)
  | .leading :: ts => ((literals? ts).filter fun s => !s.isEmpty).map ('/' :: ·)
  | _ => none

def kind (p : Pattern) : Kind :=
  ((p.name?.map Kind.name).or <| (p.path?.map Kind.path).or <|
    (p.extension?.map Kind.extension).or <| (p.start?.map Kind.start).or <|
    (p.ending?.map Kind.ending).or <| (endOfName? [] p.reverse).map Kind.endOfName).getD .wildcards

end Pattern

/-- How many patterns there are of each kind. -/
structure Tally where
  paths : Nat
  names : Nat
  extensions : Nat
  starts : Nat
  endings : Nat
  endsOfNames : Nat
  wildcards : Nat
  deriving DecidableEq, Repr

namespace Tally

/-- How many texts a function finds in patterns, each of them counted once. -/
def distinct (find : Kind → Option (List Char)) (ks : List Kind) : Nat :=
  (ks.filterMap find).eraseDups.length

/-- Last segments count as a path too, since they may be all of it. -/
def ofKinds (ks : List Kind) : Tally where
  paths := distinct (fun | .path s => some s | .ending s => some (s.drop 1) | _ => none) ks
  names := distinct (fun | .name s => some s | _ => none) ks
  extensions := distinct (fun | .extension s => some s | _ => none) ks
  starts := ks.countP fun | .start _ => true | _ => false
  endings := ks.countP fun | .ending _ => true | _ => false
  endsOfNames := distinct (fun | .endOfName s => some s | _ => none) ks
  wildcards := ks.count .wildcards

end Tally

end SiteBuild.Glob
