import SiteBuild.Glob.Kind
import SiteBuild.Text.Match

/-!
Which paths a pattern matches. A path is matched byte by byte, so that `?` stands for one byte. A
token is described by the rests that it may leave of a path; a pattern matches where it may leave
nothing. Rests are ends of one path, so that no two of them have one length.
-/
namespace SiteBuild.Glob

abbrev Bytes := List UInt8

def bytesOf (s : String) : Bytes := s.toUTF8.toList

def bytesOfChar (c : Char) : Bytes := bytesOf (String.singleton c)

def slash : UInt8 := 47

/-- What may be left behind bytes that are no slashes. -/
def restsInSegment : Bytes → List Bytes
  | [] => [[]]
  | b :: s => (b :: s) :: if b = slash then [] else restsInSegment s

/-- What may be left behind any bytes. -/
def restsAnywhere : Bytes → List Bytes
  | [] => [[]]
  | b :: s => (b :: s) :: restsAnywhere s

/-- What is left behind each slash. -/
def restsAfterSlash : Bytes → List Bytes
  | [] => []
  | b :: s => if b = slash then s :: restsAfterSlash s else restsAfterSlash s

/-- The bytes of a class: those between the last byte of a range's start and the first of its end. -/
def classRanges (ranges : List (Char × Char)) : List (UInt8 × UInt8) :=
  ranges.flatMap fun (low, high) =>
    let single (bs : Bytes) := bs.map fun b => (b, b)
    if low = high then single (bytesOfChar low)
    else
      match (bytesOfChar low).reverse, bytesOfChar high with
      | l :: ls, h :: hs => single ls ++ (l, h) :: single hs
      | _, _ => []

def inClass (negated : Bool) (ranges : List (Char × Char)) (b : UInt8) : Bool :=
  (classRanges ranges).any (fun r => r.1 ≤ b && b ≤ r.2) != negated

mutual

/-- Whether a token writes nothing: a group with no branch that writes anything. -/
def Token.vanishes : Token → Bool
  | .alternatives branches => branchesVanish branches
  | _ => false

def tokensVanish : List Token → Bool
  | [] => true
  | t :: ts => t.vanishes && tokensVanish ts

def branchesVanish : List (List Token) → Bool
  | [] => true
  | b :: bs => tokensVanish b && branchesVanish bs

end

/-- The rests of either list, the longest first; each of them is kept once. -/
def union : List Bytes → List Bytes → List Bytes
  | [], ts => ts
  | s :: ss, [] => s :: ss
  | s :: ss, t :: ts =>
    if s.length = t.length then s :: union ss ts
    else if t.length < s.length then s :: union ss (t :: ts)
    else t :: union (s :: ss) ts
  termination_by ss ts => ss.length + ts.length

/-- What may be left of any of the rests. -/
def restsOfAll (rests : Bytes → List Bytes) (ss : List Bytes) : List Bytes :=
  ss.foldr (fun s => union (rests s)) []

/-- What a token without branches may leave of a path. -/
def Token.rests : Token → Bytes → List Bytes
  | .literal c, s => (Text.after? (bytesOfChar c) s).toList
  | .anyOne, b :: s => if b = slash then [] else [s]
  | .star, s => restsInSegment s
  | .leading, s => s :: restsAfterSlash s
  | .trailing, b :: s => if b = slash then restsAnywhere s else []
  | .between, b :: s => if b = slash then s :: restsAfterSlash s else []
  | .oneOf negated ranges, b :: s => if inClass negated ranges b then [s] else []
  | _, _ => []

mutual

/-- What a token may leave of any of the rests. -/
def Token.restsOf : Token → List Bytes → List Bytes
  | .alternatives branches, ss => if branchesVanish branches then ss else branchesRests branches ss
  | .literal c, ss => restsOfAll (Token.literal c).rests ss
  | .anyOne, ss => restsOfAll Token.anyOne.rests ss
  | .star, ss => restsOfAll Token.star.rests ss
  | .leading, ss => restsOfAll Token.leading.rests ss
  | .trailing, ss => restsOfAll Token.trailing.rests ss
  | .between, ss => restsOfAll Token.between.rests ss
  | .oneOf negated ranges, ss => restsOfAll (Token.oneOf negated ranges).rests ss

def tokensRests : List Token → List Bytes → List Bytes
  | [], ss => ss
  | t :: ts, ss => tokensRests ts (t.restsOf ss)

/-- An empty branch is no alternative. -/
def branchesRests : List (List Token) → List Bytes → List Bytes
  | [], _ => []
  | b :: bs, ss => union (if tokensVanish b then [] else tokensRests b ss) (branchesRests bs ss)

end

/-- Whether a pattern looks at the name of a file, alone or beside other things. -/
def Pattern.asksName (p : Pattern) : Bool :=
  match p.kind with
  | .name _ | .extension _ | .endOfName _ => true
  | _ => false

/-- Whether a path names what its last directory lies in, and no file. -/
def isUpward (path : String) : Bool := (path.toList.splitOn '/').getLast? = some ['.', '.']

def Pattern.isMatch (p : Pattern) (path : String) : Bool :=
  match p with
  | [.leading] => true
  | p => !(p.asksName && isUpward path) && (tokensRests p [bytesOf path]).any List.isEmpty

/-- Several patterns, any of which may match. -/
structure PatternSet where
  patterns : List Pattern

namespace PatternSet

def parse (texts : List String) : Except Fault PatternSet := do
  return ⟨← texts.mapM Pattern.parse⟩

def isMatch (ps : PatternSet) (path : String) : Bool := ps.patterns.any fun p => p.isMatch path

end PatternSet

end SiteBuild.Glob
