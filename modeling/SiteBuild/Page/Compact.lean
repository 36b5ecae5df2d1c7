import SiteBuild.Text.Blank
import SiteBuild.Text.Match

/-!
Pages without comments and without the blanks that show nowhere. What stands in scripts and styles is
left as it is written.
-/
namespace SiteBuild.Page

/-- A part of a page. A tag is kept without its angle brackets. -/
inductive Piece
  | text (s : List Char)
  | raw (s : List Char)
  | tag (s : List Char)
  deriving DecidableEq, Repr

def isGap (c : Char) : Bool := c = ' ' || c = '\t' || c = '\n' || c = '\r' || c = '\x0c'

/-- Elements whose text holds no tags. -/
def rawElements : List String := ["script", "style", "textarea", "title"]

/-- Elements whose blanks show. -/
def keptElements : List String := ["script", "style", "textarea", "pre"]

def lower (s : List Char) : String := String.ofList (s.map Char.toLower)

/-- The name in a tag, after the slash of a closing one. -/
def tagName (tag : List Char) : String :=
  let tag := if tag.head? = some '/' then tag.drop 1 else tag
  lower (tag.takeWhile fun c => !isGap c && c ≠ '/')

/-- Where the reader of a page stands. -/
inductive PiecePlace
  | text
  | tag (quote : Option Char)
  | comment
  | raw (name : String)

/-- The parts of a page; `s` holds the open one in reverse. Comments are left out. -/
def splitPieces : PiecePlace → List Char → List Char → List Piece
  | .comment, s, '-' :: '-' :: '>' :: t => splitPieces .text s t
  | .comment, s, _ :: t => splitPieces .comment s t
  | .comment, s, [] => [.text s.reverse]
  | .text, s, '<' :: '!' :: '-' :: '-' :: t => splitPieces .comment s t
  | .text, s, c :: t =>
    if c = '<' && t.head?.any fun d => d.isAlpha || d = '/' || d = '!' then
      .text s.reverse :: splitPieces (.tag none) [] t
    else splitPieces .text (c :: s) t
  | .text, s, [] => [.text s.reverse]
  | .raw name, s, c :: t =>
    if c = '<' && (Text.afterAnyCase? ('/' :: name.toList) t).isSome then
      .raw s.reverse :: splitPieces (.tag none) [] t
    else splitPieces (.raw name) (c :: s) t
  | .raw _, s, [] => [.raw s.reverse]
  | .tag (some q), s, c :: t => splitPieces (.tag (if c = q then none else some q)) (c :: s) t
  | .tag none, s, c :: t =>
    if c = '>' then
      let name := tagName s.reverse
      let isRaw := rawElements.contains name && s.getLast? ≠ some '/'
      .tag s.reverse :: splitPieces (if isRaw then .raw name else .text) [] t
    else splitPieces (.tag (if c = '\x22' || c = '\x27' then some c else none)) (c :: s) t
  | .tag _, s, [] => [.text ('<' :: s.reverse)]

structure Attribute where
  name : String
  value : List Char

/-- Where the name of an attribute ends. -/
def isNameEnd (c : Char) : Bool := isGap c || c = '=' || c = '/'

/-- The value behind the name of an attribute, and the rest. -/
def readValue (s : List Char) : List Char × List Char :=
  match s.dropWhile isGap with
  | '=' :: t =>
    match t.dropWhile isGap with
    | [] => ([], [])
    | q :: u =>
      if q = '\x22' || q = '\x27' then (u.takeWhile (· ≠ q), (u.dropWhile (· ≠ q)).drop 1)
      else (q :: u.takeWhile (!isGap ·), u.dropWhile (!isGap ·))
  | t => ([], t)

theorem readValue_length (s : List Char) : (readValue s).2.length ≤ s.length := by
  have hs := Text.length_dropWhile_le isGap s
  unfold readValue
  split
  · next t ht =>
    have htl := Text.length_dropWhile_le isGap t
    rw [ht] at hs
    split
    · simp
    · next q u hu =>
      rw [hu] at htl
      simp only [List.length_cons] at hs htl
      split
      · have := Text.length_dropWhile_le (· ≠ q) u
        simp only [List.length_drop]
        omega
      · have := Text.length_dropWhile_le (!isGap ·) u
        simp only
        omega
  · exact hs

/-- The attributes of a tag, given the text behind its name. -/
def attributes (s : List Char) : List Attribute :=
  match s with
  | [] => []
  | c :: t =>
    if isNameEnd c then attributes t
    else
      let v := readValue (t.dropWhile (!isNameEnd ·))
      ⟨lower (c :: t.takeWhile (!isNameEnd ·)), v.1⟩ :: attributes v.2
  termination_by s.length
  decreasing_by
    · exact Nat.lt_succ_self _
    · exact Nat.lt_succ_of_le
        (Nat.le_trans (readValue_length _) (Text.length_dropWhile_le (!isNameEnd ·) t))

/-- Whether a value needs quotes. -/
def needsQuotes (v : List Char) : Bool :=
  v.any fun c => isGap c || c = '\x22' || c = '\x27' || c = '\x60' || c = '=' || c = '<' || c = '>'

def quoted (v : List Char) : List Char :=
  if !needsQuotes v then v
  else if v.contains '\x22' then '\x27' :: v ++ ['\x27']
  else '\x22' :: v ++ ['\x22']

/-- Attributes behind a name, in the order of theirs. No blank is needed behind a quote. -/
def writeAttributes (before : Char) : List Attribute → List Char
  | [] => []
  | a :: as =>
    let text := a.name.toList ++ if a.value.isEmpty then [] else '=' :: quoted a.value
    let last := text.getLast?.getD 'x'
    (if before = '\x22' || before = '\x27' then [] else [' ']) ++ text ++ writeAttributes last as

def writeTag (tag : List Char) : List Char :=
  if tag.head? = some '!' then
    if lower (tag.take 8) = "!doctype" then
      "<!doctype".toList ++ (tag.drop 8).dropWhile isGap ++ ['>']
    else '<' :: tag ++ ['>']
  else if tag.head? = some '/' then '<' :: '/' :: (tagName tag).toList ++ ['>']
  else
    let as := (attributes (tag.dropWhile fun c => !isGap c && c ≠ '/')).mergeSort
      fun a b => a.name ≤ b.name
    '<' :: (tagName tag).toList ++ writeAttributes 'x' as ++ ['>']

/-- Elements that never hold anything. -/
def voidElements : List String :=
  ["area", "base", "br", "col", "embed", "hr", "img", "input", "link", "meta", "source", "track",
    "wbr"]

/-- Elements that stand within a line, so that blanks beside them show. -/
def inlineElements : List String :=
  ["a", "abbr", "b", "bdi", "bdo", "button", "cite", "code", "data", "del", "dfn", "em", "i", "img",
    "input", "ins", "kbd", "label", "mark", "q", "s", "samp", "select", "small", "span", "strong",
    "sub", "sup", "time", "u", "var"]

/-- Elements whose content is text within lines. -/
def contentElements : List String :=
  ["address", "caption", "dd", "dt", "figcaption", "h1", "h2", "h3", "h4", "h5", "h6", "legend",
    "li", "option", "p", "summary", "td", "th", "title"]

/-- A text with one blank for each run of them. -/
def collapse (gap : Bool) : List Char → List Char
  | [] => []
  | c :: s =>
    if isGap c then if gap then collapse true s else ' ' :: collapse true s
    else c :: collapse false s

/-- The text between two tags of an element. -/
def writeText (parent : Option String) (atStart atEnd : Bool) (s : List Char) : List Char :=
  if parent.any keptElements.contains then s
  else
    let inline := parent.any inlineElements.contains
    let content := inline || parent.any contentElements.contains
    if s.all isGap then
      if content && !s.isEmpty && (inline || !(atStart || atEnd)) then [' '] else []
    else
      let text := collapse (atStart && !inline) s
      if atEnd && !inline then (text.reverse.dropWhile isGap).reverse else text

def isCloseTag : Piece → Bool
  | .tag ('/' :: _) => true
  | _ => false

/-- The parts of a page behind some open elements. -/
def writePieces (parents : List String) (atStart : Bool) : List Piece → List Char
  | [] => []
  | .text s :: ps =>
    let atEnd := ps.head?.all isCloseTag
    writeText parents.head? atStart atEnd s ++ writePieces parents (atStart && s.isEmpty) ps
  | .raw s :: ps =>
    (if parents.head?.any keptElements.contains then s else writeText parents.head? true true s) ++
      writePieces parents false ps
  | .tag t :: ps =>
    let name := tagName t
    if t.head? = some '/' then
      writeTag t ++ writePieces ((parents.dropWhile (· ≠ name)).drop 1) false ps
    else if t.head? = some '!' || voidElements.contains name || t.getLast? = some '/' then
      writeTag t ++ writePieces parents false ps
    else writeTag t ++ writePieces (name :: parents) true ps

def compact (s : String) : String :=
  String.ofList (writePieces [] true (splitPieces .text [] s.toList))

end SiteBuild.Page
