import SiteBuild.Path
import SiteBuild.Text.Blank
import SiteBuild.Text.Letter
import SiteBuild.Text.Match

/-!
The modules that a page starts: the sources of its script tags of type `module`. A tag runs to the
first `>`, and its attributes are looked for as words in it.
-/
namespace SiteBuild.Page

/-- The leftmost place where a word starts and `read` succeeds; `before` stands in front. -/
def atWord? (read : List Char → Option α) (before : Option Char) : List Char → Option α
  | [] => none
  | c :: s =>
    let boundary := Text.isWordChar c && !before.any Text.isWordChar
    (if boundary then read (c :: s) else none).or (atWord? read (some c) s)

/-- The rest behind the name of an attribute and the sign behind it. -/
def afterAttribute? (name s : List Char) : Option (List Char) := do
  let s ← Text.afterAnyCase? name s
  let s ← Text.after? ['='] (Text.trimStart s)
  return Text.trimStart s

def isQuote (c : Char) : Bool := c = '\x22' || c = '\x27'

def afterModuleType? (s : List Char) : Option (List Char) := do
  let s ← afterAttribute? "type".toList s
  Text.afterAnyCase? "module".toList (if s.head?.any isQuote then s.drop 1 else s)

/-- The value of a `src` attribute, up to a quote of either kind. -/
def sourceValue? (s : List Char) : Option (List Char) := do
  let s ← afterAttribute? "src".toList s
  if s.head?.any isQuote then
    let value := (s.drop 1).takeWhile (!isQuote ·)
    if value.isEmpty || s.length = value.length + 1 then none else some value
  else none

/-- A script tag of type `module`, without its `>`. -/
def moduleTag? (s : List Char) : Option (List Char) := do
  let behind ← Text.afterAnyCase? "<script".toList s
  if behind.head?.any Text.isWordChar then none
  else
    let body := behind.takeWhile (· ≠ '>')
    if body.length = behind.length then none
    else
      let _ ← atWord? afterModuleType? (some 't') body
      return s.takeWhile (· ≠ '>')

/-- The module tags of a page from left to right; `skip` more characters belong to one. -/
def moduleTags (skip : Nat) : List Char → List (List Char)
  | [] => []
  | c :: s =>
    match skip with
    | skip + 1 => moduleTags skip s
    | 0 =>
      match moduleTag? (c :: s) with
      | some tag => tag :: moduleTags tag.length s
      | none => moduleTags 0 s

/-- The file that a page means by a source; a bare name is relative to the page. -/
def resolveSource? (root page : Path) (source : String) : Option Path :=
  let startsWith (w : String) := w.toList.isPrefixOf source.toList
  if isRemote source then none
  else if startsWith "/" || startsWith "./" || startsWith "../" then
    resolveLocal? root page source
  else resolveLocal? root page ("./" ++ source)

def moduleEntries (root page : Path) (text : String) : List Path :=
  (moduleTags 0 text.toList).filterMap fun tag =>
    (atWord? sourceValue? none tag).bind fun source =>
      resolveSource? root page (String.ofList source)

end SiteBuild.Page
