import SiteBuild.Text.Blank
import SiteBuild.Text.Match

/-!
Putting text into the head of a page: at the head's end, else behind its opening tag, else in front
of everything.
-/
namespace SiteBuild.Page

/-- The rest behind a closing tag of the head. -/
def afterHeadClose? (s : List Char) : Option (List Char) :=
  (Text.afterAnyCase? "</head".toList s).bind fun s => Text.after? ['>'] (Text.trimStart s)

/-- The rest behind an opening tag of the head, which may hold attributes. -/
def afterHeadOpen? (s : List Char) : Option (List Char) :=
  (Text.afterAnyCase? "<head".toList s).bind fun s =>
    (Text.after? ['>'] s).or
      (if s.head?.any Text.isBlank then Text.after? ['>'] (s.dropWhile (· ≠ '>')) else none)

/-- The text in front of the place where a head takes more, and the text behind it. -/
def splitHead (page : List Char) : List Char × List Char :=
  match Text.leftmost? afterHeadClose? page with
  | some (front, _) => (front, page.drop front.length)
  | none =>
    match Text.leftmost? afterHeadOpen? page with
    | some (_, rest) => (Text.front page rest, rest)
    | none => ([], page)

def inject (snippet : String) (page : String) : String :=
  let (front, rest) := splitHead page.toList
  String.ofList (front ++ snippet.toList ++ rest)

def stylesheetLink (href : String) : String :=
  "    <link rel=\"stylesheet\" href=\"" ++ href ++ "\" />\n"

def preloadLink (href : String) : String :=
  "    <link rel=\"modulepreload\" href=\"" ++ href ++ "\" />\n"

end SiteBuild.Page
