import SiteBuild.Stylesheet.Join
import SiteBuild.Text.Blank

/-!
Stylesheets as they are written out: as they are, or as short as they get. A stylesheet that holds
something else than rules is only joined line by line.
-/
namespace SiteBuild.Stylesheet

def writeTightStyle (selectors : List (List Char)) (ds : List Declaration) : List Char :=
  List.intercalate [','] selectors ++ '{' ::
    List.intercalate [';'] (ds.map (Declaration.write true)) ++ ['}']

mutual

/-- Rules for all media need no block. -/
def writeTight : Rule → List Char
  | .style selectors ds => writeTightStyle selectors ds
  | .media query rules =>
    if query.isEmpty || query = "all".toList then writeTightAll rules
    else "@media ".toList ++ query ++ '{' :: writeTightAll rules ++ ['}']
  | .statement text => text ++ [';']
  | .void => []

def writeTightAll : List Rule → List Char
  | [] => []
  | r :: rules => writeTight r ++ writeTightAll rules

end

def writeStyle (indent : List Char) (selectors : List (List Char)) (ds : List Declaration) :
    List Char :=
  List.intercalate [',', ' '] selectors ++ [' ', '{'] ++
    (ds.flatMap fun d => '\n' :: ' ' :: ' ' :: indent ++ Declaration.write false d ++ [';']) ++
    '\n' :: indent ++ ['}']

mutual

def writeLoose (indent : List Char) : Rule → List Char
  | .style selectors ds => writeStyle indent selectors ds
  | .media query rules =>
    "@media ".toList ++ query ++ [' ', '{', '\n', ' ', ' '] ++ indent ++
      writeLooseAll (' ' :: ' ' :: indent) false rules ++ '\n' :: indent ++ ['}']
  | .statement text => text ++ [';']
  | .void => []

/-- An empty line stands between two rules. -/
def writeLooseAll (indent : List Char) (between : Bool) : List Rule → List Char
  | [] => []
  | .void :: rules => writeLooseAll indent between rules
  | r :: rules =>
    (if between then '\n' :: '\n' :: indent else []) ++ writeLoose indent r ++
      writeLooseAll indent true rules

end

/-- The comments in front of all rules that are meant to be kept. They start with a mark. `comment` is
the open comment, in reverse. -/
def keptComments (comment : Option (List Char)) : List Char → List (List Char)
  | '*' :: '/' :: s =>
    match comment with
    | some text =>
      (if text.getLast? = some '!' then [text.reverse] else []) ++ keptComments none s
    | none => []
  | '/' :: '*' :: s =>
    match comment with
    | some text => keptComments (some ('*' :: '/' :: text)) s
    | none => keptComments (some []) s
  | c :: s =>
    match comment with
    | some text => keptComments (some (c :: text)) s
    | none => if isGap c then keptComments none s else []
  | [] => comment.toList.filterMap fun text =>
    if text.getLast? = some '!' then some text.reverse else none

/-- The text of a stylesheet that can be read. -/
def render? (minify : Bool) (s : String) : Option String :=
  (readRules? minify s.toList).map fun rules =>
    let newline := if minify then [] else ['\n']
    let comments := (keptComments none s.toList).flatMap fun c =>
      "/*".toList ++ c ++ "*/".toList ++ newline
    let text := if minify then writeTightAll (joinRules rules) else writeLooseAll [] false rules
    String.ofList (comments ++ text ++ newline)

/-- The lines of a text without the blanks around them, one right behind the other. -/
def joinLines (s : String) : String :=
  String.ofList ((s.toList.splitOn '\n').map Text.trim).flatten

/-- The text of a stylesheet. One that cannot be read is only joined line by line, if it is to be short. -/
def render (minify : Bool) (s : String) : String :=
  (render? minify s).getD (if minify then joinLines s else s)

/-- Several stylesheets as one, each on a line of its own. -/
def bundle (sources : List String) : String :=
  String.join (sources.map fun s => "\n" ++ s)

end SiteBuild.Stylesheet
