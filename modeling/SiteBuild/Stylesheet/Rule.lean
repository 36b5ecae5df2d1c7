import SiteBuild.Stylesheet.Declaration

/-!
Rules of a stylesheet: rules of style, blocks for media, and statements. Reading closes what the text
leaves open, and refuses what no rule can hold.
-/
namespace SiteBuild.Stylesheet

inductive Rule
  | style (selectors : List (List Char)) (declarations : List Declaration)
  | media (query : List Char) (rules : List Rule)
  | statement (text : List Char)
  /-- A rule that says nothing. It keeps its neighbours apart. -/
  | void

/-- Where the reader of comments stands. -/
inductive CommentPlace
  | plain
  | comment
  | quoted (quote : Char)

/-- The text without its comments. -/
def dropComments : CommentPlace → List Char → List Char
  | .plain, '/' :: '*' :: s => dropComments .comment s
  | .plain, c :: s =>
    c :: dropComments (if c = '\x22' || c = '\x27' then .quoted c else .plain) s
  | .comment, '*' :: '/' :: s => dropComments .plain s
  | .comment, _ :: s => dropComments .comment s
  | .quoted q, '\\' :: c :: s => '\\' :: c :: dropComments (.quoted q) s
  | .quoted q, c :: s => c :: dropComments (if c = q then .plain else .quoted q) s
  | _, [] => []

/-- What ends a piece of a stylesheet. -/
inductive Mark
  | openBlock
  | closeBlock
  | semicolon
  | finish
  deriving DecidableEq, Repr

def mark? (c : Char) : Option Mark :=
  if c = '{' then some .openBlock
  else if c = '}' then some .closeBlock
  else if c = ';' then some .semicolon
  else none

/-- What closes a bracket. -/
def closing? (c : Char) : Option Char :=
  if c = '(' then some ')' else if c = '[' then some ']' else none

/-- The pieces between marks. Within quotes and brackets nothing is a mark. What is open where the text
ends is closed there; a bracket that closes nothing, and a quote over several lines, are refused. -/
def pieces? (quote : Option Char) (closers piece : List Char) :
    List Char → Option (List (List Char × Mark))
  | [] => some [(piece.reverse ++ quote.toList ++ closers, .finish)]
  | '\\' :: c :: s => pieces? quote closers (c :: '\\' :: piece) s
  | c :: s =>
    match quote with
    | some q =>
      if c = '\n' then none
      else pieces? (if c = q then none else some q) closers (c :: piece) s
    | none =>
      match closers, mark? c with
      | [], some m => (pieces? none [] [] s).map ((piece.reverse, m) :: ·)
      | _, _ =>
        if c = ')' || c = ']' then
          match closers with
          | d :: closers => if c = d then pieces? none closers (c :: piece) s else none
          | [] => none
        else
          pieces? (if c = '\x22' || c = '\x27' then some c else none)
            ((closing? c).toList ++ closers) (c :: piece) s

/-- The name behind an at sign, in lower case, and the text behind it. -/
def atName? : List Char → Option (List Char × List Char)
  | '@' :: s =>
    if s.head?.any isNameStart then
      some ((s.takeWhile isNameChar).map Char.toLower, trimGaps (s.dropWhile isNameChar))
    else none
  | _ => none

/-- A text without the marks in front that hide a stylesheet from readers of pages. -/
def dropShells : List Char → List Char
  | '<' :: '!' :: '-' :: '-' :: s => dropShells s
  | '-' :: '-' :: '>' :: s => dropShells s
  | c :: s => if isGap c then dropShells s else c :: s
  | [] => []

/-- The pieces behind the end of a block, of which `depth` are open. -/
def skipBlock (depth : Nat) : List (List Char × Mark) → List (List Char × Mark)
  | [] => []
  | (_, .openBlock) :: ps => skipBlock (depth + 1) ps
  | (_, .closeBlock) :: ps =>
    match depth with
    | depth + 1 => skipBlock depth ps
    | 0 => ps
  | _ :: ps => skipBlock depth ps

/-- Leaves out a statement in front that names the character set, and all that it may be taken for. -/
def skipCharset : List (List Char × Mark) → List (List Char × Mark)
  | (text, m) :: ps =>
    if (atName? (dropShells text)).any (·.1 = "charset".toList) then
      match m with
      | .openBlock => skipBlock 0 ps
      | _ => ps
    else (text, m) :: ps
  | [] => []

/-- What has been read: the open blocks for media, each with its query and the rules in front of it,
the rules of the innermost block, and an open rule of style. All lists are in reverse. -/
structure RuleReading where
  blocks : List (List Char × List Rule)
  rules : List Rule
  style : Option (List (List Char) × List Declaration)

namespace RuleReading

def push (r : RuleReading) (rule : Rule) : RuleReading := { r with rules := rule :: r.rules }

/-- Words for the kinds of media are written in lower case. -/
def spellQuery (tight : Bool) (query : List Char) : List Char :=
  let lower := query.map Char.toLower
  if isOneOf ["print", "screen", "all", "not all"] lower then lower
  else collapse tight none .none query

def isText (s : List Char) : Bool :=
  match s with
  | q :: s => (q = '\x22' || q = '\x27') && s.getLast? = some q
  | [] => false

/-- Whether a stylesheet may be imported here: nothing but statements stands in front. -/
def isHead (r : RuleReading) : Bool :=
  r.blocks.isEmpty && r.rules.all fun
    | .statement _ | .void => true
    | _ => false

/-- A statement. One that names the character set has no place here, and says nothing. -/
def pushStatement? (r : RuleReading) (text : List Char) : Option RuleReading := do
  let (name, prelude) ← atName? text
  if name = "charset".toList then
    if isText prelude then return r.push .void else none
  else if name = "media".toList then none
  else if name = "import".toList && !r.isHead then none
  else return r.push (.statement text)

def openBlock? (tight : Bool) (r : RuleReading) (text : List Char) : Option RuleReading :=
  match atName? text with
  | some (name, query) =>
    if name = "media".toList then
      some ⟨(spellQuery tight query, r.rules) :: r.blocks, [], none⟩
    else none
  | none => (readSelectors? tight text).map fun selectors => { r with style := some (selectors, []) }

def closeBlock? (r : RuleReading) : Option RuleReading :=
  match r.blocks with
  | [] => none
  | (query, before) :: blocks => some ⟨blocks, .media query r.rules.reverse :: before, none⟩

/-- Whether no block is open. -/
def isOuter (r : RuleReading) : Bool := r.blocks.isEmpty && r.style.isNone

/-- One piece and the mark behind it. Only within a block may nothing stand in front of a semicolon. -/
def step? (tight : Bool) (r : RuleReading) (piece : List Char × Mark) : Option RuleReading :=
  let text := trimGaps (if r.isOuter then dropShells piece.1 else piece.1)
  match r.style with
  | some (selectors, ds) => do
    let ds ← if text.isEmpty then some ds else (Declaration.read? tight piece.1).map (· :: ds)
    match piece.2 with
    | .openBlock => none
    | .semicolon => return { r with style := some (selectors, ds) }
    | .closeBlock | .finish =>
      return { r with
        style := none, rules := .style selectors (Declaration.inOrder ds.reverse) :: r.rules }
  | none =>
    match piece.2 with
    | .openBlock => r.openBlock? tight text
    | .closeBlock => if text.isEmpty then r.closeBlock? else none
    | .semicolon =>
      if text.isEmpty && !r.isOuter then some r else r.pushStatement? text
    | .finish => if text.isEmpty then some r else r.pushStatement? text

/-- The rules, with every open block closed. -/
def finish (r : RuleReading) : List Rule :=
  (r.blocks.foldl (fun rules b => .media b.1 rules.reverse :: b.2) r.rules).reverse

end RuleReading

def readRules? (tight : Bool) (s : List Char) : Option (List Rule) := do
  let ps ← pieces? none [] [] (dropComments .plain s)
  let r ← (skipCharset ps).foldlM (RuleReading.step? tight) ⟨[], [], none⟩
  return r.finish

end SiteBuild.Stylesheet
