import SiteBuild.Stylesheet.Value

/-!
The properties that are known: what each asks for, and which of them belong together. Some properties
stand for several others at once.
-/
namespace SiteBuild.Stylesheet

/-- Lists of properties by what they ask for. -/
def kinds : List (Kind × List String) :=
  [(.integer, ["order", "z-index"]),
    (.number, ["flex-grow", "flex-shrink"]),
    (.share, ["opacity", "fill-opacity", "stroke-opacity"]),
    (.size ["auto", "min-content", "max-content", "fit-content", "stretch", "contain"],
      ["width", "height", "min-width", "min-height", "block-size", "inline-size", "min-block-size",
        "min-inline-size"]),
    (.size ["none", "min-content", "max-content", "fit-content", "stretch", "contain"],
      ["max-width", "max-height", "max-block-size", "max-inline-size"]),
    (.size ["auto", "content"], ["flex-basis"]),
    (.size ["auto"],
      ["margin-top", "margin-right", "margin-bottom", "margin-left", "top", "right", "bottom", "left",
        "scroll-padding-top", "scroll-padding-right", "scroll-padding-bottom",
        "scroll-padding-left"]),
    (.size [],
      ["padding-top", "padding-right", "padding-bottom", "padding-left", "scroll-margin-top",
        "scroll-margin-right", "scroll-margin-bottom", "scroll-margin-left", "text-indent"]),
    (.size ["normal"], ["row-gap", "column-gap", "letter-spacing", "word-spacing"]),
    (.size ["xx-small", "x-small", "small", "medium", "large", "x-large", "xx-large", "xxx-large",
        "smaller", "larger"],
      ["font-size"]),
    (.size ["baseline", "sub", "super", "top", "text-top", "middle", "bottom", "text-bottom"],
      ["vertical-align"]),
    (.size ["thin", "medium", "thick"],
      ["border-top-width", "border-right-width", "border-bottom-width", "border-left-width",
        "outline-width"]),
    (.measure ["normal"], ["line-height"]),
    (.measure [], ["tab-size"]),
    (.weight, ["font-weight"]),
    (.color,
      ["color", "background-color", "border-top-color", "border-right-color", "border-bottom-color",
        "border-left-color", "outline-color", "caret-color", "accent-color", "text-decoration-color",
        "text-emphasis-color"]),
    (.background, ["background"]),
    (.mixture,
      ["border", "border-top", "border-right", "border-bottom", "border-left", "border-color",
        "border-width", "border-style", "border-radius", "border-top-left-radius",
        "border-top-right-radius", "border-bottom-right-radius", "border-bottom-left-radius",
        "border-spacing", "outline", "box-shadow", "text-shadow", "text-decoration", "background-position",
        "background-position-x", "background-position-y", "background-size", "fill", "stroke",
        "stroke-width", "translate", "perspective"]),
    (.keyword ["static", "relative", "absolute", "fixed", "sticky"], ["position"]),
    (.keyword ["visible", "hidden", "clip", "scroll", "auto"], ["overflow-x", "overflow-y"]),
    (.keyword ["row", "row-reverse", "column", "column-reverse"], ["flex-direction"]),
    (.keyword ["nowrap", "wrap", "wrap-reverse"], ["flex-wrap"]),
    (.keyword ["ltr", "rtl"], ["direction"]),
    (.keyword ["normal", "embed", "isolate", "bidi-override", "isolate-override", "plaintext"],
      ["unicode-bidi"]),
    (.keyword ["visible", "hidden", "collapse"], ["visibility"]),
    (.keyword ["inside", "outside"], ["list-style-position"]),
    (.keyword ["start", "end", "left", "right", "center", "justify", "match-parent", "justify-all"],
      ["text-align"]),
    (.keyword ["content-box", "border-box"], ["box-sizing"])]

/-- A property that stands for several, and how the words of its value are those of theirs. -/
structure Shorthand where
  name : String
  /-- The properties that it stands for, in the order in which they are written on their own. -/
  parts : List String
  /-- The words of the parts. -/
  spread? : List (List Char) → Option (List (List Char))
  /-- The fewest words that say the same as those of all parts. -/
  gather : List (List Char) → List (List Char)

namespace Shorthand

/-- Words for top, right, bottom and left. A word that is left out is that of the other side. -/
def spreadSides? : List (List Char) → Option (List (List Char))
  | [a] => some [a, a, a, a]
  | [a, b] => some [a, a, b, b]
  | [a, b, c] => some [a, c, b, b]
  | [a, b, c, d] => some [a, c, d, b]
  | _ => none

def gatherSides : List (List Char) → List (List Char)
  | [top, bottom, left, right] =>
    if left ≠ right then [top, right, bottom, left]
    else if top ≠ bottom then [top, right, bottom]
    else if top ≠ right then [top, right]
    else [top]
  | ws => ws

theorem spreadSides?_gatherSides (top bottom left right : List Char) :
    spreadSides? (gatherSides [top, bottom, left, right]) = some [top, bottom, left, right] := by
  simp only [gatherSides]
  repeat' split
  all_goals simp_all [spreadSides?]

def spreadPair? : List (List Char) → Option (List (List Char))
  | [a] => some [a, a]
  | [a, b] => some [a, b]
  | _ => none

def gatherPair : List (List Char) → List (List Char)
  | [a, b] => if a = b then [a] else [a, b]
  | ws => ws

theorem spreadPair?_gatherPair (a b : List Char) :
    spreadPair? (gatherPair [a, b]) = some [a, b] := by
  simp only [gatherPair]
  split <;> simp_all [spreadPair?]

/-- The four sides of a box. -/
def sides (name : String) (part : String → String) : Shorthand :=
  ⟨name, ["top", "bottom", "left", "right"].map part, spreadSides?, gatherSides⟩

def pair (name first second : String) : Shorthand :=
  ⟨name, [first, second], spreadPair?, gatherPair⟩

def isWrap (s : List Char) : Bool := isOneOf ["nowrap", "wrap", "wrap-reverse"] s

/-- The direction of a row or column, and whether it is wrapped, in either order. -/
def flow : Shorthand where
  name := "flex-flow"
  parts := ["flex-direction", "flex-wrap"]
  spread?
    | [a] => some (if isWrap a then ["row".toList, a] else [a, "nowrap".toList])
    | [a, b] => some (if isWrap a then [b, a] else [a, b])
    | _ => none
  gather
    | [a, b] =>
      if b = "nowrap".toList then [a] else if a = "row".toList then [b] else [a, b]
    | ws => ws

/-- How far a part of a row grows and shrinks, and from which size. -/
def flex : Shorthand where
  name := "flex"
  parts := ["flex-grow", "flex-shrink", "flex-basis"]
  spread? ws :=
    match ws with
    | [a] =>
      if a = "none".toList then some [['0'], ['0'], "auto".toList]
      else if (readNumber? a).isSome then some [a, ['1'], "0%".toList]
      else some [['1'], ['1'], a]
    | [a, b] =>
      if (readNumber? b).isSome then some [a, b, "0%".toList] else some [a, ['1'], b]
    | [a, b, c] => some [a, b, c]
    | _ => none
  gather ws :=
    match ws with
    | [a, b, c] =>
      if a = ['0'] && b = ['0'] && c = "auto".toList then ["none".toList]
      else if c = ['0'] then [a, b, c]
      else
        let sizes := if b ≠ ['1'] then [a, b] else if a ≠ ['1'] then [a] else []
        if c = "0%".toList then (if sizes.isEmpty then [a] else sizes) else sizes ++ [c]
    | _ => ws

end Shorthand

/-- What is written of properties that belong together. -/
inductive Member
  /-- A property on its own. It takes the place of all that belong to it. -/
  | one (name : String) (parts : List String)
  | shorthand (s : Shorthand)

/-- Properties that are written one behind the other. -/
abbrev Family := List Member

namespace Member

def names : Member → List String
  | .one name _ => [name]
  | .shorthand s => s.name :: s.parts

/-- Properties on their own. -/
def list (names : List String) : Family := names.map fun n => .one n []

/-- A property and those that belong to it. -/
def whole (name : String) (parts : List String) : Family := .one name parts :: list parts

end Member

open Member in
/-- The families of properties that stand behind all others, in their order. -/
def families : List Family :=
  let corners := ["top-left", "top-right", "bottom-right", "bottom-left"]
  let directions := ["top", "bottom", "left", "right"]
  let aspects := ["width", "style", "color"]
  [list ["direction"], list ["unicode-bidi"],
    whole "background"
      ["background-color", "background-image", "background-position", "background-position-x",
        "background-position-y", "background-repeat", "background-size", "background-attachment",
        "background-origin", "background-clip"],
    whole "border"
        (aspects.map ("border-" ++ ·) ++
          directions.flatMap fun d => ("border-" ++ d) :: aspects.map fun a => s!"border-{d}-{a}") ++
      whole "border-image"
        (["source", "slice", "width", "outset", "repeat"].map ("border-image-" ++ ·)) ++
      whole "border-radius" (corners.map fun c => s!"border-{c}-radius"),
    whole "outline" (aspects.map ("outline-" ++ ·)),
    [.shorthand .flow, .shorthand .flex] ++ list ["order"],
    whole "grid-template" ["grid-template-rows", "grid-template-columns", "grid-template-areas"] ++
      list ["grid-auto-rows", "grid-auto-columns", "grid-auto-flow"] ++
      whole "grid-area" ["grid-row-start", "grid-row-end", "grid-column-start", "grid-column-end"] ++
      list ["grid-row", "grid-column"],
    [.shorthand (.pair "place-content" "align-content" "justify-content"),
      .shorthand (.pair "place-self" "align-self" "justify-self"),
      .shorthand (.pair "place-items" "align-items" "justify-items"),
      .shorthand (.pair "gap" "row-gap" "column-gap")],
    list
      ["width", "min-width", "max-width", "height", "min-height", "max-height", "block-size",
        "min-block-size", "max-block-size", "inline-size", "min-inline-size", "max-inline-size"],
    [.shorthand (.sides "margin" ("margin-" ++ ·))],
    [.shorthand (.sides "padding" ("padding-" ++ ·))],
    [.shorthand (.sides "scroll-margin" ("scroll-margin-" ++ ·))],
    [.shorthand (.sides "scroll-padding" ("scroll-padding-" ++ ·))],
    whole "font"
      ["font-family", "font-size", "font-style", "font-variant-caps", "font-weight", "font-stretch",
        "line-height"],
    whole "text-decoration"
        (["line", "thickness", "style", "color"].map ("text-decoration-" ++ ·)) ++
      whole "text-emphasis" ["text-emphasis-style", "text-emphasis-color"] ++
      list ["text-emphasis-position"],
    whole "list-style" ["list-style-type", "list-style-image", "list-style-position"],
    whole "transition"
      ["transition-property", "transition-duration", "transition-delay",
        "transition-timing-function"],
    whole "animation"
      (["name", "duration", "timing-function", "iteration-count", "direction", "play-state", "delay",
        "fill-mode", "timeline"].map ("animation-" ++ ·)),
    list ["display"], list ["position"],
    [.shorthand (.sides "inset" id)],
    [.shorthand (.pair "overflow" "overflow-x" "overflow-y")],
    list ["transform", "translate", "rotate", "scale"],
    list ["box-shadow"],
    whole "mask"
      (["image", "position", "size", "repeat", "clip", "origin", "composite", "mode"].map
        ("mask-" ++ ·)),
    whole "container" ["container-name", "container-type"],
    list ["color-scheme"]]

/-- Properties that keep the first place where they are set. -/
def fixedNames : List String :=
  ["color", "text-shadow", "filter", "backdrop-filter", "fill", "stroke", "caret-color", "caret",
    "transform-origin", "transform-style", "backface-visibility", "perspective", "perspective-origin",
    "box-sizing", "tab-size", "hyphens", "text-align-last", "text-decoration-skip-ink",
    "text-overflow", "user-select", "appearance", "clip-path", "box-decoration-break",
    "text-size-adjust"]

/-- Properties that stand where they are set, each time. -/
def plainNames : List String :=
  ["opacity", "visibility", "aspect-ratio", "z-index", "vertical-align", "text-transform",
    "white-space", "word-break", "line-break", "overflow-wrap", "word-wrap", "text-align",
    "text-justify", "letter-spacing", "word-spacing", "text-indent", "resize", "cursor",
    "accent-color", "fill-opacity", "stroke-opacity", "stroke-width", "border-spacing",
    "will-change", "print-color-adjust"]

def family? (name : String) : Option Family :=
  families.find? fun f => f.any fun m => m.names.contains name

/-- What a known property asks for. -/
def kind? (name : String) : Option Kind :=
  match kinds.find? fun k => k.2.contains name with
  | some k => some k.1
  | none =>
    if fixedNames.contains name || plainNames.contains name || (family? name).isSome then
      some .anything
    else none

end SiteBuild.Stylesheet
