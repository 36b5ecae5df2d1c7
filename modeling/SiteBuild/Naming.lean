import SiteBuild.Path

/-!
Names of built files. A stylesheet that a script imports is reached through a proxy, a script whose
name is the stylesheet's name with a suffix; file kinds are read off names alone.
-/
namespace SiteBuild

structure Naming where
  /-- Appended to the name of a stylesheet to form the name of its proxy. -/
  proxySuffix : String := ".proxy.js"
  cssExtension : String := ".css"
  /-- Ends the names of stylesheets whose proxies hold a map of class names. -/
  moduleMarker : String := ".module.css"
  deriving DecidableEq, Repr

namespace Naming

def cssProxySuffix (n : Naming) : String := n.cssExtension ++ n.proxySuffix

def isCssProxy (n : Naming) (specifier : String) : Bool :=
  n.cssProxySuffix.toList.isSuffixOf specifier.toList

/-- The specifier of the stylesheet behind a proxy. -/
def actual (n : Naming) (specifier : String) : String :=
  ((Text.before? n.proxySuffix.toList specifier.toList).map String.ofList).getD specifier

def isCssModule (n : Naming) (specifier : String) : Bool :=
  n.moduleMarker.toList.isSuffixOf specifier.toList

end Naming

inductive FileKind
  | css
  | script
  | page
  | cssProxy
  | other
  deriving DecidableEq, Repr

namespace FileKind

/-- Kinds go by the extension in any letter case; no letter beyond `a` to `z` counts as a case. -/
def ofExtension (extension : String) : FileKind :=
  match String.ofList (extension.toList.map Char.toLower) with
  | "css" => .css
  | "js" => .script
  | "mjs" => .script
  | "html" => .page
  | _ => .other

def ofPath (p : Path) : FileKind := ofExtension (p.extension?.getD "")

/-- A proxy is no script of its own: its name says what it stands for. -/
def classify (n : Naming) (p : Path) : FileKind :=
  if n.isCssProxy (p.fileName?.getD "") then .cssProxy else ofPath p

def text : FileKind → String
  | .css => "css"
  | .script => "js"
  | .page => "html"
  | .cssProxy => "css proxy"
  | .other => "other"

end FileKind

/-- A stylesheet and the proxy that a script reached it through. -/
structure CssEntry where
  actual : Path
  proxy : Path
  deriving DecidableEq, Repr

end SiteBuild
