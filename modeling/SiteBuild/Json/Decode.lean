import SiteBuild.Json.Reader
import SiteBuild.Table

/-!
Reading records out of JSON values. A record is an object, of which unknown members count for
nothing, or an array of its fields in order.
-/
namespace SiteBuild.Json

abbrev Decoder (α : Type) := Json → Except String α

/-- What a value is called where another kind was expected. -/
def kind : Json → String
  | .null => "null"
  | .bool b => "boolean \x60" ++ (if b then "true" else "false") ++ "\x60"
  | .number literal =>
    (if literal.toList.all Char.isDigit then "integer \x60" else "floating point \x60") ++ literal ++ "\x60"
  | .text s => "string " ++ String.ofList (quote s)
  | .broken => "string"
  | .array _ => "sequence"
  | .object _ => "map"

def mismatch (v : Json) (expected : String) : Except String α :=
  .error ("invalid type: " ++ v.kind ++ ", expected " ++ expected)

def asBool : Decoder Bool
  | .bool b => .ok b
  | v => v.mismatch "a boolean"

def asText : Decoder String
  | .text s => .ok s
  | v => v.mismatch "a string"

/-- A count of 64 bits, written by digits alone. -/
def asCount : Decoder Nat
  | .number literal =>
    let digits := literal.toList
    if digits.all Char.isDigit && Text.decimalValue digits < UInt64.size then
      .ok (Text.decimalValue digits)
    else (Json.number literal).mismatch "usize"
  | v => v.mismatch "usize"

def asList (item : Decoder α) : Decoder (List α)
  | .array items => items.mapM item
  | v => v.mismatch "a sequence"

def asOption (value : Decoder α) : Decoder (Option α)
  | .null => .ok none
  | v => (value v).map some

/-- The names of an object's members, none of them broken. -/
def memberNames (members : List (Option String × Json)) : Except String (List String) :=
  members.mapM fun m =>
    match m.1 with
    | some name => .ok name
    | none => .error "lone leading surrogate in hex escape"

/-- The values of some fields, where they are given. `complete` asks an array for all of them. -/
def fields (names : List String) (complete : Bool) : Decoder (List (Option Json))
  | .object members => do
    let given ← memberNames members
    match names.find? fun name => 1 < given.count name with
    | some name => .error ("duplicate field \x60" ++ name ++ "\x60")
    | none =>
      return names.map fun name => (members.find? fun m => m.1 = some name).map Prod.snd
  | .array items =>
    if names.length < items.length || (complete && items.length < names.length) then
      .error ("invalid length " ++ toString items.length)
    else .ok ((List.range names.length).map fun i => items[i]?)
  | v => v.mismatch "struct"

/-- A field that has to be given. -/
def required (name : String) (value : Decoder α) : Option Json → Except String α
  | some v => value v
  | none => .error ("missing field \x60" ++ name ++ "\x60")

def withDefault (a : α) (value : Decoder α) : Option Json → Except String α
  | some v => value v
  | none => .ok a

/-- The table that an object makes; of two members of one name the later counts. -/
def asTable (value : Decoder α) : Decoder (Table String α)
  | .object members => do
    let given ← memberNames members
    let values ← members.mapM fun m => value m.2
    return Table.ofList (given.zip values)
  | v => v.mismatch "a map"

end SiteBuild.Json
