import Polyglot.Json.Value
import Polyglot.Table
import Polyglot.Text.Shown

/-! Values as constructors with named fields, and two notations for them. -/

namespace Polyglot

inductive Datum where
  | text (value : String)
  | flag (value : Bool)
  | letter (value : Char)
  | absent
  | present (value : Datum)
  | list (items : List Datum)
  | table (content : Table String)
  /-- A structure; its name is not part of its JSON. -/
  | record (name : String) (fields : List (String × Datum))
  /-- A constructor without arguments. -/
  | constant (tag : String)
  /-- A constructor around one value. -/
  | tagged (tag : String) (value : Datum)
  /-- A constructor with named fields. -/
  | tuple (tag : String) (fields : List (String × Datum))

namespace Datum

mutual

/-- An object for each structure, and an object with the tag as its only key for each constructor
that has arguments. -/
def json : Datum → Json
  | .text value => .string value
  | .flag value => .bool value
  | .letter value => .string (String.singleton value)
  | .absent => .null
  | .present value => value.json
  | .list items => .array (jsonItems items)
  | .table content => .object (content.entries.map fun entry => (entry.1, .string entry.2))
  | .record _ fields => .object (jsonFields fields)
  | .constant tag => .string tag
  | .tagged tag value => .object [(tag, value.json)]
  | .tuple tag fields => .object [(tag, .object (jsonFields fields))]

def jsonItems : List Datum → List Json
  | [] => []
  | item :: rest => item.json :: jsonItems rest

def jsonFields : List (String × Datum) → List (String × Json)
  | [] => []
  | (name, value) :: rest => (name, value.json) :: jsonFields rest

end

/-- Items between brackets of their own. -/
def enclosed (opening : String) (items : List String) (closing : String) : String :=
  opening ++ ", ".intercalate items ++ closing

mutual

/-- The constructor notation, as messages show it. -/
def outline : Datum → String
  | .text value => Text.shown value
  | .flag value => if value then "true" else "false"
  | .letter value => Text.shownChar value
  | .absent => "None"
  | .present value => "Some(" ++ value.outline ++ ")"
  | .list items => enclosed "[" (outlineItems items) "]"
  | .table content =>
    let shown := content.entries.map fun entry => Text.shown entry.1 ++ ": " ++ Text.shown entry.2
    enclosed "\x7b" shown "\x7d"
  | .record name fields => enclosed (name ++ " \x7b ") (outlineFields fields) " \x7d"
  | .constant tag => tag
  | .tagged tag value => tag ++ "(" ++ value.outline ++ ")"
  | .tuple tag fields => enclosed (tag ++ " \x7b ") (outlineFields fields) " \x7d"

def outlineItems : List Datum → List String
  | [] => []
  | item :: rest => item.outline :: outlineItems rest

def outlineFields : List (String × Datum) → List String
  | [] => []
  | (name, value) :: rest => (name ++ ": " ++ value.outline) :: outlineFields rest

end

end Datum

end Polyglot
