import Polyglot.Json.Node
import Polyglot.Json.Value

/-! Looking into a JSON text that has been read. -/

namespace Polyglot.Json.Node

def string? : Node → Option String
  | .leaf (.string pieces) => (Piece.text pieces).toOption
  | _ => none

def bool? : Node → Option Bool
  | .leaf (.bool value) => some value
  | _ => none

def int? : Node → Option Int
  | .leaf (.number text) =>
    match text.read? with
    | some (.int value) => some value
    | _ => none
  | _ => none

def items : Node → List Node
  | .array items _ => items
  | _ => []

/-- The entries whose names can be read. -/
def entries : Node → List (String × Node)
  | .object fields _ =>
    fields.filterMap fun field => (Piece.text field.1).toOption.map fun name => (name, field.2)
  | _ => []

def field? (node : Node) (name : String) : Option Node :=
  node.entries.lookup name

mutual

/-- The value of a tree, none if it is broken anywhere. -/
def value? : Node → Option Json
  | .leaf .null => some .null
  | .leaf (.bool value) => some (.bool value)
  | .leaf (.number text) =>
    text.read?.map fun
      | .int value => .int value
      | .float value => .float value
  | .leaf (.string pieces) => (Piece.text pieces).toOption.map .string
  | .array items .closed => (itemValues? items).map .array
  | .object fields .closed => (fieldValues? fields).map .object
  | _ => none

def itemValues? : List Node → Option (List Json)
  | [] => some []
  | item :: rest => do
    let value ← item.value?
    return value :: (← itemValues? rest)

def fieldValues? : List (List Piece × Node) → Option (List (String × Json))
  | [] => some []
  | (pieces, node) :: rest => do
    let name ← (Piece.text pieces).toOption
    let value ← node.value?
    return (name, value) :: (← fieldValues? rest)

end

end Polyglot.Json.Node
