import Polyglot.Json.Value
import Polyglot.Script.Grammar
import Polyglot.Table

/-! Lua values, the tables they refer to, and their exchange with JSON. -/

namespace Polyglot.Script

/-- Functions that every script finds; only those with a name of their own can be called here. -/
inductive Builtin where
  | print | error | load | setmetatable
  | other (name : String)
  deriving DecidableEq

namespace Builtin

/-- The functions that are bound to a global of their own. -/
def ofGlobals : List Builtin :=
  [.print, .error, .load, .setmetatable] ++ ["assert", "collectgarbage", "dofile", "getmetatable",
    "ipairs", "loadfile", "next", "pairs", "pcall", "rawequal", "rawget", "rawlen", "rawset",
    "require", "select", "tonumber", "tostring", "type", "warn", "xpcall"].map .other

/-- The functions that a string has as its fields. -/
def ofStrings : List Builtin :=
  ["byte", "char", "dump", "find", "format", "gmatch", "gsub", "len", "lower", "match", "pack",
    "packsize", "rep", "reverse", "sub", "unpack", "upper"].map .other

def name : Builtin → String
  | .print => "print"
  | .error => "error"
  | .load => "load"
  | .setmetatable => "setmetatable"
  | .other name => name

end Builtin

/-- What a table is known by, so that two names can stand for one table. -/
inductive TableId where
  /-- The table of all globals. -/
  | globals
  | stored (place : Nat)
  deriving DecidableEq

inductive Value where
  | nil
  /-- The null of JSON, which is not nil. -/
  | null
  | bool (value : Bool)
  | number (value : Number)
  | string (text : String)
  | function (builtin : Builtin)
  /-- A text that a script has compiled; it is called like a function. -/
  | chunk (code : List Statement)
  | table (id : TableId)

inductive Key where
  | index (position : Int)
  | name (text : String)
  deriving DecidableEq

/-- `isArray` marks the arrays that came from JSON. No field holds nil. -/
structure TableContent where
  isArray : Bool := false
  fields : List (Key × Value) := []
  /-- The table that says what becomes of missing fields. -/
  metatable : Option TableId := none

abbrev Store := Array TableContent

/-- Strings and whole numbers are the keys of fields. -/
def Value.key? : Value → Option Key
  | .string text => some (.name text)
  | .number (.int value) => some (.index value.toInt)
  | .number (.float value) =>
    let whole := value.toInt64
    if whole.toFloat == value then some (.index whole.toInt) else none
  | _ => none

namespace TableContent

def get (content : TableContent) (key : Key) : Value :=
  (content.fields.lookup key).getD .nil

/-- Nil takes the field away. -/
def set (content : TableContent) (key : Key) (value : Value) : TableContent :=
  let others := content.fields.filter (·.1 ≠ key)
  match value with
  | .nil => { content with fields := others }
  | value => { content with fields := others ++ [(key, value)] }

/-- The values from index one up to the first gap, looked for in at most `limit` places. -/
def itemsFrom (content : TableContent) (position : Int) : (limit : Nat) → List Value
  | 0 => []
  | limit + 1 =>
    match content.fields.lookup (Key.index position) with
    | some value => value :: content.itemsFrom (position + 1) limit
    | none => []

def items (content : TableContent) : List Value :=
  content.itemsFrom 1 content.fields.length

def isSequence (content : TableContent) : Bool :=
  content.isArray || content.fields.any fun
    | (.index position, _) => 1 ≤ position
    | _ => false

/-- The fields if all of them have names. -/
def named? (content : TableContent) : Option (List (String × Value)) :=
  content.fields.mapM fun
    | (.name text, value) => some (text, value)
    | (.index _, _) => none

end TableContent

mutual

/-- The value of a JSON value, and the store with the tables that it needs. -/
def Value.ofJson : Json → Store → Value × Store
  | .null, store => (.null, store)
  | .bool value, store => (.bool value, store)
  | .int value, store => (.number (.ofInt value), store)
  | .float value, store => (.number (.float value), store)
  | .string text, store => (.string text, store)
  | .array items, store =>
    let (fields, store) := Value.ofItems 1 items store
    (.table (.stored store.size), store.push { isArray := true, fields := fields })
  | .object entries, store =>
    let (content, store) := Value.ofEntries entries {} store
    (.table (.stored store.size), store.push content)

def Value.ofItems (position : Int) : List Json → Store → List (Key × Value) × Store
  | [], store => ([], store)
  | item :: rest, store =>
    let (value, store) := Value.ofJson item store
    let (fields, store) := Value.ofItems (position + 1) rest store
    ((.index position, value) :: fields, store)

def Value.ofEntries : List (String × Json) → TableContent → Store → TableContent × Store
  | [], content, store => (content, store)
  | (name, json) :: rest, content, store =>
    let (value, store) := Value.ofJson json store
    Value.ofEntries rest (content.set (.name name) value) store

end

/-- The JSON of a value whose tables go at most `depth` deep. Functions have none, and neither has
the table of the globals, in which there are functions. -/
def Value.json? (store : Store) : (depth : Nat) → Value → Option Json
  | _, .nil => some .null
  | _, .null => some .null
  | _, .bool value => some (.bool value)
  | _, .number (.int value) => some (.int value.toInt)
  | _, .number (.float value) => some (if value.isFinite then .float value else .null)
  | _, .string text => some (.string text)
  | _, .function _ => none
  | _, .chunk _ => none
  | _, .table .globals => none
  | 0, .table (.stored _) => none
  | depth + 1, .table (.stored place) => do
    let content ← store[place]?
    if content.isSequence then
      return .array (← content.items.mapM (Value.json? store depth))
    else
      let fields ← (← content.named?).mapM fun field => do
        return (field.1, ← Value.json? store depth field.2)
      return .object (Table.ofEntries fields).entries

/-- The JSON of a value. A table inside itself goes deeper than there are tables, and has none. -/
def Store.json? (store : Store) (value : Value) : Option Json :=
  value.json? store store.size

end Polyglot.Script
