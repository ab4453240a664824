import Polyglot.Decimal.Notation
import Polyglot.Text.Shown

/-! Values of a TOML document, and how its tables grow. -/

namespace Polyglot.Toml

/-- How a table came about, which decides what may still be added to it. -/
inductive Origin where
  /-- Written out as a value; it is complete. -/
  | inline
  /-- Opened by a header of its own. -/
  | header
  /-- Passed on the way to another header. -/
  | implied
  /-- Passed on the way to a dotted key. -/
  | dotted
  deriving DecidableEq

inductive Value where
  | string (text : String)
  | int (value : Int)
  | float (value : Float)
  | bool (value : Bool)
  /-- A date or a time; its parts are not kept. -/
  | moment
  | array (items : List Value)
  | table (origin : Origin) (entries : List (String × Value))
  /-- An array of tables, each opened by a header. -/
  | rows (tables : List (List (String × Value)))

/-- What a table holds, in the order in which it was written. -/
abbrev Entries := List (String × Value)

/-- The kind of a value in messages, with the value where it is short. -/
def Value.description : Value → String
  | .string text => "string " ++ Text.shown text
  | .int value => "integer `" ++ toString value ++ "`"
  | .float value => "floating point `" ++ Decimal.positionalText value ++ "`"
  | .bool value => "boolean `" ++ (if value then "true" else "false") ++ "`"
  | .array _ | .rows _ => "sequence"
  | .moment | .table _ _ => "map"

namespace Entries

def replace (entries : Entries) (key : String) (value : Value) : Entries :=
  entries.map fun entry => if entry.1 = key then (key, value) else entry

/-- Adds a key that is not there yet. -/
def add? (entries : Entries) (key : String) (value : Value) : Option Entries :=
  match entries.lookup key with
  | none => some (entries ++ [(key, value)])
  | some _ => none

/-- Changes the last of a list of tables. -/
def changeLast? (change : Entries → Option Entries) : List Entries → Option (List Entries)
  | [] => none
  | [table] => (change table).map ([·])
  | table :: rest => (changeLast? change rest).map (table :: ·)

/-- Adds a value under a dotted key. The tables on its way must be open to dotted keys, and the
innermost one must have been made by them. -/
def assign? (key : String) (value : Value) : List String → Entries → Option Entries
  | [], entries => entries.add? key value
  | first :: path, entries =>
    match entries.lookup first with
    | none => do
      let inner ← assign? key value path []
      return entries ++ [(first, .table .dotted inner)]
    | some (.table .dotted inner) => do
      let inner ← assign? key value path inner
      return entries.replace first (.table .dotted inner)
    | some (.table .implied inner) =>
      if path.isEmpty then none
      else do
        let inner ← assign? key value path inner
        return entries.replace first (.table .implied inner)
    | some (.rows tables) =>
      if path.isEmpty then none
      else do
        let tables ← changeLast? (assign? key value path) tables
        return entries.replace first (.rows tables)
    | some _ => none

/-- Changes the table under the path of a header. -/
def changeAt? (change : Entries → Option Entries) : List String → Entries → Option Entries
  | [], entries => change entries
  | first :: path, entries =>
    match entries.lookup first with
    | none => do
      let inner ← changeAt? change path []
      return entries ++ [(first, .table .implied inner)]
    | some (.table .inline _) => none
    | some (.table origin inner) => do
      let inner ← changeAt? change path inner
      return entries.replace first (.table origin inner)
    | some (.rows tables) => do
      let tables ← changeLast? (changeAt? change path) tables
      return entries.replace first (.rows tables)
    | some _ => none

/-- Opens a table. One that was only implied so far moves behind the others. -/
def openTable? (key : String) (entries : Entries) : Option Entries :=
  match entries.lookup key with
  | none => some (entries ++ [(key, .table .header [])])
  | some (.table .implied inner) =>
    some (entries.filter (·.1 ≠ key) ++ [(key, .table .header inner)])
  | some _ => none

/-- Opens the next table of an array of tables. -/
def openRow? (key : String) (entries : Entries) : Option Entries :=
  match entries.lookup key with
  | none => some (entries ++ [(key, .rows [[]])])
  | some (.rows tables) => some (entries.replace key (.rows (tables ++ [[]])))
  | some _ => none

end Entries

end Polyglot.Toml
