import Polyglot.Decode.Tables
import Polyglot.Json.Node

/-! Reading a value of the tree from JSON text. The first fault in the order of the text counts,
whether the text breaks off or holds something that does not belong there. -/

namespace Polyglot.Decode

open Json (Fault Piece Token Node Close)

def malformed {α : Type} : Except Error α :=
  .error (.fault .malformed)

def readPieces (pieces : List Piece) : Except Error String :=
  (Piece.text pieces).mapError .fault

namespace Refusal

/-- The error of a token in a place where `expected` belongs. -/
def token (expected : String) : Token → Error
  | .openArray => .wrongType .sequence expected
  | .openObject => .wrongType .map expected
  | .null => .wrongType .null expected
  | .bool value => .wrongType (.bool value) expected
  | .number text =>
    match text.read? with
    | some value => .wrongType (.number value) expected
    | none => .fault .malformed
  | .string pieces =>
    match Piece.text pieces with
    | .ok value => .wrongType (.string value) expected
    | .error fault => .fault fault
  | .brokenString pieces fault => .fault (Piece.faultBefore pieces fault)
  | .brokenWord _ fault => .fault fault
  | .brokenNumber fault => .fault fault
  | .closeArray | .closeObject | .comma | .colon | .stray => .fault .malformed

def node (expected : String) : Node → Error
  | .leaf found => token expected found
  | .missing => .fault .ended
  | .array _ _ => .wrongType .sequence expected
  | .object _ _ => .wrongType .map expected

end Refusal

def readText (expected : String) : Node → Except Error String
  | .leaf (.string pieces) => readPieces pieces
  | node => .error (Refusal.node expected node)

def readFlag : Node → Except Error Bool
  | .leaf (.bool value) => .ok value
  | node => .error (Refusal.node "a boolean" node)

def readLetter (node : Node) : Except Error Char :=
  match readText "a character" node with
  | .ok text =>
    match text.toList with
    | [c] => .ok c
    | _ => .error (.notACharacter text)
  | .error error => .error error

/-- Where a variant carries nothing, only null may stand. -/
def readNothing : Node → Except Error Unit
  | .leaf .null => .ok ()
  | node => .error (Refusal.node "unit" node)

/-- The fault of an array or object that is not closed. -/
def checkClose : Close → Except Error Unit
  | .closed => .ok ()
  | .cut fault => .error (.fault fault)
  | .keyless _ none => .error (.fault .ended)
  | .keyless _ (some (.brokenString pieces fault)) =>
    .error (.fault (Piece.faultBefore pieces fault))
  | .keyless _ (some _) => malformed

mutual

/-- A value that nobody asks for only has to be JSON; its strings and numbers are not read. -/
def skip : Node → Except Fault Unit
  | .leaf token =>
    match token with
    | .null | .bool _ | .number _ | .string _ => .ok ()
    | .brokenString _ fault | .brokenWord _ fault => .error fault
    | _ => .error .malformed
  | .missing => .error .ended
  | .array items close => do
    skipItems items
    skipClose close
  | .object fields close => do
    skipFields fields
    skipClose close

def skipItems : List Node → Except Fault Unit
  | [] => .ok ()
  | item :: rest => do
    skip item
    skipItems rest

def skipFields : List (List Piece × Node) → Except Fault Unit
  | [] => .ok ()
  | (_, value) :: rest => do
    skip value
    skipFields rest

def skipClose : Close → Except Fault Unit
  | .closed => .ok ()
  | .cut fault => .error fault
  | .keyless _ none => .error .ended
  | .keyless _ (some (.brokenString _ fault)) => .error fault
  | .keyless _ (some _) => .error .malformed

end

/-- Reads a value of any kind. -/
abbrev Reader := (kind : Kind) → Node → Except Error kind.Value

/-- The value of a field that an object does not mention. -/
def Kind.ifMissing? : (kind : Kind) → Option kind.Value
  | .spellings => some .empty
  | .optional _ => some none
  | _ => none

/-- The value of a field that an array of fields is too short for. -/
def Kind.ifShort? : (kind : Kind) → Option kind.Value
  | .spellings => some .empty
  | _ => none

/-- The fields of an object that have been read so far. -/
@[reducible]
def Slots : List Field → Type
  | [] => Unit
  | field :: rest => Option field.kind.Value × Slots rest

namespace Slots

def none : (fields : List Field) → Slots fields
  | [] => ()
  | _ :: rest => (Option.none, none rest)

/-- Reads the value of the field called `name`; `Option.none` if there is no such field. -/
def put? (read : Reader) (name : String) (node : Node) :
    (fields : List Field) → Slots fields → Except Error (Option (Slots fields))
  | [], () => .ok Option.none
  | field :: rest, (slot, slots) =>
    if field.name = name then
      match slot with
      | some _ => .error (.duplicateField name)
      | Option.none =>
        match read field.kind node with
        | .ok value => .ok (some (some value, slots))
        | .error error => .error error
    else
      match put? read name node rest slots with
      | .ok result => .ok (result.map fun slots => (slot, slots))
      | .error error => .error error

/-- All fields, in the order of their declaration. -/
def row : (fields : List Field) → Slots fields → Except Error (Row fields)
  | [], () => .ok ()
  | field :: rest, (slot, slots) =>
    match slot.or field.kind.ifMissing? with
    | some value =>
      match row rest slots with
      | .ok values => .ok (value, values)
      | .error error => .error error
    | Option.none => .error (.missingField field.name)

end Slots

/-- The entries of an object, in the order of the text; unknown ones are skipped. -/
def readEntries (read : Reader) (fields : List Field) :
    List (List Piece × Node) → Slots fields → Except Error (Slots fields)
  | [], slots => .ok slots
  | (pieces, node) :: rest, slots => do
    let name ← readPieces pieces
    match ← Slots.put? read name node fields slots with
    | some slots => readEntries read fields rest slots
    | none =>
      (skip node).mapError .fault
      readEntries read fields rest slots

def elements (count : Nat) : String :=
  toString count ++ (if count = 1 then " element" else " elements")

/-- Fields written as an array, from the one numbered `index` on. -/
def readItems (read : Reader) (expected : String) (close : Close) :
    (fields : List Field) → Nat → List Node → Except Error (Row fields)
  | [], _, [] => checkClose close
  | [], _, _ :: _ => malformed
  | field :: rest, index, [] => do
    checkClose close
    match field.kind.ifShort? with
    | some value => return (value, ← readItems read expected close rest (index + 1) [])
    | none => .error (.wrongLength index expected)
  | field :: rest, index, item :: items => do
    let value ← read field.kind item
    return (value, ← readItems read expected close rest (index + 1) items)

/-- The readers for one depth of nesting. -/
structure Level where
  read : Reader
  readRow : String → (fields : List Field) → Node → Except Error (Row fields)

/-- Goes inside an array or object; `inner` is none where no more nesting is allowed. -/
def enter {α : Type} (inner : Option Level) (go : Level → Except Error α) : Except Error α :=
  match inner with
  | some level => go level
  | none => malformed

/-- The fields of a structure, as an object or as an array. -/
def readRow (inner : Option Level) (title : String) (fields : List Field) :
    Node → Except Error (Row fields)
  | .array items close =>
    enter inner fun level =>
      readItems level.read (title ++ " with " ++ elements fields.length) close fields 0 items
  | .object entries close =>
    enter inner fun level => do
      let slots ← readEntries level.read fields entries (Slots.none fields)
      checkClose close
      Slots.row fields slots
  | node => .error (Refusal.node title node)

def readList (read : Reader) (kind : Kind) : List Node → Except Error (List kind.Value)
  | [] => .ok []
  | item :: rest => do
    let value ← read kind item
    return value :: (← readList read kind rest)

/-- The last spelling for a language counts. -/
def readSpellings (read : Reader) (spellings : Spellings) :
    List (List Piece × Node) → Except Error Spellings
  | [] => .ok spellings
  | (pieces, node) :: rest => do
    let language ← readPieces pieces
    let spelling ← read .text node
    readSpellings read (spellings.insert language spelling) rest

def findVariant {α : Type} (variants : List (String × Payload α)) (name : String) :
    Except Error (Payload α) :=
  match variants.lookup name with
  | some payload => .ok payload
  | none => .error (.unknownVariant name (variants.map (·.1)))

/-- A variant given by its bare name. -/
def readBare {α : Type} : Payload α → Except Error α
  | .constant value => .ok value
  | .single _ _ | .structure _ _ _ => .error (.wrongType .unitVariant "newtype variant")
  | .tuple _ _ => .error (.wrongType .unitVariant "struct variant")

def readPayload {α : Type} (level : Level) (title : String) :
    Payload α → Node → Except Error α
  | .constant value, node => (fun () => value) <$> readNothing node
  | .single kind make, node => make <$> level.read kind node
  | .structure title fields make, node => make <$> level.readRow title fields node
  | .tuple fields make, node => make <$> level.readRow ("struct variant " ++ title) fields node

/-- Behind the only entry of a variant comes the closing bracket. -/
def checkSingle (others : List (List Piece × Node)) (close : Close) : Except Error Unit :=
  match others, close with
  | [], .closed => .ok ()
  | [], .cut fault => .error (.fault fault)
  | _, _ => malformed

/-- A variant: its name alone, or an object with its name as the only key. -/
def readChoice {α : Type} (inner : Option Level) (title : String)
    (variants : List (String × Payload α)) : Node → Except Error α
  | .leaf (.string pieces) => do
    let name ← readPieces pieces
    readBare (← findVariant variants name)
  | .leaf (.brokenString pieces fault) => .error (.fault (Piece.faultBefore pieces fault))
  | .missing => .error (.fault .ended)
  | .object [] close =>
    enter inner fun _ => do
      checkClose close
      malformed
  | .object ((pieces, node) :: others) close =>
    enter inner fun level => do
      let name ← readPieces pieces
      let payload ← findVariant variants name
      let value ← readPayload level (title ++ "::" ++ name) payload node
      checkSingle others close
      return value
  | _ => malformed

def readShape {α : Type} (inner : Option Level) : Shape α → Node → Except Error α
  | .record title fields make, node => do make (← readRow inner title fields node)
  | .choice title variants, node => readChoice inner title variants node

def readKind (inner : Option Level) : Reader
  | .text, node => readText "a string" node
  | .flag, node => readFlag node
  | .letter, node => readLetter node
  | .spellings, .object entries close =>
    enter inner fun level => do
      let spellings ← readSpellings level.read .empty entries
      checkClose close
      return spellings
  | .spellings, node => .error (Refusal.node "a map" node)
  | .optional _, .leaf .null => .ok none
  | .optional _, .leaf (.brokenWord 'n' fault) => .error (.fault fault)
  | .optional kind, node => some <$> readKind inner kind node
  | .list kind, .array items close =>
    enter inner fun level => do
      let values ← readList level.read kind items
      checkClose close
      return values
  | .list _, node => .error (Refusal.node "a sequence" node)
  | .named name, node => readShape inner name.shape node

def level (inner : Option Level) : Level where
  read := readKind inner
  readRow := readRow inner

/-- Readers that allow `limit` arrays and objects inside one another. -/
def Level.ofLimit : Nat → Level
  | 0 => level none
  | limit + 1 => level (some (ofLimit limit))

/-- The deepest nesting of a text. -/
def nestingLimit : Nat := 127

/-- Reads a value that has been found in a text. -/
def ofNode (limit : Nat) (name : Named) (node : Node) : Except Error name.Value :=
  (Level.ofLimit limit).read (.named name) node

/-- Reads a whole text. -/
def ofText (name : Named) (text : String) : Except Error name.Value :=
  let (node, followed) := Node.ofText text
  match ofNode nestingLimit name node with
  | .ok value => if followed then malformed else .ok value
  | .error error => .error error

end Polyglot.Decode

namespace Polyglot

/-- Reads a program from JSON text. -/
def Program.ofJson (text : String) : Except Decode.Error Program :=
  Decode.ofText .program text

end Polyglot
