import Polyglot.Script.Grammar
import Polyglot.Script.Value

/-! Running Lua scripts. -/

namespace Polyglot.Script

/-- What a running script sees. -/
structure State where
  globals : TableContent := {}
  /-- The newest local comes first. -/
  locals : List (String × Value) := []
  store : Store := #[]

/-- How a value is called with arguments; none if that fails. -/
abbrev Caller := Value → List Value → State → Option (Value × State)

namespace State

def content? (state : State) : TableId → Option TableContent
  | .globals => some state.globals
  | .stored place => state.store[place]?

def setContent (state : State) (content : TableContent) : TableId → State
  | .globals => { state with globals := content }
  | .stored place => { state with store := state.store.setIfInBounds place content }

/-- What is asked for the fields that a table does not have. -/
def handler (state : State) (content : TableContent) : Value :=
  match content.metatable.bind state.content? with
  | some metatable => metatable.get (.name "__index")
  | none => .nil

def setLocal (name : String) (value : Value) : List (String × Value) → List (String × Value)
  | [] => []
  | (key, old) :: rest =>
    if key = name then (key, value) :: rest else (key, old) :: setLocal name value rest

/-- Assigns to the local of that name if there is one. -/
def set (state : State) (name : String) (value : Value) : State :=
  if state.locals.any (·.1 = name) then
    { state with locals := setLocal name value state.locals }
  else { state with globals := state.globals.set (.name name) value }

def declare (state : State) (name : String) (value : Value) : State :=
  { state with locals := (name, value) :: state.locals }

end State

def Value.number? : Value → Option Number
  | .number value => some value
  | .string text => Number.ofText? text
  | _ => none

/-- Strings, and numbers as their text, can be joined. -/
def Value.text? : Value → Option String
  | .string text => some text
  | .number value => some value.text
  | _ => none

def Operator.apply : Operator → Value → Value → Option Value
  | .concat, left, right => do return .string ((← left.text?) ++ (← right.text?))
  | .add, left, right => do return .number ((← left.number?).add (← right.number?))
  | .sub, left, right => do return .number ((← left.number?).sub (← right.number?))
  | .mul, left, right => do return .number ((← left.number?).mul (← right.number?))

/-- The function of that name that strings have. -/
def Value.stringField : Value → Value
  | .string name =>
    if .other name ∈ Builtin.ofStrings then .function (.other name) else .nil
  | _ => .nil

/-- The field of a value; only tables and strings have fields. A missing field of a table is asked
of its handler, which is called if it is a function and looked into otherwise. At most `limit`
values are looked into. -/
def State.indexWithin (call : Caller) :
    (limit : Nat) → (object key : Value) → State → Option (Value × State)
  | limit + 1, .table id, key, state => do
    let content ← state.content? id
    match (key.key?.map content.get).getD .nil, state.handler content with
    | .nil, .nil => return (.nil, state)
    | .nil, .function builtin => call (.function builtin) [.table id, key] state
    | .nil, .chunk code => call (.chunk code) [.table id, key] state
    | .nil, handler => state.indexWithin call limit handler key
    | value, _ => return (value, state)
  | _ + 1, .string _, key, state => some (key.stringField, state)
  | _, _, _, _ => none

/-- The most values that are looked into for one field. -/
def indexLimit : Nat := 2000

def State.index (call : Caller) (object key : Value) (state : State) : Option (Value × State) :=
  state.indexWithin call indexLimit object key

/-- A name that is not a local is a field of the globals. -/
def State.get (call : Caller) (name : String) (state : State) : Option (Value × State) :=
  match state.locals.lookup name with
  | some value => some (value, state)
  | none => state.index call (.table .globals) (.string name)

/-- Only the fields of tables can be set. -/
def State.setIndex (state : State) (object key value : Value) : Option State :=
  match object with
  | .table id => do
    let content ← state.content? id
    return state.setContent (content.set (← key.key?) value) id
  | _ => none

/-- Tables that came from JSON and those whose metatable is hidden keep what they have. -/
def State.setMetatable (state : State) (id metatable : TableId) : Option State := do
  let content ← state.content? id
  let hidden := (content.metatable.bind state.content?).any fun old =>
    (old.fields.lookup (.name "__metatable")).isSome
  if content.isArray || hidden then none
  else return state.setContent { content with metatable := some metatable } id

section Evaluation

variable (call : Caller)

mutual

/-- The value of a term, none if it fails. -/
def Term.eval : Term → State → Option (Value × State)
  | .nil, state => some (.nil, state)
  | .bool value, state => some (.bool value, state)
  | .number value, state => some (.number value, state)
  | .string text, state => some (.string text, state)
  | .name word, state => state.get call word
  | .index object key, state => do
    let (object, state) ← object.eval state
    let (key, state) ← key.eval state
    state.index call object key
  | .call function args, state => do
    let (function, state) ← function.eval state
    let (args, state) ← Term.evalArgs args state
    call function args state
  | .negate operand, state => do
    let (value, state) ← operand.eval state
    return (.number (← value.number?).negate, state)
  | .binary op left right, state => do
    let (left, state) ← left.eval state
    let (right, state) ← right.eval state
    return (← op.apply left right, state)
  | .table items, state => do
    let (content, state) ← Term.evalItems 1 items {} state
    return (.table (.stored state.store.size), { state with store := state.store.push content })

def Term.evalArgs : List Term → State → Option (List Value × State)
  | [], state => some ([], state)
  | arg :: rest, state => do
    let (value, state) ← arg.eval state
    let (values, state) ← Term.evalArgs rest state
    return (value :: values, state)

def Term.evalItems (position : Int) : List (Option String × Term) → TableContent → State →
    Option (TableContent × State)
  | [], content, state => some (content, state)
  | (some key, term) :: rest, content, state => do
    let (value, state) ← term.eval state
    Term.evalItems position rest (content.set (.name key) value) state
  | (none, term) :: rest, content, state => do
    let (value, state) ← term.eval state
    Term.evalItems (position + 1) rest (content.set (.index position) value) state

end

def Statement.run : Statement → State → Option State
  | .assign (.name name) value, state => do
    let (value, state) ← value.eval call state
    return state.set name value
  | .assign (.index object key) value, state => do
    let (object, state) ← object.eval call state
    let (key, state) ← key.eval call state
    let (value, state) ← value.eval call state
    state.setIndex object key value
  | .declare name value, state => do
    let (value, state) ← value.eval call state
    return state.declare name value
  | .call function args, state => do
    let (_, state) ← (Term.call function args).eval call state
    return state

/-- Runs the statements one after the other; none if one of them fails. -/
def Statement.runAll (statements : List Statement) (state : State) : Option State :=
  statements.foldlM (fun state statement => statement.run call state) state

end Evaluation

/-- Calls that are nested at most `depth` deep. What is printed is not kept, a text that does not
compile gives nil, and compiled code has locals of its own. An error ends the script. -/
def Value.call : (depth : Nat) → Caller
  | 0, _, _, _ => none
  | _ + 1, .function .print, _, state => some (.nil, state)
  | _ + 1, .function .load, [source], state => do
    let text ← source.text?
    return (((Statement.ofText text).map .chunk).getD .nil, state)
  | _ + 1, .function .setmetatable, .table id :: .table metatable :: _, state => do
    return (.table id, ← state.setMetatable id metatable)
  | depth + 1, .chunk code, _, state => do
    let last ← Statement.runAll (Value.call depth) code { state with locals := [] }
    return (.nil, { last with locals := state.locals })
  | _, _, _, _ => none

/-- The deepest nesting of calls. -/
def callLimit : Nat := 200

namespace State

/-- The globals of a fresh interpreter. -/
def initial : State where
  globals :=
    { fields := (.name "_G", .table .globals) ::
        Builtin.ofGlobals.map fun builtin => (.name builtin.name, .function builtin) }

/-- Binds a global to the value of a JSON value. -/
def bind (state : State) (name : String) (json : Json) : State :=
  let (value, store) := Value.ofJson json state.store
  { state with globals := state.globals.set (.name name) value, store := store }

/-- The JSON of a global. Code of the script may run for it. -/
def read (state : State) (name : String) : Option (Json × State) := do
  let (value, state) ← state.index (Value.call callLimit) (.table .globals) (.string name)
  return (← state.store.json? value, state)

end State

end Polyglot.Script
