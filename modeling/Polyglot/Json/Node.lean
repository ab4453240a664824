import Polyglot.Json.Token

/-! A JSON text as a tree, as far as it can be read. -/

namespace Polyglot.Json

/-- How the text of an array or object ends. -/
inductive Close where
  | closed
  /-- Behind a value there is neither a comma nor the closing bracket. -/
  | cut (fault : Fault)
  /-- Where an object's key belongs, at the start or behind a comma, stands something else. -/
  | keyless (afterComma : Bool) (found : Option Token)

inductive Node where
  /-- A token that is no bracket, or one that cannot stand where a value belongs. -/
  | leaf (token : Token)
  /-- The text ends where a value belongs. -/
  | missing
  | array (items : List Node) (close : Close)
  | object (fields : List (List Piece × Node)) (close : Close)

/-- An open array or object; values are kept newest first. -/
inductive Frame where
  | array (items : List Node)
  | object (fields : List (List Piece × Node)) (key : List Piece)

/-- What may come next. -/
inductive Phase where
  | value | firstItem | key (afterComma : Bool) | colon | behind

namespace Frame

def push (frame : Frame) (value : Node) : Frame :=
  match frame with
  | .array items => .array (value :: items)
  | .object fields key => .object ((key, value) :: fields) []

def close (frame : Frame) (close : Close) : Node :=
  match frame with
  | .array items => .array items.reverse close
  | .object fields _ => .object fields.reverse close

end Frame

/-- The whole tree when the text breaks off inside the given frames. -/
def abandon (value : Node) : List Frame → Node
  | [] => value
  | frame :: outer => abandon ((frame.push value).close (.cut .ended)) outer

/-- A tree that is growing, complete, or broken off for good. -/
inductive Growth where
  | growing (stack : List Frame) (phase : Phase)
  | complete (node : Node) (followed : Bool)
  | broken (node : Node)

namespace Growth

/-- Puts a complete value in its place. -/
def settle (value : Node) : List Frame → Growth
  | [] => .complete value false
  | frame :: outer => .growing (frame.push value :: outer) .behind

/-- A token where a value belongs. -/
def value (stack : List Frame) (token : Token) : Growth :=
  match token with
  | .openArray => .growing (.array [] :: stack) .firstItem
  | .openObject => .growing (.object [] [] :: stack) (.key false)
  | .null | .bool _ | .number _ | .string _ => settle (.leaf token) stack
  | _ => .broken (abandon (.leaf token) stack)

/-- A token where a key belongs. -/
def key (frame : Frame) (outer : List Frame) (afterComma : Bool) (token : Token) : Growth :=
  match token, frame, afterComma with
  | .string pieces, .object fields _, _ => .growing (.object fields pieces :: outer) .colon
  | .closeObject, frame, false => settle (frame.close .closed) outer
  | token, frame, afterComma =>
    .broken (abandon (frame.close (.keyless afterComma (some token))) outer)

/-- A token behind a value. -/
def behind (frame : Frame) (outer : List Frame) (token : Token) : Growth :=
  match token, frame with
  | .comma, .array _ => .growing (frame :: outer) .value
  | .comma, .object _ _ => .growing (frame :: outer) (.key true)
  | .closeArray, .array _ => settle (frame.close .closed) outer
  | .closeObject, .object _ _ => settle (frame.close .closed) outer
  | _, _ => .broken (abandon (frame.close (.cut .malformed)) outer)

def step : Growth → Token → Growth
  | .growing stack .value, token => value stack token
  | .growing (frame :: outer) .firstItem, .closeArray => settle (frame.close .closed) outer
  | .growing stack .firstItem, token => value stack token
  | .growing (frame :: outer) (.key afterComma), token => key frame outer afterComma token
  | .growing stack .colon, .colon => .growing stack .value
  | .growing (frame :: outer) .behind, token => behind frame outer token
  | .growing stack _, _ => .broken (abandon (.leaf .stray) stack)
  | .complete node _, _ => .complete node true
  | .broken node, _ => .broken node

/-- The tree where the text ends, and whether anything but blanks followed it. -/
def finish : Growth → Node × Bool
  | .growing (frame :: outer) (.key afterComma) =>
    (abandon (frame.close (.keyless afterComma none)) outer, false)
  | .growing (frame :: outer) .behind => (abandon (frame.close (.cut .ended)) outer, false)
  | .growing stack _ => (abandon .missing stack, false)
  | .complete node followed => (node, followed)
  | .broken node => (node, false)

end Growth

/-- The tree of a text, and whether anything but blanks follows it. -/
def Node.ofText (text : String) : Node × Bool :=
  ((tokens text.toList).foldl Growth.step (.growing [] .value)).finish

end Polyglot.Json
