import Polyglot.Loop
import Polyglot.Toml.Scan

/-! TOML documents. -/

namespace Polyglot.Toml

namespace Document

/-- A dotted key has fewer than 80 parts. -/
def key (text : List Char) : Option (List String × List Char) :=
  Scan.key 79 text

/-- A key, the equals sign and a value. -/
def pair (value : List Char → Option (Value × List Char)) (text : List Char) :
    Option ((List String × Value) × List Char) := do
  let (path, rest) ← key text
  let rest ← Scan.mark '=' rest
  let (value, rest) ← value (skipBlanks rest)
  return ((path, value), rest)

def assign? (entries : Entries) (path : List String) (value : Value) : Option Entries :=
  match path.getLast? with
  | some last => Entries.assign? last value path.dropLast entries
  | none => none

/-- The next item of an array, or its end; a comma may stand behind the last item. -/
def arrayStep (value : List Char → Option (Value × List Char)) :
    List Value × List Char → Option ((List Value × List Char) ⊕ (Value × List Char))
  | (items, text) =>
    match skipSpace false text with
    | ']' :: rest => some (.inr (.array items.reverse, rest))
    | text => do
      let (item, rest) ← value text
      match skipSpace false rest with
      | ',' :: rest => return .inl (item :: items, rest)
      | ']' :: rest => return .inr (.array (item :: items).reverse, rest)
      | _ => none

/-- The next entry of an inline table. -/
def inlineStep (value : List Char → Option (Value × List Char)) :
    Entries × List Char → Option ((Entries × List Char) ⊕ (Value × List Char))
  | (entries, text) => do
    let ((path, value), rest) ← pair value text
    let entries ← assign? entries path value
    match skipBlanks rest with
    | ',' :: rest => return .inl (entries, rest)
    | '\x7d' :: rest => return .inr (.table .inline entries, rest)
    | _ => none

def inlineTable (value : List Char → Option (Value × List Char)) (text : List Char) : Option (Value × List Char) :=
  match skipBlanks text with
  | '\x7d' :: rest => some (.table .inline [], rest)
  | text => iterate (inlineStep value) text.length ([], text)

/-- A string, number, date, time or truth value. -/
def scalar (text : List Char) : Option (Value × List Char) :=
  match Scan.string? text with
  | some reading => reading.map fun (text, rest) => (.string (String.ofList text), rest)
  | none =>
    match text with
    | 't' :: 'r' :: 'u' :: 'e' :: rest => some (.bool true, rest)
    | 'f' :: 'a' :: 'l' :: 's' :: 'e' :: rest => some (.bool false, rest)
    | text =>
      if Scan.beginsDate text || Scan.beginsTime text then Scan.moment text
      else Scan.number text

/-- A value in which arrays and inline tables go at most `depth` deep. -/
def value : (depth : Nat) → List Char → Option (Value × List Char)
  | depth + 1, '[' :: rest => iterate (arrayStep (value depth)) (rest.length + 1) ([], rest)
  | depth + 1, '\x7b' :: rest => inlineTable (value depth) rest
  | _, text => scalar text

/-- The deepest nesting of arrays and inline tables. -/
def nestingLimit : Nat := 79

/-- What has been read of a document, and the path of the last header. -/
structure State where
  root : Entries
  path : List String
  text : List Char

namespace State

/-- Goes on in the next line. -/
def nextLine (state : State) (text : List Char) : Option (State ⊕ Entries) := do
  return .inl { state with text := ← lineEnd? text }

/-- A header, whose text goes on behind its opening brackets. -/
def header (state : State) (change : String → Entries → Option Entries) (closing : List Char)
    (text : List Char) : Option (State ⊕ Entries) := do
  let (path, rest) ← key text
  let root ← Entries.changeAt? (change (← path.getLast?)) path.dropLast state.root
  let rest ← closing.foldlM (fun rest c => Scan.mark c rest) rest
  nextLine { state with root := root, path := path } rest

def entry (state : State) (text : List Char) : Option (State ⊕ Entries) := do
  let ((path, value), rest) ← pair (value nestingLimit) text
  let root ← Entries.changeAt? (assign? · path value) state.path state.root
  nextLine { state with root := root } rest

def step (state : State) : Option (State ⊕ Entries) :=
  match skipBlanks state.text with
  | [] => some (.inr state.root)
  | '#' :: rest => state.nextLine ('#' :: rest)
  | '\n' :: rest => some (.inl { state with text := rest })
  | '\r' :: '\n' :: rest => some (.inl { state with text := rest })
  | '[' :: '[' :: rest => state.header Entries.openRow? [']', ']'] rest
  | '[' :: rest => state.header Entries.openTable? [']'] rest
  | text => state.entry text

end State

/-- A byte order mark in front of a text does not belong to it. -/
def skipMark : List Char → List Char
  | '\ufeff' :: rest => rest
  | text => text

/-- The entries of a document, none if the text is no TOML. -/
def ofText (text : String) : Option Entries :=
  let text := skipMark text.toList
  iterate State.step (text.length + 1) ⟨[], [], text⟩

end Document

end Polyglot.Toml
