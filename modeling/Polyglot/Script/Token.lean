import Polyglot.Loop
import Polyglot.Script.Number

/-! The words of a Lua script. -/

namespace Polyglot.Script

inductive Token where
  | name (text : String)
  | keyword (text : String)
  | number (value : Number)
  | string (text : String)
  | symbol (c : Char)
  /-- Two dots. -/
  | join

namespace Token

def keywords : List String :=
  ["and", "break", "do", "else", "elseif", "end", "false", "for", "function", "goto", "if", "in",
    "local", "nil", "not", "or", "repeat", "return", "then", "true", "until", "while"]

def ofWord (word : String) : Token :=
  if word ∈ keywords then .keyword word else .name word

def isNameStart (c : Char) : Bool :=
  c.isAlpha || c = '_'

def isNamePart (c : Char) : Bool :=
  c.isAlphanum || c = '_'

/-- The longest text that looks like a numeral, with the sign of its exponent. -/
def spanNumeral : List Char → List Char × List Char
  | c :: d :: rest =>
    if (c = 'e' || c = 'E') && (d = '+' || d = '-') then
      let (numeral, rest) := spanNumeral rest
      (c :: d :: numeral, rest)
    else if isNamePart c || c = '.' then
      let (numeral, rest) := spanNumeral (d :: rest)
      (c :: numeral, rest)
    else ([], c :: d :: rest)
  | [c] => if isNamePart c || c = '.' then ([c], []) else ([], [c])
  | [] => ([], [])

def escape? : Char → Option Char
  | 'a' => some '\x07'
  | 'b' => some '\x08'
  | 'f' => some '\x0c'
  | 'n' => some '\n'
  | 'r' => some '\r'
  | 't' => some '\t'
  | 'v' => some '\x0b'
  | '\\' => some '\\'
  | '"' => some '"'
  | '\'' => some '\''
  | '\n' => some '\n'
  | _ => none

/-- The rest of a string up to the closing quote, and the text behind it. -/
def quoted (quote : Char) : List Char → Option (List Char × List Char)
  | '\\' :: c :: rest => do
    let c ← escape? c
    let (text, rest) ← quoted quote rest
    return (c :: text, rest)
  | c :: rest =>
    if c = quote then some ([], rest)
    else if c = '\n' || c = '\r' then none
    else do
      let (text, rest) ← quoted quote rest
      return (c :: text, rest)
  | [] => none

/-- The text behind a comment, whose two dashes have been read. A double bracket makes it last until
the brackets close, otherwise it ends with its line. -/
def behindComment? : List Char → Option (List Char)
  | '[' :: '[' :: rest => behindBrackets? rest
  | text => some (text.dropWhile (· ≠ '\n'))
where
  behindBrackets? : List Char → Option (List Char)
    | ']' :: ']' :: rest => some rest
    | _ :: rest => behindBrackets? rest
    | [] => none

/-- Reads the next word; `read` holds the words before it, the last one first. -/
def step : List Token × List Char → Option ((List Token × List Char) ⊕ List Token)
  | (read, []) => some (.inr read.reverse)
  | (read, '-' :: '-' :: rest) => do return .inl (read, ← behindComment? rest)
  | (read, c :: rest) =>
    if Number.isBlank c then some (.inl (read, rest))
    else if isNameStart c then
      let (word, rest) := (c :: rest).span isNamePart
      some (.inl (ofWord (String.ofList word) :: read, rest))
    else if c.isDigit || c = '.' && (rest.head?.any Char.isDigit) then do
      let (numeral, rest) := spanNumeral (c :: rest)
      return .inl (.number (← Number.ofNumeral? false numeral) :: read, rest)
    else if c = '"' || c = '\'' then do
      let (text, rest) ← quoted c rest
      return .inl (.string (String.ofList text) :: read, rest)
    else
      match c, rest with
      | '.', '.' :: rest => some (.inl (.join :: read, rest))
      | c, rest => some (.inl (.symbol c :: read, rest))

/-- The words of a text, none if a string or a numeral in it is broken. -/
def ofText (text : String) : Option (List Token) :=
  iterate step (text.length + 1) ([], text.toList)

end Token

end Polyglot.Script
