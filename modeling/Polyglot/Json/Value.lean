import Polyglot.Decimal.Notation

/-! JSON values and their text. -/

namespace Polyglot

inductive Json where
  | null
  | bool (value : Bool)
  | int (value : Int)
  | float (value : Float)
  | string (value : String)
  | array (items : List Json)
  | object (fields : List (String × Json))

namespace Json

def hexDigit (value : Nat) : Char :=
  Char.ofNat (if value < 10 then '0'.toNat + value else 'a'.toNat + (value - 10))

/-- The escape of a control character by its number. -/
def unitEscape (code : Nat) : List Char :=
  ['\\', 'u', '0', '0', hexDigit (code / 16 % 16), hexDigit (code % 16)]

def escapeChar (c : Char) : List Char :=
  match c with
  | '"' => ['\\', '"']
  | '\\' => ['\\', '\\']
  | '\n' => ['\\', 'n']
  | '\r' => ['\\', 'r']
  | '\t' => ['\\', 't']
  | '\x08' => ['\\', 'b']
  | '\x0c' => ['\\', 'f']
  | c => if c.toNat < 0x20 then unitEscape c.toNat else [c]

/-- Puts a string between quotes in front of `rest`. -/
def quote (text : String) (rest : List Char) : List Char :=
  '"' :: (text.toList.flatMap escapeChar ++ '"' :: rest)

mutual

/-- Puts the text of a value, without blanks, in front of `rest`. A double that is no number is
written as null. -/
def write : Json → List Char → List Char
  | .null, rest => "null".toList ++ rest
  | .bool value, rest => (if value then "true" else "false").toList ++ rest
  | .int value, rest => (toString value).toList ++ rest
  | .float value, rest =>
    (if value.isFinite then Decimal.compactText value else "null").toList ++ rest
  | .string value, rest => quote value rest
  | .array items, rest => '[' :: writeItems items (']' :: rest)
  | .object fields, rest => '\x7b' :: writeFields fields ('\x7d' :: rest)

def writeItems : List Json → List Char → List Char
  | [], rest => rest
  | [item], rest => item.write rest
  | item :: items, rest => item.write (',' :: writeItems items rest)

def writeFields : List (String × Json) → List Char → List Char
  | [], rest => rest
  | [(name, value)], rest => quote name (':' :: value.write rest)
  | (name, value) :: fields, rest =>
    quote name (':' :: value.write (',' :: writeFields fields rest))

end

def text (value : Json) : String :=
  String.ofList (value.write [])

mutual

/-- The number of arrays and objects inside one another. -/
def depth : Json → Nat
  | .array items => depthOfItems items + 1
  | .object fields => depthOfFields fields + 1
  | _ => 0

def depthOfItems : List Json → Nat
  | [] => 0
  | item :: rest => max item.depth (depthOfItems rest)

def depthOfFields : List (String × Json) → Nat
  | [] => 0
  | (_, value) :: rest => max value.depth (depthOfFields rest)

end

end Json

end Polyglot
