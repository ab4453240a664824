import Polyglot.Decimal.Nearest
import Polyglot.Toml.Value

/-! The smallest parts of a TOML text: blanks, strings, keys, numbers, dates and times. Each reader
returns what it has read and the text behind it. -/

namespace Polyglot.Toml

def isBlank (c : Char) : Bool :=
  c = ' ' || c = '\t'

/-- Characters that may stand in a comment or a string. -/
def isPlain (c : Char) : Bool :=
  c = '\t' || ' ' ≤ c && c ≠ '\x7f'

def skipBlanks (text : List Char) : List Char :=
  text.dropWhile isBlank

def newline? : List Char → Option (List Char)
  | '\n' :: rest => some rest
  | '\r' :: '\n' :: rest => some rest
  | _ => none

def skipComment : List Char → List Char
  | '#' :: rest => rest.dropWhile isPlain
  | text => text

/-- The next line, if only blanks and a comment are left on this one. -/
def lineEnd? (text : List Char) : Option (List Char) :=
  match skipComment (skipBlanks text) with
  | [] => some []
  | text => newline? text

/-- Skips blanks, line ends and comments. -/
def skipSpace (inComment : Bool) : List Char → List Char
  | '\n' :: rest => skipSpace false rest
  | '\r' :: '\n' :: rest => skipSpace false rest
  | c :: rest =>
    if inComment then if isPlain c then skipSpace true rest else c :: rest
    else if c = '#' then skipSpace true rest
    else if isBlank c then skipSpace false rest
    else c :: rest
  | [] => []

namespace Scan

/-- Puts a character in front of what has been read. -/
def push (c : Char) : Option (List Char × List Char) → Option (List Char × List Char)
  | some (text, rest) => some (c :: text, rest)
  | none => none

def hexValue? (c : Char) : Option Nat :=
  if c.isDigit then some (c.toNat - '0'.toNat)
  else if 'a' ≤ c && c ≤ 'f' then some (c.toNat - 'a'.toNat + 10)
  else if 'A' ≤ c && c ≤ 'F' then some (c.toNat - 'A'.toNat + 10)
  else none

/-- The value of digits in the given base. -/
def valueOf (base : Nat) (digits : List Char) : Nat :=
  digits.foldl (fun value c => value * base + (hexValue? c).getD 0) 0

/-- The character with the given number. -/
def scalar? (digits : List Char) : Option Char :=
  if digits.all (hexValue? · |>.isSome) && (valueOf 16 digits).isValidChar then
    some (Char.ofNat (valueOf 16 digits))
  else none

def escape? : Char → Option Char
  | 'b' => some '\x08'
  | 't' => some '\t'
  | 'n' => some '\n'
  | 'f' => some '\x0c'
  | 'r' => some '\r'
  | '"' => some '"'
  | '\\' => some '\\'
  | _ => none

/-- The rest of a string between single double quotes. -/
def basic : List Char → Option (List Char × List Char)
  | '\\' :: 'u' :: a :: b :: c :: d :: rest => do
    push (← scalar? [a, b, c, d]) (basic rest)
  | '\\' :: 'U' :: a :: b :: c :: d :: e :: f :: g :: h :: rest => do
    push (← scalar? [a, b, c, d, e, f, g, h]) (basic rest)
  | '\\' :: c :: rest => do push (← escape? c) (basic rest)
  | '"' :: rest => some ([], rest)
  | c :: rest => if isPlain c then push c (basic rest) else none
  | [] => none

/-- The rest of a string between three double quotes. A backslash at the end of a line joins it to
the next text, and `joining` says that this text is still to come. -/
def multilineBasic (joining : Bool) : List Char → Option (List Char × List Char)
  | '\\' :: 'u' :: a :: b :: c :: d :: rest => do
    push (← scalar? [a, b, c, d]) (multilineBasic false rest)
  | '\\' :: 'U' :: a :: b :: c :: d :: e :: f :: g :: h :: rest => do
    push (← scalar? [a, b, c, d, e, f, g, h]) (multilineBasic false rest)
  | '\\' :: c :: rest =>
    match escape? c, newline? (skipBlanks (c :: rest)) with
    | some c, _ => push c (multilineBasic false rest)
    | none, some _ => multilineBasic true (c :: rest)
    | none, none => none
  | '"' :: '"' :: '"' :: '"' :: '"' :: rest => some (['"', '"'], rest)
  | '"' :: '"' :: '"' :: '"' :: rest => some (['"'], rest)
  | '"' :: '"' :: '"' :: rest => some ([], rest)
  | '\r' :: '\n' :: rest =>
    if joining then multilineBasic true rest else push '\n' (multilineBasic false rest)
  | c :: rest =>
    if joining && (isBlank c || c = '\n') then multilineBasic true rest
    else if isPlain c || c = '\n' then push c (multilineBasic false rest)
    else none
  | [] => none

/-- The rest of a string between single quotes. -/
def literal : List Char → Option (List Char × List Char)
  | '\'' :: rest => some ([], rest)
  | c :: rest => if isPlain c then push c (literal rest) else none
  | [] => none

/-- The rest of a string between three single quotes. -/
def multilineLiteral : List Char → Option (List Char × List Char)
  | '\'' :: '\'' :: '\'' :: '\'' :: '\'' :: rest => some (['\'', '\''], rest)
  | '\'' :: '\'' :: '\'' :: '\'' :: rest => some (['\''], rest)
  | '\'' :: '\'' :: '\'' :: rest => some ([], rest)
  | '\r' :: '\n' :: rest => push '\n' (multilineLiteral rest)
  | c :: rest => if isPlain c || c = '\n' then push c (multilineLiteral rest) else none
  | [] => none

/-- A line end right behind the opening quotes does not count. -/
def skipNewline (text : List Char) : List Char :=
  (newline? text).getD text

/-- A string of any of the four notations, none if the text does not begin with a quote. -/
def string? : List Char → Option (Option (List Char × List Char))
  | '"' :: '"' :: '"' :: rest => some (multilineBasic false (skipNewline rest))
  | '"' :: rest => some (basic rest)
  | '\'' :: '\'' :: '\'' :: rest => some (multilineLiteral (skipNewline rest))
  | '\'' :: rest => some (literal rest)
  | _ => none

def isBare (c : Char) : Bool :=
  c.isAlphanum || c = '-' || c = '_'

def simpleKey : List Char → Option (List Char × List Char)
  | '"' :: rest => basic rest
  | '\'' :: rest => literal rest
  | text =>
    let (key, rest) := text.span isBare
    if key.isEmpty then none else some (key, rest)

/-- A dotted key of at most `limit` parts. -/
def key : (limit : Nat) → List Char → Option (List String × List Char)
  | 0, _ => none
  | limit + 1, text => do
    let (first, rest) ← simpleKey (skipBlanks text)
    match skipBlanks rest with
    | '.' :: rest =>
      let (path, rest) ← key limit rest
      return (String.ofList first :: path, rest)
    | rest => return ([String.ofList first], rest)

/-- Further digits; an underscore stands between two of them. -/
def moreDigits (isDigit : Char → Bool) : List Char → Option (List Char × List Char)
  | '_' :: c :: rest => if isDigit c then push c (moreDigits isDigit rest) else none
  | ['_'] => none
  | c :: rest => if isDigit c then push c (moreDigits isDigit rest) else some ([], c :: rest)
  | [] => some ([], [])

def digits (isDigit : Char → Bool) : List Char → Option (List Char × List Char)
  | c :: rest => if isDigit c then push c (moreDigits isDigit rest) else none
  | [] => none

/-- Decimal digits; a zero in front stands alone. -/
def wholeDigits : List Char → Option (List Char × List Char)
  | '0' :: rest => some (['0'], rest)
  | text => digits Char.isDigit text

/-- The sign of a number, true for minus. -/
def sign : List Char → Bool × List Char
  | '-' :: rest => (true, rest)
  | '+' :: rest => (false, rest)
  | text => (false, text)

def int? (value : Int) : Option Value :=
  if Int64.minValue.toInt ≤ value && value ≤ Int64.maxValue.toInt then some (.int value) else none

/-- The power of ten behind a number. -/
def exponent (text : List Char) : Option (Int × List Char) := do
  let (negative, text) := sign text
  let (power, rest) ← digits Char.isDigit text
  return (if negative then -valueOf 10 power else valueOf 10 power, rest)

def isExponentMark (c : Char) : Bool :=
  c = 'e' || c = 'E'

/-- A number above all doubles is refused; one below them is not. -/
def float (negative : Bool) (whole fraction : List Char) (power : Int) (rest : List Char) :
    Option (Value × List Char) :=
  let magnitude := Decimal.nearest (valueOf 10 (whole ++ fraction)) (power - fraction.length)
  if negative then some (.float (-magnitude), rest)
  else if magnitude.isInf then none
  else some (.float magnitude, rest)

/-- What follows the digits in front of the point. -/
def afterWhole (negative : Bool) (whole : List Char) : List Char → Option (Value × List Char)
  | '.' :: rest => do
    let (fraction, rest) ← digits Char.isDigit rest
    match rest with
    | c :: tail =>
      if isExponentMark c then
        let (power, rest) ← exponent tail
        float negative whole fraction power rest
      else float negative whole fraction 0 rest
    | [] => float negative whole fraction 0 rest
  | c :: rest =>
    if isExponentMark c then do
      let (power, rest) ← exponent rest
      float negative whole [] power rest
    else whole? (c :: rest)
  | [] => whole? []
where
  whole? (rest : List Char) : Option (Value × List Char) := do
    let value := valueOf 10 whole
    return (← int? (if negative then -value else value), rest)

def inBase (base : Nat) (isDigit : Char → Bool) (text : List Char) : Option (Value × List Char) := do
  let (found, rest) ← digits isDigit text
  return (← int? (valueOf base found), rest)

def number : List Char → Option (Value × List Char)
  | '0' :: 'x' :: rest => inBase 16 (hexValue? · |>.isSome) rest
  | '0' :: 'o' :: rest => inBase 8 (fun c => '0' ≤ c && c ≤ '7') rest
  | '0' :: 'b' :: rest => inBase 2 (fun c => c = '0' || c = '1') rest
  | text =>
    let (negative, text) := sign text
    match text with
    | 'i' :: 'n' :: 'f' :: rest => some (.float (if negative then -1 / 0 else 1 / 0), rest)
    | 'n' :: 'a' :: 'n' :: rest => some (.float (0 / 0), rest)
    | text => do
      let (whole, rest) ← wholeDigits text
      afterWhole negative whole rest

/-- Two digits from `least` to `most`. -/
def two (least most : Nat) : List Char → Option (Nat × List Char)
  | a :: b :: rest =>
    let value := valueOf 10 [a, b]
    if a.isDigit && b.isDigit && least ≤ value && value ≤ most then some (value, rest) else none
  | _ => none

def mark (c : Char) : List Char → Option (List Char)
  | d :: rest => if c = d then some rest else none
  | [] => none

def isLeapYear (year : Nat) : Bool :=
  year % 4 = 0 && (year % 100 ≠ 0 || year % 400 = 0)

def daysIn (year month : Nat) : Nat :=
  if month = 2 then if isLeapYear year then 29 else 28
  else if month = 4 || month = 6 || month = 9 || month = 11 then 30
  else 31

/-- A time of the day behind its first two digits and the colon. -/
def time (text : List Char) : Option (List Char) := do
  let (_, rest) ← two 0 23 text
  let rest ← mark ':' rest
  let (_, rest) ← two 0 59 rest
  let rest ← mark ':' rest
  let (_, rest) ← two 0 60 rest
  match rest with
  | '.' :: c :: tail => return if c.isDigit then tail.dropWhile Char.isDigit else rest
  | rest => return rest

/-- The distance of a time from the common one. -/
def offset : List Char → Option (List Char)
  | 'Z' :: rest | 'z' :: rest => some rest
  | '+' :: rest | '-' :: rest => do
    let (_, rest) ← two 0 23 rest
    let rest ← mark ':' rest
    let (_, rest) ← two 0 59 rest
    return rest
  | text => some text

def beginsDate : List Char → Bool
  | a :: b :: c :: d :: '-' :: _ => [a, b, c, d].all Char.isDigit
  | _ => false

def beginsTime : List Char → Bool
  | a :: b :: ':' :: _ => a.isDigit && b.isDigit
  | _ => false

def date (text : List Char) : Option (List Char) := do
  let year := valueOf 10 (text.take 4)
  let (month, rest) ← two 1 12 (text.drop 5)
  let rest ← mark '-' rest
  let (_, rest) ← two 1 (daysIn year month) rest
  match rest with
  | c :: tail =>
    if (c = 'T' || c = 't' || c = ' ') && beginsTime tail then offset (← time tail) else return rest
  | [] => return []

def moment (text : List Char) : Option (Value × List Char) := do
  let rest ← if beginsDate text then date text else time text
  return (.moment, rest)

end Scan

end Polyglot.Toml
