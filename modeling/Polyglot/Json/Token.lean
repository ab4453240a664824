import Polyglot.Json.Number

/-! The tokens of a JSON text, up to the first place where it breaks off. -/

namespace Polyglot.Json

/-- Why a text is not JSON: it ends too early, or it goes on in a way that JSON does not. -/
inductive Fault where
  | ended | malformed
  deriving DecidableEq

/-- A piece of a string: a character, or a code unit that an escape gives by its number. -/
inductive Piece where
  | char (value : Char)
  | unit (code : Nat)
  deriving DecidableEq

namespace Piece

def isLeading (code : Nat) : Bool :=
  0xD800 ≤ code && code ≤ 0xDBFF

def isTrailing (code : Nat) : Bool :=
  0xDC00 ≤ code && code ≤ 0xDFFF

/-- The characters of a string; `atEnd` is what a leading surrogate finds behind the last piece. -/
def read (atEnd : Fault) : List Piece → Except Fault (List Char)
  | [] => .ok []
  | .char c :: rest => (c :: ·) <$> read atEnd rest
  | [.unit code] =>
    if isTrailing code then .error .malformed
    else if isLeading code then .error atEnd
    else .ok [Char.ofNat code]
  | .unit code :: .unit next :: rest =>
    if isTrailing code then .error .malformed
    else if isLeading code then
      if isTrailing next then
        (Char.ofNat ((code - 0xD800) * 0x400 + (next - 0xDC00) + 0x10000) :: ·) <$>
          read atEnd rest
      else .error .malformed
    else (Char.ofNat code :: ·) <$> read atEnd (.unit next :: rest)
  | .unit code :: .char c :: rest =>
    if isTrailing code || isLeading code then .error .malformed
    else (Char.ofNat code :: ·) <$> read atEnd (.char c :: rest)

/-- The text of a complete string. -/
def text (pieces : List Piece) : Except Fault String :=
  String.ofList <$> read .malformed pieces

/-- The fault of a string that broke off with `fault` after `pieces`. -/
def faultBefore (pieces : List Piece) (fault : Fault) : Fault :=
  match read fault pieces with
  | .ok _ => fault
  | .error earlier => earlier

end Piece

inductive Token where
  | openArray | closeArray | openObject | closeObject | comma | colon
  | null
  | bool (value : Bool)
  | number (text : NumberText)
  | string (pieces : List Piece)
  /-- A string that is not closed. -/
  | brokenString (pieces : List Piece) (fault : Fault)
  /-- One of the three words, by its first letter, spelled wrong or cut short. -/
  | brokenWord (start : Char) (fault : Fault)
  | brokenNumber (fault : Fault)
  /-- A character that starts no token. -/
  | stray

/-- How far a number has been written. -/
inductive NumberStage where
  | minus | zero | whole | point | fraction | mark | sign | power

/-- What the characters so far leave open. Pieces and digits are kept newest first. -/
inductive Scan where
  | between
  | word (start : Char) (rest : List Char) (token : Token)
  | number (stage : NumberStage) (text : NumberText)
  | string (pieces : List Piece)
  | escape (pieces : List Piece)
  | code (pieces : List Piece) (digits : List Nat)
  /-- A code has a wrong digit, and is `missing` bytes short of its length. -/
  | wrongCode (pieces : List Piece) (missing : Nat)
  | stopped

namespace Scan

def isBlank (c : Char) : Bool :=
  c = ' ' || c = '\n' || c = '\t' || c = '\r'

def digit? (c : Char) : Option Nat :=
  if '0' ≤ c && c ≤ '9' then some (c.toNat - '0'.toNat) else none

def hexDigit? (c : Char) : Option Nat :=
  if '0' ≤ c && c ≤ '9' then some (c.toNat - '0'.toNat)
  else if 'a' ≤ c && c ≤ 'f' then some (c.toNat - 'a'.toNat + 10)
  else if 'A' ≤ c && c ≤ 'F' then some (c.toNat - 'A'.toNat + 10)
  else none

def escaped? (c : Char) : Option Char :=
  match c with
  | '"' => some '"'
  | '\\' => some '\\'
  | '/' => some '/'
  | 'b' => some '\x08'
  | 'f' => some '\x0c'
  | 'n' => some '\n'
  | 'r' => some '\r'
  | 't' => some '\t'
  | _ => none

/-- The number written by four hexadecimal digits, newest first. -/
def codeOf (digits : List Nat) : Nat :=
  digits.foldr (fun digit code => code * 16 + digit) 0

/-- The start of a token. -/
def start (c : Char) : List Token × Scan :=
  if isBlank c then ([], .between)
  else
    match c with
    | '[' => ([.openArray], .between)
    | ']' => ([.closeArray], .between)
    | '\x7b' => ([.openObject], .between)
    | '\x7d' => ([.closeObject], .between)
    | ',' => ([.comma], .between)
    | ':' => ([.colon], .between)
    | '"' => ([], .string [])
    | 'n' => ([], .word 'n' ['u', 'l', 'l'] .null)
    | 't' => ([], .word 't' ['r', 'u', 'e'] (.bool true))
    | 'f' => ([], .word 'f' ['a', 'l', 's', 'e'] (.bool false))
    | '-' => ([], .number .minus { negative := true })
    | '0' => ([], .number .zero { whole := [0] })
    | c =>
      match digit? c with
      | some digit => ([], .number .whole { whole := [digit] })
      | none => ([.stray], .stopped)

/-- One more character of a number: it goes on, it was complete before, or it is no number. -/
def numberStep (stage : NumberStage) (text : NumberText) (c : Char) : List Token × Scan :=
  let complete :=
    let (tokens, next) := start c
    (.number text :: tokens, next)
  let broken := ([.brokenNumber .malformed], .stopped)
  let power (digit : Nat) : NumberText :=
    match text.exponent with
    | some (isNegative, digits) => { text with exponent := some (isNegative, digits ++ [digit]) }
    | none => { text with exponent := some (false, [digit]) }
  match stage, digit? c with
  | .minus, some digit =>
    ([], .number (if digit = 0 then .zero else .whole) { text with whole := [digit] })
  | .minus, none => broken
  | .zero, some _ => broken
  | .whole, some digit => ([], .number .whole { text with whole := text.whole ++ [digit] })
  | .point, some digit | .fraction, some digit =>
    ([], .number .fraction { text with fraction := text.fraction ++ [digit] })
  | .point, none => broken
  | .mark, some digit | .sign, some digit | .power, some digit =>
    ([], .number .power (power digit))
  | .mark, none =>
    if c = '+' then ([], .number .sign { text with exponent := some (false, []) })
    else if c = '-' then ([], .number .sign { text with exponent := some (true, []) })
    else broken
  | .sign, none => broken
  | .power, none => complete
  | .fraction, none => if c = 'e' || c = 'E' then ([], .number .mark text) else complete
  | .zero, none | .whole, none =>
    if c = '.' then ([], .number .point text)
    else if c = 'e' || c = 'E' then ([], .number .mark text)
    else complete

def wrongCodeStep (pieces : List Piece) (missing : Nat) (c : Char) : List Token × Scan :=
  if missing ≤ c.utf8Size then ([.brokenString pieces.reverse .malformed], .stopped)
  else ([], .wrongCode pieces (missing - c.utf8Size))

def step : Scan → Char → List Token × Scan
  | .between, c => start c
  | .word first rest token, c =>
    match rest with
    | [] => ([.brokenWord first .malformed], .stopped)
    | [last] => if c = last then ([token], .between) else ([.brokenWord first .malformed], .stopped)
    | next :: rest =>
      if c = next then ([], .word first rest token)
      else ([.brokenWord first .malformed], .stopped)
  | .number stage text, c => numberStep stage text c
  | .string pieces, c =>
    if c = '"' then ([.string pieces.reverse], .between)
    else if c = '\\' then ([], .escape pieces)
    else if c.toNat < 0x20 then ([.brokenString pieces.reverse .malformed], .stopped)
    else ([], .string (.char c :: pieces))
  | .escape pieces, c =>
    if c = 'u' then ([], .code pieces [])
    else
      match escaped? c with
      | some value => ([], .string (.char value :: pieces))
      | none => ([.brokenString pieces.reverse .malformed], .stopped)
  | .code pieces digits, c =>
    match hexDigit? c with
    | some digit =>
      if digits.length = 3 then ([], .string (.unit (codeOf (digit :: digits)) :: pieces))
      else ([], .code pieces (digit :: digits))
    | none => wrongCodeStep pieces (4 - digits.length) c
  | .wrongCode pieces missing, c => wrongCodeStep pieces missing c
  | .stopped, _ => ([], .stopped)

/-- The last token, where the text ends. -/
def finish : Scan → List Token
  | .between | .stopped => []
  | .word first _ _ => [.brokenWord first .ended]
  | .number stage text =>
    match stage with
    | .zero | .whole | .fraction | .power => [.number text]
    | .minus | .point | .mark | .sign => [.brokenNumber .ended]
  | .string pieces | .escape pieces | .code pieces _ | .wrongCode pieces _ =>
    [.brokenString pieces.reverse .ended]

/-- The tokens that follow an open scan. -/
def tokens (scan : Scan) : List Char → List Token
  | [] => scan.finish
  | c :: rest =>
    let (found, next) := scan.step c
    found ++ next.tokens rest

end Scan

def tokens (text : List Char) : List Token :=
  Scan.tokens .between text

end Polyglot.Json
