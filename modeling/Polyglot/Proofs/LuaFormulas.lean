import Polyglot.Proofs.LuaWords
import Polyglot.Script.Token
import Polyglot.Script.Value

/-! Lua expressions of names, literals, `and`, `or`, `not` and comparisons: how a text is read with
the operator precedence of Lua, and the value of what is read. A function that only decides between
two values and is called at once is an expression as well. -/
namespace Polyglot

/-- Every value but nil and false counts as true. -/
def Script.Value.isTruthy : Script.Value → Bool
  | .nil => false
  | .bool value => value
  | _ => true

namespace Lua

open Script (Value)

inductive Connective where
  | or | and | eq | ne
  deriving DecidableEq

/-- How tightly a connective holds its operands: `or` less than `and`, and `and` less than a
comparison. -/
def Connective.strength : Connective → Nat
  | .or => 1
  | .and => 2
  | .eq | .ne => 3

def notStrength : Nat := 4

inductive Formula where
  | nil
  | bool (value : Bool)
  | number (negative : Bool) (digits : String)
  | string (text : String)
  | name (text : String)
  | not (operand : Formula)
  | binary (op : Connective) (left right : Formula)
  /-- A function that decides between two values, called at once. -/
  | choice (test consequent alternative : Formula)

/-- What the value of a formula depends on: the values of names, the numbers that numerals stand
for, and which values count as equal. -/
structure Setting where
  names : String → Value
  numbers : String → Script.Number
  same : Value → Value → Bool

namespace Setting

variable (setting : Setting)

def number (negative : Bool) (digits : String) : Value :=
  .number (if negative then (setting.numbers digits).negate else setting.numbers digits)

/-- `and` and `or` give one of their operands. -/
def apply : Connective → Value → Value → Value
  | .or, left, right => if left.isTruthy then left else right
  | .and, left, right => if left.isTruthy then right else left
  | .eq, left, right => .bool (setting.same left right)
  | .ne, left, right => .bool (!setting.same left right)

end Setting

def Formula.value (setting : Setting) : Formula → Value
  | .nil => .nil
  | .bool value => .bool value
  | .number negative digits => setting.number negative digits
  | .string text => .string text
  | .name text => setting.names text
  | .not operand => .bool !(operand.value setting).isTruthy
  | .binary op left right => setting.apply op (left.value setting) (right.value setting)
  | .choice test consequent alternative =>
    if (test.value setting).isTruthy then consequent.value setting else alternative.value setting

/-- The words of formulas. -/
inductive Word where
  | name (text : String)
  | numeral (digits : String)
  | string (text : String)
  | nil
  | bool (value : Bool)
  | not
  | minus
  | connective (op : Connective)
  | openParen | closeParen
  | functionWord | ifWord | thenWord | elseWord | returnWord | endWord
  deriving DecidableEq

namespace Word

/-- What the reader of a text is in the middle of. -/
inductive Unfinished where
  | nothing
  | letters (chars : List Char)
  | sign (c : Char)
  | string (chars : List Char) (escaped : Bool)
  /-- Something that is no word of a formula. -/
  | broken

/-- The words so far, and what comes behind them. -/
structure Progress where
  words : List Word
  rest : Unfinished

/-- Numerals begin with a digit, or with a dot in front of one. -/
def startsNumeral : List Char → Bool
  | c :: _ => c.isDigit || c = '.'
  | [] => false

/-- A sign behind these letters belongs to the exponent of a numeral. -/
def takesSign : List Char → Bool
  | '0' :: 'x' :: rest | '0' :: 'X' :: rest => rest.getLast?.any fun c => c = 'p' || c = 'P'
  | chars => chars.getLast?.any fun c => c = 'e' || c = 'E'

/-- Whether a character goes on with the word in front of it. -/
def continues (chars : List Char) (c : Char) : Bool :=
  isWordChar c ||
    startsNumeral chars && (c = '.' || (c = '+' || c = '-') && takesSign chars)

/-- The word that has these letters. -/
def ofLetters? : List Char → Option Word
  | ['a', 'n', 'd'] => some (.connective .and)
  | ['o', 'r'] => some (.connective .or)
  | ['n', 'o', 't'] => some .not
  | ['n', 'i', 'l'] => some .nil
  | ['t', 'r', 'u', 'e'] => some (.bool true)
  | ['f', 'a', 'l', 's', 'e'] => some (.bool false)
  | ['f', 'u', 'n', 'c', 't', 'i', 'o', 'n'] => some .functionWord
  | ['i', 'f'] => some .ifWord
  | ['t', 'h', 'e', 'n'] => some .thenWord
  | ['e', 'l', 's', 'e'] => some .elseWord
  | ['r', 'e', 't', 'u', 'r', 'n'] => some .returnWord
  | ['e', 'n', 'd'] => some .endWord
  | chars =>
    if startsNumeral chars then
      if chars.any Char.isDigit then some (.numeral (String.ofList chars)) else none
    else if String.ofList chars ∈ keywords then none
    else some (.name (String.ofList chars))

namespace Progress

/-- A character that begins something new. -/
def start (words : List Word) (c : Char) : Progress :=
  if Script.Number.isBlank c then ⟨words, .nothing⟩
  else if isWordChar c || c = '.' then ⟨words, .letters [c]⟩
  else
    match c with
    | '"' => ⟨words, .string [] false⟩
    | '(' => ⟨words ++ [.openParen], .nothing⟩
    | ')' => ⟨words ++ [.closeParen], .nothing⟩
    | '=' | '~' | '-' => ⟨words, .sign c⟩
    | _ => ⟨words, .broken⟩

/-- Ends the word that the reader is in. -/
def settle : Progress → Progress
  | ⟨words, .letters chars⟩ =>
    match ofLetters? chars with
    | some word => ⟨words ++ [word], .nothing⟩
    | none => ⟨words, .broken⟩
  | ⟨words, .sign '-'⟩ => ⟨words ++ [.minus], .nothing⟩
  | ⟨words, .sign _⟩ => ⟨words, .broken⟩
  | progress => progress

/-- Two dashes would begin a comment. -/
def step : Progress → Char → Progress
  | ⟨words, .nothing⟩, c => start words c
  | ⟨words, .letters chars⟩, c =>
    if continues chars c then ⟨words, .letters (chars ++ [c])⟩
    else
      match settle ⟨words, .letters chars⟩ with
      | ⟨words, .nothing⟩ => start words c
      | progress => progress
  | ⟨words, .sign '='⟩, '=' => ⟨words ++ [.connective .eq], .nothing⟩
  | ⟨words, .sign '~'⟩, '=' => ⟨words ++ [.connective .ne], .nothing⟩
  | ⟨words, .sign '-'⟩, c => if c = '-' then ⟨words, .broken⟩ else start (words ++ [.minus]) c
  | ⟨words, .sign _⟩, _ => ⟨words, .broken⟩
  | ⟨words, .string chars true⟩, c =>
    match Script.Token.escape? c with
    | some value => ⟨words, .string (chars ++ [value]) false⟩
    | none => ⟨words, .broken⟩
  | ⟨words, .string chars false⟩, c =>
    if c = '"' then ⟨words ++ [.string (String.ofList chars)], .nothing⟩
    else if c = '\\' then ⟨words, .string chars true⟩
    else if c = '\n' || c = '\r' then ⟨words, .broken⟩
    else ⟨words, .string (chars ++ [c]) false⟩
  | ⟨words, .broken⟩, _ => ⟨words, .broken⟩

end Progress

def scanner : Scanner Progress where
  start := ⟨[], .nothing⟩
  step := Progress.step

/-- The words of a text, none if there is anything else in it. -/
def ofText? (text : String) : Option (List Word) :=
  match (scanner.scan text).settle with
  | ⟨words, .nothing⟩ => some words
  | _ => none

/-- A name begins with a letter and is no keyword. -/
def isName (text : String) : Bool :=
  text.toList.all isWordChar && text.toList.head?.any (!·.isDigit) && text ∉ keywords

/-- Whether each of the characters goes on with all that is in front of it. -/
def goesOn (front : List Char) : List Char → Bool
  | [] => true
  | c :: rest => continues front c && goesOn (front ++ [c]) rest

def isNumeral : List Char → Bool
  | [] => false
  | c :: rest => startsNumeral [c] && goesOn [c] rest && (c :: rest).any Char.isDigit

end Word

/-- What waits for the operand that is being read, or for the end of a bracket around it. -/
inductive Waiting where
  | not
  | minus
  | left (op : Connective) (operand : Formula)
  | paren
  | test
  | consequent (test : Formula)
  | alternative (test consequent : Formula)

namespace Waiting

/-- How tightly the operand is held; a bracket does not hold it. -/
def strength? : Waiting → Option Nat
  | .not => some notStrength
  | .left op _ => some op.strength
  | _ => none

def holds (strength : Nat) (waiting : Waiting) : Bool :=
  waiting.strength?.any (strength ≤ ·)

/-- The operand together with what waits for it. -/
def join (operand : Formula) : Waiting → Formula
  | .not => .not operand
  | .left op first => .binary op first operand
  | _ => operand

/-- What goes on waiting when all that holds its operand so tightly has taken it. -/
def kept (strength : Nat) (waiting : List Waiting) : List Waiting :=
  waiting.dropWhile (holds strength)

/-- The operand as taken by all that holds it so tightly. -/
def joined (strength : Nat) (waiting : List Waiting) (operand : Formula) : Formula :=
  (waiting.takeWhile (holds strength)).foldl join operand

end Waiting

/-- A formula as far as it has been read. The words in `due` have to come next. -/
structure Reading where
  waiting : List Waiting
  operand : Option Formula
  due : List Word

namespace Reading

open Waiting (kept joined)

/-- A word where an operand is expected. -/
def operandStep (waiting : List Waiting) : Word → Option Reading
  | .name text => some ⟨waiting, some (.name text), []⟩
  | .numeral digits =>
    match waiting with
    | .minus :: rest => some ⟨rest, some (.number true digits), []⟩
    | waiting => some ⟨waiting, some (.number false digits), []⟩
  | .string text => some ⟨waiting, some (.string text), []⟩
  | .nil => some ⟨waiting, some .nil, []⟩
  | .bool value => some ⟨waiting, some (.bool value), []⟩
  | .not => some ⟨.not :: waiting, none, []⟩
  | .minus => some ⟨.minus :: waiting, none, []⟩
  | .openParen => some ⟨.paren :: waiting, none, []⟩
  | .functionWord =>
    match waiting with
    | .paren :: rest => some ⟨.test :: rest, none, [.openParen, .closeParen, .ifWord]⟩
    | _ => none
  | _ => none

/-- A word behind an operand. Closing words end all that waits inside their bracket. -/
def closingStep (waiting : List Waiting) (operand : Formula) : Word → Option Reading
  | .connective op =>
    some ⟨.left op (joined op.strength waiting operand) :: kept op.strength waiting, none, []⟩
  | .closeParen =>
    match kept 0 waiting with
    | .paren :: rest => some ⟨rest, some (joined 0 waiting operand), []⟩
    | _ => none
  | .thenWord =>
    match kept 0 waiting with
    | .test :: rest => some ⟨.consequent (joined 0 waiting operand) :: rest, none, [.returnWord]⟩
    | _ => none
  | .elseWord =>
    match kept 0 waiting with
    | .consequent test :: rest =>
      some ⟨.alternative test (joined 0 waiting operand) :: rest, none, [.returnWord]⟩
    | _ => none
  | .endWord =>
    match kept 0 waiting with
    | .alternative test consequent :: rest =>
      some ⟨rest, some (.choice test consequent (joined 0 waiting operand)),
        [.endWord, .closeParen, .openParen, .closeParen]⟩
    | _ => none
  | _ => none

def step : Reading → Word → Option Reading
  | ⟨waiting, operand, word :: rest⟩, next =>
    if next = word then some ⟨waiting, operand, rest⟩ else none
  | ⟨waiting, none, []⟩, word => operandStep waiting word
  | ⟨waiting, some operand, []⟩, word => closingStep waiting operand word

/-- The formula if nothing is open any more. -/
def result? : Reading → Option Formula
  | ⟨waiting, some operand, []⟩ =>
    match kept 0 waiting with
    | [] => some (joined 0 waiting operand)
    | _ => none
  | _ => none

end Reading

/-- The words one after the other. -/
def Reading.run (words : List Word) (reading : Reading) : Option Reading :=
  words.foldlM step reading

namespace Formula

def ofWords? (words : List Word) : Option Formula := do
  (← Reading.run words ⟨[], none, []⟩).result?

def ofText? (text : String) : Option Formula := do
  ofWords? (← Word.ofText? text)

end Formula

namespace Word

variable {text : String} {words : List Word}

/-- A text of words, the last of which may go on behind it. -/
def Lexes (text : String) (words : List Word) : Prop :=
  ∀ before, (scanner.read ⟨before, .nothing⟩ text).settle = ⟨before ++ words, .nothing⟩

/-- A text of words that are at their end. -/
def Closed (text : String) (words : List Word) : Prop :=
  ∀ before, scanner.read ⟨before, .nothing⟩ text = ⟨before ++ words, .nothing⟩

/-- A text that ends the word in front of it. -/
def endsWord (text : String) : Bool :=
  text.toList.head?.any fun c => c = ' ' || c = ')'

/-- The reader adds one word after the other. -/
theorem closed_of_foldl (h : ∀ before, scanner.read ⟨before, .nothing⟩ text =
    ⟨words.foldl (fun front word => front ++ [word]) before, .nothing⟩) : Closed text words := by
  have hf (before : List Word) :
      words.foldl (fun front word => front ++ [word]) before = before ++ words := by
    clear h
    induction words generalizing before with
    | nil => simp
    | cons word rest ih => rw [List.foldl_cons, ih, List.append_assoc, List.singleton_append]
  intro before
  rw [h, hf]

theorem step_of_settle {progress : Progress} (h : progress.settle = ⟨words, .nothing⟩) {c : Char}
    (hc : c = ' ' ∨ c = ')') : scanner.step progress c = Progress.start words c := by
  obtain ⟨before, rest⟩ := progress
  cases rest with
  | nothing =>
    cases h
    rfl
  | letters chars =>
    have hn : continues chars c = false := by
      obtain rfl | rfl := hc <;> simp [continues, isWordChar]
    simp only [scanner, Progress.step, hn, h, Bool.false_eq_true, if_false]
  | sign sign =>
    by_cases hs : sign = '-'
    · subst hs
      cases h
      obtain rfl | rfl := hc <;> rfl
    · rw [Progress.settle] at h
      · cases h
      · simpa using hs
  | string chars escaped => cases h
  | broken => cases h

theorem read_of_settle {progress : Progress} (h : progress.settle = ⟨words, .nothing⟩)
    (ht : endsWord text = true) :
    scanner.read progress text = scanner.read ⟨words, .nothing⟩ text := by
  unfold endsWord at ht
  unfold Scanner.read
  cases hc : text.toList with
  | nil => simp [hc] at ht
  | cons c rest =>
    have hw : c = ' ' ∨ c = ')' := by simpa [hc] using ht
    rw [List.foldl_cons, List.foldl_cons, step_of_settle h hw]
    rfl

theorem Lexes.append {gap : String} {between : List Word} (h : Lexes text words)
    (hg : Closed gap between) (he : endsWord gap = true) {second : String} {last : List Word}
    (hs : Lexes second last) : Lexes (text ++ gap ++ second) (words ++ between ++ last) := by
  intro before
  rw [Scanner.read_append, Scanner.read_append, read_of_settle (h before) he, hg, hs]
  simp only [List.append_assoc]

theorem Closed.append {second : String} {last : List Word} (h : Closed text words)
    (hs : Lexes second last) : Lexes (text ++ second) (words ++ last) := by
  intro before
  rw [Scanner.read_append, h, hs, List.append_assoc]

theorem Lexes.close {gap : String} {between : List Word} (h : Lexes text words)
    (hg : Closed gap between) (he : endsWord gap = true) :
    Lexes (text ++ gap) (words ++ between) := by
  intro before
  rw [Scanner.read_append, read_of_settle (h before) he, hg, List.append_assoc]
  rfl

theorem Lexes.ofText? (h : Lexes text words) : ofText? text = some words := by
  have hs : (scanner.scan text).settle = ⟨words, .nothing⟩ := h []
  rw [Word.ofText?, hs]

theorem le_of_isWordChar {c : Char} (h : isWordChar c = true) : 48 ≤ c.val.toNat := by
  -- Every class of letters is a range of code points, of which the digits are the lowest.
  have hr {low : UInt32} (hl : 48 ≤ low.toNat) (hc : low ≤ c.val) : 48 ≤ c.val.toNat :=
    Nat.le_trans hl (UInt32.le_iff_toNat_le.mp hc)
  obtain h | h := Bool.or_eq_true_iff.mp h
  · obtain h | h : c.isAlpha = true ∨ c.isDigit = true := Bool.or_eq_true_iff.mp h
    · obtain h | h : c.isUpper = true ∨ c.isLower = true := Bool.or_eq_true_iff.mp h
      · have hu : 65 ≤ c.val := (of_decide_eq_true h).1
        exact hr (by decide) hu
      · have hw : 97 ≤ c.val := of_decide_eq_true (Bool.and_eq_true_iff.mp h).1
        exact hr (by decide) hw
    · have hd : 48 ≤ c.val := of_decide_eq_true (Bool.and_eq_true_iff.mp h).1
      exact hr (by decide) hd
  · obtain rfl : c = '_' := by simpa using h
    decide

theorem not_isBlank {c : Char} (h : isWordChar c = true ∨ c = '.') :
    Script.Number.isBlank c = false := by
  obtain h | rfl := h
  · rw [Bool.eq_false_iff]
    intro hb
    obtain rfl | ⟨-, hl⟩ : c = ' ' ∨ '\t' ≤ c ∧ c ≤ '\r' := by
      simpa [Script.Number.isBlank] using hb
    · exact absurd h (by decide)
    · have hn : c.val.toNat ≤ 13 := UInt32.le_iff_toNat_le.mp hl
      have hw := le_of_isWordChar h
      omega
  · rfl

theorem foldl_goesOn (front : List Char) {chars : List Char} (h : goesOn front chars = true)
    (words : List Word) : chars.foldl scanner.step ⟨words, .letters front⟩ =
      ⟨words, .letters (front ++ chars)⟩ := by
  induction chars generalizing front with
  | nil => simp
  | cons c rest ih =>
    obtain ⟨hc, hr⟩ := Bool.and_eq_true_iff.mp h
    have hs : scanner.step ⟨words, .letters front⟩ c = ⟨words, .letters (front ++ [c])⟩ := by
      simp [scanner, Progress.step, hc]
    rw [List.foldl_cons, hs, ih _ hr, List.append_assoc, List.singleton_append]

theorem goesOn_of_wordChars (front : List Char) {chars : List Char}
    (h : ∀ c ∈ chars, isWordChar c = true) : goesOn front chars = true := by
  induction chars generalizing front with
  | nil => rfl
  | cons c rest ih =>
    obtain ⟨hc, hr⟩ := List.forall_mem_cons.mp h
    simp [goesOn, continues, hc, ih _ hr]

/-- Letters that begin a word and go on with it. -/
theorem foldl_start {c : Char} (hc : isWordChar c = true ∨ c = '.') {rest : List Char}
    (h : goesOn [c] rest = true) (words : List Word) :
    rest.foldl scanner.step (Progress.start words c) = ⟨words, .letters (c :: rest)⟩ := by
  have hs : Progress.start words c = ⟨words, .letters [c]⟩ := by
    simp [Progress.start, not_isBlank hc, hc]
  rw [hs, foldl_goesOn _ h, List.singleton_append]

/-- Letters that spell no word of the language. -/
theorem ofLetters?_plain {chars : List Char}
    (h : startsNumeral chars = true ∨ String.ofList chars ∉ keywords) :
    ofLetters? chars =
      if startsNumeral chars then
        if chars.any Char.isDigit then some (.numeral (String.ofList chars)) else none
      else if String.ofList chars ∈ keywords then none
      else some (.name (String.ofList chars)) := by
  unfold ofLetters?
  split <;> first | exact absurd h (by decide +kernel) | rfl

theorem ofLetters?_name {chars : List Char} (h : String.ofList chars ∉ keywords)
    (hs : startsNumeral chars = false) : ofLetters? chars = some (.name (String.ofList chars)) := by
  simp [ofLetters?_plain (.inr h), h, hs]

theorem ofLetters?_numeral {chars : List Char} (hs : startsNumeral chars = true)
    (h : chars.any Char.isDigit = true) :
    ofLetters? chars = some (.numeral (String.ofList chars)) := by
  simp only [ofLetters?_plain (.inl hs), if_pos hs, if_pos h]

/-- Letters that are read as one word. -/
theorem lexes_letters {c : Char} {rest : List Char} {word : Word} (ht : text.toList = c :: rest)
    (hc : isWordChar c = true ∨ c = '.') (h : goesOn [c] rest = true)
    (hw : ofLetters? (c :: rest) = some word) : Lexes text [word] := by
  intro before
  have hr : scanner.read ⟨before, .nothing⟩ text = ⟨before, .letters (c :: rest)⟩ := by
    rw [Scanner.read, ht, List.foldl_cons]
    exact foldl_start hc h before
  simp only [hr, Progress.settle, hw]

theorem lexes_name {name : String} (h : isName name = true) : Lexes name [.name name] := by
  cases hn : name.toList with
  | nil => simp [isName, hn] at h
  | cons c rest =>
    obtain rfl : name = String.ofList (c :: rest) := by rw [← hn, String.ofList_toList]
    obtain ⟨⟨hw, hd⟩, hk⟩ : ((isWordChar c = true ∧ ∀ d ∈ rest, isWordChar d = true) ∧
        c.isDigit = false) ∧ String.ofList (c :: rest) ∉ keywords := by
      simpa [isName] using h
    have hs : startsNumeral (c :: rest) = false := by
      have hp : c ≠ '.' := by
        rintro rfl
        exact absurd hw.1 (by decide)
      simp [startsNumeral, hd, hp]
    exact lexes_letters hn (.inl hw.1) (goesOn_of_wordChars _ hw.2) (ofLetters?_name hk hs)

theorem isWordChar_of_startsNumeral {c : Char} (h : startsNumeral [c] = true) :
    isWordChar c = true ∨ c = '.' := by
  obtain h | h := Bool.or_eq_true_iff.mp h
  · exact .inl (by simp [isWordChar, Char.isAlphanum, h])
  · exact .inr (by simpa using h)

theorem lexes_numeral {digits : String} (h : isNumeral digits.toList = true) :
    Lexes digits [.numeral digits] := by
  cases hn : digits.toList with
  | nil => simp [isNumeral, hn] at h
  | cons c rest =>
    obtain rfl : digits = String.ofList (c :: rest) := by rw [← hn, String.ofList_toList]
    rw [String.toList_ofList] at h
    obtain ⟨hg, hd⟩ := Bool.and_eq_true_iff.mp h
    obtain ⟨hs, hg⟩ := Bool.and_eq_true_iff.mp hg
    exact lexes_letters hn (isWordChar_of_startsNumeral hs) hg (ofLetters?_numeral hs hd)

theorem lexes_negative {digits : String} (h : isNumeral digits.toList = true) :
    Lexes ("-" ++ digits) [.minus, .numeral digits] := by
  cases hn : digits.toList with
  | nil => simp [isNumeral, hn] at h
  | cons c rest =>
    rw [hn] at h
    have hs : startsNumeral [c] = true := by
      simp only [isNumeral, Bool.and_eq_true] at h
      exact h.1.1
    have hm : ∀ before, scanner.step ⟨before, .sign '-'⟩ c =
        scanner.step ⟨before ++ [.minus], .nothing⟩ c := by
      intro before
      have hc : c ≠ '-' := by
        rintro rfl
        exact absurd hs (by decide)
      simp [scanner, Progress.step, hc]
    intro before
    have hl := lexes_numeral (hn ▸ h) (before ++ [.minus])
    have hr : scanner.read ⟨before, .nothing⟩ "-" = ⟨before, .sign '-'⟩ := rfl
    rw [Scanner.read, hn, List.foldl_cons, ← hm] at hl
    rw [Scanner.read_append, hr, Scanner.read, hn, List.foldl_cons, hl, List.append_assoc]
    rfl

theorem foldl_escapeChar_string (words : List Word) (front : List Char) (c : Char) :
    (Text.escapeChar c).foldl scanner.step ⟨words, .string front false⟩ =
      ⟨words, .string (front ++ [c]) false⟩ := by
  unfold Text.escapeChar
  split
  · rfl
  · rfl
  · rfl
  · rfl
  · rfl
  · next hb hq hn hr ht =>
    have h : c ≠ '\\' ∧ c ≠ '"' ∧ c ≠ '\n' ∧ c ≠ '\r' := ⟨hb, hq, hn, hr⟩
    simp [scanner, Progress.step, h]

theorem foldl_escape (words : List Word) (front chars : List Char) :
    (chars.flatMap Text.escapeChar).foldl scanner.step ⟨words, .string front false⟩ =
      ⟨words, .string (front ++ chars) false⟩ := by
  induction chars generalizing front with
  | nil => simp
  | cons c rest ih =>
    rw [List.flatMap_cons, List.foldl_append, foldl_escapeChar_string, ih, List.append_assoc,
      List.singleton_append]

theorem lexes_string (text : String) :
    Lexes ("\"" ++ Text.escape text ++ "\"") [.string text] := by
  intro before
  have ho : scanner.read ⟨before, .nothing⟩ "\"" = ⟨before, .string [] false⟩ := rfl
  have he : scanner.read ⟨before, .string [] false⟩ (Text.escape text) =
      ⟨before, .string text.toList false⟩ := by
    rw [Scanner.read, Text.escape, String.toList_ofList]
    exact foldl_escape before [] text.toList
  rw [Scanner.read_append, Scanner.read_append, ho, he]
  simp [Scanner.read, scanner, Progress.step, Progress.settle]

end Word

end Lua

end Polyglot
