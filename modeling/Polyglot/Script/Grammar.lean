import Polyglot.Script.Token

/-! Lua scripts: assignments, local declarations and calls, one after the other. -/

namespace Polyglot.Script

inductive Operator where
  | add | sub | mul | concat
  deriving DecidableEq

inductive Term where
  | nil
  | bool (value : Bool)
  | number (value : Number)
  | string (text : String)
  | name (name : String)
  | index (object key : Term)
  | call (function : Term) (args : List Term)
  | negate (operand : Term)
  | binary (op : Operator) (left right : Term)
  /-- A table; its items have a name or are numbered from one. -/
  | table (items : List (Option String × Term))

inductive Target where
  | name (name : String)
  | index (object key : Term)

inductive Statement where
  | assign (target : Target) (value : Term)
  | declare (name : String) (value : Term)
  | call (function : Term) (args : List Term)

namespace Grammar

/-- How tightly an operator holds the operand on its left. -/
def leftStrength : Operator → Nat
  | .mul => 11
  | .add | .sub => 10
  | .concat => 9

/-- How tightly an operator holds the operand on its right. Strings are joined from the right. -/
def rightStrength : Operator → Nat
  | .mul => 11
  | .add | .sub => 10
  | .concat => 8

/-- How tightly a sign holds its operand. -/
def signStrength : Nat := 12

def operator? : Token → Option Operator
  | .symbol '+' => some .add
  | .symbol '-' => some .sub
  | .symbol '*' => some .mul
  | .join => some .concat
  | _ => none

/-- Reads a term from the front of a list of words. -/
abbrev Reader := List Token → Option (Term × List Token)

/-- Takes the next operator into the term if it holds it more tightly than `strength`. -/
def chainStep (operand : Nat → Reader) (strength : Nat) :
    Term × List Token → Option ((Term × List Token) ⊕ (Term × List Token))
  | (left, tokens) =>
    match tokens.head?.bind operator? with
    | some op =>
      if strength < leftStrength op then do
        let (right, rest) ← operand (rightStrength op) tokens.tail
        return .inl (.binary op left right, rest)
      else some (.inr (left, tokens))
    | none => some (.inr (left, tokens))

/-- The next item of a table, or its end. -/
def itemStep (term : Reader) :
    List (Option String × Term) × List Token →
      Option ((List (Option String × Term) × List Token) ⊕ (Term × List Token))
  | (items, .symbol '\x7d' :: rest) => some (.inr (.table items.reverse, rest))
  | (items, tokens) => do
    let (name, tokens) := match tokens with
      | .name name :: .symbol '=' :: rest => (some name, rest)
      | tokens => (none, tokens)
    let (value, rest) ← term tokens
    match rest with
    | .symbol ',' :: rest | .symbol ';' :: rest => return .inl ((name, value) :: items, rest)
    | .symbol '\x7d' :: _ => return .inl ((name, value) :: items, rest)
    | _ => none

/-- The next argument of a call. -/
def argStep (term : Reader) :
    List Term × List Token → Option ((List Term × List Token) ⊕ (List Term × List Token))
  | (args, tokens) => do
    let (arg, rest) ← term tokens
    match rest with
    | .symbol ',' :: rest => return .inl (arg :: args, rest)
    | .symbol ')' :: rest => return .inr ((arg :: args).reverse, rest)
    | _ => none

/-- Arguments behind the opening bracket. -/
def arguments (term : Reader) (tokens : List Token) : Option (List Term × List Token) :=
  match tokens with
  | .symbol ')' :: rest => some ([], rest)
  | tokens => iterate (argStep term) tokens.length ([], tokens)

/-- A member, an index or a call behind a term. -/
def suffixStep (term : Reader) : Term × List Token → Option ((Term × List Token) ⊕ (Term × List Token))
  | (object, .symbol '.' :: .name name :: rest) => some (.inl (.index object (.string name), rest))
  | (_, .symbol '.' :: _) => none
  | (object, .symbol '[' :: rest) => do
    let (key, rest) ← term rest
    match rest with
    | .symbol ']' :: rest => return .inl (.index object key, rest)
    | _ => none
  | (function, .symbol '(' :: rest) => do
    let (args, rest) ← arguments term rest
    return .inl (.call function args, rest)
  | (object, tokens) => some (.inr (object, tokens))

def suffixes (term : Reader) (object : Term) (tokens : List Token) : Option (Term × List Token) :=
  iterate (suffixStep term) (tokens.length + 1) (object, tokens)

/-- A name or a term in brackets, with what is behind it. -/
def place (term : Reader) : List Token → Option (Term × List Token)
  | .name name :: rest => suffixes term (.name name) rest
  | .symbol '(' :: rest => do
    let (inner, rest) ← term rest
    match rest with
    | .symbol ')' :: rest => suffixes term inner rest
    | _ => none
  | _ => none

/-- A term without an operator between operands; `inner` reads the terms in it that are held with
a given strength. -/
def operand (inner : Nat → Reader) (tokens : List Token) : Option (Term × List Token) :=
  match tokens with
  | .symbol '-' :: rest => do
    let (operand, rest) ← inner signStrength rest
    return (.negate operand, rest)
  | .keyword "nil" :: rest => some (.nil, rest)
  | .keyword "true" :: rest => some (.bool true, rest)
  | .keyword "false" :: rest => some (.bool false, rest)
  | .number value :: rest => some (.number value, rest)
  | .string text :: rest => some (.string text, rest)
  | .symbol '\x7b' :: rest => iterate (itemStep (inner 0)) (rest.length + 1) ([], rest)
  | tokens => place (inner 0) tokens

/-- A term whose operators hold more tightly than `strength`. Terms in brackets, behind a sign and
to the right of an operator are one level deeper. -/
def termWithin : (depth strength : Nat) → List Token → Option (Term × List Token)
  | 0, _, _ => none
  | depth + 1, strength, tokens => do
    let (first, rest) ← operand (termWithin depth) tokens
    iterate (chainStep (termWithin depth) strength) (rest.length + 1) (first, rest)

/-- The deepest nesting of a term. -/
def nestingLimit : Nat := 198

def term (tokens : List Token) : Option (Term × List Token) :=
  termWithin nestingLimit 0 tokens

/-- A statement that begins with a term: an assignment to it or a call. -/
def plain (tokens : List Token) : Option (Statement × List Token) := do
  let (left, rest) ← place term tokens
  match left, rest with
  | .name name, .symbol '=' :: rest =>
    let (value, rest) ← term rest
    return (.assign (.name name) value, rest)
  | .index object key, .symbol '=' :: rest =>
    let (value, rest) ← term rest
    return (.assign (.index object key) value, rest)
  | .call function args, rest => return (.call function args, rest)
  | _, _ => none

/-- Reads the next statement; `read` holds those before it, the last one first. -/
def step : List Statement × List Token → Option ((List Statement × List Token) ⊕ List Statement)
  | (read, []) => some (.inr read.reverse)
  | (read, .symbol ';' :: rest) => some (.inl (read, rest))
  | (read, .keyword "local" :: .name name :: .symbol '=' :: rest) => do
    let (value, rest) ← term rest
    return .inl (.declare name value :: read, rest)
  | (read, .keyword "local" :: .name name :: rest) =>
    some (.inl (.declare name .nil :: read, rest))
  | (read, tokens) => do
    let (statement, rest) ← plain tokens
    return .inl (statement :: read, rest)

end Grammar

def Statement.isDeclaration : Statement → Bool
  | .declare _ _ => true
  | _ => false

/-- The most locals that a script can have. -/
def localLimit : Nat := 200

/-- The statements of a script, none if it does not compile. -/
def Statement.ofText (text : String) : Option (List Statement) := do
  let tokens ← Token.ofText text
  let statements ← iterate Grammar.step (tokens.length + 1) ([], tokens)
  guard (statements.countP Statement.isDeclaration ≤ localLimit)
  return statements

end Polyglot.Script
