import Polyglot.Text.Case

/-! Methods that read or write a property of a data object. -/

namespace Polyglot

inductive Accessor where
  | get (property : String)
  | set (property : String)
  | unsupported
  deriving DecidableEq

namespace Accessor

/-- The rest of `text` behind `start`, if it begins so. -/
def behind? : List Char → List Char → Option (List Char)
  | [], text => some text
  | _ :: _, [] => none
  | c :: start, d :: text => if c = d then behind? start text else none

/-- The property that `start` and an upper case letter introduce, with that letter in lower case. -/
def property? (start method : String) : Option String :=
  match behind? start.toList method.toList with
  | some (first :: rest) => (Text.lowerCase? first).map (· ++ String.ofList rest)
  | _ => none

/-- A getter takes no arguments and a setter takes one. -/
def classify (method : String) (arity : Nat) : Accessor :=
  match property? "get" method, property? "set" method, arity with
  | some property, _, 0 => .get property
  | _, some property, 1 => .set property
  | _, _, _ => .unsupported

end Accessor

end Polyglot
