import Polyglot.Table

/-! Classes and types as a program refers to them. -/

namespace Polyglot

inductive ClassKind where
  | api | enumeration | dataObject | jsonObject | jsonArray | other
  deriving DecidableEq

/-- The names that target languages have for a class. -/
abbrev Spellings := Table String

/-- A class under its qualified name, with the names that target languages know it by. -/
structure ClassType where
  kind : ClassKind
  name : String
  simpleName : String
  spellings : Spellings := .empty
  deriving DecidableEq

/-- The part of a qualified name after its last dot. -/
def lastSegment (name : String) : String :=
  String.ofList (name.toList.reverse.takeWhile (· ≠ '.')).reverse

namespace ClassType

def ofName (kind : ClassKind) (name : String) : ClassType where
  kind := kind
  name := name
  simpleName := lastSegment name

def withSpelling (ty : ClassType) (language spelling : String) : ClassType :=
  { ty with spellings := ty.spellings.insert language spelling }

/-- The name of the class in a language, the qualified name if it has no other there. -/
def spelling (ty : ClassType) (language : String) : String :=
  (ty.spellings.get? language).getD ty.name

/-- Classes that a target file imports before it uses them. -/
def isImportable (ty : ClassType) : Bool :=
  match ty.kind with
  | .api | .enumeration => true
  | _ => false

end ClassType

inductive TypeInfo where
  | void
  | primitive (name : String)
  | ofClass (ty : ClassType)
  | generic (raw : ClassType) (args : List TypeInfo)

namespace TypeInfo

def name : TypeInfo → String
  | .void => "void"
  | .primitive name => name
  | .ofClass ty => ty.name
  | .generic raw _ => raw.name

def classType? : TypeInfo → Option ClassType
  | .ofClass ty => some ty
  | .generic raw _ => some raw
  | _ => none

def arg? : TypeInfo → Nat → Option TypeInfo
  | .generic _ args, index => args[index]?
  | _, _ => none

end TypeInfo

end Polyglot
