import Polyglot.Imports
import Polyglot.Tree.Basic

/-! Target languages: how they spell operators and types, and the header of a file. -/

namespace Polyglot

/-- `plain` is the common C-family notation. -/
inductive Dialect where
  | plain | groovy | lua
  deriving DecidableEq

def BinaryOp.symbol : BinaryOp → String
  | .add => "+"
  | .sub => "-"
  | .mul => "*"
  | .div => "/"
  | .rem => "%"
  | .eq => "=="
  | .ne => "!="
  | .lt => "<"
  | .le => "<="
  | .gt => ">"
  | .ge => ">="
  | .and => "&&"
  | .or => "||"
  | .bitAnd => "&"
  | .bitOr => "|"
  | .xor => "^"
  | .shl => "<<"
  | .shr => ">>"

namespace Dialect

def name : Dialect → String
  | .plain => "default"
  | .groovy => "groovy"
  | .lua => "lua"

def operator : Dialect → BinaryOp → String
  | .lua, .ne => "~="
  | .lua, .and => "and"
  | .lua, .or => "or"
  | .lua, .xor => "~"
  | _, op => op.symbol

/-- A dotted name as one identifier. -/
def mangled (name : String) : String :=
  String.ofList (name.toList.map fun c => if c = '.' then '_' else c)

/-- The Lua local of a type: the first import of a simple name takes it, and the others of that
name go by their qualified names. -/
def luaLocal (imports : Imports) (ty : ClassType) : String :=
  match imports.types.find? (·.simpleName = ty.simpleName) with
  | some first => if first = ty then ty.simpleName else mangled ty.name
  | none => ty.simpleName

/-- How the body of a file refers to a type. -/
def spell : Dialect → Imports → ClassType → String
  | .plain, _, ty => ty.name
  | .groovy, _, ty => ty.simpleName
  | .lua, imports, ty => luaLocal imports ty

/-- The name that a Groovy file imports; only api classes have names of their own there. -/
def groovyName (ty : ClassType) : String :=
  match ty.kind with
  | .api => ty.spelling "groovy"
  | _ => ty.name

def groovyImport (ty : ClassType) : String :=
  "import " ++ groovyName ty

def luaImport (imports : Imports) (ty : ClassType) : String :=
  "local " ++ luaLocal imports ty ++ " = require(\"" ++ ty.spelling "lua" ++ "\")"

/-- One line per import, in order; the plain notation has no header. -/
def header : Dialect → Imports → List String
  | .plain, _ => []
  | .groovy, imports => imports.types.map groovyImport
  | .lua, imports => imports.types.map (luaImport imports)

end Dialect

end Polyglot
