import Polyglot.Types

/-! The language-neutral program tree. -/

namespace Polyglot

/-- Numbers keep the digits they were written with. -/
inductive Literal where
  | int (digits : String)
  | long (digits : String)
  | float (digits : String)
  | double (digits : String)
  | char (value : Char)
  | string (value : String)
  | bool (value : Bool)
  | null
  deriving DecidableEq

inductive BinaryOp where
  | add | sub | mul | div | rem
  | eq | ne | lt | le | gt | ge
  | and | or | bitAnd | bitOr | xor
  | shl | shr
  deriving DecidableEq

inductive UnaryOp where
  | neg | not | complement
  | preIncrement | preDecrement | postIncrement | postDecrement
  deriving DecidableEq

structure Param where
  name : String
  ty : TypeInfo

/-- What an expression is known to hold, where calls on it have a meaning of their own. -/
inductive ValueKind where
  | dataObject | jsonObject | jsonArray
  deriving DecidableEq

mutual

inductive Expr where
  | literal (value : Literal)
  /-- With `concat` the operation joins strings, whatever `op` is. -/
  | binary (left : Expr) (op : BinaryOp) (right : Expr) (concat : Bool)
  | unary (op : UnaryOp) (operand : Expr)
  | parens (inner : Expr)
  | ident (name : String)
  | this
  | member (object : Expr) (name : String)
  | assign (target value : Expr)
  | conditional (test consequent alternative : Expr)
  | call (receiver : Option Expr) (method : String) (args : List Expr)
  | construct (ty : TypeInfo) (args : List Expr)
  | lambda (params : List Param) (body : LambdaBody)
  | enumConstant (ty : ClassType) (constant : String)
  | apiType (ty : ClassType)
  | jsonObject (members : List Member)
  | jsonArray (values : List Expr)
  | dataObject (ty : ClassType) (members : List Member)
  | valueOf (kind : ValueKind) (inner : Expr)
  | dataAssign (object : Expr) (name : String) (value : Expr)
  | dataMember (object : Expr) (name : String)
  | jsonAssign (object name value : Expr)
  | jsonMember (object name : Expr)
  | jsonObjectText (object : Expr)
  | jsonArrayText (array : Expr)
  | mapGet (map key : Expr)
  | mapForEach (map : Expr) (key value : Param) (body : LambdaBody)
  | methodReference (receiver : Expr) (method : String)
  | console (message : Expr)
  | asyncResult (name : String)

inductive LambdaBody where
  | expr (value : Expr)
  | block (stmts : List Stmt)

/-- A member of an object literal holds one value or an array of values. -/
inductive Member where
  | single (name value : Expr)
  | array (name : Expr) (values : List Expr)

inductive Stmt where
  | block (stmts : List Stmt)
  | declare (ty : TypeInfo) (name : String) (init : Option Expr)
  | expr (value : Expr)
  | forLoop (init : Stmt) (test update : Expr) (body : Stmt)
  | forEach (name : String) (iterable : Expr) (body : Stmt)
  | throwNew (exception : String) (reason : Option Expr)
  | returnWith (value : Option Expr)
  | ifElse (test : Expr) (consequent : Stmt) (alternative : Option Stmt)
  | whileLoop (test : Expr) (body : Stmt)
  | breakLoop
  | continueLoop

end

/-- A program is the list of its top-level statements. -/
structure Program where
  body : List Stmt

/-- A data object literal on its own. -/
structure DataObject where
  ty : ClassType
  members : List Member

inductive BodyKind where
  | expression | statement
  deriving DecidableEq

def LambdaBody.kind : LambdaBody → BodyKind
  | .expr _ => .expression
  | .block _ => .statement

/-- Joins two strings. -/
def Expr.concat (left right : Expr) : Expr :=
  .binary left .add right true

namespace Member

def name : Member → Expr
  | .single name _ => name
  | .array name _ => name

end Member

end Polyglot
