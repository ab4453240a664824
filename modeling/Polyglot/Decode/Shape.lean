import Polyglot.Decode.Error
import Polyglot.Tree.Basic

/-! What a place of the tree can hold, and how it is spelled in JSON. -/

namespace Polyglot.Decode

/-- The types that have a shape of their own. -/
inductive Named where
  | classKind | classType | typeInfo
  | literal | binaryOp | unaryOp
  | param | lambdaBody | member | memberValue | dataObject
  | expr | stmt | program
  deriving DecidableEq

@[reducible]
def Named.Value : Named → Type
  | .classKind => ClassKind
  | .classType => ClassType
  | .typeInfo => TypeInfo
  | .literal => Literal
  | .binaryOp => BinaryOp
  | .unaryOp => UnaryOp
  | .param => Param
  | .lambdaBody => LambdaBody
  | .member => Member
  | .memberValue => Expr ⊕ List Expr
  | .dataObject => DataObject
  | .expr => Expr
  | .stmt => Stmt
  | .program => Program

inductive Kind where
  | text | flag | letter | spellings
  | optional (kind : Kind)
  | list (kind : Kind)
  | named (name : Named)
  deriving DecidableEq

@[reducible]
def Kind.Value : Kind → Type
  | .text => String
  | .flag => Bool
  | .letter => Char
  | .spellings => Spellings
  | .optional kind => Option kind.Value
  | .list kind => List kind.Value
  | .named name => name.Value

structure Field where
  name : String
  kind : Kind

/-- The values of a list of fields, in order. -/
@[reducible]
def Row : List Field → Type
  | [] => Unit
  | field :: rest => field.kind.Value × Row rest

/-- What a variant carries: nothing, one value, one structure with a title of its own, or fields. -/
inductive Payload (α : Type) where
  | constant (value : α)
  | single (kind : Kind) (make : kind.Value → α)
  | structure (title : String) (fields : List Field) (make : Row fields → α)
  | tuple (fields : List Field) (make : Row fields → α)

inductive Shape (α : Type) where
  | record (title : String) (fields : List Field) (make : Row fields → Except Error α)
  | choice (title : String) (variants : List (String × Payload α))

end Polyglot.Decode
