import Polyglot.Dialect

/-! Why a tree cannot be rendered or built. -/

namespace Polyglot

/-- Constructs that some dialect has no notation for. -/
inductive Construct where
  | mapIteration
  | jsonObjectLiteral
  | jsonArrayLiteral
  | dataObjectLiteral
  | jsonObjectAssignment
  | jsonObjectMemberAccess
  | stepOperator
  | continueStatement
  | other (description : String)
  deriving DecidableEq

def Construct.description : Construct → String
  | .mapIteration => "map iteration"
  | .jsonObjectLiteral => "json object literal"
  | .jsonArrayLiteral => "json array literal"
  | .dataObjectLiteral => "data object literal"
  | .jsonObjectAssignment => "json object assignment"
  | .jsonObjectMemberAccess => "json object member access"
  | .stepOperator => "increment/decrement operator"
  | .continueStatement => "continue"
  | .other description => description

def ValueKind.description : ValueKind → String
  | .dataObject => "data object"
  | .jsonObject => "json object"
  | .jsonArray => "json array"

inductive RenderError where
  | unsupported (construct : Construct) (dialect : Dialect)
  | unsupportedMethod (method : String) (receiver : ValueKind)
  | duplicateMember (name : String)
  deriving DecidableEq

def RenderError.message : RenderError → String
  | .unsupported construct dialect =>
    "unsupported " ++ construct.description ++ " for " ++ dialect.name
  | .unsupportedMethod method receiver =>
    "unsupported method " ++ method ++ " on " ++ receiver.description
  | .duplicateMember name => "duplicate member `" ++ name ++ "` in data object literal"

end Polyglot
