import Polyglot.Datum
import Polyglot.Tree.Basic

/-! The tree in constructor notation. -/

namespace Polyglot

def ClassKind.datum : ClassKind → Datum
  | .api => .constant "Api"
  | .enumeration => .constant "Enum"
  | .dataObject => .constant "DataObject"
  | .jsonObject => .constant "JsonObject"
  | .jsonArray => .constant "JsonArray"
  | .other => .constant "Other"

def ClassType.datum (ty : ClassType) : Datum :=
  .record "ClassType"
    [("kind", ty.kind.datum), ("name", .text ty.name), ("simple_name", .text ty.simpleName),
      ("translations", .table ty.spellings)]

mutual

def TypeInfo.datum : TypeInfo → Datum
  | .void => .constant "Void"
  | .primitive name => .tagged "Primitive" (.text name)
  | .ofClass ty => .tagged "Class" ty.datum
  | .generic raw args =>
    .tuple "Parameterized" [("raw", raw.datum), ("args", .list (TypeInfo.data args))]

def TypeInfo.data : List TypeInfo → List Datum
  | [] => []
  | ty :: rest => ty.datum :: TypeInfo.data rest

end

def Literal.datum : Literal → Datum
  | .int digits => .tagged "Int" (.text digits)
  | .long digits => .tagged "Long" (.text digits)
  | .float digits => .tagged "Float" (.text digits)
  | .double digits => .tagged "Double" (.text digits)
  | .char value => .tagged "Char" (.letter value)
  | .string value => .tagged "Str" (.text value)
  | .bool value => .tagged "Bool" (.flag value)
  | .null => .constant "Null"

def BinaryOp.datum : BinaryOp → Datum
  | .add => .constant "Add"
  | .sub => .constant "Sub"
  | .mul => .constant "Mul"
  | .div => .constant "Div"
  | .rem => .constant "Rem"
  | .eq => .constant "Eq"
  | .ne => .constant "Ne"
  | .lt => .constant "Lt"
  | .le => .constant "Le"
  | .gt => .constant "Gt"
  | .ge => .constant "Ge"
  | .and => .constant "And"
  | .or => .constant "Or"
  | .bitAnd => .constant "BitAnd"
  | .bitOr => .constant "BitOr"
  | .xor => .constant "Xor"
  | .shl => .constant "Shl"
  | .shr => .constant "Shr"

def UnaryOp.datum : UnaryOp → Datum
  | .neg => .constant "Neg"
  | .not => .constant "Not"
  | .complement => .constant "Complement"
  | .preIncrement => .constant "PreIncrement"
  | .preDecrement => .constant "PreDecrement"
  | .postIncrement => .constant "PostIncrement"
  | .postDecrement => .constant "PostDecrement"

def Param.datum (param : Param) : Datum :=
  .record "Param" [("name", .text param.name), ("ty", param.ty.datum)]

def ValueKind.tag : ValueKind → String
  | .dataObject => "DataObjectValue"
  | .jsonObject => "JsonObjectValue"
  | .jsonArray => "JsonArrayValue"

mutual

def Expr.datum : Expr → Datum
  | .literal value => .tagged "Literal" value.datum
  | .binary left op right concat =>
    .tagged "Binary" (.record "Binary"
      [("left", left.datum), ("op", op.datum), ("right", right.datum),
        ("string_concat", .flag concat)])
  | .unary op operand => .tuple "Unary" [("op", op.datum), ("operand", operand.datum)]
  | .parens inner => .tagged "Parens" inner.datum
  | .ident name => .tagged "Ident" (.text name)
  | .this => .constant "This"
  | .member object name =>
    .tuple "MemberSelect" [("object", object.datum), ("name", .text name)]
  | .assign target value => .tuple "Assign" [("target", target.datum), ("value", value.datum)]
  | .conditional test consequent alternative =>
    .tuple "Conditional"
      [("test", test.datum), ("then", consequent.datum), ("otherwise", alternative.datum)]
  | .call receiver method args =>
    .tuple "MethodCall"
      [("receiver", Expr.datum? receiver), ("method", .text method),
        ("args", .list (Expr.data args))]
  | .construct ty args => .tuple "New" [("ty", ty.datum), ("args", .list (Expr.data args))]
  | .lambda params body =>
    .tagged "Lambda" (.record "Lambda"
      [("params", .list (params.map Param.datum)), ("body", body.datum)])
  | .enumConstant ty constant =>
    .tuple "EnumConstant" [("ty", ty.datum), ("constant", .text constant)]
  | .apiType ty => .tagged "ApiType" ty.datum
  | .jsonObject members => .tagged "JsonObject" (.list (Member.data members))
  | .jsonArray values => .tagged "JsonArray" (.list (Expr.data values))
  | .dataObject ty members =>
    .tagged "DataObject" (.record "DataObjectLiteral"
      [("ty", ty.datum), ("members", .list (Member.data members))])
  | .valueOf kind inner => .tagged kind.tag inner.datum
  | .dataAssign object name value =>
    .tuple "DataObjectAssign"
      [("object", object.datum), ("name", .text name), ("value", value.datum)]
  | .dataMember object name =>
    .tuple "DataObjectMemberSelect" [("object", object.datum), ("name", .text name)]
  | .jsonAssign object name value =>
    .tuple "JsonObjectAssign"
      [("object", object.datum), ("name", name.datum), ("value", value.datum)]
  | .jsonMember object name =>
    .tuple "JsonObjectMemberSelect" [("object", object.datum), ("name", name.datum)]
  | .jsonObjectText object => .tagged "JsonObjectToString" object.datum
  | .jsonArrayText array => .tagged "JsonArrayToString" array.datum
  | .mapGet map key => .tuple "MapGet" [("map", map.datum), ("key", key.datum)]
  | .mapForEach map key value body =>
    .tagged "MapForEach" (.record "MapForEach"
      [("map", map.datum), ("key", key.datum), ("value", value.datum), ("body", body.datum)])
  | .methodReference receiver method =>
    .tuple "MethodReference" [("receiver", receiver.datum), ("method", .text method)]
  | .console message => .tagged "Console" message.datum
  | .asyncResult name => .tagged "AsyncResult" (.text name)

def Expr.data : List Expr → List Datum
  | [] => []
  | expr :: rest => expr.datum :: Expr.data rest

def Expr.datum? : Option Expr → Datum
  | none => .absent
  | some expr => .present expr.datum

def LambdaBody.datum : LambdaBody → Datum
  | .expr value => .tagged "Expr" value.datum
  | .block stmts => .tagged "Block" (.list (Stmt.data stmts))

def Member.datum : Member → Datum
  | .single name value =>
    .record "Member" [("name", name.datum), ("value", .tagged "Single" value.datum)]
  | .array name values =>
    .record "Member" [("name", name.datum), ("value", .tagged "Array" (.list (Expr.data values)))]

def Member.data : List Member → List Datum
  | [] => []
  | member :: rest => member.datum :: Member.data rest

def Stmt.datum : Stmt → Datum
  | .block stmts => .tagged "Block" (.list (Stmt.data stmts))
  | .declare ty name init =>
    .tuple "VarDecl" [("ty", ty.datum), ("name", .text name), ("init", Expr.datum? init)]
  | .expr value => .tagged "Expr" value.datum
  | .forLoop init test update body =>
    .tuple "For"
      [("init", init.datum), ("test", test.datum), ("update", update.datum), ("body", body.datum)]
  | .forEach name iterable body =>
    .tuple "ForEach"
      [("variable", .text name), ("iterable", iterable.datum), ("body", body.datum)]
  | .throwNew exception reason =>
    .tuple "Throw" [("exception", .text exception), ("reason", Expr.datum? reason)]
  | .returnWith value => .tagged "Return" (Expr.datum? value)
  | .ifElse test consequent alternative =>
    .tuple "If"
      [("test", test.datum), ("then", consequent.datum), ("otherwise", Stmt.datum? alternative)]
  | .whileLoop test body => .tuple "While" [("test", test.datum), ("body", body.datum)]
  | .breakLoop => .constant "Break"
  | .continueLoop => .constant "Continue"

def Stmt.data : List Stmt → List Datum
  | [] => []
  | stmt :: rest => stmt.datum :: Stmt.data rest

def Stmt.datum? : Option Stmt → Datum
  | none => .absent
  | some stmt => .present stmt.datum

end

def DataObject.datum (object : DataObject) : Datum :=
  .record "DataObjectLiteral"
    [("ty", object.ty.datum), ("members", .list (Member.data object.members))]

def Program.datum (program : Program) : Datum :=
  .record "Program" [("body", .list (Stmt.data program.body))]

end Polyglot
