import Polyglot.Proofs.DistinctNames

/-! Every part of a tree is written the way its shape says. -/
namespace Polyglot

theorem TypeInfo.data_eq (types : List TypeInfo) : TypeInfo.data types = types.map datum := by
  induction types with
  | nil => rfl
  | cons ty rest ih => rw [TypeInfo.data, ih, List.map_cons]

theorem Expr.data_eq (values : List Expr) : Expr.data values = values.map datum := by
  induction values with
  | nil => rfl
  | cons value rest ih => rw [Expr.data, ih, List.map_cons]

theorem Member.data_eq (members : List Member) : Member.data members = members.map datum := by
  induction members with
  | nil => rfl
  | cons member rest ih => rw [Member.data, ih, List.map_cons]

theorem Stmt.data_eq (stmts : List Stmt) : Stmt.data stmts = stmts.map datum := by
  induction stmts with
  | nil => rfl
  | cons stmt rest ih => rw [Stmt.data, ih, List.map_cons]

namespace Decode

/-- The values that have a shape of their own in constructor notation. -/
def Named.datum : (name : Named) → name.Value → Datum
  | .classKind, value => value.datum
  | .classType, value => value.datum
  | .typeInfo, value => value.datum
  | .literal, value => value.datum
  | .binaryOp, value => value.datum
  | .unaryOp, value => value.datum
  | .param, value => value.datum
  | .lambdaBody, value => value.datum
  | .member, value => value.datum
  | .memberValue, .inl value => .tagged "Single" value.datum
  | .memberValue, .inr values => .tagged "Array" (.list (values.map Expr.datum))
  | .dataObject, value => value.datum
  | .expr, value => value.datum
  | .stmt, value => value.datum
  | .program, value => value.datum

def Kind.datum : (kind : Kind) → kind.Value → Datum
  | .text, value => .text value
  | .flag, value => .flag value
  | .letter, value => .letter value
  | .spellings, value => .table value
  | .optional _, none => .absent
  | .optional kind, some value => .present (kind.datum value)
  | .list kind, values => .list (values.map kind.datum)
  | .named name, value => name.datum value

def Row.data : (fields : List Field) → Row fields → List (String × Datum)
  | [], () => []
  | field :: rest, (value, values) =>
    (field.name, field.kind.datum value) :: Row.data rest values

/-- How a shape writes a value: by the fields that it is made of, or by the name of a variant and
what the variant carries. -/
inductive Shape.Writes {α : Type} : Shape α → α → Datum → Prop
  | record {title : String} {fields : List Field} {make : Row fields → Except Error α}
    {value : α} {datum : Datum} (name : String) (row : Row fields) (hv : make row = .ok value)
    (hd : datum = .record name (Row.data fields row)) :
    Writes (.record title fields make) value datum
  | constant {title : String} {variants : List (String × Payload α)} {value : α} {datum : Datum}
    (tag : String) (hl : variants.lookup tag = some (.constant value))
    (hd : datum = .constant tag) : Writes (.choice title variants) value datum
  | single {title : String} {variants : List (String × Payload α)} {value : α} {datum : Datum}
    {kind : Kind} {make : kind.Value → α} (tag : String)
    (hl : variants.lookup tag = some (.single kind make)) (part : kind.Value)
    (hv : make part = value) (hd : datum = .tagged tag (kind.datum part)) :
    Writes (.choice title variants) value datum
  | structure {title inner : String} {variants : List (String × Payload α)} {value : α}
    {datum : Datum} {fields : List Field} {make : Row fields → α} (tag : String)
    (hl : variants.lookup tag = some (.structure inner fields make)) (name : String)
    (row : Row fields) (hv : make row = value)
    (hd : datum = .tagged tag (.record name (Row.data fields row))) :
    Writes (.choice title variants) value datum
  | tuple {title : String} {variants : List (String × Payload α)} {value : α} {datum : Datum}
    {fields : List Field} {make : Row fields → α} (tag : String)
    (hl : variants.lookup tag = some (.tuple fields make)) (row : Row fields)
    (hv : make row = value) (hd : datum = .tuple tag (Row.data fields row)) :
    Writes (.choice title variants) value datum

theorem writes_classKind (kind : ClassKind) : Named.classKind.shape.Writes kind kind.datum := by
  cases kind <;> exact .constant _ rfl rfl

theorem writes_binaryOp (op : BinaryOp) : Named.binaryOp.shape.Writes op op.datum := by
  cases op <;> exact .constant _ rfl rfl

theorem writes_unaryOp (op : UnaryOp) : Named.unaryOp.shape.Writes op op.datum := by
  cases op <;> exact .constant _ rfl rfl

theorem writes_classType (ty : ClassType) : Named.classType.shape.Writes ty ty.datum :=
  .record "ClassType" (ty.kind, ty.name, ty.simpleName, ty.spellings, ()) rfl rfl

theorem writes_typeInfo (ty : TypeInfo) : Named.typeInfo.shape.Writes ty ty.datum := by
  cases ty with
  | void => exact .constant "Void" rfl rfl
  | primitive name => exact .single "Primitive" rfl name rfl rfl
  | ofClass ty => exact .single "Class" rfl ty rfl rfl
  | generic raw args =>
    refine .tuple "Parameterized" rfl (raw, args, ()) rfl ?_
    rw [TypeInfo.datum, TypeInfo.data_eq]
    rfl

theorem writes_literal (value : Literal) : Named.literal.shape.Writes value value.datum := by
  cases value with
  | int digits => exact .single "Int" rfl digits rfl rfl
  | long digits => exact .single "Long" rfl digits rfl rfl
  | float digits => exact .single "Float" rfl digits rfl rfl
  | double digits => exact .single "Double" rfl digits rfl rfl
  | char value => exact .single "Char" rfl value rfl rfl
  | string value => exact .single "Str" rfl value rfl rfl
  | bool value => exact .single "Bool" rfl value rfl rfl
  | null => exact .constant "Null" rfl rfl

theorem writes_param (param : Param) : Named.param.shape.Writes param param.datum :=
  .record "Param" (param.name, param.ty, ()) rfl rfl

theorem writes_lambdaBody (body : LambdaBody) :
    Named.lambdaBody.shape.Writes body body.datum := by
  cases body with
  | expr value => exact .single "Expr" rfl value rfl rfl
  | block stmts =>
    refine .single "Block" rfl stmts rfl ?_
    rw [LambdaBody.datum, Stmt.data_eq]
    rfl

theorem writes_memberValue (value : Expr ⊕ List Expr) :
    Named.memberValue.shape.Writes value (Named.memberValue.datum value) := by
  cases value with
  | inl value => exact .single "Single" rfl value rfl rfl
  | inr values => exact .single "Array" rfl values rfl rfl

theorem writes_member (member : Member) : Named.member.shape.Writes member member.datum := by
  cases member with
  | single name value => exact .record "Member" (name, .inl value, ()) rfl rfl
  | array name values =>
    refine .record "Member" (name, .inr values, ()) rfl ?_
    rw [Member.datum, Expr.data_eq]
    rfl

/-- Only a data object with different names is made from its members again. -/
theorem writes_dataObject (object : DataObject) (hd : object.Distinct) :
    Named.dataObject.shape.Writes object object.datum := by
  have hm : DataObject.ofMembers object.ty object.members = .ok object :=
    DataObject.ofMembers_eq_ok_iff.mpr ⟨rfl, hd⟩
  refine .record "DataObjectLiteral" (object.ty, object.members, ()) (mapError_eq_ok.mpr hm) ?_
  rw [DataObject.datum, Member.data_eq]
  rfl

theorem writes_expr (value : Expr) : Named.expr.shape.Writes value value.datum := by
  -- The notation of lists is defined along with that of their items; it is rewritten to a map.
  cases value with
  | this => exact .constant "This" rfl rfl
  | literal value => exact .single "Literal" rfl value rfl rfl
  | ident name => exact .single "Ident" rfl name rfl rfl
  | asyncResult name => exact .single "AsyncResult" rfl name rfl rfl
  | apiType ty => exact .single "ApiType" rfl ty rfl rfl
  | parens inner => exact .single "Parens" rfl inner rfl rfl
  | console inner => exact .single "Console" rfl inner rfl rfl
  | jsonObjectText inner => exact .single "JsonObjectToString" rfl inner rfl rfl
  | jsonArrayText inner => exact .single "JsonArrayToString" rfl inner rfl rfl
  | valueOf kind inner =>
    cases kind with
    | dataObject => exact .single "DataObjectValue" rfl inner rfl rfl
    | jsonObject => exact .single "JsonObjectValue" rfl inner rfl rfl
    | jsonArray => exact .single "JsonArrayValue" rfl inner rfl rfl
  | unary op operand => exact .tuple "Unary" rfl (op, operand, ()) rfl rfl
  | member object name => exact .tuple "MemberSelect" rfl (object, name, ()) rfl rfl
  | assign target value => exact .tuple "Assign" rfl (target, value, ()) rfl rfl
  | enumConstant ty name => exact .tuple "EnumConstant" rfl (ty, name, ()) rfl rfl
  | dataMember object name => exact .tuple "DataObjectMemberSelect" rfl (object, name, ()) rfl rfl
  | jsonMember object name => exact .tuple "JsonObjectMemberSelect" rfl (object, name, ()) rfl rfl
  | mapGet map key => exact .tuple "MapGet" rfl (map, key, ()) rfl rfl
  | methodReference object name => exact .tuple "MethodReference" rfl (object, name, ()) rfl rfl
  | conditional test consequent alternative =>
    exact .tuple "Conditional" rfl (test, consequent, alternative, ()) rfl rfl
  | dataAssign object name value =>
    exact .tuple "DataObjectAssign" rfl (object, name, value, ()) rfl rfl
  | jsonAssign object name value =>
    exact .tuple "JsonObjectAssign" rfl (object, name, value, ()) rfl rfl
  | binary left op right concat =>
    exact .structure "Binary" rfl "Binary" (left, op, right, concat, ()) rfl rfl
  | mapForEach map key value body =>
    exact .structure "MapForEach" rfl "MapForEach" (map, key, value, body, ()) rfl rfl
  | lambda params body =>
    exact .structure "Lambda" rfl "Lambda" (params, body, ()) rfl rfl
  | jsonArray values =>
    refine .single "JsonArray" rfl values rfl ?_
    rw [Expr.datum, Expr.data_eq]
    rfl
  | jsonObject members =>
    refine .single "JsonObject" rfl members rfl ?_
    rw [Expr.datum, Member.data_eq]
    rfl
  | construct ty args =>
    refine .tuple "New" rfl (ty, args, ()) rfl ?_
    rw [Expr.datum, Expr.data_eq]
    rfl
  | call receiver method args =>
    refine .tuple "MethodCall" rfl (receiver, method, args, ()) rfl ?_
    rw [Expr.datum, Expr.data_eq]
    cases receiver <;> rfl
  | dataObject ty members => exact .single "DataObject" rfl ⟨ty, members⟩ rfl rfl

theorem writes_stmt (stmt : Stmt) : Named.stmt.shape.Writes stmt stmt.datum := by
  cases stmt with
  | breakLoop => exact .constant "Break" rfl rfl
  | continueLoop => exact .constant "Continue" rfl rfl
  | expr value => exact .single "Expr" rfl value rfl rfl
  | whileLoop test body => exact .tuple "While" rfl (test, body, ()) rfl rfl
  | forEach name iterable body => exact .tuple "ForEach" rfl (name, iterable, body, ()) rfl rfl
  | forLoop init test update body =>
    exact .tuple "For" rfl (init, test, update, body, ()) rfl rfl
  | block stmts =>
    refine .single "Block" rfl stmts rfl ?_
    rw [Stmt.datum, Stmt.data_eq]
    rfl
  | returnWith value =>
    refine .single "Return" rfl value rfl ?_
    cases value <;> rfl
  | throwNew exception reason =>
    refine .tuple "Throw" rfl (exception, reason, ()) rfl ?_
    cases reason <;> rfl
  | declare ty name init =>
    refine .tuple "VarDecl" rfl (ty, name, init, ()) rfl ?_
    cases init <;> rfl
  | ifElse test consequent alternative =>
    refine .tuple "If" rfl (test, consequent, alternative, ()) rfl ?_
    cases alternative <;> rfl

theorem writes_program (program : Program) :
    Named.program.shape.Writes program program.datum := by
  refine .record "Program" (program.body, ()) rfl ?_
  rw [Program.datum, Stmt.data_eq]
  rfl

theorem writes_datum (name : Named) (value : name.Value) (h : Distinct name value) :
    name.shape.Writes value (name.datum value) := by
  cases name with
  | classKind => exact writes_classKind value
  | classType => exact writes_classType value
  | typeInfo => exact writes_typeInfo value
  | literal => exact writes_literal value
  | binaryOp => exact writes_binaryOp value
  | unaryOp => exact writes_unaryOp value
  | param => exact writes_param value
  | lambdaBody => exact writes_lambdaBody value
  | member => exact writes_member value
  | memberValue => exact writes_memberValue value
  | dataObject => exact writes_dataObject value ((DataObject.distinct_expr value).mp h).1
  | expr => exact writes_expr value
  | stmt => exact writes_stmt value
  | program => exact writes_program value

end Decode

end Polyglot
