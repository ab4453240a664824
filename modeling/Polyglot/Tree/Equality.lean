import Polyglot.Tree.Basic

/-! Structural equality of trees, decided. -/

namespace Polyglot

mutual

def TypeInfo.same : TypeInfo → TypeInfo → Bool
  | .void, .void => true
  | .primitive name, .primitive name' => name == name'
  | .ofClass ty, .ofClass ty' => ty == ty'
  | .generic raw args, .generic raw' args' => raw == raw' && TypeInfo.sameList args args'
  | _, _ => false

def TypeInfo.sameList : List TypeInfo → List TypeInfo → Bool
  | [], [] => true
  | ty :: rest, ty' :: rest' => ty.same ty' && TypeInfo.sameList rest rest'
  | _, _ => false

end

def Param.same (param param' : Param) : Bool :=
  param.name == param'.name && param.ty.same param'.ty

def Param.sameList : List Param → List Param → Bool
  | [], [] => true
  | param :: rest, param' :: rest' => param.same param' && Param.sameList rest rest'
  | _, _ => false

mutual

def Expr.same : Expr → Expr → Bool
  | .literal value, .literal value' => value == value'
  | .binary left op right concat, .binary left' op' right' concat' =>
    left.same left' && op == op' && right.same right' && concat == concat'
  | .unary op operand, .unary op' operand' => op == op' && operand.same operand'
  | .parens inner, .parens inner' => inner.same inner'
  | .ident name, .ident name' => name == name'
  | .this, .this => true
  | .member object name, .member object' name' => object.same object' && name == name'
  | .assign target value, .assign target' value' => target.same target' && value.same value'
  | .conditional test consequent alternative, .conditional test' consequent' alternative' =>
    test.same test' && consequent.same consequent' && alternative.same alternative'
  | .call receiver method args, .call receiver' method' args' =>
    Expr.sameOption receiver receiver' && method == method' && Expr.sameList args args'
  | .construct ty args, .construct ty' args' => ty.same ty' && Expr.sameList args args'
  | .lambda params body, .lambda params' body' =>
    Param.sameList params params' && body.same body'
  | .enumConstant ty constant, .enumConstant ty' constant' => ty == ty' && constant == constant'
  | .apiType ty, .apiType ty' => ty == ty'
  | .jsonObject members, .jsonObject members' => Member.sameList members members'
  | .jsonArray values, .jsonArray values' => Expr.sameList values values'
  | .dataObject ty members, .dataObject ty' members' =>
    ty == ty' && Member.sameList members members'
  | .valueOf kind inner, .valueOf kind' inner' => kind == kind' && inner.same inner'
  | .dataAssign object name value, .dataAssign object' name' value' =>
    object.same object' && name == name' && value.same value'
  | .dataMember object name, .dataMember object' name' => object.same object' && name == name'
  | .jsonAssign object name value, .jsonAssign object' name' value' =>
    object.same object' && name.same name' && value.same value'
  | .jsonMember object name, .jsonMember object' name' => object.same object' && name.same name'
  | .jsonObjectText object, .jsonObjectText object' => object.same object'
  | .jsonArrayText array, .jsonArrayText array' => array.same array'
  | .mapGet map key, .mapGet map' key' => map.same map' && key.same key'
  | .mapForEach map key value body, .mapForEach map' key' value' body' =>
    map.same map' && key.same key' && value.same value' && body.same body'
  | .methodReference receiver method, .methodReference receiver' method' =>
    receiver.same receiver' && method == method'
  | .console message, .console message' => message.same message'
  | .asyncResult name, .asyncResult name' => name == name'
  | _, _ => false
termination_by structural tree => tree

def Expr.sameList : List Expr → List Expr → Bool
  | [], [] => true
  | expr :: rest, expr' :: rest' => expr.same expr' && Expr.sameList rest rest'
  | _, _ => false
termination_by structural tree => tree

def Expr.sameOption : Option Expr → Option Expr → Bool
  | none, none => true
  | some expr, some expr' => expr.same expr'
  | _, _ => false
termination_by structural tree => tree

def LambdaBody.same : LambdaBody → LambdaBody → Bool
  | .expr value, .expr value' => value.same value'
  | .block stmts, .block stmts' => Stmt.sameList stmts stmts'
  | _, _ => false
termination_by structural tree => tree

def Member.same : Member → Member → Bool
  | .single name value, .single name' value' => name.same name' && value.same value'
  | .array name values, .array name' values' => name.same name' && Expr.sameList values values'
  | _, _ => false
termination_by structural tree => tree

def Member.sameList : List Member → List Member → Bool
  | [], [] => true
  | member :: rest, member' :: rest' => member.same member' && Member.sameList rest rest'
  | _, _ => false
termination_by structural tree => tree

def Stmt.same : Stmt → Stmt → Bool
  | .block stmts, .block stmts' => Stmt.sameList stmts stmts'
  | .declare ty name init, .declare ty' name' init' =>
    ty.same ty' && name == name' && Expr.sameOption init init'
  | .expr value, .expr value' => value.same value'
  | .forLoop init test update body, .forLoop init' test' update' body' =>
    init.same init' && test.same test' && update.same update' && body.same body'
  | .forEach name iterable body, .forEach name' iterable' body' =>
    name == name' && iterable.same iterable' && body.same body'
  | .throwNew exception reason, .throwNew exception' reason' =>
    exception == exception' && Expr.sameOption reason reason'
  | .returnWith value, .returnWith value' => Expr.sameOption value value'
  | .ifElse test consequent alternative, .ifElse test' consequent' alternative' =>
    test.same test' && consequent.same consequent' && Stmt.sameOption alternative alternative'
  | .whileLoop test body, .whileLoop test' body' => test.same test' && body.same body'
  | .breakLoop, .breakLoop => true
  | .continueLoop, .continueLoop => true
  | _, _ => false
termination_by structural tree => tree

def Stmt.sameList : List Stmt → List Stmt → Bool
  | [], [] => true
  | stmt :: rest, stmt' :: rest' => stmt.same stmt' && Stmt.sameList rest rest'
  | _, _ => false
termination_by structural tree => tree

def Stmt.sameOption : Option Stmt → Option Stmt → Bool
  | none, none => true
  | some stmt, some stmt' => stmt.same stmt'
  | _, _ => false
termination_by structural tree => tree

end

end Polyglot
