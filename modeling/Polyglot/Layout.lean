import Polyglot.Phrase

/-! The document of a program tree. -/

namespace Polyglot

mutual

def Expr.doc (style : Style) : Expr → Doc
  | .literal value => Phrase.literal style.dialect value
  | .binary left op right concat =>
    Phrase.binary style op concat left.isStringPart right.isStringPart (left.doc style)
      (right.doc style)
  | .unary op operand => Phrase.unary style.dialect op (operand.doc style)
  | .parens inner => Phrase.parens (inner.doc style)
  | .ident name => .text name
  | .this => Phrase.this style.dialect
  | .member object name => Phrase.member (object.doc style) name
  | .assign target value => Phrase.assign (target.doc style) (value.doc style)
  | .conditional test consequent alternative =>
    Phrase.conditional style.dialect consequent.isTruthy (test.doc style)
      (consequent.doc style) (alternative.doc style)
  | .call none method args => Phrase.call none method (Expr.docs style args)
  | .call (some receiver) method args =>
    Phrase.call (Phrase.receiver style.dialect receiver.isApiType (receiver.doc style)) method
      (Expr.docs style args)
  | .construct ty args => Phrase.construct style.dialect ty (Expr.docs style args)
  | .lambda params body => Phrase.lambda style.dialect params body (body.doc style)
  | .enumConstant ty constant => Phrase.enumConstant style.dialect ty constant
  | .apiType ty => Phrase.reference style.dialect ty
  | .jsonObject members =>
    Phrase.jsonObject style.dialect
      (Member.docs style (style.dialect = .groovy) style.dialect.containers members)
  | .jsonArray values => Phrase.jsonArray style.dialect (Expr.docs style values)
  | .dataObject _ members =>
    Phrase.dataObject style.dialect
      (Member.docs style (style.dialect = .lua) style.dialect.containers members)
  | .valueOf _ inner => inner.doc style
  | .dataAssign object name value =>
    Phrase.assign (Phrase.member (object.doc style) name) (value.doc style)
  | .dataMember object name => Phrase.member (object.doc style) name
  | .jsonAssign object name value =>
    Phrase.jsonAssign style.dialect (object.doc style) name (name.doc style) (value.doc style)
  | .jsonMember object name =>
    Phrase.jsonMember style.dialect (object.doc style) name (name.doc style)
  | .jsonObjectText object => Phrase.jsonText style.dialect (object.doc style)
  | .jsonArrayText array => Phrase.jsonText style.dialect (array.doc style)
  | .mapGet map key => Phrase.mapGet style.dialect (map.doc style) (key.doc style)
  | .mapForEach map key value body =>
    Phrase.mapForEach style.dialect (map.doc style) key value body (body.doc style)
  | .methodReference receiver method =>
    Phrase.methodReference style.dialect (receiver.doc style) method
  | .console message => Phrase.console style.dialect (message.doc style)
  | .asyncResult name => .text name

def Expr.docs (style : Style) : List Expr → List Doc
  | [] => []
  | expr :: rest => expr.doc style :: Expr.docs style rest

def Expr.doc? (style : Style) : Option Expr → Option Doc
  | none => none
  | some expr => some (expr.doc style)

def LambdaBody.doc (style : Style) : LambdaBody → Doc
  | .expr value => value.doc style
  | .block stmts => .block (Stmt.lines style stmts)

def Member.doc (style : Style) (unquote : Bool) (containers : Containers) : Member → Doc
  | .single name value =>
    Phrase.entry containers (Phrase.key style.dialect unquote name (name.doc style))
      (value.doc style)
  | .array name values =>
    Phrase.entry containers (Phrase.key style.dialect unquote name (name.doc style))
      (Phrase.array containers (Expr.docs style values))

def Member.docs (style : Style) (unquote : Bool) (containers : Containers) :
    List Member → List Doc
  | [] => []
  | member :: rest =>
    member.doc style unquote containers :: Member.docs style unquote containers rest

def Stmt.doc (style : Style) : Stmt → Doc
  | .block stmts => .block (Stmt.lines style stmts)
  | .declare ty name init => Phrase.declare style.dialect ty name (Expr.doc? style init)
  | .expr value => value.doc style
  | .forLoop init test update body =>
    Phrase.forLoop style.dialect (init.doc style) (test.doc style)
      (match update with
        | .unary op operand => Phrase.update style.dialect op (operand.doc style)
        | update => update.doc style)
      (Phrase.body body (body.doc style))
  | .forEach name iterable body =>
    Phrase.forEach style.dialect name (iterable.doc style) (Phrase.body body (body.doc style))
  | .throwNew exception reason =>
    Phrase.throwNew style.dialect exception (Expr.doc? style reason)
  | .returnWith value => Phrase.returnWith (Expr.doc? style value)
  | .ifElse test consequent none =>
    Phrase.ifElse style.dialect (test.doc style)
      (Phrase.body consequent (consequent.doc style)) none
  | .ifElse test consequent (some alternative) =>
    Phrase.ifElse style.dialect (test.doc style)
      (Phrase.body consequent (consequent.doc style)) (some (alternative, alternative.doc style))
  | .whileLoop test body =>
    Phrase.whileLoop style.dialect (test.doc style) (Phrase.body body (body.doc style))
  | .breakLoop => .text "break"
  | .continueLoop => Phrase.continueLoop style.dialect

/-- Each statement on a line of its own. -/
def Stmt.lines (style : Style) : List Stmt → Doc
  | [] => .empty
  | stmt :: rest => Phrase.line (stmt.doc style) ++ Stmt.lines style rest

end

namespace Program

def doc (style : Style) (program : Program) : Doc :=
  .block (Stmt.lines style program.body)

end Program

end Polyglot
