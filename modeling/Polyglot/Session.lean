import Polyglot.Layout
import Polyglot.Settings

/-! A session of one language. Its imports last over all the passes that it runs. -/

namespace Polyglot

structure Session where
  dialect : Dialect
  settings : Settings := {}
  imports : Imports := .empty

namespace Session

def style (session : Session) : Style where
  dialect := session.dialect
  interpolate := session.settings.interpolate

/-- A pass over an empty page. -/
def newPass (session : Session) : Pass where
  page := { indentUnit := session.settings.indent }
  imports := session.imports

/-- The text of a finished pass, and the session with what the pass has collected. -/
def conclude (session : Session) (outcome : Outcome) : Except RenderError String × Session :=
  let after := { session with imports := outcome.pass.imports }
  match outcome with
  | .done pass => (.ok pass.page.text, after)
  | .failed error _ => (.error error, after)

/-- Renders a whole program with its header. -/
def render (session : Session) (program : Program) : Except RenderError String × Session :=
  session.conclude ((program.doc session.style).play session.dialect session.newPass)

/-- Renders an expression on its own, without a header. -/
def renderExpr (session : Session) (expr : Expr) : Except RenderError String × Session :=
  session.conclude ((expr.doc session.style).playFragment session.dialect session.newPass)

/-- Registers a type, and tells whether it was not there before. -/
def register (session : Session) (ty : ClassType) : Bool × Session :=
  (!session.imports.contains ty, { session with imports := session.imports.insert ty })

/-- Starts anew, without imports. -/
def reset (session : Session) : Session :=
  { session with imports := .empty }

def apiType (session : Session) (ty : ClassType) : Expr × Session :=
  (.apiType ty, (session.register ty).2)

def enumConstant (session : Session) (ty : ClassType) (constant : String) : Expr × Session :=
  (.enumConstant ty constant, (session.register ty).2)

/-- A class as a value. Groovy refers to it by its qualified name, which needs no import. -/
def classExpression (session : Session) (ty : ClassType) : Expr × Session :=
  match session.dialect with
  | .groovy => (.ident ty.name, session)
  | _ => session.apiType ty

end Session

/-- A handler that receives an asynchronous result. -/
def Expr.asyncResultHandler (ty : TypeInfo) (name : String) (body : LambdaBody) : Expr :=
  .lambda [⟨name, ty⟩] body

end Polyglot
