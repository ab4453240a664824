import Polyglot.Proofs.Rendering

/-! Sessions over whole runs. -/
namespace Polyglot

namespace Session

/-- What can be asked of a session; failing passes count as well. -/
inductive Action where
  | render (program : Program)
  | renderExpr (expr : Expr)
  | register (ty : ClassType)
  | apiType (ty : ClassType)
  | enumConstant (ty : ClassType) (constant : String)
  | classExpression (ty : ClassType)
  | reset

def act (session : Session) : Action → Session
  | .render program => (session.render program).2
  | .renderExpr expr => (session.renderExpr expr).2
  | .register ty => (session.register ty).2
  | .apiType ty => (session.apiType ty).2
  | .enumConstant ty constant => (session.enumConstant ty constant).2
  | .classExpression ty => (session.classExpression ty).2
  | .reset => session.reset

def after (session : Session) (actions : List Action) : Session :=
  actions.foldl act session

end Session

end Polyglot
