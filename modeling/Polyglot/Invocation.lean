import Polyglot.Accessor
import Polyglot.RenderError

/-! Calls on values. Data objects, JSON objects and JSON arrays answer to a closed set of methods,
each with a node of its own. -/

namespace Polyglot

namespace Invocation

/-- The word `get`, alone or with the name of a type behind it. -/
def isJsonGetter (method : String) : Bool :=
  match Accessor.behind? "get".toList method.toList with
  | some [] => true
  | some (c :: _) => c.isUpper
  | none => false

def isTextMethod (method : String) : Bool :=
  method = "encode" || method = "toString"

def onDataObject (object : Expr) (method : String) (args : List Expr) : Except RenderError Expr :=
  match Accessor.classify method args.length, args with
  | .get property, _ => .ok (.dataMember object property)
  | .set property, [value] => .ok (.dataAssign object property value)
  | _, _ => .error (.unsupportedMethod method .dataObject)

def onJsonObject (object : Expr) (method : String) (args : List Expr) : Except RenderError Expr :=
  match args with
  | [] =>
    if isTextMethod method then .ok (.jsonObjectText object)
    else .error (.unsupportedMethod method .jsonObject)
  | [name] =>
    if isJsonGetter method then .ok (.jsonMember object name)
    else .error (.unsupportedMethod method .jsonObject)
  | [name, value] =>
    if method = "put" then .ok (.jsonAssign object name value)
    else .error (.unsupportedMethod method .jsonObject)
  | _ => .error (.unsupportedMethod method .jsonObject)

def onJsonArray (array : Expr) (method : String) (args : List Expr) : Except RenderError Expr :=
  if isTextMethod method && args.isEmpty then .ok (.jsonArrayText array)
  else .error (.unsupportedMethod method .jsonArray)

end Invocation

/-- The node of a call. Any receiver that is no known value is called as it stands. -/
def Expr.invoke (receiver : Expr) (method : String) (args : List Expr) :
    Except RenderError Expr :=
  match receiver with
  | .valueOf .dataObject inner => Invocation.onDataObject inner method args
  | .valueOf .jsonObject inner => Invocation.onJsonObject inner method args
  | .valueOf .jsonArray inner => Invocation.onJsonArray inner method args
  | receiver => .ok (.call (some receiver) method args)

end Polyglot
