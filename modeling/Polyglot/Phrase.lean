import Polyglot.Doc
import Polyglot.Text.Escape

/-! The notation of each construct in each dialect, put together from the notation of its parts. -/

namespace Polyglot

/-- What the notation depends on: a dialect, and whether it interpolates joined strings. -/
structure Style where
  dialect : Dialect
  interpolate : Bool

/-- Delimiters of object and array literals. -/
structure Containers where
  objectOpen : String
  objectClose : String
  emptyObject : String
  arrayOpen : String
  arrayClose : String
  emptyArray : String
  keySeparator : String
  separator : String

namespace Containers

def groovy : Containers where
  objectOpen := "["
  objectClose := "]"
  emptyObject := "[:]"
  arrayOpen := "["
  arrayClose := "]"
  emptyArray := "[]"
  keySeparator := ":"
  separator := ","

def lua : Containers where
  objectOpen := "\x7b"
  objectClose := "\x7d"
  emptyObject := "\x7b\x7d"
  arrayOpen := "\x7b"
  arrayClose := "\x7d"
  emptyArray := "\x7b\x7d"
  keySeparator := "="
  separator := ","

end Containers

/-- The plain notation has no literals of its own, so any delimiters do. -/
def Dialect.containers : Dialect → Containers
  | .lua => .lua
  | _ => .groovy

namespace Expr

/-- Parts of a joined string that are spliced into it: string literals and further joins. -/
def isStringPart : Expr → Bool
  | .literal (.string _) => true
  | .binary _ .add _ true => true
  | _ => false

/-- Expressions that Lua accepts as statements only. -/
def isLuaStatement : Expr → Bool
  | .assign .. | .dataAssign .. | .jsonAssign .. | .mapForEach .. => true
  | _ => false

/-- Expressions whose value is neither nil nor false, whatever the names in them stand for. -/
def isTruthy : Expr → Bool
  | .parens inner => inner.isTruthy
  | .literal .null => false
  | .literal (.bool value) => value
  | .literal _ => true
  | .lambda .. | .jsonObject _ | .jsonArray _ | .dataObject .. => true
  | _ => false

def isApiType : Expr → Bool
  | .apiType _ => true
  | _ => false

/-- The key of a string literal. -/
def stringKey? : Expr → Option String
  | .literal (.string key) => some key
  | _ => none

end Expr

namespace Stmt

def isBlock : Stmt → Bool
  | .block _ => true
  | _ => false

def isIfElse : Stmt → Bool
  | .ifElse .. => true
  | _ => false

end Stmt

namespace Phrase

def brace : String := "\x7b"

def unbrace : String := "\x7d"

def literal (dialect : Dialect) : Literal → Doc
  | .int digits => .text digits
  | .long digits => .text (if dialect = .groovy then digits ++ "L" else digits)
  | .float digits => .text (if dialect = .groovy then digits ++ "f" else digits)
  | .double digits => .text (if dialect = .groovy then digits ++ "d" else digits)
  | .char value =>
    if dialect = .lua then .quoted (Text.escape (String.singleton value))
    else .text ("'" ++ String.ofList (Text.escapeSingleChar value) ++ "'")
  | .string value =>
    .quoted (if dialect = .groovy then Text.escapeTemplate value else Text.escape value)
  | .bool value => .text (if value then "true" else "false")
  | .null => .text (if dialect = .lua then "nil" else "null")

/-- A part of an interpolated string. -/
def part (splice : Bool) (doc : Doc) : Doc :=
  if splice then doc.unquoted else .text ("$" ++ brace) ++ doc ++ .text unbrace

def infixed (left : Doc) (operator : String) (right : Doc) : Doc :=
  left ++ .text (" " ++ operator ++ " ") ++ right

def binary (style : Style) (op : BinaryOp) (concat : Bool) (spliceLeft spliceRight : Bool)
    (left right : Doc) : Doc :=
  match style.dialect with
  | .plain => infixed left (Dialect.operator .plain op) right
  | .groovy =>
    if concat && style.interpolate then .quoted (part spliceLeft left ++ part spliceRight right)
    else infixed left (Dialect.operator .groovy op) right
  | .lua =>
    if concat then infixed left ".." right
    else if op = .rem then .text "math.fmod(" ++ left ++ .text ", " ++ right ++ .text ")"
    else infixed left (Dialect.operator .lua op) right

def unary (dialect : Dialect) (op : UnaryOp) (operand : Doc) : Doc :=
  match dialect, op with
  | .lua, .not => .text "not " ++ operand
  | _, .neg => .text "-" ++ operand
  | _, .complement => .text "~" ++ operand
  | .lua, _ => .unsupported .stepOperator
  | _, .not => .text "!" ++ operand
  | _, .preIncrement => .text "++" ++ operand
  | _, .preDecrement => .text "--" ++ operand
  | _, .postIncrement => operand ++ .text "++"
  | _, .postDecrement => operand ++ .text "--"

def parens (inner : Doc) : Doc :=
  .text "(" ++ inner ++ .text ")"

def this (dialect : Dialect) : Doc :=
  .text (if dialect = .lua then "self" else "this")

def member (object : Doc) (name : String) : Doc :=
  object ++ .text ("." ++ name)

def assign (target value : Doc) : Doc :=
  target ++ .text " = " ++ value

/-- Lua has no conditional expression: `and`/`or` stand for it where the consequent is truthy,
and a function that is called at once everywhere else. -/
def conditional (dialect : Dialect) (truthy : Bool) (test consequent alternative : Doc) : Doc :=
  match dialect with
  | .lua =>
    if truthy then test ++ .text " and " ++ consequent ++ .text " or " ++ alternative
    else
      .text "(function() if " ++ test ++ .text " then return " ++ consequent ++
        .text " else return " ++ alternative ++ .text " end end)()"
  | _ => test ++ .text " ? " ++ consequent ++ .text " : " ++ alternative

def arguments (args : List Doc) : Doc :=
  parens (.sepBy ", " args)

/-- On Lua a type is called with a dot and an instance with a colon. -/
def receiver (dialect : Dialect) (isType : Bool) (object : Doc) : Doc :=
  object ++ .text (if dialect = .lua && !isType then ":" else ".")

def call (receiver : Option Doc) (method : String) (args : List Doc) : Doc :=
  receiver.getD .empty ++ .text method ++ arguments args

def reference (dialect : Dialect) (ty : ClassType) : Doc :=
  match dialect with
  | .plain => .text ty.name
  | _ => .reference ty

/-- Only importable classes are referred to; any other type is written by its name. -/
def typeName (dialect : Dialect) (ty : TypeInfo) : Doc :=
  match ty.classType? with
  | some raw => if raw.isImportable then reference dialect raw else .text ty.name
  | none => .text ty.name

def construct (dialect : Dialect) (ty : TypeInfo) (args : List Doc) : Doc :=
  match dialect with
  | .lua => typeName .lua ty ++ .text ".new" ++ arguments args
  | _ => .text "new " ++ typeName dialect ty ++ arguments args

def names (params : List Param) : String :=
  ", ".intercalate (params.map (·.name))

/-- A body between an opening line and the closing text, one level deeper. -/
def enclosed (opening : String) (body : Doc) (closing : String) : Doc :=
  .text (opening ++ "\n") ++ .nest body ++ .text closing

/-- An expression body ends its line; a block has ended it already. -/
def bodyLine (body : LambdaBody) (doc : Doc) : Doc :=
  match body with
  | .expr _ => doc ++ .text "\n"
  | .block _ => doc

def closure (params : List Param) (body : LambdaBody) (doc : Doc) : Doc :=
  enclosed (brace ++ (if params.isEmpty then "" else " ") ++ names params ++ " ->")
    (bodyLine body doc) unbrace

/-- A Lua function returns the value of an expression body, unless it is a statement there. -/
def functionBody (body : LambdaBody) (doc : Doc) : Doc :=
  match body with
  | .expr value => bodyLine body (if value.isLuaStatement then doc else .text "return " ++ doc)
  | .block _ => doc

def lambda (dialect : Dialect) (params : List Param) (body : LambdaBody) (doc : Doc) : Doc :=
  match dialect with
  | .plain =>
    .text ("(" ++ names params ++ ") -> ") ++
      match body with
      | .expr _ => doc
      | .block _ => enclosed brace doc unbrace
  | .groovy => closure params body doc
  | .lua => enclosed ("function(" ++ names params ++ ")") (functionBody body doc) "end"

def enumConstant (dialect : Dialect) (ty : ClassType) (constant : String) : Doc :=
  reference dialect ty ++ .text ("." ++ constant)

/-- The rows of a container, each on its own line, separated but not ended by `separator`. -/
def rows (separator : String) : List Doc → Doc
  | [] => .empty
  | [row] => row ++ .text "\n"
  | row :: rest => row ++ .text (separator ++ "\n") ++ rows separator rest

def array (containers : Containers) (values : List Doc) : Doc :=
  if values.isEmpty then .text containers.emptyArray
  else
    .text (containers.arrayOpen ++ "\n") ++ .nest (rows containers.separator values) ++
      .text containers.arrayClose

def object (containers : Containers) (members : List Doc) : Doc :=
  if members.isEmpty then .text containers.emptyObject
  else
    .text (containers.objectOpen ++ "\n") ++ .nest (rows containers.separator members) ++
      .text containers.objectClose

/-- With `unquote` a string literal is written bare as a key. -/
def key (dialect : Dialect) (unquote : Bool) (name : Expr) (doc : Doc) : Doc :=
  match unquote, name.stringKey? with
  | true, some key => .text key
  | _, _ =>
    match dialect with
    | .lua => .text "[" ++ doc ++ .text "]"
    | _ => doc

def entry (containers : Containers) (key value : Doc) : Doc :=
  key ++ .text containers.keySeparator ++ value

def jsonObject (dialect : Dialect) (members : List Doc) : Doc :=
  match dialect with
  | .plain => .unsupported .jsonObjectLiteral
  | .groovy => object .groovy members
  | .lua => object .lua members

def jsonArray (dialect : Dialect) (values : List Doc) : Doc :=
  match dialect with
  | .plain => .unsupported .jsonArrayLiteral
  | .groovy => array .groovy values
  | .lua => array .lua values

def dataObject (dialect : Dialect) (members : List Doc) : Doc :=
  match dialect with
  | .plain => .unsupported .dataObjectLiteral
  | .groovy => object .groovy members
  | .lua => object .lua members

def index (map key : Doc) : Doc :=
  map ++ .text "[" ++ key ++ .text "]"

def mapGet (dialect : Dialect) (map key : Doc) : Doc :=
  match dialect with
  | .plain => map ++ .text ".get(" ++ key ++ .text ")"
  | _ => index map key

/-- A place inside a JSON object: Groovy writes a literal key as a member. -/
def jsonPlace (dialect : Dialect) (object : Doc) (name : Expr) (key : Doc) : Doc :=
  match dialect, name.stringKey? with
  | .groovy, some key => member object key
  | _, _ => index object key

def jsonMember (dialect : Dialect) (object : Doc) (name : Expr) (key : Doc) : Doc :=
  match dialect with
  | .plain => .unsupported .jsonObjectMemberAccess
  | dialect => jsonPlace dialect object name key

def jsonAssign (dialect : Dialect) (object : Doc) (name : Expr) (key value : Doc) : Doc :=
  match dialect with
  | .plain => .unsupported .jsonObjectAssignment
  | dialect => assign (jsonPlace dialect object name key) value

def jsonText (dialect : Dialect) (value : Doc) : Doc :=
  match dialect with
  | .plain => value ++ .text ".encode()"
  | .groovy => value ++ .text ".toString()"
  | .lua => .text "tostring(" ++ value ++ .text ")"

def mapForEach (dialect : Dialect) (map : Doc) (key value : Param) (body : LambdaBody)
    (doc : Doc) : Doc :=
  match dialect with
  | .plain => .unsupported .mapIteration
  | .groovy => map ++ .text ".each " ++ closure [key, value] body doc
  | .lua =>
    .text ("for " ++ key.name ++ ", " ++ value.name ++ " in pairs(") ++ map ++
      enclosed ") do" (bodyLine body doc) "end"

def methodReference (dialect : Dialect) (receiver : Doc) (method : String) : Doc :=
  match dialect with
  | .plain => receiver ++ .text ("::" ++ method)
  | .groovy => receiver ++ .text (".&" ++ method)
  | .lua =>
    .text "function(...) return " ++ receiver ++ .text (":" ++ method ++ "(...) end")

def console (dialect : Dialect) (message : Doc) : Doc :=
  let function :=
    match dialect with
    | .plain => "System.out.println"
    | .groovy => "println"
    | .lua => "print"
  .text function ++ parens message

/-- A statement on a line of its own. -/
def line (stmt : Doc) : Doc :=
  stmt ++ .freshLine

/-- The body of a compound statement; a block brings its own lines. -/
def body (stmt : Stmt) (doc : Doc) : Doc :=
  if stmt.isBlock then doc else line doc

def braced (body : Doc) : Doc :=
  enclosed (" " ++ brace) body unbrace

def declare (dialect : Dialect) (ty : TypeInfo) (name : String) (init : Option Doc) : Doc :=
  let left :=
    match dialect with
    | .plain => typeName .plain ty ++ .text (" " ++ name)
    | .groovy => .text ("def " ++ name)
    | .lua => .text ("local " ++ name)
  match init with
  | some init => assign left init
  | none => left

/-- A Lua loop with an initial statement: a block around a `while`, the update at its end. -/
def forLoop (dialect : Dialect) (init test update body : Doc) : Doc :=
  match dialect with
  | .lua =>
    enclosed "do"
      (line init ++ .text "while " ++ test ++
        enclosed " do" (body ++ update ++ .text "\n") "end\n")
      "end"
  | _ =>
    .text "for (" ++ init ++ .text "; " ++ test ++ .text "; " ++ update ++ .text ")" ++
      braced body

/-- The sign of a step by one. -/
def stepSign? : UnaryOp → Option String
  | .preIncrement | .postIncrement => some "+"
  | .preDecrement | .postDecrement => some "-"
  | _ => none

/-- An operator that updates a loop; on Lua a step becomes an assignment. -/
def update (dialect : Dialect) (op : UnaryOp) (operand : Doc) : Doc :=
  match dialect, stepSign? op with
  | .lua, some sign => assign operand (operand ++ .text (" " ++ sign ++ " 1"))
  | dialect, _ => unary dialect op operand

def forEach (dialect : Dialect) (name : String) (iterable body : Doc) : Doc :=
  match dialect with
  | .plain => .text ("for (var " ++ name ++ " : ") ++ iterable ++ .text ")" ++ braced body
  | .groovy =>
    iterable ++ enclosed (".each " ++ brace ++ " " ++ name ++ " ->") body unbrace
  | .lua => .text ("for _, " ++ name ++ " in ipairs(") ++ iterable ++ enclosed ") do" body "end"

/-- The part of an if statement after its first body. A further if statement continues the
chain, and on Lua it brings the `end` of the whole chain. -/
def otherwise (dialect : Dialect) (alternative : Option (Stmt × Doc)) : Doc :=
  match dialect, alternative with
  | .lua, none => .text "end"
  | .lua, some (stmt, doc) =>
    if stmt.isIfElse then .text "else" ++ doc else enclosed "else" (body stmt doc) "end"
  | _, none => .empty
  | _, some (stmt, doc) =>
    if stmt.isIfElse then .text " else " ++ doc else .text " else" ++ braced (body stmt doc)

def ifElse (dialect : Dialect) (test consequent : Doc) (alternative : Option (Stmt × Doc)) :
    Doc :=
  match dialect with
  | .lua =>
    .text "if " ++ test ++ .text " then\n" ++ .nest consequent ++ otherwise .lua alternative
  | dialect =>
    .text "if (" ++ test ++ .text ")" ++ braced consequent ++ otherwise dialect alternative

def whileLoop (dialect : Dialect) (test body : Doc) : Doc :=
  match dialect with
  | .lua => .text "while " ++ test ++ enclosed " do" body "end"
  | _ => .text "while (" ++ test ++ .text ")" ++ braced body

def throwNew (dialect : Dialect) (exception : String) (reason : Option Doc) : Doc :=
  match dialect with
  | .lua => .text "error" ++ parens (reason.getD (.quoted (Text.escape exception)))
  | _ => .text ("throw new " ++ exception) ++ parens (reason.getD .empty)

def returnWith (value : Option Doc) : Doc :=
  match value with
  | some value => .text "return " ++ value
  | none => .text "return"

def continueLoop (dialect : Dialect) : Doc :=
  match dialect with
  | .lua => .unsupported .continueStatement
  | _ => .text "continue"

end Phrase

end Polyglot
