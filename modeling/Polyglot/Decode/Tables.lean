import Polyglot.Decode.Shape
import Polyglot.Tree.DataObject

/-! The shapes of all parts of the tree. -/

namespace Polyglot.Decode

namespace Kind

abbrev expr : Kind := .named .expr

abbrev exprs : Kind := .list .expr

abbrev stmt : Kind := .named .stmt

abbrev classType : Kind := .named .classType

abbrev typeInfo : Kind := .named .typeInfo

abbrev param : Kind := .named .param

abbrev body : Kind := .named .lambdaBody

abbrev members : Kind := .list (.named .member)

end Kind

def classKindVariants : List (String × Payload ClassKind) :=
  [("Api", .constant .api),
    ("Enum", .constant .enumeration),
    ("DataObject", .constant .dataObject),
    ("JsonObject", .constant .jsonObject),
    ("JsonArray", .constant .jsonArray),
    ("Other", .constant .other)]

def typeInfoVariants : List (String × Payload TypeInfo) :=
  [("Void", .constant .void),
    ("Primitive", .single .text .primitive),
    ("Class", .single .classType .ofClass),
    ("Parameterized", .tuple [⟨"raw", .classType⟩, ⟨"args", .list .typeInfo⟩]
      fun (raw, args, ()) => .generic raw args)]

def literalVariants : List (String × Payload Literal) :=
  [("Int", .single .text .int),
    ("Long", .single .text .long),
    ("Float", .single .text .float),
    ("Double", .single .text .double),
    ("Char", .single .letter .char),
    ("Str", .single .text .string),
    ("Bool", .single .flag .bool),
    ("Null", .constant .null)]

def binaryOpVariants : List (String × Payload BinaryOp) :=
  [("Add", .constant .add), ("Sub", .constant .sub), ("Mul", .constant .mul),
    ("Div", .constant .div), ("Rem", .constant .rem), ("Eq", .constant .eq),
    ("Ne", .constant .ne), ("Lt", .constant .lt), ("Le", .constant .le),
    ("Gt", .constant .gt), ("Ge", .constant .ge), ("And", .constant .and),
    ("Or", .constant .or), ("BitAnd", .constant .bitAnd), ("BitOr", .constant .bitOr),
    ("Xor", .constant .xor), ("Shl", .constant .shl), ("Shr", .constant .shr)]

def unaryOpVariants : List (String × Payload UnaryOp) :=
  [("Neg", .constant .neg), ("Not", .constant .not), ("Complement", .constant .complement),
    ("PreIncrement", .constant .preIncrement), ("PreDecrement", .constant .preDecrement),
    ("PostIncrement", .constant .postIncrement), ("PostDecrement", .constant .postDecrement)]

def lambdaBodyVariants : List (String × Payload LambdaBody) :=
  [("Expr", .single .expr .expr),
    ("Block", .single (.list .stmt) .block)]

def memberValueVariants : List (String × Payload (Expr ⊕ List Expr)) :=
  [("Single", .single .expr .inl),
    ("Array", .single .exprs .inr)]

def exprVariants : List (String × Payload Expr) :=
  [("Literal", .single (.named .literal) .literal),
    ("Binary", .structure "struct Binary"
      [⟨"left", .expr⟩, ⟨"op", .named .binaryOp⟩, ⟨"right", .expr⟩, ⟨"string_concat", .flag⟩]
      fun (left, op, right, concat, ()) => .binary left op right concat),
    ("Unary", .tuple [⟨"op", .named .unaryOp⟩, ⟨"operand", .expr⟩]
      fun (op, operand, ()) => .unary op operand),
    ("Parens", .single .expr .parens),
    ("Ident", .single .text .ident),
    ("This", .constant .this),
    ("MemberSelect", .tuple [⟨"object", .expr⟩, ⟨"name", .text⟩]
      fun (object, name, ()) => .member object name),
    ("Assign", .tuple [⟨"target", .expr⟩, ⟨"value", .expr⟩]
      fun (target, value, ()) => .assign target value),
    ("Conditional", .tuple [⟨"test", .expr⟩, ⟨"then", .expr⟩, ⟨"otherwise", .expr⟩]
      fun (test, consequent, alternative, ()) => .conditional test consequent alternative),
    ("MethodCall", .tuple [⟨"receiver", .optional .expr⟩, ⟨"method", .text⟩, ⟨"args", .exprs⟩]
      fun (receiver, method, args, ()) => .call receiver method args),
    ("New", .tuple [⟨"ty", .typeInfo⟩, ⟨"args", .exprs⟩]
      fun (ty, args, ()) => .construct ty args),
    ("Lambda", .structure "struct Lambda" [⟨"params", .list .param⟩, ⟨"body", .body⟩]
      fun (params, body, ()) => .lambda params body),
    ("EnumConstant", .tuple [⟨"ty", .classType⟩, ⟨"constant", .text⟩]
      fun (ty, constant, ()) => .enumConstant ty constant),
    ("ApiType", .single .classType .apiType),
    ("JsonObject", .single .members .jsonObject),
    ("JsonArray", .single .exprs .jsonArray),
    ("DataObject", .single (.named .dataObject) DataObject.expr),
    ("DataObjectValue", .single .expr (.valueOf .dataObject)),
    ("JsonObjectValue", .single .expr (.valueOf .jsonObject)),
    ("JsonArrayValue", .single .expr (.valueOf .jsonArray)),
    ("DataObjectAssign", .tuple [⟨"object", .expr⟩, ⟨"name", .text⟩, ⟨"value", .expr⟩]
      fun (object, name, value, ()) => .dataAssign object name value),
    ("DataObjectMemberSelect", .tuple [⟨"object", .expr⟩, ⟨"name", .text⟩]
      fun (object, name, ()) => .dataMember object name),
    ("JsonObjectAssign", .tuple [⟨"object", .expr⟩, ⟨"name", .expr⟩, ⟨"value", .expr⟩]
      fun (object, name, value, ()) => .jsonAssign object name value),
    ("JsonObjectMemberSelect", .tuple [⟨"object", .expr⟩, ⟨"name", .expr⟩]
      fun (object, name, ()) => .jsonMember object name),
    ("JsonObjectToString", .single .expr .jsonObjectText),
    ("JsonArrayToString", .single .expr .jsonArrayText),
    ("MapGet", .tuple [⟨"map", .expr⟩, ⟨"key", .expr⟩]
      fun (map, key, ()) => .mapGet map key),
    ("MapForEach", .structure "struct MapForEach"
      [⟨"map", .expr⟩, ⟨"key", .param⟩, ⟨"value", .param⟩, ⟨"body", .body⟩]
      fun (map, key, value, body, ()) => .mapForEach map key value body),
    ("MethodReference", .tuple [⟨"receiver", .expr⟩, ⟨"method", .text⟩]
      fun (receiver, method, ()) => .methodReference receiver method),
    ("Console", .single .expr .console),
    ("AsyncResult", .single .text .asyncResult)]

def stmtVariants : List (String × Payload Stmt) :=
  [("Block", .single (.list .stmt) .block),
    ("VarDecl", .tuple [⟨"ty", .typeInfo⟩, ⟨"name", .text⟩, ⟨"init", .optional .expr⟩]
      fun (ty, name, init, ()) => .declare ty name init),
    ("Expr", .single .expr .expr),
    ("For", .tuple [⟨"init", .stmt⟩, ⟨"test", .expr⟩, ⟨"update", .expr⟩, ⟨"body", .stmt⟩]
      fun (init, test, update, body, ()) => .forLoop init test update body),
    ("ForEach", .tuple [⟨"variable", .text⟩, ⟨"iterable", .expr⟩, ⟨"body", .stmt⟩]
      fun (name, iterable, body, ()) => .forEach name iterable body),
    ("Throw", .tuple [⟨"exception", .text⟩, ⟨"reason", .optional .expr⟩]
      fun (exception, reason, ()) => .throwNew exception reason),
    ("Return", .single (.optional .expr) .returnWith),
    ("If", .tuple [⟨"test", .expr⟩, ⟨"then", .stmt⟩, ⟨"otherwise", .optional .stmt⟩]
      fun (test, consequent, alternative, ()) => .ifElse test consequent alternative),
    ("While", .tuple [⟨"test", .expr⟩, ⟨"body", .stmt⟩]
      fun (test, body, ()) => .whileLoop test body),
    ("Break", .constant .breakLoop),
    ("Continue", .constant .continueLoop)]

def Named.shape : (name : Named) → Shape name.Value
  | .classKind => .choice "ClassKind" classKindVariants
  | .classType => .record "struct ClassType"
      [⟨"kind", .named .classKind⟩, ⟨"name", .text⟩, ⟨"simple_name", .text⟩,
        ⟨"translations", .spellings⟩]
      fun (kind, name, simpleName, spellings, ()) => .ok ⟨kind, name, simpleName, spellings⟩
  | .typeInfo => .choice "TypeInfo" typeInfoVariants
  | .literal => .choice "Literal" literalVariants
  | .binaryOp => .choice "BinaryOp" binaryOpVariants
  | .unaryOp => .choice "UnaryOp" unaryOpVariants
  | .param => .record "struct Param" [⟨"name", .text⟩, ⟨"ty", .typeInfo⟩]
      fun (name, ty, ()) => .ok ⟨name, ty⟩
  | .lambdaBody => .choice "LambdaBody" lambdaBodyVariants
  | .member => .record "struct Member" [⟨"name", .expr⟩, ⟨"value", .named .memberValue⟩]
      fun (name, value, ()) =>
        .ok (match value with
          | .inl value => .single name value
          | .inr values => .array name values)
  | .memberValue => .choice "MemberValue" memberValueVariants
  | .dataObject => .record "struct RawDataObjectLiteral"
      [⟨"ty", .classType⟩, ⟨"members", .members⟩]
      fun (ty, members, ()) => (DataObject.ofMembers ty members).mapError .refused
  | .expr => .choice "Expr" exprVariants
  | .stmt => .choice "Stmt" stmtVariants
  | .program => .record "struct Program" [⟨"body", .list .stmt⟩]
      fun (body, ()) => .ok ⟨body⟩

end Polyglot.Decode
