import Polyglot.Phrase
import Polyglot.Proofs.Collect

/-! The marks of a document, and of each phrase in terms of its parts. Apart from the constructs
that a dialect has no notation for, a phrase has the marks of its parts, in the order in which
they are written. -/
namespace Polyglot

namespace Doc

def marks (doc : Doc) : List Mark :=
  doc.strokes.filterMap Stroke.mark?

/-- A document that is not there has no marks. -/
def marks? (doc : Option Doc) : List Mark :=
  doc.elim [] marks

@[simp] theorem marks?_none : marks? none = [] := rfl

@[simp] theorem marks?_some (doc : Doc) : marks? (some doc) = doc.marks := rfl

@[simp] theorem marks_empty : empty.marks = [] := rfl

@[simp] theorem marks_text (content : String) : (text content).marks = [] := rfl

@[simp] theorem marks_append (first second : Doc) :
    (first ++ second).marks = first.marks ++ second.marks := by
  simp [marks]

@[simp] theorem marks_nest (body : Doc) : (nest body).marks = body.marks := by
  simp [marks, strokes, List.filterMap_cons, Stroke.mark?]

@[simp] theorem marks_block (body : Doc) : (block body).marks = body.marks := rfl

@[simp] theorem marks_quoted (body : Doc) : (quoted body).marks = body.marks := by
  simp [marks, strokes, List.filterMap_cons, Stroke.mark?]

@[simp] theorem marks_reference (ty : ClassType) : (reference ty).marks = [.reference ty] := rfl

@[simp] theorem marks_freshLine : freshLine.marks = [] := rfl

@[simp] theorem marks_unsupported (construct : Construct) :
    (unsupported construct).marks = [.refusal construct] := rfl

@[simp] theorem marks_unquoted (doc : Doc) : doc.unquoted.marks = doc.marks := by
  cases doc with
  | quoted body => rw [unquoted, marks_quoted]
  | _ => rfl

@[simp] theorem marks_sepBy (separator : String) (docs : List Doc) :
    (sepBy separator docs).marks = docs.flatMap marks := by
  induction docs with
  | nil => rfl
  | cons doc rest ih =>
    cases rest with
    | nil => simp [sepBy]
    | cons next rest => simpa [sepBy] using ih

end Doc

/-- The class that a file imports to construct a value of the type. -/
def TypeInfo.imported? (ty : TypeInfo) : Option ClassType :=
  ty.classType?.filter (·.isImportable)

/-- Operators that change their operand by one. -/
def UnaryOp.isStep : UnaryOp → Bool
  | .preIncrement | .preDecrement | .postIncrement | .postDecrement => true
  | _ => false

namespace Phrase

variable (dialect : Dialect)

@[simp] theorem marks_literal (value : Literal) : (literal dialect value).marks = [] := by
  cases dialect <;> cases value <;> simp [literal]

@[simp] theorem marks_part (splice : Bool) (doc : Doc) : (part splice doc).marks = doc.marks := by
  cases splice <;> simp [part]

@[simp] theorem marks_infixed (left right : Doc) (operator : String) :
    (infixed left operator right).marks = left.marks ++ right.marks := by
  simp [infixed]

@[simp] theorem marks_binary (style : Style) (op : BinaryOp) (concat spliceLeft spliceRight : Bool)
    (left right : Doc) :
    (binary style op concat spliceLeft spliceRight left right).marks =
      left.marks ++ right.marks := by
  unfold binary
  cases style.dialect with
  | plain => simp
  | groovy => dsimp only; split_ifs <;> simp
  | lua => dsimp only; split_ifs <;> simp

@[simp] theorem marks_unary (op : UnaryOp) (operand : Doc) :
    (unary dialect op operand).marks =
      if dialect = .lua && op.isStep then [.refusal .stepOperator] else operand.marks := by
  cases dialect <;> cases op <;> simp [unary, UnaryOp.isStep]

@[simp] theorem marks_parens (inner : Doc) : (parens inner).marks = inner.marks := by
  simp [parens]

@[simp] theorem marks_this : (this dialect).marks = [] := rfl

@[simp] theorem marks_member (object : Doc) (name : String) :
    (member object name).marks = object.marks := by
  simp [member]

@[simp] theorem marks_assign (target value : Doc) :
    (assign target value).marks = target.marks ++ value.marks := by
  simp [assign]

@[simp] theorem marks_conditional (truthy : Bool) (test consequent alternative : Doc) :
    (conditional dialect truthy test consequent alternative).marks =
      test.marks ++ consequent.marks ++ alternative.marks := by
  cases dialect <;> cases truthy <;> simp [conditional]

@[simp] theorem marks_arguments (args : List Doc) :
    (arguments args).marks = args.flatMap Doc.marks := by
  simp [arguments]

@[simp] theorem marks_receiver (isType : Bool) (object : Doc) :
    (receiver dialect isType object).marks = object.marks := by
  simp [receiver]

@[simp] theorem marks_call (receiver : Option Doc) (method : String) (args : List Doc) :
    (call receiver method args).marks = Doc.marks? receiver ++ args.flatMap Doc.marks := by
  cases receiver <;> simp [call]

@[simp] theorem marks_reference (ty : ClassType) :
    (reference dialect ty).marks = if dialect = .plain then [] else [.reference ty] := by
  cases dialect <;> rfl

/-- The plain notation writes every type by its name. -/
@[simp] theorem marks_typeName (ty : TypeInfo) :
    (typeName dialect ty).marks =
      if dialect = .plain then [] else (ty.imported?.map Mark.reference).toList := by
  unfold typeName TypeInfo.imported?
  cases ty.classType? with
  | none => cases dialect <;> rfl
  | some raw =>
    cases h : raw.isImportable <;> cases dialect <;> simp [h, reference, Option.filter]

@[simp] theorem marks_construct (ty : TypeInfo) (args : List Doc) :
    (construct dialect ty args).marks =
      (typeName dialect ty).marks ++ args.flatMap Doc.marks := by
  cases dialect <;> simp [construct]

@[simp] theorem marks_enclosed (opening closing : String) (body : Doc) :
    (enclosed opening body closing).marks = body.marks := by
  simp [enclosed]

@[simp] theorem marks_bodyLine (body : LambdaBody) (doc : Doc) :
    (bodyLine body doc).marks = doc.marks := by
  cases body <;> simp [bodyLine]

@[simp] theorem marks_closure (params : List Param) (body : LambdaBody) (doc : Doc) :
    (closure params body doc).marks = doc.marks := by
  simp [closure]

@[simp] theorem marks_functionBody (body : LambdaBody) (doc : Doc) :
    (functionBody body doc).marks = doc.marks := by
  cases body with
  | expr value => cases h : value.isLuaStatement <;> simp [functionBody, h]
  | block stmts => rfl

@[simp] theorem marks_lambda (params : List Param) (body : LambdaBody) (doc : Doc) :
    (lambda dialect params body doc).marks = doc.marks := by
  cases dialect with
  | plain => cases body <;> simp [lambda]
  | groovy | lua => simp [lambda]

@[simp] theorem marks_enumConstant (ty : ClassType) (constant : String) :
    (enumConstant dialect ty constant).marks = (reference dialect ty).marks := by
  simp [enumConstant]

@[simp] theorem marks_rows (separator : String) (docs : List Doc) :
    (rows separator docs).marks = docs.flatMap Doc.marks := by
  induction docs with
  | nil => rfl
  | cons doc rest ih =>
    cases rest with
    | nil => simp [rows]
    | cons next rest => simpa [rows] using ih

@[simp] theorem marks_array (containers : Containers) (values : List Doc) :
    (array containers values).marks = values.flatMap Doc.marks := by
  cases values <;> simp [array]

@[simp] theorem marks_object (containers : Containers) (members : List Doc) :
    (object containers members).marks = members.flatMap Doc.marks := by
  cases members <;> simp [object]

/-- A key that is written bare has no marks to lose. -/
theorem marks_key (unquote : Bool) (name : Expr) (doc : Doc)
    (h : ∀ text, name.stringKey? = some text → doc.marks = []) :
    (key dialect unquote name doc).marks = doc.marks := by
  unfold key
  split
  · next text hk => rw [Doc.marks_text, h text hk]
  · cases dialect <;> simp

@[simp] theorem marks_entry (containers : Containers) (key value : Doc) :
    (entry containers key value).marks = key.marks ++ value.marks := by
  simp [entry]

@[simp] theorem marks_jsonObject (members : List Doc) :
    (jsonObject dialect members).marks =
      if dialect = .plain then [.refusal .jsonObjectLiteral] else members.flatMap Doc.marks := by
  cases dialect <;> simp [jsonObject]

@[simp] theorem marks_jsonArray (values : List Doc) :
    (jsonArray dialect values).marks =
      if dialect = .plain then [.refusal .jsonArrayLiteral] else values.flatMap Doc.marks := by
  cases dialect <;> simp [jsonArray]

@[simp] theorem marks_dataObject (members : List Doc) :
    (dataObject dialect members).marks =
      if dialect = .plain then [.refusal .dataObjectLiteral] else members.flatMap Doc.marks := by
  cases dialect <;> simp [dataObject]

@[simp] theorem marks_mapGet (map key : Doc) :
    (mapGet dialect map key).marks = map.marks ++ key.marks := by
  cases dialect <;> simp [mapGet, index]

theorem marks_jsonPlace (object : Doc) (name : Expr) (key : Doc)
    (h : ∀ text, name.stringKey? = some text → key.marks = []) :
    (jsonPlace dialect object name key).marks = object.marks ++ key.marks := by
  unfold jsonPlace
  split
  · next text hk => rw [marks_member, h text hk, List.append_nil]
  · simp [index]

theorem marks_jsonMember (object : Doc) (name : Expr) (key : Doc)
    (h : ∀ text, name.stringKey? = some text → key.marks = []) :
    (jsonMember dialect object name key).marks =
      if dialect = .plain then [.refusal .jsonObjectMemberAccess]
      else object.marks ++ key.marks := by
  cases dialect with
  | plain => rfl
  | groovy | lua => simp [jsonMember, marks_jsonPlace _ object name key h]

theorem marks_jsonAssign (object : Doc) (name : Expr) (key value : Doc)
    (h : ∀ text, name.stringKey? = some text → key.marks = []) :
    (jsonAssign dialect object name key value).marks =
      if dialect = .plain then [.refusal .jsonObjectAssignment]
      else object.marks ++ key.marks ++ value.marks := by
  cases dialect with
  | plain => rfl
  | groovy | lua => simp [jsonAssign, marks_jsonPlace _ object name key h]

@[simp] theorem marks_jsonText (value : Doc) : (jsonText dialect value).marks = value.marks := by
  cases dialect <;> simp [jsonText]

@[simp] theorem marks_mapForEach (map : Doc) (key value : Param) (body : LambdaBody) (doc : Doc) :
    (mapForEach dialect map key value body doc).marks =
      if dialect = .plain then [.refusal .mapIteration] else map.marks ++ doc.marks := by
  cases dialect <;> simp [mapForEach]

@[simp] theorem marks_methodReference (receiver : Doc) (method : String) :
    (methodReference dialect receiver method).marks = receiver.marks := by
  cases dialect <;> simp [methodReference]

@[simp] theorem marks_console (message : Doc) : (console dialect message).marks = message.marks := by
  simp [console]

@[simp] theorem marks_line (stmt : Doc) : (line stmt).marks = stmt.marks := by
  simp [line]

@[simp] theorem marks_body (stmt : Stmt) (doc : Doc) : (body stmt doc).marks = doc.marks := by
  cases h : stmt.isBlock <;> simp [body, h]

@[simp] theorem marks_braced (body : Doc) : (braced body).marks = body.marks := by
  simp [braced]

@[simp] theorem marks_declare (ty : TypeInfo) (name : String) (init : Option Doc) :
    (declare dialect ty name init).marks = Doc.marks? init := by
  cases dialect <;> cases init <;> simp [declare]

/-- Lua writes the update of a loop behind its body. -/
@[simp] theorem marks_forLoop (init test update body : Doc) :
    (forLoop dialect init test update body).marks =
      init.marks ++ test.marks ++
        if dialect = .lua then body.marks ++ update.marks else update.marks ++ body.marks := by
  cases dialect <;> simp [forLoop]

/-- On Lua the operand of a step is written on both sides of an assignment. -/
theorem marks_update (op : UnaryOp) (operand : Doc) :
    (update dialect op operand).marks =
      if dialect = .lua && op.isStep then operand.marks ++ operand.marks else operand.marks := by
  cases dialect <;> cases op <;> simp [update, stepSign?, UnaryOp.isStep]

@[simp] theorem marks_forEach (name : String) (iterable body : Doc) :
    (forEach dialect name iterable body).marks = iterable.marks ++ body.marks := by
  cases dialect <;> simp [forEach]

theorem marks_otherwise (alternative : Option (Stmt × Doc)) :
    (otherwise dialect alternative).marks = Doc.marks? (alternative.map Prod.snd) := by
  cases alternative with
  | none => cases dialect <;> rfl
  | some alternative =>
    obtain ⟨stmt, doc⟩ := alternative
    cases h : stmt.isIfElse <;> cases dialect <;> simp [otherwise, h]

@[simp] theorem marks_ifElse (test consequent : Doc) (alternative : Option (Stmt × Doc)) :
    (ifElse dialect test consequent alternative).marks =
      test.marks ++ consequent.marks ++ Doc.marks? (alternative.map Prod.snd) := by
  cases dialect <;> simp [ifElse, marks_otherwise]

@[simp] theorem marks_whileLoop (test body : Doc) :
    (whileLoop dialect test body).marks = test.marks ++ body.marks := by
  cases dialect <;> simp [whileLoop]

@[simp] theorem marks_throwNew (exception : String) (reason : Option Doc) :
    (throwNew dialect exception reason).marks = Doc.marks? reason := by
  cases dialect <;> cases reason <;> simp [throwNew]

@[simp] theorem marks_returnWith (value : Option Doc) :
    (returnWith value).marks = Doc.marks? value := by
  cases value <;> simp [returnWith]

@[simp] theorem marks_continueLoop :
    (continueLoop dialect).marks =
      if dialect = .lua then [.refusal .continueStatement] else [] := by
  cases dialect <;> rfl

end Phrase

end Polyglot
