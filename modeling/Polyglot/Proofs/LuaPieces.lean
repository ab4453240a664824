import Polyglot.Proofs.Rendering

/-! What is written for a place of a Lua program, as a flat row of strokes and of places inside it.
A place inside another one has what is written in front of it and behind it there. -/
namespace Polyglot

/-- The document of a place. -/
def Place.doc (style : Style) : Place → Doc
  | .expr value => value.doc style
  | .update value => value.updateDoc style
  | .stmt value => value.doc style

/-- The places inside a place, each in front of what is inside it. -/
def Place.inside (dialect : Dialect) : Place → List Place
  | .expr value | .update value => value.inside dialect
  | .stmt value => value.inside dialect

namespace Lua

/-- A stroke, or all the strokes of a place. -/
inductive Piece where
  | stroke (stroke : Stroke)
  | place (place : Place)

namespace Piece

def ink (doc : Doc) : List Piece :=
  doc.strokes.map stroke

def text (content : String) : List Piece :=
  [.stroke (.write content)]

def expr (value : Expr) : List Piece :=
  [.place (.expr value)]

def stmt (value : Stmt) : List Piece :=
  [.place (.stmt value)]

def nest (body : List Piece) : List Piece :=
  [.stroke .indent] ++ body ++ [.stroke .unindent]

def enclosed (opening : String) (body : List Piece) (closing : String) : List Piece :=
  text (opening ++ "\n") ++ nest body ++ text closing

def line (pieces : List Piece) : List Piece :=
  pieces ++ [.stroke .freshLine]

def lines (stmts : List Stmt) : List Piece :=
  stmts.flatMap fun value => line (stmt value)

/-- The body of a compound statement; a block brings its own lines. -/
def body (value : Stmt) : List Piece :=
  if value.isBlock then stmt value else line (stmt value)

def sepBy : List Expr → List Piece
  | [] => []
  | [value] => expr value
  | value :: rest => expr value ++ text ", " ++ sepBy rest

def parens (inner : List Piece) : List Piece :=
  text "(" ++ inner ++ text ")"

def rows : List (List Piece) → List Piece
  | [] => []
  | [row] => row ++ text "\n"
  | row :: rest => row ++ text ",\n" ++ rows rest

/-- A container, with each row on a line of its own. -/
def container (content : List (List Piece)) : List Piece :=
  if content.isEmpty then text "\x7b\x7d" else enclosed "\x7b" (rows content) "\x7d"

def array (values : List Expr) : List Piece :=
  container (values.map expr)

def index (map key : Expr) : List Piece :=
  expr map ++ text "[" ++ expr key ++ text "]"

def key (unquote : Bool) (name : Expr) : List Piece :=
  match unquote, name.stringKey? with
  | true, some content => text content
  | _, _ => text "[" ++ expr name ++ text "]"

def member (unquote : Bool) : Member → List Piece
  | .single name value => key unquote name ++ text "=" ++ expr value
  | .array name values => key unquote name ++ text "=" ++ array values

def bodyLine : LambdaBody → List Piece
  | .expr value => expr value ++ text "\n"
  | .block stmts => lines stmts

def functionBody : LambdaBody → List Piece
  | .expr value =>
    (if value.isLuaStatement then [] else text "return ") ++ expr value ++ text "\n"
  | .block stmts => lines stmts

def ofExpr : Expr → List Piece
  | .literal value => ink (Phrase.literal .lua value)
  | .binary left op right concat =>
    if concat then expr left ++ text " .. " ++ expr right
    else if op = .rem then text "math.fmod(" ++ expr left ++ text ", " ++ expr right ++ text ")"
    else expr left ++ text (" " ++ Dialect.operator .lua op ++ " ") ++ expr right
  | .unary .neg operand => text "-" ++ expr operand
  | .unary .not operand => text "not " ++ expr operand
  | .unary .complement operand => text "~" ++ expr operand
  | .unary _ _ => ink (.unsupported .stepOperator)
  | .parens inner => parens (expr inner)
  | .ident name | .asyncResult name => text name
  | .this => ink (Phrase.this .lua)
  | .member object name | .dataMember object name => expr object ++ text ("." ++ name)
  | .assign target value => expr target ++ text " = " ++ expr value
  | .conditional test consequent alternative =>
    if consequent.isTruthy then
      expr test ++ text " and " ++ expr consequent ++ text " or " ++ expr alternative
    else
      text "(function() if " ++ expr test ++ text " then return " ++ expr consequent ++
        text " else return " ++ expr alternative ++ text " end end)()"
  | .call none method args => text method ++ parens (sepBy args)
  | .call (some receiver) method args =>
    expr receiver ++ text (if receiver.isApiType then "." else ":") ++ text method ++
      parens (sepBy args)
  | .construct ty args => ink (Phrase.typeName .lua ty) ++ text ".new" ++ parens (sepBy args)
  | .lambda params body =>
    enclosed ("function(" ++ Phrase.names params ++ ")") (functionBody body) "end"
  | .enumConstant ty constant => ink (Phrase.enumConstant .lua ty constant)
  | .apiType ty => ink (Phrase.reference .lua ty)
  | .jsonObject members => container (members.map (member false))
  | .jsonArray values => array values
  | .dataObject _ members => container (members.map (member true))
  | .valueOf _ inner => expr inner
  | .dataAssign object name value => expr object ++ text ("." ++ name) ++ text " = " ++ expr value
  | .jsonAssign object name value => index object name ++ text " = " ++ expr value
  | .jsonMember object name | .mapGet object name => index object name
  | .jsonObjectText inner | .jsonArrayText inner => text "tostring(" ++ expr inner ++ text ")"
  | .mapForEach map key value body =>
    text ("for " ++ key.name ++ ", " ++ value.name ++ " in pairs(") ++ expr map ++
      enclosed ") do" (bodyLine body) "end"
  | .methodReference receiver method =>
    text "function(...) return " ++ expr receiver ++ text (":" ++ method ++ "(...) end")
  | .console message => text "print" ++ parens (expr message)

/-- The operand of a step stands on both sides of the assignment that it becomes. -/
def ofUpdate : Expr → List Piece
  | .unary op operand =>
    match Phrase.stepSign? op with
    | some sign => expr operand ++ text " = " ++ expr operand ++ text (" " ++ sign ++ " 1")
    | none => ofExpr (.unary op operand)
  | value => ofExpr value

def otherwise : Option Stmt → List Piece
  | none => text "end"
  | some alternative =>
    if alternative.isIfElse then text "else" ++ stmt alternative
    else enclosed "else" (body alternative) "end"

def ofStmt : Stmt → List Piece
  | .block stmts => lines stmts
  | .declare _ name none => text ("local " ++ name)
  | .declare _ name (some init) => text ("local " ++ name) ++ text " = " ++ expr init
  | .expr value => expr value
  | .forLoop init test update repeated =>
    enclosed "do"
      (line (stmt init) ++ text "while " ++ expr test ++
        enclosed " do" (body repeated ++ [.place (.update update)] ++ text "\n") "end\n")
      "end"
  | .forEach name iterable repeated =>
    text ("for _, " ++ name ++ " in ipairs(") ++ expr iterable ++
      enclosed ") do" (body repeated) "end"
  | .throwNew exception none => text "error" ++ parens (ink (.quoted (Text.escape exception)))
  | .throwNew _ (some reason) => text "error" ++ parens (expr reason)
  | .returnWith none => text "return"
  | .returnWith (some value) => text "return " ++ expr value
  | .ifElse test consequent alternative =>
    text "if " ++ expr test ++ text " then\n" ++ nest (body consequent) ++ otherwise alternative
  | .whileLoop test repeated => text "while " ++ expr test ++ enclosed " do" (body repeated) "end"
  | .breakLoop => text "break"
  | .continueLoop => ink (.unsupported .continueStatement)

def ofPlace : Place → List Piece
  | .expr value => ofExpr value
  | .update value => ofUpdate value
  | .stmt value => ofStmt value

section Strokes

variable (style : Style)

/-- The strokes of pieces one after the other. -/
def strokes (pieces : List Piece) : List Stroke :=
  pieces.flatMap fun
    | .stroke own => [own]
    | .place inner => (inner.doc style).strokes

@[simp] theorem strokes_nil : strokes style [] = [] := rfl

@[simp] theorem strokes_append (first second : List Piece) :
    strokes style (first ++ second) = strokes style first ++ strokes style second := by
  simp [strokes]

@[simp] theorem strokes_stroke (own : Stroke) (rest : List Piece) :
    strokes style (.stroke own :: rest) = own :: strokes style rest := rfl

@[simp] theorem strokes_place (inner : Place) (rest : List Piece) :
    strokes style (.place inner :: rest) = (inner.doc style).strokes ++ strokes style rest := rfl

@[simp] theorem strokes_ink (doc : Doc) : strokes style (ink doc) = doc.strokes := by
  simp [strokes, ink, List.flatMap_map]

@[simp] theorem strokes_text (content : String) :
    strokes style (text content) = [.write content] := rfl

@[simp] theorem strokes_expr (value : Expr) :
    strokes style (expr value) = (value.doc style).strokes := by
  simp [expr, Place.doc]

@[simp] theorem strokes_stmt (value : Stmt) :
    strokes style (stmt value) = (value.doc style).strokes := by
  simp [stmt, Place.doc]

@[simp] theorem strokes_nest (pieces : List Piece) :
    strokes style (nest pieces) = .indent :: strokes style pieces ++ [.unindent] := by
  simp [nest]

/-- The pieces between an opening line and a closing text have the strokes of a document. -/
theorem strokes_enclosed {pieces : List Piece} {doc : Doc} (h : strokes style pieces = doc.strokes)
    (opening closing : String) : strokes style (enclosed opening pieces closing) =
      (Phrase.enclosed opening doc closing).strokes := by
  simp [enclosed, Phrase.enclosed, Doc.strokes, h]

theorem strokes_lines (stmts : List Stmt) :
    strokes style (lines stmts) = (Stmt.lines style stmts).strokes := by
  induction stmts with
  | nil => rfl
  | cons value rest ih =>
    have hl : strokes style (lines (value :: rest)) =
        (value.doc style).strokes ++ [.freshLine] ++ strokes style (lines rest) := by
      simp [lines, line]
    rw [hl, ih]
    rfl

theorem strokes_body (value : Stmt) :
    strokes style (body value) = (Phrase.body value (value.doc style)).strokes := by
  unfold body Phrase.body
  split_ifs
  · exact strokes_stmt style value
  · simp [line, Phrase.line, Doc.strokes]

theorem strokes_sepBy (values : List Expr) :
    strokes style (sepBy values) = (Doc.sepBy ", " (Expr.docs style values)).strokes := by
  induction values with
  | nil => rfl
  | cons value rest ih =>
    cases rest with
    | nil => exact strokes_expr style value
    | cons next rest =>
      have hs : strokes style (sepBy (value :: next :: rest)) =
          (value.doc style).strokes ++ [.write ", "] ++ strokes style (sepBy (next :: rest)) := by
        simp [sepBy]
      rw [hs, ih, List.append_assoc]
      rfl

theorem strokes_parens {pieces : List Piece} {doc : Doc}
    (h : strokes style pieces = doc.strokes) :
    strokes style (parens pieces) = (Phrase.parens doc).strokes := by
  simp [parens, Phrase.parens, Doc.strokes, h]

/-- Rows of pieces against rows of documents. -/
theorem strokes_rows {content : List (List Piece)} {docs : List Doc}
    (h : content.map (strokes style) = docs.map Doc.strokes) :
    strokes style (rows content) = (Phrase.rows "," docs).strokes := by
  induction content generalizing docs with
  | nil =>
    obtain rfl : docs = [] := by simpa using h.symm
    rfl
  | cons row rest ih =>
    cases docs with
    | nil => simp at h
    | cons doc docs =>
      obtain ⟨hd, hr⟩ := List.cons.inj h
      cases rest with
      | nil =>
        obtain rfl : docs = [] := by simpa using hr.symm
        simpa [rows, Phrase.rows, Doc.strokes] using hd
      | cons next rest =>
        cases docs with
        | nil => simp at hr
        | cons other docs =>
          have hs : strokes style (rows (row :: next :: rest)) =
              doc.strokes ++ [.write ",\n"] ++ strokes style (rows (next :: rest)) := by
            simpa [rows] using hd
          rw [hs, ih hr]
          rfl

theorem strokes_container {content : List (List Piece)} {docs : List Doc}
    (h : content.map (strokes style) = docs.map Doc.strokes) :
    strokes style (container content) = (Phrase.array .lua docs).strokes := by
  cases content with
  | nil =>
    obtain rfl : docs = [] := by simpa using h.symm
    rfl
  | cons row rest =>
    cases docs with
    | nil => simp at h
    | cons doc docs => exact strokes_enclosed style (strokes_rows style h) "\x7b" "\x7d"

theorem map_strokes_expr (values : List Expr) :
    (values.map expr).map (strokes style) = (Expr.docs style values).map Doc.strokes := by
  induction values with
  | nil => rfl
  | cons value rest ih => simp [Expr.docs, ih]

theorem strokes_array (values : List Expr) :
    strokes style (array values) = (Phrase.array .lua (Expr.docs style values)).strokes :=
  strokes_container style (map_strokes_expr style values)

theorem strokes_key (unquote : Bool) (name : Expr) :
    strokes style (key unquote name) =
      (Phrase.key .lua unquote name (name.doc style)).strokes := by
  unfold key Phrase.key
  cases unquote <;> cases name.stringKey? <;> simp [Doc.strokes]

end Strokes

section Places

variable (interpolate : Bool)

theorem strokes_member (unquote : Bool) (value : Member) :
    strokes ⟨.lua, interpolate⟩ (member unquote value) =
      (value.doc ⟨.lua, interpolate⟩ unquote .lua).strokes := by
  cases value with
  | single name value =>
    simp [member, Member.doc, Phrase.entry, Doc.strokes, strokes_key, Containers.lua]
  | array name values =>
    simp [member, Member.doc, Phrase.entry, Doc.strokes, strokes_key, strokes_array, Containers.lua]

theorem strokes_members (unquote : Bool) (values : List Member) :
    strokes ⟨.lua, interpolate⟩ (container (values.map (member unquote))) =
      (Phrase.object .lua (Member.docs ⟨.lua, interpolate⟩ unquote .lua values)).strokes := by
  have hm : (values.map (member unquote)).map (strokes ⟨.lua, interpolate⟩) =
      (Member.docs ⟨.lua, interpolate⟩ unquote .lua values).map Doc.strokes := by
    induction values with
    | nil => rfl
    | cons value rest ih => simpa [Member.docs, strokes_member] using ih
  exact strokes_container _ hm

theorem strokes_bodyLine (value : LambdaBody) :
    strokes ⟨.lua, interpolate⟩ (bodyLine value) =
      (Phrase.bodyLine value (value.doc ⟨.lua, interpolate⟩)).strokes := by
  cases value with
  | expr value => simp [bodyLine, Phrase.bodyLine, LambdaBody.doc, Doc.strokes]
  | block stmts => exact strokes_lines _ stmts

theorem strokes_functionBody (value : LambdaBody) :
    strokes ⟨.lua, interpolate⟩ (functionBody value) =
      (Phrase.functionBody value (value.doc ⟨.lua, interpolate⟩)).strokes := by
  cases value with
  | expr value =>
    simp only [functionBody, Phrase.functionBody, Phrase.bodyLine, LambdaBody.doc]
    split_ifs <;> simp [Doc.strokes]
  | block stmts => exact strokes_lines _ stmts

theorem strokes_ofExpr (value : Expr) :
    strokes ⟨.lua, interpolate⟩ (ofExpr value) = (value.doc ⟨.lua, interpolate⟩).strokes := by
  cases value with
  | literal value => simp [ofExpr, Expr.doc]
  | binary left op right concat =>
    simp only [ofExpr, Expr.doc, Phrase.binary, Phrase.infixed]
    split_ifs <;> simp [Doc.strokes]
  | unary op operand => cases op <;> simp [ofExpr, Expr.doc, Phrase.unary, Doc.strokes]
  | parens inner => exact strokes_parens _ (strokes_expr _ inner)
  | ident name => rfl
  | this => simp [ofExpr, Expr.doc]
  | member object name | dataMember object name =>
    simp [ofExpr, Expr.doc, Phrase.member, Doc.strokes]
  | assign target value => simp [ofExpr, Expr.doc, Phrase.assign, Doc.strokes]
  | conditional test consequent alternative =>
    simp only [ofExpr, Expr.doc, Phrase.conditional]
    split_ifs <;> simp [Doc.strokes]
  | call receiver method args =>
    have ha := strokes_parens ⟨.lua, interpolate⟩ (strokes_sepBy _ args)
    cases receiver with
    | none => simp [ofExpr, Expr.doc, Phrase.call, Phrase.arguments, Doc.strokes, ha]
    | some receiver =>
      cases hr : receiver.isApiType <;>
        simp [ofExpr, Expr.doc, Phrase.call, Phrase.arguments, Phrase.receiver, Doc.strokes, ha, hr]
  | construct ty args =>
    have ha := strokes_parens ⟨.lua, interpolate⟩ (strokes_sepBy _ args)
    simp [ofExpr, Expr.doc, Phrase.construct, Phrase.arguments, Doc.strokes, ha]
  | lambda params body => exact strokes_enclosed _ (strokes_functionBody interpolate body) _ _
  | enumConstant ty constant => simp [ofExpr, Expr.doc]
  | apiType ty => simp [ofExpr, Expr.doc]
  | jsonObject members => exact strokes_members interpolate false members
  | jsonArray values => exact strokes_array _ values
  | dataObject ty members => exact strokes_members interpolate true members
  | valueOf kind inner => simp [ofExpr, Expr.doc]
  | dataAssign object name value =>
    simp [ofExpr, Expr.doc, Phrase.assign, Phrase.member, Doc.strokes]
  | jsonAssign object name value =>
    simp [ofExpr, Expr.doc, Phrase.jsonAssign, Phrase.jsonPlace, Phrase.assign, index, Phrase.index,
      Doc.strokes]
  | jsonMember object name =>
    simp [ofExpr, Expr.doc, Phrase.jsonMember, Phrase.jsonPlace, index, Phrase.index, Doc.strokes]
  | mapGet map key => simp [ofExpr, Expr.doc, Phrase.mapGet, index, Phrase.index, Doc.strokes]
  | jsonObjectText inner | jsonArrayText inner =>
    simp [ofExpr, Expr.doc, Phrase.jsonText, Doc.strokes]
  | mapForEach map key value body =>
    have hb := strokes_enclosed _ (strokes_bodyLine interpolate body) ") do" "end"
    simp [ofExpr, Expr.doc, Phrase.mapForEach, Doc.strokes, hb]
  | methodReference receiver method =>
    simp [ofExpr, Expr.doc, Phrase.methodReference, Doc.strokes]
  | console message =>
    have hm := strokes_parens ⟨.lua, interpolate⟩ (strokes_expr _ message)
    simp [ofExpr, Expr.doc, Phrase.console, Doc.strokes, hm]
  | asyncResult name => rfl

theorem strokes_ofUpdate (value : Expr) :
    strokes ⟨.lua, interpolate⟩ (ofUpdate value) =
      (value.updateDoc ⟨.lua, interpolate⟩).strokes := by
  have he := strokes_ofExpr interpolate value
  cases value with
  | unary op operand =>
    cases op with
    | neg | not | complement => exact he
    | preIncrement | preDecrement | postIncrement | postDecrement =>
      simp [ofUpdate, Phrase.stepSign?, Expr.updateDoc, Phrase.update, Phrase.assign, Doc.strokes]
  | _ => exact he

theorem strokes_otherwise (alternative : Option Stmt) :
    strokes ⟨.lua, interpolate⟩ (otherwise alternative) =
      (Phrase.otherwise .lua (alternative.map fun stmt =>
        (stmt, stmt.doc ⟨.lua, interpolate⟩))).strokes := by
  cases alternative with
  | none => rfl
  | some alternative =>
    simp only [otherwise, Phrase.otherwise, Option.map_some]
    split_ifs
    · simp [Doc.strokes]
    · exact strokes_enclosed _ (strokes_body _ alternative) _ _

theorem strokes_ofStmt (value : Stmt) :
    strokes ⟨.lua, interpolate⟩ (ofStmt value) = (value.doc ⟨.lua, interpolate⟩).strokes := by
  cases value with
  | block stmts => exact strokes_lines _ stmts
  | declare ty name init =>
    cases init <;> simp [ofStmt, Stmt.doc, Expr.doc?, Phrase.declare, Phrase.assign, Doc.strokes]
  | expr value => simp [ofStmt, Stmt.doc]
  | forLoop init test update repeated =>
    rw [Stmt.doc_forLoop]
    refine strokes_enclosed _ ?_ _ _
    have hr : strokes ⟨.lua, interpolate⟩
        (body repeated ++ [.place (.update update)] ++ text "\n") =
        (Phrase.body repeated (repeated.doc ⟨.lua, interpolate⟩) ++
          update.updateDoc ⟨.lua, interpolate⟩ ++ .text "\n").strokes := by
      simp [strokes_body, Place.doc, Doc.strokes]
    have hb := strokes_enclosed _ hr " do" "end\n"
    rw [strokes_append, hb]
    simp [line, Phrase.line, Doc.strokes]
  | forEach name iterable repeated =>
    have hb := strokes_enclosed _ (strokes_body ⟨.lua, interpolate⟩ repeated) ") do" "end"
    simp [ofStmt, Stmt.doc, Phrase.forEach, Doc.strokes, hb]
  | throwNew exception reason =>
    cases reason with
    | none => rfl
    | some reason =>
      have hr := strokes_parens ⟨.lua, interpolate⟩ (strokes_expr _ reason)
      simp [ofStmt, Stmt.doc, Expr.doc?, Phrase.throwNew, Doc.strokes, hr]
  | returnWith value =>
    cases value <;> simp [ofStmt, Stmt.doc, Expr.doc?, Phrase.returnWith, Doc.strokes]
  | ifElse test consequent alternative =>
    have ho := strokes_otherwise interpolate alternative
    cases alternative <;>
      simpa [ofStmt, Stmt.doc, Phrase.ifElse, Doc.strokes, strokes_body] using ho
  | whileLoop test repeated =>
    have hb := strokes_enclosed _ (strokes_body ⟨.lua, interpolate⟩ repeated) " do" "end"
    simp [ofStmt, Stmt.doc, Phrase.whileLoop, Doc.strokes, hb]
  | breakLoop => rfl
  | continueLoop => rfl

/-- The strokes of a place are those of its pieces. -/
theorem strokes_ofPlace {style : Style} (h : style.dialect = .lua) (value : Place) :
    strokes style (ofPlace value) = (value.doc style).strokes := by
  obtain ⟨dialect, interpolate⟩ := style
  cases h
  cases value with
  | expr value => exact strokes_ofExpr interpolate value
  | update value => exact strokes_ofUpdate interpolate value
  | stmt value => exact strokes_ofStmt interpolate value

end Places

section Inside

/-- All places among the pieces have a property, with all places inside them. -/
def Everywhere (holds : Place → Prop) (pieces : List Piece) : Prop :=
  ∀ child, .place child ∈ pieces → ∀ inner ∈ child :: child.inside .lua, holds inner

variable {holds : Place → Prop}

@[simp] theorem everywhere_nil : Everywhere holds [] := by simp [Everywhere]

@[simp] theorem everywhere_append {first second : List Piece} :
    Everywhere holds (first ++ second) ↔ Everywhere holds first ∧ Everywhere holds second := by
  simp only [Everywhere, List.mem_append, or_imp, forall_and]

@[simp] theorem everywhere_ink (doc : Doc) : Everywhere holds (ink doc) := by
  simp [Everywhere, ink]

@[simp] theorem everywhere_stroke (own : Stroke) (rest : List Piece) :
    Everywhere holds (.stroke own :: rest) ↔ Everywhere holds rest := by
  simp [Everywhere]

@[simp] theorem everywhere_place (child : Place) (rest : List Piece) :
    Everywhere holds (.place child :: rest) ↔
      (holds child ∧ ∀ inner ∈ child.inside .lua, holds inner) ∧ Everywhere holds rest := by
  simp [Everywhere]

@[simp] theorem everywhere_text (content : String) : Everywhere holds (text content) := by
  simp [text]

@[simp] theorem everywhere_expr (value : Expr) : Everywhere holds (expr value) ↔
    holds (.expr value) ∧ ∀ inner ∈ value.inside .lua, holds inner := by
  simp [expr, Place.inside]

@[simp] theorem everywhere_stmt (value : Stmt) : Everywhere holds (stmt value) ↔
    holds (.stmt value) ∧ ∀ inner ∈ value.inside .lua, holds inner := by
  simp [stmt, Place.inside]

@[simp] theorem everywhere_enclosed {pieces : List Piece} (opening closing : String) :
    Everywhere holds (enclosed opening pieces closing) ↔ Everywhere holds pieces := by
  simp [enclosed, nest]

@[simp] theorem everywhere_parens {pieces : List Piece} :
    Everywhere holds (parens pieces) ↔ Everywhere holds pieces := by
  simp [parens]

theorem everywhere_sepBy {values : List Expr}
    (h : ∀ inner ∈ Expr.insideAll .lua values, holds inner) : Everywhere holds (sepBy values) := by
  induction values with
  | nil => exact everywhere_nil
  | cons value rest ih =>
    obtain ⟨hv, hr⟩ := List.forall_mem_append.mp h
    have hs : Everywhere holds (expr value) := by simpa using hv
    cases rest with
    | nil => exact hs
    | cons next rest =>
      simpa only [sepBy, everywhere_append, everywhere_text, and_true] using ⟨hs, ih hr⟩

theorem everywhere_rows {content : List (List Piece)}
    (h : ∀ row ∈ content, Everywhere holds row) : Everywhere holds (rows content) := by
  induction content with
  | nil => exact everywhere_nil
  | cons row rest ih =>
    obtain ⟨hd, hr⟩ := List.forall_mem_cons.mp h
    cases rest with
    | nil => simpa [rows] using hd
    | cons next rest => simpa [rows] using ⟨hd, ih hr⟩

theorem everywhere_container {content : List (List Piece)}
    (h : ∀ row ∈ content, Everywhere holds row) : Everywhere holds (container content) := by
  unfold container
  split_ifs
  · exact everywhere_text _
  · exact (everywhere_enclosed _ _).mpr (everywhere_rows h)

theorem everywhere_array {values : List Expr}
    (h : ∀ inner ∈ Expr.insideAll .lua values, holds inner) : Everywhere holds (array values) := by
  refine everywhere_container ?_
  induction values with
  | nil => simp
  | cons value rest ih =>
    obtain ⟨hv, hr⟩ := List.forall_mem_append.mp h
    exact List.forall_mem_cons.mpr ⟨by simpa using hv, ih hr⟩

theorem everywhere_key {unquote : Bool} {name : Expr}
    (h : ∀ inner ∈ .expr name :: name.inside .lua, holds inner) :
    Everywhere holds (key unquote name) := by
  unfold key
  split
  · exact everywhere_text _
  · simpa using h

theorem everywhere_member {unquote : Bool} {value : Member}
    (h : ∀ inner ∈ value.inside .lua, holds inner) : Everywhere holds (member unquote value) := by
  cases value with
  | single name value =>
    obtain ⟨hn, hv⟩ := List.forall_mem_append.mp h
    simpa [member] using ⟨everywhere_key hn, List.forall_mem_cons.mp hv⟩
  | array name values =>
    obtain ⟨hn, hv⟩ := List.forall_mem_append.mp h
    simpa [member] using ⟨everywhere_key hn, everywhere_array hv⟩

theorem everywhere_members {unquote : Bool} {values : List Member}
    (h : ∀ inner ∈ Member.insideAll .lua values, holds inner) :
    Everywhere holds (container (values.map (member unquote))) := by
  refine everywhere_container ?_
  induction values with
  | nil => simp
  | cons value rest ih =>
    obtain ⟨hv, hr⟩ := List.forall_mem_append.mp h
    exact List.forall_mem_cons.mpr ⟨everywhere_member hv, ih hr⟩

theorem everywhere_lines {stmts : List Stmt}
    (h : ∀ inner ∈ Stmt.insideAll .lua stmts, holds inner) : Everywhere holds (lines stmts) := by
  induction stmts with
  | nil => exact everywhere_nil
  | cons value rest ih =>
    obtain ⟨hv, hr⟩ := List.forall_mem_append.mp h
    have hl : lines (value :: rest) = stmt value ++ [.stroke .freshLine] ++ lines rest := rfl
    rw [hl]
    simpa using ⟨List.forall_mem_cons.mp hv, ih hr⟩

theorem everywhere_body {value : Stmt}
    (h : ∀ inner ∈ .stmt value :: value.inside .lua, holds inner) :
    Everywhere holds (body value) := by
  unfold body line
  split_ifs <;> simpa using h

theorem everywhere_bodyLine {value : LambdaBody} (h : ∀ inner ∈ value.inside .lua, holds inner) :
    Everywhere holds (bodyLine value) := by
  cases value with
  | expr value => simpa [bodyLine] using List.forall_mem_cons.mp h
  | block stmts => exact everywhere_lines h

theorem everywhere_functionBody {value : LambdaBody}
    (h : ∀ inner ∈ value.inside .lua, holds inner) : Everywhere holds (functionBody value) := by
  cases value with
  | expr value =>
    simp only [functionBody]
    split_ifs <;> simpa using List.forall_mem_cons.mp h
  | block stmts => exact everywhere_lines h

theorem everywhere_ofExpr {value : Expr} (h : ∀ inner ∈ value.inside .lua, holds inner) :
    Everywhere holds (ofExpr value) := by
  cases value with
  | literal | ident | this | asyncResult | enumConstant | apiType => simp [ofExpr]
  | binary left op right concat =>
    simp only [Expr.inside, List.forall_mem_append, List.forall_mem_cons] at h
    simp only [ofExpr]
    split_ifs <;> simpa using h
  | unary op operand =>
    have ho := List.forall_mem_cons.mp h
    cases op with
    | neg | not | complement => simpa [ofExpr] using ho
    | preIncrement | preDecrement | postIncrement | postDecrement => simp [ofExpr]
  | conditional test consequent alternative =>
    simp only [Expr.inside, List.forall_mem_append, List.forall_mem_cons] at h
    simp only [ofExpr]
    split_ifs <;> simpa [and_assoc] using h
  | parens | member | dataMember | assign | valueOf | dataAssign | jsonAssign | jsonMember | mapGet
  | jsonObjectText | jsonArrayText | methodReference | console =>
    simp only [Expr.inside, List.forall_mem_append, List.forall_mem_cons] at h
    simpa [ofExpr, index, and_assoc] using h
  | call receiver method args =>
    cases receiver with
    | none => simpa [ofExpr] using everywhere_sepBy h
    | some receiver =>
      obtain ⟨hr, ha⟩ := List.forall_mem_append.mp h
      simpa [ofExpr] using ⟨List.forall_mem_cons.mp hr, everywhere_sepBy ha⟩
  | construct ty args => simpa [ofExpr] using everywhere_sepBy h
  | lambda params body => simpa [ofExpr] using everywhere_functionBody h
  | jsonObject members | dataObject ty members => exact everywhere_members h
  | jsonArray values => exact everywhere_array h
  | mapForEach map key value body =>
    obtain ⟨hm, hb⟩ := List.forall_mem_append.mp h
    simpa [ofExpr] using ⟨List.forall_mem_cons.mp hm, everywhere_bodyLine hb⟩

theorem everywhere_ofUpdate {value : Expr} (h : ∀ inner ∈ value.inside .lua, holds inner) :
    Everywhere holds (ofUpdate value) := by
  have he := everywhere_ofExpr h
  cases value with
  | unary op operand =>
    have ho := List.forall_mem_cons.mp h
    cases op with
    | neg | not | complement => exact he
    | preIncrement | preDecrement | postIncrement | postDecrement =>
      simpa [ofUpdate, Phrase.stepSign?] using ho
  | _ => exact he

theorem everywhere_ofStmt {value : Stmt} (h : ∀ inner ∈ value.inside .lua, holds inner) :
    Everywhere holds (ofStmt value) := by
  cases value with
  | block stmts => exact everywhere_lines h
  | declare ty name init =>
    cases init with
    | none => simp [ofStmt]
    | some init => simpa [ofStmt] using List.forall_mem_cons.mp h
  | expr value => simpa [ofStmt] using List.forall_mem_cons.mp h
  | forLoop init test update repeated =>
    simp only [Stmt.inside, if_true, List.forall_mem_append] at h
    obtain ⟨⟨hi, ht⟩, hb, hu⟩ := h
    simpa [ofStmt, line, Place.inside] using ⟨List.forall_mem_cons.mp hi,
      List.forall_mem_cons.mp ht, everywhere_body hb, List.forall_mem_cons.mp hu⟩
  | forEach name value repeated | whileLoop value repeated =>
    obtain ⟨hv, hb⟩ := List.forall_mem_append.mp h
    simpa [ofStmt] using ⟨List.forall_mem_cons.mp hv, everywhere_body hb⟩
  | throwNew exception reason =>
    cases reason with
    | none => simp [ofStmt]
    | some reason => simpa [ofStmt] using List.forall_mem_cons.mp h
  | returnWith value =>
    cases value with
    | none => simp [ofStmt]
    | some value => simpa [ofStmt] using List.forall_mem_cons.mp h
  | ifElse test consequent alternative =>
    cases alternative with
    | none =>
      obtain ⟨ht, hc⟩ := List.forall_mem_append.mp h
      simpa [ofStmt, nest, otherwise] using ⟨List.forall_mem_cons.mp ht, everywhere_body hc⟩
    | some alternative =>
      simp only [Stmt.inside, List.forall_mem_append] at h
      obtain ⟨⟨ht, hc⟩, ha⟩ := h
      have ho : Everywhere holds (otherwise (some alternative)) := by
        simp only [otherwise]
        split_ifs
        · simpa using List.forall_mem_cons.mp ha
        · simpa using everywhere_body ha
      simpa [ofStmt, nest] using ⟨List.forall_mem_cons.mp ht, everywhere_body hc, ho⟩
  | breakLoop | continueLoop => simp [ofStmt]

theorem everywhere_ofPlace {value : Place} (h : ∀ inner ∈ value.inside .lua, holds inner) :
    Everywhere holds (ofPlace value) := by
  cases value with
  | expr value => exact everywhere_ofExpr h
  | update value => exact everywhere_ofUpdate h
  | stmt value => exact everywhere_ofStmt h

end Inside

end Piece

open Piece (ofPlace strokes)

/-- A place inside another one, with the strokes in front of it and behind it there. -/
inductive Occurs (style : Style) (target : Place) :
    Place → List Stroke → List Stroke → Prop
  | here : Occurs style target target [] []
  | inside {whole child : Place} {front back : List Piece} {before after : List Stroke}
    (hp : ofPlace whole = front ++ .place child :: back)
    (h : Occurs style target child before after) :
    Occurs style target whole (strokes style front ++ before) (after ++ strokes style back)

/-- What holds of all places inside a place holds of all places inside any of them. -/
theorem Occurs.everywhere {style : Style} {target whole : Place} {before after : List Stroke}
    (h : Occurs style target whole before after) {holds : Place → Prop}
    (hw : ∀ inner ∈ whole :: whole.inside .lua, holds inner) :
    ∀ inner ∈ target :: target.inside .lua, holds inner := by
  induction h with
  | here => exact hw
  | inside hp h ih =>
    have hc := Piece.everywhere_ofPlace (List.forall_mem_cons.mp hw).2
    rw [hp] at hc
    exact ih (hc _ (by simp))

/-- What is written for a place that has another one in it. -/
theorem Occurs.strokes_eq {style : Style} (hd : style.dialect = .lua) {target whole : Place}
    {before after : List Stroke} (h : Occurs style target whole before after) :
    (whole.doc style).strokes = before ++ (target.doc style).strokes ++ after := by
  induction h with
  | here => simp
  | inside hp h ih =>
    rw [← Piece.strokes_ofPlace hd, hp]
    simp [ih]

end Lua

end Polyglot
