import Polyglot.Proofs.LuaPieces

/-! What is written for a place of a plain or Groovy program, as a flat row of strokes and of places
inside it. The statement that initialises a loop stands in the middle of a line there, and it counts
as strokes, with all that is inside it. -/
namespace Polyglot

namespace Braced

open Lua (Piece)
open Lua.Piece (ink text expr stmt enclosed lines body sepBy parens rows index bodyLine strokes)

/-- A container, with each row on a line of its own. -/
def container (empty : String) (content : List (List Piece)) : List Piece :=
  if content.isEmpty then text empty else enclosed "[" (rows content) "]"

def array (values : List Expr) : List Piece :=
  container "[]" (values.map expr)

def key (unquote : Bool) (name : Expr) : List Piece :=
  match unquote, name.stringKey? with
  | true, some content => text content
  | _, _ => expr name

def member (unquote : Bool) : Member → List Piece
  | .single name value => key unquote name ++ text ":" ++ expr value
  | .array name values => key unquote name ++ text ":" ++ array values

def closure (params : List Param) (value : LambdaBody) : List Piece :=
  enclosed (Phrase.brace ++ (if params.isEmpty then "" else " ") ++ Phrase.names params ++ " ->")
    (bodyLine value) Phrase.unbrace

def arrow : LambdaBody → List Piece
  | .expr value => expr value
  | .block stmts => enclosed Phrase.brace (lines stmts) Phrase.unbrace

/-- A part of an interpolated string. The strings that are joined in it lose their quotes. -/
def splice : Expr → List Piece
  | .literal (.string content) => text (Text.escapeTemplate content)
  | .binary left .add right true => splice left ++ splice right
  | value => text ("$" ++ Phrase.brace) ++ expr value ++ text Phrase.unbrace

/-- The notation of Groovy for what the plain notation does not have. -/
def groovyOnly (dialect : Dialect) (construct : Construct) (pieces : List Piece) : List Piece :=
  if dialect = .plain then ink (.unsupported construct) else pieces

def jsonPlace (object name : Expr) : List Piece :=
  match name.stringKey? with
  | some content => expr object ++ text ("." ++ content)
  | none => index object name

def unary (op : UnaryOp) (operand : Expr) : List Piece :=
  match op with
  | .neg => text "-" ++ expr operand
  | .complement => text "~" ++ expr operand
  | .not => text "!" ++ expr operand
  | .preIncrement => text "++" ++ expr operand
  | .preDecrement => text "--" ++ expr operand
  | .postIncrement => expr operand ++ text "++"
  | .postDecrement => expr operand ++ text "--"

def ofExpr (style : Style) : Expr → List Piece
  | .literal value => ink (Phrase.literal style.dialect value)
  | .binary left op right concat =>
    if style.dialect = .groovy ∧ concat ∧ style.interpolate then
      text "\"" ++ splice left ++ splice right ++ text "\""
    else expr left ++ text (" " ++ style.dialect.operator op ++ " ") ++ expr right
  | .unary op operand => unary op operand
  | .parens inner => parens (expr inner)
  | .ident name | .asyncResult name => text name
  | .this => text "this"
  | .member object name | .dataMember object name => expr object ++ text ("." ++ name)
  | .assign target value => expr target ++ text " = " ++ expr value
  | .conditional test consequent alternative =>
    expr test ++ text " ? " ++ expr consequent ++ text " : " ++ expr alternative
  | .call none method args => text method ++ parens (sepBy args)
  | .call (some receiver) method args =>
    expr receiver ++ text "." ++ text method ++ parens (sepBy args)
  | .construct ty args =>
    text "new " ++ ink (Phrase.typeName style.dialect ty) ++ parens (sepBy args)
  | .lambda params value =>
    if style.dialect = .plain then
      text ("(" ++ Phrase.names params ++ ") -> ") ++ arrow value
    else closure params value
  | .enumConstant ty constant => ink (Phrase.enumConstant style.dialect ty constant)
  | .apiType ty => ink (Phrase.reference style.dialect ty)
  | .jsonObject members =>
    groovyOnly style.dialect .jsonObjectLiteral (container "[:]" (members.map (member true)))
  | .jsonArray values => groovyOnly style.dialect .jsonArrayLiteral (array values)
  | .dataObject _ members =>
    groovyOnly style.dialect .dataObjectLiteral (container "[:]" (members.map (member false)))
  | .valueOf _ inner => expr inner
  | .dataAssign object name value => expr object ++ text ("." ++ name) ++ text " = " ++ expr value
  | .jsonAssign object name value =>
    groovyOnly style.dialect .jsonObjectAssignment
      (jsonPlace object name ++ text " = " ++ expr value)
  | .jsonMember object name =>
    groovyOnly style.dialect .jsonObjectMemberAccess (jsonPlace object name)
  | .mapGet map key =>
    if style.dialect = .plain then expr map ++ text ".get(" ++ expr key ++ text ")"
    else index map key
  | .jsonObjectText inner | .jsonArrayText inner =>
    expr inner ++ text (if style.dialect = .plain then ".encode()" else ".toString()")
  | .mapForEach map key value repeated =>
    groovyOnly style.dialect .mapIteration
      (expr map ++ text ".each " ++ closure [key, value] repeated)
  | .methodReference receiver method =>
    expr receiver ++ text ((if style.dialect = .plain then "::" else ".&") ++ method)
  | .console message =>
    text (if style.dialect = .plain then "System.out.println" else "println") ++
      parens (expr message)

def braced (pieces : List Piece) : List Piece :=
  enclosed (" " ++ Phrase.brace) pieces Phrase.unbrace

def otherwise : Option Stmt → List Piece
  | none => []
  | some alternative =>
    if alternative.isIfElse then text " else " ++ stmt alternative
    else text " else" ++ braced (body alternative)

def declared (dialect : Dialect) (ty : TypeInfo) (name : String) : List Piece :=
  if dialect = .plain then ink (Phrase.typeName .plain ty) ++ text (" " ++ name)
  else text ("def " ++ name)

def ofStmt (style : Style) : Stmt → List Piece
  | .block stmts => lines stmts
  | .declare ty name none => declared style.dialect ty name
  | .declare ty name (some init) => declared style.dialect ty name ++ text " = " ++ expr init
  | .expr value => expr value
  | .forLoop init test update repeated =>
    text "for (" ++ ink (init.doc style) ++ text "; " ++ expr test ++ text "; " ++
      [.place (.update update)] ++ text ")" ++ braced (body repeated)
  | .forEach name iterable repeated =>
    if style.dialect = .plain then
      text ("for (var " ++ name ++ " : ") ++ expr iterable ++ text ")" ++ braced (body repeated)
    else
      expr iterable ++ enclosed (".each " ++ Phrase.brace ++ " " ++ name ++ " ->") (body repeated)
        Phrase.unbrace
  | .throwNew exception none => text ("throw new " ++ exception) ++ parens []
  | .throwNew exception (some reason) => text ("throw new " ++ exception) ++ parens (expr reason)
  | .returnWith none => text "return"
  | .returnWith (some value) => text "return " ++ expr value
  | .ifElse test consequent alternative =>
    text "if (" ++ expr test ++ text ")" ++ braced (body consequent) ++ otherwise alternative
  | .whileLoop test repeated =>
    text "while (" ++ expr test ++ text ")" ++ braced (body repeated)
  | .breakLoop => text "break"
  | .continueLoop => text "continue"

def ofPlace (style : Style) : Place → List Piece
  | .expr value | .update value => ofExpr style value
  | .stmt value => ofStmt style value

section Strokes

open Lua.Piece (strokes_expr strokes_enclosed strokes_rows strokes_lines strokes_body strokes_parens
  strokes_sepBy map_strokes_expr)

variable (style : Style)

theorem strokes_container {content : List (List Piece)} {docs : List Doc}
    (h : content.map (strokes style) = docs.map Doc.strokes) (empty : String) :
    strokes style (container empty content) =
      (if docs.isEmpty then Doc.text empty
        else Phrase.enclosed "[" (Phrase.rows "," docs) "]").strokes := by
  cases content with
  | nil =>
    obtain rfl : docs = [] := by simpa using h.symm
    rfl
  | cons row rest =>
    cases docs with
    | nil => simp at h
    | cons doc docs => exact strokes_enclosed style (strokes_rows style h) "[" "]"

theorem strokes_array (values : List Expr) :
    strokes style (array values) = (Phrase.array .groovy (Expr.docs style values)).strokes :=
  strokes_container style (map_strokes_expr style values) "[]"

theorem strokes_bodyLine (value : LambdaBody) :
    strokes style (bodyLine value) = (Phrase.bodyLine value (value.doc style)).strokes := by
  cases value with
  | expr value => simp [bodyLine, Phrase.bodyLine, LambdaBody.doc, Doc.strokes]
  | block stmts => exact strokes_lines _ stmts

theorem strokes_closure (params : List Param) (value : LambdaBody) :
    strokes style (closure params value) =
      (Phrase.closure params value (value.doc style)).strokes :=
  strokes_enclosed style (strokes_bodyLine style value) _ _

theorem strokes_braced (value : Stmt) :
    strokes style (braced (body value)) =
      (Phrase.braced (Phrase.body value (value.doc style))).strokes :=
  strokes_enclosed style (strokes_body style value) _ _

theorem strokes_arguments (args : List Expr) :
    strokes style (parens (sepBy args)) = (Phrase.arguments (Expr.docs style args)).strokes :=
  strokes_parens style (strokes_sepBy style args)

end Strokes

section Groovy

variable (interpolate : Bool)

theorem strokes_key (unquote : Bool) (name : Expr) :
    strokes ⟨.groovy, interpolate⟩ (key unquote name) =
      (Phrase.key .groovy unquote name (name.doc ⟨.groovy, interpolate⟩)).strokes := by
  unfold key Phrase.key
  cases unquote <;> cases name.stringKey? <;> simp [Doc.strokes]

theorem strokes_member (unquote : Bool) (value : Member) :
    strokes ⟨.groovy, interpolate⟩ (member unquote value) =
      (value.doc ⟨.groovy, interpolate⟩ unquote .groovy).strokes := by
  cases value with
  | single name value =>
    simp [member, Member.doc, Phrase.entry, Doc.strokes, strokes_key, Containers.groovy]
  | array name values =>
    simp [member, Member.doc, Phrase.entry, Doc.strokes, strokes_key, strokes_array,
      Containers.groovy]

theorem strokes_members (unquote : Bool) (values : List Member) :
    strokes ⟨.groovy, interpolate⟩ (container "[:]" (values.map (member unquote))) =
      (Phrase.object .groovy
        (Member.docs ⟨.groovy, interpolate⟩ unquote .groovy values)).strokes := by
  have hm : (values.map (member unquote)).map (strokes ⟨.groovy, interpolate⟩) =
      (Member.docs ⟨.groovy, interpolate⟩ unquote .groovy values).map Doc.strokes := by
    induction values with
    | nil => rfl
    | cons value rest ih => simpa [Member.docs, strokes_member] using ih
  exact strokes_container _ hm "[:]"

theorem strokes_jsonPlace (object name : Expr) :
    strokes ⟨.groovy, interpolate⟩ (jsonPlace object name) =
      (Phrase.jsonPlace .groovy (object.doc ⟨.groovy, interpolate⟩) name
        (name.doc ⟨.groovy, interpolate⟩)).strokes := by
  unfold jsonPlace Phrase.jsonPlace
  cases name.stringKey? <;>
    simp [index, Phrase.index, Phrase.member, Doc.strokes]

/-- The parts of a joined string, with the strings in them as they stand there. -/
theorem strokes_splice (value : Expr) :
    strokes ⟨.groovy, true⟩ (splice value) =
      (Phrase.part value.isStringPart (value.doc ⟨.groovy, true⟩)).strokes := by
  fun_induction splice value with
  | case1 content => rfl
  | case2 left right ihl ihr =>
    simpa [Expr.isStringPart, Expr.doc, Phrase.binary, Phrase.part, Doc.unquoted] using
      congrArg₂ (· ++ ·) ihl ihr
  | case3 value hs hj =>
    have hp : value.isStringPart = false := by
      unfold Expr.isStringPart
      split
      · next content => exact absurd rfl (hs content)
      · next left right => exact absurd rfl (hj left right)
      · rfl
    simp [hp, Phrase.part, Doc.strokes]

end Groovy

section Places

open Lua.Piece (strokes_expr strokes_enclosed strokes_lines strokes_body strokes_parens)

variable {dialect : Dialect} (hd : dialect = .plain ∨ dialect = .groovy) (interpolate : Bool)

include hd

theorem strokes_unary (op : UnaryOp) (operand : Expr) :
    strokes ⟨dialect, interpolate⟩ (unary op operand) =
      (Phrase.unary dialect op (operand.doc ⟨dialect, interpolate⟩)).strokes := by
  rcases hd with rfl | rfl <;> cases op <;> simp [unary, Phrase.unary, Doc.strokes]

theorem strokes_binary (left : Expr) (op : BinaryOp) (right : Expr) (concat : Bool) :
    strokes ⟨dialect, interpolate⟩
        (ofExpr ⟨dialect, interpolate⟩ (.binary left op right concat)) =
      ((Expr.binary left op right concat).doc ⟨dialect, interpolate⟩).strokes := by
  rcases hd with rfl | rfl
  · simp [ofExpr, Expr.doc, Phrase.binary, Phrase.infixed, Doc.strokes]
  · simp only [ofExpr, Expr.doc, Phrase.binary, true_and, Bool.and_eq_true]
    split_ifs with hc
    · obtain ⟨-, rfl⟩ := hc
      simp [Doc.strokes, strokes_splice]
    · simp [Phrase.infixed, Doc.strokes]

theorem strokes_lambda (params : List Param) (value : LambdaBody) :
    strokes ⟨dialect, interpolate⟩ (ofExpr ⟨dialect, interpolate⟩ (.lambda params value)) =
      ((Expr.lambda params value).doc ⟨dialect, interpolate⟩).strokes := by
  rcases hd with rfl | rfl
  · cases value with
    | expr value => simp [ofExpr, arrow, Expr.doc, LambdaBody.doc, Phrase.lambda, Doc.strokes]
    | block stmts =>
      have hb : strokes ⟨.plain, interpolate⟩ (lines stmts) =
          (Doc.block (Stmt.lines ⟨.plain, interpolate⟩ stmts)).strokes := strokes_lines _ stmts
      have hl := strokes_enclosed _ hb Phrase.brace Phrase.unbrace
      simpa [ofExpr, arrow, Expr.doc, LambdaBody.doc, Phrase.lambda, Doc.strokes] using hl
  · exact strokes_closure _ params value

theorem strokes_ofExpr (value : Expr) :
    strokes ⟨dialect, interpolate⟩ (ofExpr ⟨dialect, interpolate⟩ value) =
      (value.doc ⟨dialect, interpolate⟩).strokes := by
  have ha := strokes_arguments ⟨dialect, interpolate⟩
  cases value with
  | literal | enumConstant | apiType | valueOf => simp [ofExpr, Expr.doc]
  | ident | asyncResult => rfl
  | binary left op right concat => exact strokes_binary hd interpolate left op right concat
  | unary op operand => exact strokes_unary hd interpolate op operand
  | parens inner => exact strokes_parens _ (strokes_expr _ inner)
  | this => rcases hd with rfl | rfl <;> rfl
  | member | dataMember => simp [ofExpr, Expr.doc, Phrase.member, Doc.strokes]
  | assign => simp [ofExpr, Expr.doc, Phrase.assign, Doc.strokes]
  | dataAssign => simp [ofExpr, Expr.doc, Phrase.assign, Phrase.member, Doc.strokes]
  | conditional =>
    rcases hd with rfl | rfl <;> simp [ofExpr, Expr.doc, Phrase.conditional, Doc.strokes]
  | call receiver method args =>
    rcases hd with rfl | rfl <;> cases receiver <;>
      simp [ofExpr, Expr.doc, Phrase.call, Phrase.receiver, Doc.strokes, ha]
  | construct ty args =>
    rcases hd with rfl | rfl <;> simp [ofExpr, Expr.doc, Phrase.construct, Doc.strokes, ha]
  | lambda params value => exact strokes_lambda hd interpolate params value
  | jsonObject members =>
    rcases hd with rfl | rfl
    · rfl
    · exact strokes_members interpolate true members
  | jsonArray values =>
    rcases hd with rfl | rfl
    · rfl
    · exact strokes_array _ values
  | dataObject ty members =>
    rcases hd with rfl | rfl
    · rfl
    · exact strokes_members interpolate false members
  | jsonAssign object name value =>
    rcases hd with rfl | rfl
    · rfl
    · simp [ofExpr, groovyOnly, Expr.doc, Phrase.jsonAssign, Phrase.assign, Doc.strokes,
        strokes_jsonPlace]
  | jsonMember object name =>
    rcases hd with rfl | rfl
    · rfl
    · exact strokes_jsonPlace interpolate object name
  | mapGet map key =>
    rcases hd with rfl | rfl
    · simp [ofExpr, Expr.doc, Phrase.mapGet, Doc.strokes]
    · simp [ofExpr, Expr.doc, Phrase.mapGet, index, Phrase.index, Doc.strokes]
  | jsonObjectText | jsonArrayText =>
    rcases hd with rfl | rfl <;> simp [ofExpr, Expr.doc, Phrase.jsonText, Doc.strokes]
  | mapForEach map key value repeated =>
    rcases hd with rfl | rfl
    · rfl
    · simp [ofExpr, groovyOnly, Expr.doc, Phrase.mapForEach, Doc.strokes, strokes_closure]
  | methodReference =>
    rcases hd with rfl | rfl <;> simp [ofExpr, Expr.doc, Phrase.methodReference, Doc.strokes]
  | console message =>
    have hm := strokes_parens _ (strokes_expr ⟨dialect, interpolate⟩ message)
    rcases hd with rfl | rfl <;> simp [ofExpr, Expr.doc, Phrase.console, Doc.strokes, hm]

theorem updateDoc_eq (value : Expr) :
    value.updateDoc ⟨dialect, interpolate⟩ = value.doc ⟨dialect, interpolate⟩ := by
  cases value with
  | unary op operand => rcases hd with rfl | rfl <;> rfl
  | _ => rfl

theorem strokes_otherwise (alternative : Option Stmt) :
    strokes ⟨dialect, interpolate⟩ (otherwise alternative) =
      (Phrase.otherwise dialect (alternative.map fun stmt =>
        (stmt, stmt.doc ⟨dialect, interpolate⟩))).strokes := by
  rcases hd with rfl | rfl
  all_goals
    cases alternative with
    | none => rfl
    | some alternative =>
      simp only [otherwise, Phrase.otherwise, Option.map_some]
      split_ifs <;> simp [Doc.strokes, strokes_braced]

theorem strokes_ofStmt (value : Stmt) :
    strokes ⟨dialect, interpolate⟩ (ofStmt ⟨dialect, interpolate⟩ value) =
      (value.doc ⟨dialect, interpolate⟩).strokes := by
  have hb := strokes_braced ⟨dialect, interpolate⟩
  cases value with
  | block stmts => exact strokes_lines _ stmts
  | declare ty name init =>
    rcases hd with rfl | rfl
    all_goals
      cases init <;> simp [ofStmt, declared, Stmt.doc, Expr.doc?, Phrase.declare, Phrase.assign,
        Doc.strokes]
  | expr value => simp [ofStmt, Stmt.doc]
  | forLoop init test update repeated =>
    rw [Stmt.doc_forLoop]
    rcases hd with rfl | rfl <;> simp [ofStmt, Phrase.forLoop, Place.doc, Doc.strokes, hb]
  | forEach name iterable repeated =>
    rcases hd with rfl | rfl
    · simp [ofStmt, Stmt.doc, Phrase.forEach, Doc.strokes, hb]
    · have he := strokes_enclosed ⟨.groovy, interpolate⟩ (strokes_body _ repeated)
        (".each " ++ Phrase.brace ++ " " ++ name ++ " ->") Phrase.unbrace
      simp [ofStmt, Stmt.doc, Phrase.forEach, he]
  | throwNew exception reason =>
    rcases hd with rfl | rfl
    all_goals
      cases reason <;>
        simp [ofStmt, Stmt.doc, Expr.doc?, Phrase.throwNew, parens, Phrase.parens, Doc.strokes]
  | returnWith value =>
    cases value <;> simp [ofStmt, Stmt.doc, Expr.doc?, Phrase.returnWith, Doc.strokes]
  | ifElse test consequent alternative =>
    have ho := strokes_otherwise hd interpolate alternative
    rcases hd with rfl | rfl
    all_goals
      cases alternative <;> simpa [ofStmt, Stmt.doc, Phrase.ifElse, Doc.strokes, hb] using ho
  | whileLoop test repeated =>
    rcases hd with rfl | rfl <;> simp [ofStmt, Stmt.doc, Phrase.whileLoop, Doc.strokes, hb]
  | breakLoop => rfl
  | continueLoop => rcases hd with rfl | rfl <;> rfl

/-- The strokes of a place are those of its pieces. -/
theorem strokes_ofPlace (value : Place) :
    strokes ⟨dialect, interpolate⟩ (ofPlace ⟨dialect, interpolate⟩ value) =
      (value.doc ⟨dialect, interpolate⟩).strokes := by
  cases value with
  | expr value => exact strokes_ofExpr hd interpolate value
  | update value =>
    rw [Place.doc, updateDoc_eq hd]
    exact strokes_ofExpr hd interpolate value
  | stmt value => exact strokes_ofStmt hd interpolate value

end Places

section Inside

variable (dialect : Dialect)

/-- The places among pieces, each in front of what is inside it. -/
def reach (pieces : List Piece) : List Place :=
  pieces.flatMap fun
    | .stroke _ => []
    | .place inner => inner :: inner.inside dialect

@[simp] theorem reach_nil : reach dialect [] = [] := rfl

@[simp] theorem reach_append (first second : List Piece) :
    reach dialect (first ++ second) = reach dialect first ++ reach dialect second := by
  simp [reach]

@[simp] theorem reach_stroke (own : Stroke) (rest : List Piece) :
    reach dialect (.stroke own :: rest) = reach dialect rest := rfl

@[simp] theorem reach_place (inner : Place) (rest : List Piece) :
    reach dialect (.place inner :: rest) =
      inner :: (inner.inside dialect ++ reach dialect rest) := rfl

@[simp] theorem reach_ink (doc : Doc) : reach dialect (ink doc) = [] := by
  simp [reach, ink]

@[simp] theorem reach_text (content : String) : reach dialect (text content) = [] := rfl

@[simp] theorem reach_expr (value : Expr) :
    reach dialect (expr value) = .expr value :: value.inside dialect := by
  simp [expr, Place.inside]

@[simp] theorem reach_stmt (value : Stmt) :
    reach dialect (stmt value) = .stmt value :: value.inside dialect := by
  simp [stmt, Place.inside]

@[simp] theorem reach_enclosed (opening : String) (pieces : List Piece) (closing : String) :
    reach dialect (enclosed opening pieces closing) = reach dialect pieces := by
  simp [enclosed, Lua.Piece.nest]

@[simp] theorem reach_parens (pieces : List Piece) :
    reach dialect (parens pieces) = reach dialect pieces := by
  simp [parens]

@[simp] theorem reach_sepBy (values : List Expr) :
    reach dialect (sepBy values) = Expr.insideAll dialect values := by
  induction values with
  | nil => rfl
  | cons value rest ih =>
    cases rest with
    | nil => simp [sepBy, Expr.insideAll]
    | cons next rest =>
      rw [sepBy, reach_append, ih]
      · simp [Expr.insideAll]
      · simp

@[simp] theorem reach_lines (stmts : List Stmt) :
    reach dialect (lines stmts) = Stmt.insideAll dialect stmts := by
  induction stmts with
  | nil => rfl
  | cons value rest ih =>
    have hl : lines (value :: rest) = stmt value ++ .stroke .freshLine :: lines rest := rfl
    simp [hl, ih, Stmt.insideAll]

@[simp] theorem reach_body (value : Stmt) :
    reach dialect (body value) = .stmt value :: value.inside dialect := by
  unfold body Lua.Piece.line
  split_ifs <;> simp

@[simp] theorem reach_bodyLine (value : LambdaBody) :
    reach dialect (bodyLine value) = value.inside dialect := by
  cases value <;> simp [bodyLine, LambdaBody.inside]

@[simp] theorem reach_rows (content : List (List Piece)) :
    reach dialect (rows content) = content.flatMap (reach dialect) := by
  induction content with
  | nil => rfl
  | cons row rest ih =>
    cases rest with
    | nil => simp [rows]
    | cons next rest =>
      rw [rows, reach_append, ih]
      · simp
      · simp

@[simp] theorem reach_container (empty : String) (content : List (List Piece)) :
    reach dialect (container empty content) = content.flatMap (reach dialect) := by
  unfold container
  split_ifs with he
  · simp [List.isEmpty_iff.mp he]
  · simp

@[simp] theorem reach_array (values : List Expr) :
    reach dialect (array values) = Expr.insideAll dialect values := by
  rw [array, reach_container]
  induction values with
  | nil => rfl
  | cons value rest ih => simpa [Expr.insideAll] using ih

@[simp] theorem reach_closure (params : List Param) (value : LambdaBody) :
    reach dialect (closure params value) = value.inside dialect := by
  simp [closure]

@[simp] theorem reach_braced (pieces : List Piece) :
    reach dialect (braced pieces) = reach dialect pieces := by
  simp [braced]

theorem reach_key (unquote : Bool) (name : Expr) :
    reach dialect (key unquote name) ⊆ .expr name :: name.inside dialect := by
  unfold key
  split <;> simp

theorem reach_member (unquote : Bool) (value : Member) :
    reach dialect (member unquote value) ⊆ value.inside dialect := by
  cases value with
  | single name value =>
    simpa [member, Member.inside] using
      List.Subset.trans (reach_key dialect unquote name) (List.subset_append_left _ _)
  | array name values =>
    simpa [member, Member.inside] using
      List.Subset.trans (reach_key dialect unquote name) (List.subset_append_left _ _)

private theorem append_subset_append {first second left right : List Place} (hf : first ⊆ left)
    (hs : second ⊆ right) : first ++ second ⊆ left ++ right :=
  List.append_subset.mpr ⟨List.Subset.trans hf (List.subset_append_left _ _),
    List.Subset.trans hs (List.subset_append_right _ _)⟩

theorem reach_members (unquote : Bool) (values : List Member) :
    (values.map (member unquote)).flatMap (reach dialect) ⊆ Member.insideAll dialect values := by
  induction values with
  | nil => exact List.nil_subset _
  | cons value rest ih =>
    rw [List.map_cons, List.flatMap_cons, Member.insideAll]
    exact append_subset_append (reach_member dialect unquote value) ih

theorem reach_splice (value : Expr) :
    reach dialect (splice value) ⊆ .expr value :: value.inside dialect := by
  fun_induction splice value with
  | case1 content => simp
  | case2 left right ihl ihr =>
    rw [reach_append, Expr.inside]
    exact List.Subset.trans (append_subset_append ihl ihr) (List.subset_cons_self _ _)
  | case3 value hs hj => simp

theorem reach_jsonPlace (object name : Expr) :
    reach dialect (jsonPlace object name) ⊆
      .expr object :: object.inside dialect ++ .expr name :: name.inside dialect := by
  unfold jsonPlace
  split <;> simp [index]

theorem reach_groovyOnly (construct : Construct) {pieces : List Piece} {places : List Place}
    (h : reach dialect pieces ⊆ places) :
    reach dialect (groovyOnly dialect construct pieces) ⊆ places := by
  unfold groovyOnly
  split_ifs
  · simp
  · exact h

theorem reach_ofExpr (style : Style) (value : Expr) :
    reach style.dialect (ofExpr style value) ⊆ value.inside style.dialect := by
  cases value with
  | literal | ident | asyncResult | this | enumConstant | apiType => simp [ofExpr]
  | binary left op right concat =>
    simp only [ofExpr, Expr.inside]
    split_ifs
    · simpa using append_subset_append (reach_splice style.dialect left)
        (reach_splice style.dialect right)
    · simp
  | unary op operand => cases op <;> simp [ofExpr, unary, Expr.inside]
  | parens | member | dataMember | assign | dataAssign | conditional | valueOf | jsonObjectText
  | jsonArrayText | methodReference | console | construct => simp [ofExpr, Expr.inside]
  | call receiver method args => cases receiver <;> simp [ofExpr, Expr.inside]
  | lambda params value =>
    simp only [ofExpr, Expr.inside]
    split_ifs
    · cases value <;> simp [arrow, LambdaBody.inside]
    · simp
  | jsonObject members | dataObject ty members =>
    refine reach_groovyOnly style.dialect _ ?_
    rw [reach_container]
    exact reach_members style.dialect _ members
  | jsonArray values =>
    refine reach_groovyOnly style.dialect _ ?_
    rw [reach_array, Expr.inside]
    exact List.Subset.refl _
  | jsonAssign object name value =>
    refine reach_groovyOnly style.dialect _ ?_
    rw [reach_append, reach_append, reach_text, reach_expr, List.append_nil, Expr.inside]
    exact append_subset_append (reach_jsonPlace style.dialect object name) (List.Subset.refl _)
  | jsonMember object name =>
    exact reach_groovyOnly style.dialect _ (reach_jsonPlace style.dialect object name)
  | mapGet map key =>
    simp only [ofExpr, Expr.inside]
    split_ifs <;> simp [index]
  | mapForEach map key value repeated =>
    refine reach_groovyOnly style.dialect _ ?_
    simp [Expr.inside]

theorem reach_otherwise (alternative : Stmt) :
    reach dialect (otherwise (some alternative)) =
      .stmt alternative :: alternative.inside dialect := by
  simp only [otherwise]
  split_ifs <;> simp

theorem reach_ofStmt (style : Style) (value : Stmt) :
    reach style.dialect (ofStmt style value) ⊆ value.inside style.dialect := by
  cases value with
  | block | expr => simp [ofStmt, Stmt.inside]
  | declare ty name init =>
    have hn : reach style.dialect (declared style.dialect ty name) = [] := by
      unfold declared
      split_ifs <;> simp
    cases init <;> simp [ofStmt, hn, Stmt.inside, Expr.inside?]
  | forLoop init test update repeated =>
    intro place hp
    simp only [ofStmt, reach_append, reach_text, reach_ink, reach_expr, reach_place, reach_nil,
      reach_braced, reach_body, Place.inside, List.mem_append, List.mem_cons, List.append_nil,
      List.nil_append] at hp
    simp only [Stmt.inside]
    split_ifs <;> simp only [List.mem_append, List.mem_cons] <;> tauto
  | forEach name iterable repeated =>
    simp only [ofStmt, Stmt.inside]
    split_ifs <;> simp
  | throwNew exception value | returnWith value =>
    cases value <;> simp [ofStmt, Stmt.inside, Expr.inside?]
  | ifElse test consequent alternative =>
    cases alternative with
    | none => simp [ofStmt, otherwise, Stmt.inside]
    | some alternative => simp [ofStmt, reach_otherwise, Stmt.inside]
  | whileLoop | breakLoop | continueLoop => simp [ofStmt, Stmt.inside]

/-- What is inside the pieces of a place is inside the place. -/
theorem reach_ofPlace (style : Style) (value : Place) :
    reach style.dialect (ofPlace style value) ⊆ value.inside style.dialect := by
  cases value with
  | expr value | update value => exact reach_ofExpr style value
  | stmt value => exact reach_ofStmt style value

end Inside

end Braced

end Polyglot
