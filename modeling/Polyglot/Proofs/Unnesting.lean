import Polyglot.Proofs.Alike
import Polyglot.Proofs.Succession

/-! Blocks inside statement lists. A block has no notation of its own: it writes its statements, and
then ends a line that they have ended already. So a block that holds something can be replaced by
its statements, in every statement list of a program. -/
namespace Polyglot

namespace Doc

/-- All that a block does to a pass, it does by its strokes and by the header in the end. -/
theorem play_block_congr {dialect : Dialect} {body body' : Doc} {pass pass' : Pass}
    (hd : pass.page.depth = pass'.page.depth)
    (h : Stroke.run dialect body.strokes pass = Stroke.run dialect body'.strokes pass') :
    (Doc.block body).play dialect pass = (Doc.block body').play dialect pass' := by
  rcases Nat.eq_zero_or_pos pass.page.depth with hz | hp
  · rw [play_block_outermost dialect body pass hz,
      play_block_outermost dialect body' pass' (hd.symm.trans hz), h]
  · rw [play_eq_run dialect _ pass hp, play_eq_run dialect _ pass' (hd ▸ hp)]
    exact h

end Doc

namespace Stmt

variable (style : Style) {dialect : Dialect}

/-- At the front of a list, a block writes its statements in place; if it is empty, this takes a
line that is empty. -/
theorem run_lines_block {stmts : List Stmt} {pass : Pass} (rest : List Stmt)
    (hs : stmts ≠ [] ∨ pass.page.atLineStart = true) :
    Stroke.run dialect (lines style (.block stmts :: rest)).strokes pass =
      Stroke.run dialect (lines style (stmts ++ rest)).strokes pass := by
  rw [strokes_lines_cons, strokes_lines_append, Stroke.run_append, Stroke.run_append]
  show (Stroke.run dialect (lines style stmts).strokes pass).andThen _ = _
  cases hr : Stroke.run dialect (lines style stmts).strokes pass with
  | failed error last => rfl
  | done last =>
    have hl : last.page.freshLine = last.page :=
      Page.freshLine_of_atLineStart (atLineStart_of_run style hs hr)
    simp only [Outcome.andThen_done, Stroke.run_cons, Stroke.step, hl]

/-- Anywhere else in a list the line is empty already. -/
theorem run_lines_nested {first stmts : List Stmt} {pass : Pass} (rest : List Stmt)
    (h : stmts ≠ [] ∨ first ≠ [] ∨ pass.page.atLineStart = true) :
    Stroke.run dialect (lines style (first ++ [.block stmts] ++ rest)).strokes pass =
      Stroke.run dialect (lines style (first ++ stmts ++ rest)).strokes pass := by
  have ha (second : List Stmt) :
      Stroke.run dialect (lines style (first ++ second)).strokes pass =
        (Stroke.run dialect (lines style first).strokes pass).andThen
          (Stroke.run dialect (lines style second).strokes) := by
    rw [strokes_lines_append, Stroke.run_append]
  rw [List.append_assoc, List.append_assoc, ha, ha]
  cases hr : Stroke.run dialect (lines style first).strokes pass with
  | failed error last => rfl
  | done last =>
    have hl : stmts ≠ [] ∨ last.page.atLineStart = true :=
      h.imp_right fun hf => atLineStart_of_run style hf hr
    exact run_lines_block style rest hl

end Stmt

mutual

/-- The second expression is the first one, with some of the blocks that stand in statement lists
inside it replaced by their statements. -/
inductive Expr.Unnested : Expr → Expr → Prop
  | refl (expr : Expr) : Expr.Unnested expr expr
  | binary {left left' right right' : Expr} (op : BinaryOp) (concat : Bool)
    (hl : Expr.Unnested left left') (hr : Expr.Unnested right right') :
    Expr.Unnested (.binary left op right concat) (.binary left' op right' concat)
  | unary {operand operand' : Expr} (op : UnaryOp) (h : Expr.Unnested operand operand') :
    Expr.Unnested (.unary op operand) (.unary op operand')
  | parens {inner inner' : Expr} (h : Expr.Unnested inner inner') :
    Expr.Unnested (.parens inner) (.parens inner')
  | member {object object' : Expr} (name : String) (h : Expr.Unnested object object') :
    Expr.Unnested (.member object name) (.member object' name)
  | assign {target target' value value' : Expr} (ht : Expr.Unnested target target')
    (hv : Expr.Unnested value value') :
    Expr.Unnested (.assign target value) (.assign target' value')
  | conditional {test test' consequent consequent' alternative alternative' : Expr}
    (ht : Expr.Unnested test test') (hc : Expr.Unnested consequent consequent')
    (ha : Expr.Unnested alternative alternative') :
    Expr.Unnested (.conditional test consequent alternative)
      (.conditional test' consequent' alternative')
  | call {receiver receiver' : Option Expr} {args args' : List Expr} (method : String)
    (hr : Expr.Unnested? receiver receiver')
    (ha : Expr.UnnestedAll args args') :
    Expr.Unnested (.call receiver method args) (.call receiver' method args')
  | construct {args args' : List Expr} (ty : TypeInfo) (ha : Expr.UnnestedAll args args') :
    Expr.Unnested (.construct ty args) (.construct ty args')
  | lambda {body body' : LambdaBody} (params : List Param) (h : LambdaBody.Unnested body body') :
    Expr.Unnested (.lambda params body) (.lambda params body')
  | jsonObject {members members' : List Member} (h : Member.UnnestedAll members members') :
    Expr.Unnested (.jsonObject members) (.jsonObject members')
  | jsonArray {values values' : List Expr} (h : Expr.UnnestedAll values values') :
    Expr.Unnested (.jsonArray values) (.jsonArray values')
  | dataObject {members members' : List Member} (ty : ClassType)
    (h : Member.UnnestedAll members members') :
    Expr.Unnested (.dataObject ty members) (.dataObject ty members')
  | valueOf {inner inner' : Expr} (kind : ValueKind) (h : Expr.Unnested inner inner') :
    Expr.Unnested (.valueOf kind inner) (.valueOf kind inner')
  | dataAssign {object object' value value' : Expr} (name : String)
    (ho : Expr.Unnested object object') (hv : Expr.Unnested value value') :
    Expr.Unnested (.dataAssign object name value) (.dataAssign object' name value')
  | dataMember {object object' : Expr} (name : String) (h : Expr.Unnested object object') :
    Expr.Unnested (.dataMember object name) (.dataMember object' name)
  | jsonAssign {object object' name name' value value' : Expr} (ho : Expr.Unnested object object')
    (hn : Expr.Unnested name name') (hv : Expr.Unnested value value') :
    Expr.Unnested (.jsonAssign object name value) (.jsonAssign object' name' value')
  | jsonMember {object object' name name' : Expr} (ho : Expr.Unnested object object')
    (hn : Expr.Unnested name name') :
    Expr.Unnested (.jsonMember object name) (.jsonMember object' name')
  | jsonObjectText {object object' : Expr} (h : Expr.Unnested object object') :
    Expr.Unnested (.jsonObjectText object) (.jsonObjectText object')
  | jsonArrayText {array array' : Expr} (h : Expr.Unnested array array') :
    Expr.Unnested (.jsonArrayText array) (.jsonArrayText array')
  | mapGet {map map' key key' : Expr} (hm : Expr.Unnested map map') (hk : Expr.Unnested key key') :
    Expr.Unnested (.mapGet map key) (.mapGet map' key')
  | mapForEach {map map' : Expr} {body body' : LambdaBody} (key value : Param)
    (hm : Expr.Unnested map map') (hb : LambdaBody.Unnested body body') :
    Expr.Unnested (.mapForEach map key value body) (.mapForEach map' key value body')
  | methodReference {receiver receiver' : Expr} (method : String)
    (h : Expr.Unnested receiver receiver') :
    Expr.Unnested (.methodReference receiver method) (.methodReference receiver' method)
  | console {message message' : Expr} (h : Expr.Unnested message message') :
    Expr.Unnested (.console message) (.console message')

inductive Expr.UnnestedAll : List Expr → List Expr → Prop
  | nil : Expr.UnnestedAll [] []
  | cons {expr expr' : Expr} {rest rest' : List Expr} (h : Expr.Unnested expr expr')
    (hr : Expr.UnnestedAll rest rest') : Expr.UnnestedAll (expr :: rest) (expr' :: rest')

inductive Expr.Unnested? : Option Expr → Option Expr → Prop
  | none : Expr.Unnested? none none
  | some {expr expr' : Expr} (h : Expr.Unnested expr expr') :
    Expr.Unnested? (some expr) (some expr')

inductive LambdaBody.Unnested : LambdaBody → LambdaBody → Prop
  | expr {value value' : Expr} (h : Expr.Unnested value value') :
    LambdaBody.Unnested (.expr value) (.expr value')
  | block {stmts stmts' : List Stmt} (h : Stmt.UnnestedAll stmts stmts') :
    LambdaBody.Unnested (.block stmts) (.block stmts')

inductive Member.Unnested : Member → Member → Prop
  | single {name name' value value' : Expr} (hn : Expr.Unnested name name')
    (hv : Expr.Unnested value value') : Member.Unnested (.single name value) (.single name' value')
  | array {name name' : Expr} {values values' : List Expr} (hn : Expr.Unnested name name')
    (hv : Expr.UnnestedAll values values') :
    Member.Unnested (.array name values) (.array name' values')

inductive Member.UnnestedAll : List Member → List Member → Prop
  | nil : Member.UnnestedAll [] []
  | cons {member member' : Member} {rest rest' : List Member} (h : Member.Unnested member member')
    (hr : Member.UnnestedAll rest rest') : Member.UnnestedAll (member :: rest) (member' :: rest')

/-- A block stays a block where it is the body of another statement. -/
inductive Stmt.Unnested : Stmt → Stmt → Prop
  | refl (stmt : Stmt) : Stmt.Unnested stmt stmt
  | block {stmts stmts' : List Stmt} (h : Stmt.UnnestedAll stmts stmts') :
    Stmt.Unnested (.block stmts) (.block stmts')
  | declare {init init' : Option Expr} (ty : TypeInfo) (name : String)
    (h : Expr.Unnested? init init') :
    Stmt.Unnested (.declare ty name init) (.declare ty name init')
  | expr {value value' : Expr} (h : Expr.Unnested value value') :
    Stmt.Unnested (.expr value) (.expr value')
  | forLoop {init init' body body' : Stmt} {test test' update update' : Expr}
    (hi : Stmt.Unnested init init') (ht : Expr.Unnested test test')
    (hu : Expr.Unnested update update') (hb : Stmt.Unnested body body') :
    Stmt.Unnested (.forLoop init test update body) (.forLoop init' test' update' body')
  | forEach {iterable iterable' : Expr} {body body' : Stmt} (name : String)
    (hi : Expr.Unnested iterable iterable') (hb : Stmt.Unnested body body') :
    Stmt.Unnested (.forEach name iterable body) (.forEach name iterable' body')
  | throwNew {reason reason' : Option Expr} (exception : String)
    (h : Expr.Unnested? reason reason') :
    Stmt.Unnested (.throwNew exception reason) (.throwNew exception reason')
  | returnWith {value value' : Option Expr} (h : Expr.Unnested? value value') :
    Stmt.Unnested (.returnWith value) (.returnWith value')
  | ifElse {test test' : Expr} {consequent consequent' : Stmt}
    {alternative alternative' : Option Stmt} (ht : Expr.Unnested test test')
    (hc : Stmt.Unnested consequent consequent')
    (ha : Stmt.Unnested? alternative alternative') :
    Stmt.Unnested (.ifElse test consequent alternative) (.ifElse test' consequent' alternative')
  | whileLoop {test test' : Expr} {body body' : Stmt} (ht : Expr.Unnested test test')
    (hb : Stmt.Unnested body body') :
    Stmt.Unnested (.whileLoop test body) (.whileLoop test' body')

inductive Stmt.Unnested? : Option Stmt → Option Stmt → Prop
  | none : Stmt.Unnested? none none
  | some {stmt stmt' : Stmt} (h : Stmt.Unnested stmt stmt') :
    Stmt.Unnested? (some stmt) (some stmt')

/-- In a list, a block with statements may be replaced by them. -/
inductive Stmt.UnnestedAll : List Stmt → List Stmt → Prop
  | nil : Stmt.UnnestedAll [] []
  | cons {stmt stmt' : Stmt} {rest rest' : List Stmt} (hs : Stmt.Unnested stmt stmt')
    (hr : Stmt.UnnestedAll rest rest') : Stmt.UnnestedAll (stmt :: rest) (stmt' :: rest')
  | splice {stmt : Stmt} {stmts rest rest' : List Stmt} (hs : Stmt.Unnested stmt (.block stmts))
    (hn : stmts ≠ []) (hr : Stmt.UnnestedAll rest rest') :
    Stmt.UnnestedAll (stmt :: rest) (stmts ++ rest')

end

def Program.Unnested (first second : Program) : Prop :=
  Stmt.UnnestedAll first.body second.body

/-! What a construct looks like from outside does not change. -/
namespace Expr.Unnested

variable {expr expr' : Expr}

theorem isStringPart (h : expr.Unnested expr') : expr.isStringPart = expr'.isStringPart := by
  cases h with
  | binary op concat _ _ => cases op <;> cases concat <;> rfl
  | _ => rfl

theorem isLuaStatement (h : expr.Unnested expr') :
    expr.isLuaStatement = expr'.isLuaStatement := by
  cases h <;> rfl

theorem isApiType (h : expr.Unnested expr') : expr.isApiType = expr'.isApiType := by
  cases h <;> rfl

theorem stringKey? (h : expr.Unnested expr') : expr.stringKey? = expr'.stringKey? := by
  cases h <;> rfl

theorem isTruthy : {expr expr' : Expr} → expr.Unnested expr' → expr.isTruthy = expr'.isTruthy
  | _, _, h => by
    cases h with
    | parens h => exact h.isTruthy
    | _ => rfl

end Expr.Unnested

theorem LambdaBody.Unnested.sameForm {body body' : LambdaBody} (h : body.Unnested body') :
    body.SameForm body' := by
  cases h with
  | expr hv => exact .expr hv.isLuaStatement
  | block _ => exact .block _ _

theorem Stmt.Unnested.sameForm {stmt stmt' : Stmt} (h : stmt.Unnested stmt') :
    stmt.SameForm stmt' := by
  cases h <;> exact ⟨rfl, rfl⟩

/-- Written alike, both as an expression and as the update of a loop. -/
structure Expr.Alike (style : Style) (expr expr' : Expr) : Prop where
  doc : Doc.Alike style.dialect (expr.doc style) (expr'.doc style)
  update : Doc.Alike style.dialect (expr.updateDoc style) (expr'.updateDoc style)

/-- Only operators have a notation of their own as updates. -/
theorem Expr.Alike.of_doc {style : Style} {expr expr' : Expr}
    (he : expr.updateDoc style = expr.doc style) (he' : expr'.updateDoc style = expr'.doc style)
    (hd : Doc.Alike style.dialect (expr.doc style) (expr'.doc style)) :
    Expr.Alike style expr expr' :=
  ⟨hd, by rwa [he, he']⟩

open Doc (Alike) in
mutual

theorem Expr.Unnested.alike (style : Style) : {expr expr' : Expr} → expr.Unnested expr' →
    Expr.Alike style expr expr'
  | _, _, .refl _ => ⟨.refl _, .refl _⟩
  | _, _, .binary op concat hl hr => .of_doc rfl rfl <| by
    rw [Expr.doc, Expr.doc, hl.isStringPart, hr.isStringPart]
    exact .binary style op concat _ _ (hl.alike style).doc (hr.alike style).doc
  | _, _, .unary op h => ⟨.unary op (h.alike style).doc, .update op (h.alike style).doc⟩
  | _, _, .parens h => .of_doc rfl rfl (.parens (h.alike style).doc)
  | _, _, .member name h => .of_doc rfl rfl (.member (h.alike style).doc name)
  | _, _, .assign ht hv => .of_doc rfl rfl (.assign (ht.alike style).doc (hv.alike style).doc)
  | _, _, .conditional ht hc ha => .of_doc rfl rfl <| by
    rw [Expr.doc, Expr.doc, hc.isTruthy]
    exact .conditional _ (ht.alike style).doc (hc.alike style).doc (ha.alike style).doc
  | _, _, .call method .none ha => .of_doc rfl rfl (.call .none method (ha.alike style))
  | _, _, .call method (.some hr) ha => .of_doc rfl rfl <| by
    rw [Expr.doc, Expr.doc, hr.isApiType]
    exact .call (.some (.append (hr.alike style).doc (.refl _))) method (ha.alike style)
  | _, _, .construct ty ha => .of_doc rfl rfl (.construct ty (ha.alike style))
  | _, _, .lambda params h => .of_doc rfl rfl (.lambda params h.sameForm (h.alike style))
  | _, _, .jsonObject h => .of_doc rfl rfl (.jsonObject (h.alike style _ _))
  | _, _, .jsonArray h => .of_doc rfl rfl (.jsonArray (h.alike style))
  | _, _, .dataObject ty h => .of_doc rfl rfl (.dataObject (h.alike style _ _))
  | _, _, .valueOf kind h => .of_doc rfl rfl (h.alike style).doc
  | _, _, .dataAssign name ho hv =>
    .of_doc rfl rfl (.assign (.member (ho.alike style).doc name) (hv.alike style).doc)
  | _, _, .dataMember name h => .of_doc rfl rfl (.member (h.alike style).doc name)
  | _, _, .jsonAssign ho hn hv =>
    .of_doc rfl rfl
      (.jsonAssign (ho.alike style).doc hn.stringKey? (hn.alike style).doc (hv.alike style).doc)
  | _, _, .jsonMember ho hn =>
    .of_doc rfl rfl (.jsonMember (ho.alike style).doc hn.stringKey? (hn.alike style).doc)
  | _, _, .jsonObjectText h => .of_doc rfl rfl (.jsonText (h.alike style).doc)
  | _, _, .jsonArrayText h => .of_doc rfl rfl (.jsonText (h.alike style).doc)
  | _, _, .mapGet hm hk => .of_doc rfl rfl (.mapGet (hm.alike style).doc (hk.alike style).doc)
  | _, _, .mapForEach key value hm hb =>
    .of_doc rfl rfl (.mapForEach (hm.alike style).doc key value hb.sameForm (hb.alike style))
  | _, _, .methodReference method h =>
    .of_doc rfl rfl (.methodReference (h.alike style).doc method)
  | _, _, .console h => .of_doc rfl rfl (.console (h.alike style).doc)

theorem Expr.UnnestedAll.alike (style : Style) : {exprs exprs' : List Expr} →
    Expr.UnnestedAll exprs exprs' →
    List.Forall₂ (Alike style.dialect) (Expr.docs style exprs) (Expr.docs style exprs')
  | _, _, .nil => .nil
  | _, _, .cons h hr => .cons (h.alike style).doc (hr.alike style)

theorem Expr.Unnested?.alike (style : Style) : {expr expr' : Option Expr} →
    Expr.Unnested? expr expr' →
    Option.Rel (Alike style.dialect) (Expr.doc? style expr) (Expr.doc? style expr')
  | _, _, .none => .none
  | _, _, .some h => .some (h.alike style).doc

theorem LambdaBody.Unnested.alike (style : Style) : {body body' : LambdaBody} →
    body.Unnested body' → Alike style.dialect (body.doc style) (body'.doc style)
  | _, _, .expr h => (h.alike style).doc
  | _, _, .block h => .block (h.run_lines style)

theorem Member.Unnested.alike (style : Style) (unquote : Bool) (containers : Containers) :
    {member member' : Member} → member.Unnested member' →
    Alike style.dialect (member.doc style unquote containers)
      (member'.doc style unquote containers)
  | _, _, .single hn hv =>
    .entry containers (.key unquote hn.stringKey? (hn.alike style).doc) (hv.alike style).doc
  | _, _, .array hn hv =>
    .entry containers (.key unquote hn.stringKey? (hn.alike style).doc)
      (.array containers (hv.alike style))

theorem Member.UnnestedAll.alike (style : Style) (unquote : Bool) (containers : Containers) :
    {members members' : List Member} → Member.UnnestedAll members members' →
    List.Forall₂ (Alike style.dialect) (Member.docs style unquote containers members)
      (Member.docs style unquote containers members')
  | _, _, .nil => .nil
  | _, _, .cons h hr =>
    .cons (h.alike style unquote containers) (hr.alike style unquote containers)

theorem Stmt.Unnested.alike (style : Style) : {stmt stmt' : Stmt} → stmt.Unnested stmt' →
    Alike style.dialect (stmt.doc style) (stmt'.doc style)
  | _, _, .refl stmt => .refl _
  | _, _, .block h => .block (h.run_lines style)
  | _, _, .declare ty name h => .declare ty name (h.alike style)
  | _, _, .expr h => (h.alike style).doc
  | _, _, .forLoop hi ht hu hb => by
    rw [Stmt.doc_forLoop, Stmt.doc_forLoop]
    exact .forLoop (hi.alike style) (ht.alike style).doc (hu.alike style).update
      (.body hb.sameForm (hb.alike style))
  | _, _, .forEach name hi hb =>
    .forEach name (hi.alike style).doc (.body hb.sameForm (hb.alike style))
  | _, _, .throwNew exception h => .throwNew exception (h.alike style)
  | _, _, .returnWith h => .returnWith (h.alike style)
  | _, _, .ifElse ht hc .none =>
    .ifElse (ht.alike style).doc (.body hc.sameForm (hc.alike style)) .none
  | _, _, .ifElse ht hc (.some ha) =>
    .ifElse (ht.alike style).doc (.body hc.sameForm (hc.alike style))
      (.some ⟨ha.sameForm, ha.alike style⟩)
  | _, _, .whileLoop ht hb =>
    .whileLoop (ht.alike style).doc (.body hb.sameForm (hb.alike style))

theorem Stmt.UnnestedAll.run_lines (style : Style) : {stmts stmts' : List Stmt} →
    Stmt.UnnestedAll stmts stmts' →
    Stroke.run style.dialect (Stmt.lines style stmts).strokes =
      Stroke.run style.dialect (Stmt.lines style stmts').strokes
  | _, _, .nil => rfl
  | _, _, .cons hs hr =>
    Stroke.run_append_congr (Doc.Alike.line (hs.alike style)).whole (hr.run_lines style)
  | _, _, .splice hs hn hr =>
    -- First the block stays, then it gives way to what it holds.
    (Stroke.run_append_congr (Doc.Alike.line (hs.alike style)).whole (hr.run_lines style)).trans
      (funext fun _ => Stmt.run_lines_block style _ (.inl hn))

end

namespace Stmt

theorem unnestedAll_refl (stmts : List Stmt) : UnnestedAll stmts stmts := by
  induction stmts with
  | nil => exact .nil
  | cons stmt rest ih => exact .cons (.refl stmt) ih

/-- One block at any place of a list. -/
theorem unnestedAll_nested (first : List Stmt) {stmts : List Stmt} (hs : stmts ≠ [])
    (rest : List Stmt) :
    UnnestedAll (first ++ [.block stmts] ++ rest) (first ++ stmts ++ rest) := by
  induction first with
  | nil => exact .splice (.refl _) hs (unnestedAll_refl rest)
  | cons stmt first ih => exact .cons (.refl stmt) ih

end Stmt

namespace Session

variable (session : Session)

/-- Blocks leave no trace in a statement list, on any page and with any imports. An empty one at the
front of the list only ends the line that is open, and everywhere in a program a block that is not
empty may give way to its statements. -/
theorem nested_blocks_are_transparent :
    (∀ (pass : Pass) (first stmts rest : List Stmt),
      stmts ≠ [] ∨ first ≠ [] ∨ pass.page.atLineStart = true →
        ((Stmt.block (first ++ [.block stmts] ++ rest)).doc session.style).play
            session.dialect pass =
          ((Stmt.block (first ++ stmts ++ rest)).doc session.style).play session.dialect pass) ∧
    (∀ (pass : Pass) (rest : List Stmt),
      ((Stmt.block ([.block []] ++ rest)).doc session.style).play session.dialect pass =
        ((Stmt.block rest).doc session.style).play session.dialect
          { pass with page := pass.page.freshLine }) ∧
    (∀ program other : Program, program.Unnested other →
      session.render program = session.render other) ∧
    ∀ expr other : Expr, expr.Unnested other →
      session.renderExpr expr = session.renderExpr other := by
  refine ⟨fun pass first stmts rest h => ?_, fun pass rest => ?_, fun program other h => ?_,
    fun expr other h => ?_⟩
  · exact Doc.play_block_congr rfl (Stmt.run_lines_nested session.style rest h)
  · -- The only stroke of an empty block is the one that ends its line.
    exact Doc.play_block_congr (Page.freshLine_depth pass.page).symm rfl
  · have hl : Stroke.run session.dialect (Stmt.lines session.style program.body).strokes =
        Stroke.run session.dialect (Stmt.lines session.style other.body).strokes :=
      Stmt.UnnestedAll.run_lines session.style h
    rw [render_eq, render_eq, bodyRun, bodyRun, hl]
  · have hd : Stroke.run session.dialect (expr.doc session.style).strokes =
        Stroke.run session.dialect (other.doc session.style).strokes :=
      (h.alike session.style).doc.whole
    rw [renderExpr_eq, renderExpr_eq, exprRun, exprRun, hd]

/-- A loop around a closure of these statements. -/
def nestedLoop (stmts : List Stmt) : Program :=
  ⟨[.whileLoop (.literal (.bool true)) (.block [.expr (.lambda [] (.block stmts))])]⟩

theorem nested_blocks_are_transparent_nestedLoop :
    let session : Session := { dialect := .lua }
    let nested := nestedLoop [.block [.block [.breakLoop], .returnWith none]]
    let flat := nestedLoop [.breakLoop, .returnWith none]
    nested.Unnested flat ∧ session.render nested = session.render flat ∧
      (session.render flat).1 =
        .ok "while true do\n  function()\n    break\n    return\n  end\nend\n" := by
  intro session nested flat
  have hi : Stmt.UnnestedAll [.block [.breakLoop], .returnWith none]
      [.breakLoop, .returnWith none] :=
    Stmt.unnestedAll_nested [] (List.cons_ne_nil _ _) [.returnWith none]
  have hs : Stmt.UnnestedAll [.block [.block [.breakLoop], .returnWith none]]
      [.breakLoop, .returnWith none] :=
    .splice (.block hi) (List.cons_ne_nil _ _) .nil
  have hu : nested.Unnested flat :=
    .cons (.whileLoop (.refl _) (.block (.cons (.expr (.lambda [] (.block hs))) .nil))) .nil
  exact ⟨hu, session.nested_blocks_are_transparent.2.2.1 nested flat hu, by decide +kernel⟩

end Session

end Polyglot
