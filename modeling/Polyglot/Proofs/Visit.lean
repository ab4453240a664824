import Polyglot.Layout
import Polyglot.Proofs.Marks

/-! The places of a program tree in the order in which a dialect visits them, and the marks that
a place makes. The document of a tree makes the marks of its places. -/
namespace Polyglot

/-- A place in a tree. -/
inductive Place where
  | expr (value : Expr)
  /-- The expression that updates a loop. -/
  | update (value : Expr)
  | stmt (value : Stmt)

mutual

/-- The places inside an expression, each in front of what is inside it. -/
def Expr.inside (dialect : Dialect) : Expr → List Place
  | .literal _ | .ident _ | .this | .enumConstant .. | .apiType _ | .asyncResult _ => []
  | .unary _ inner | .parens inner | .member inner _ | .valueOf _ inner | .dataMember inner _
  | .jsonObjectText inner | .jsonArrayText inner | .methodReference inner _ | .console inner =>
    .expr inner :: inner.inside dialect
  | .binary left _ right _ | .assign left right | .dataAssign left _ right
  | .jsonMember left right | .mapGet left right =>
    .expr left :: left.inside dialect ++ .expr right :: right.inside dialect
  | .conditional first second third | .jsonAssign first second third =>
    .expr first :: first.inside dialect ++ .expr second :: second.inside dialect ++
      .expr third :: third.inside dialect
  | .call none _ args | .construct _ args | .jsonArray args => Expr.insideAll dialect args
  | .call (some receiver) _ args =>
    .expr receiver :: receiver.inside dialect ++ Expr.insideAll dialect args
  | .lambda _ body => body.inside dialect
  | .jsonObject members | .dataObject _ members => Member.insideAll dialect members
  | .mapForEach map _ _ body => .expr map :: map.inside dialect ++ body.inside dialect

def Expr.insideAll (dialect : Dialect) : List Expr → List Place
  | [] => []
  | expr :: rest => .expr expr :: expr.inside dialect ++ Expr.insideAll dialect rest

def Expr.inside? (dialect : Dialect) : Option Expr → List Place
  | none => []
  | some expr => .expr expr :: expr.inside dialect

def LambdaBody.inside (dialect : Dialect) : LambdaBody → List Place
  | .expr value => .expr value :: value.inside dialect
  | .block stmts => Stmt.insideAll dialect stmts

def Member.inside (dialect : Dialect) : Member → List Place
  | .single name value =>
    .expr name :: name.inside dialect ++ .expr value :: value.inside dialect
  | .array name values => .expr name :: name.inside dialect ++ Expr.insideAll dialect values

def Member.insideAll (dialect : Dialect) : List Member → List Place
  | [] => []
  | member :: rest => member.inside dialect ++ Member.insideAll dialect rest

/-- On Lua the update of a loop stands behind its body. -/
def Stmt.inside (dialect : Dialect) : Stmt → List Place
  | .block stmts => Stmt.insideAll dialect stmts
  | .declare _ _ value | .throwNew _ value | .returnWith value => Expr.inside? dialect value
  | .expr value => .expr value :: value.inside dialect
  | .forLoop init test update body =>
    .stmt init :: init.inside dialect ++ .expr test :: test.inside dialect ++
      if dialect = .lua then
        .stmt body :: body.inside dialect ++ .update update :: update.inside dialect
      else .update update :: update.inside dialect ++ .stmt body :: body.inside dialect
  | .forEach _ value body | .whileLoop value body =>
    .expr value :: value.inside dialect ++ .stmt body :: body.inside dialect
  | .ifElse test consequent none =>
    .expr test :: test.inside dialect ++ .stmt consequent :: consequent.inside dialect
  | .ifElse test consequent (some alternative) =>
    .expr test :: test.inside dialect ++ .stmt consequent :: consequent.inside dialect ++
      .stmt alternative :: alternative.inside dialect
  | .breakLoop | .continueLoop => []

def Stmt.insideAll (dialect : Dialect) : List Stmt → List Place
  | [] => []
  | stmt :: rest => .stmt stmt :: stmt.inside dialect ++ Stmt.insideAll dialect rest

end

/-- All places of an expression, itself included. -/
def Expr.places (dialect : Dialect) (expr : Expr) : List Place :=
  .expr expr :: expr.inside dialect

def Program.places (dialect : Dialect) (program : Program) : List Place :=
  Stmt.insideAll dialect program.body

namespace Expr

/-- The construct that a dialect has no notation for, if the expression is one. -/
def refused? (dialect : Dialect) : Expr → Option Construct
  | .unary op _ => if dialect = .lua && op.isStep then some .stepOperator else none
  | .jsonObject _ => if dialect = .plain then some .jsonObjectLiteral else none
  | .jsonArray _ => if dialect = .plain then some .jsonArrayLiteral else none
  | .dataObject .. => if dialect = .plain then some .dataObjectLiteral else none
  | .jsonAssign .. => if dialect = .plain then some .jsonObjectAssignment else none
  | .jsonMember .. => if dialect = .plain then some .jsonObjectMemberAccess else none
  | .mapForEach .. => if dialect = .plain then some .mapIteration else none
  | _ => none

/-- The type that the expression itself refers to. -/
def referenced? : Expr → Option ClassType
  | .enumConstant ty _ | .apiType ty => some ty
  | .construct ty _ => ty.imported?
  | _ => none

end Expr

namespace Place

/-- A step is refused unless it updates a loop. -/
def refused? (dialect : Dialect) : Place → Option Construct
  | .update (.unary _ _) => none
  | .expr value | .update value => value.refused? dialect
  | .stmt .continueLoop => if dialect = .lua then some .continueStatement else none
  | .stmt _ => none

def referenced? : Place → Option ClassType
  | .expr value | .update value => value.referenced?
  | .stmt _ => none

/-- The plain notation refers to no types. -/
def mark? (dialect : Dialect) (place : Place) : Option Mark :=
  match place.refused? dialect, place.referenced? with
  | some construct, _ => some (.refusal construct)
  | none, some ty => if dialect = .plain then none else some (.reference ty)
  | none, none => none

def marks (dialect : Dialect) (places : List Place) : List Mark :=
  places.filterMap (mark? dialect)

variable {dialect : Dialect} {doc : Doc} {place : Place} {own : List Mark}
  {first second : List Mark} {places others : List Place}

theorem marks_of_none (h : place.mark? dialect = none) :
    marks dialect (place :: places) = marks dialect places :=
  List.filterMap_cons_none h

theorem marks_of_some {mark : Mark} (h : place.mark? dialect = some mark) :
    marks dialect (place :: places) = mark :: marks dialect places :=
  List.filterMap_cons_some h

theorem agree_append (h : Mark.Agree first (marks dialect places))
    (h' : Mark.Agree second (marks dialect others)) :
    Mark.Agree (first ++ second) (marks dialect (places ++ others)) := by
  rw [marks, List.filterMap_append]
  exact h.append h'

/-- A place without a mark of its own makes the marks of what is inside it. -/
theorem agree_inside (hd : doc.marks = own) (hp : place.mark? dialect = none)
    (h : Mark.Agree own (marks dialect places)) :
    Mark.Agree doc.marks (marks dialect (place :: places)) := by
  rw [hd, marks_of_none hp]
  exact h

/-- A refused place makes no mark but the refusal; elsewhere it has no mark of its own. -/
theorem agree_unless {p : Prop} [Decidable p] {construct : Construct}
    (hd : doc.marks = if p then [.refusal construct] else own)
    (hr : place.refused? dialect = if p then some construct else none)
    (hp : place.referenced? = none) (h : Mark.Agree own (marks dialect places)) :
    Mark.Agree doc.marks (marks dialect (place :: places)) := by
  by_cases hc : p
  · rw [if_pos hc] at hd hr
    have hm : place.mark? dialect = some (.refusal construct) := by simp only [mark?, hr]
    rw [hd, marks_of_some hm]
    exact .refusal construct (marks dialect places)
  · rw [if_neg hc] at hd hr
    exact agree_inside hd (by simp only [mark?, hr, hp]) h

/-- A place that refers to a type does so before anything inside it. -/
theorem agree_reference {ty : Option ClassType}
    (hd : doc.marks =
      (if dialect = .plain then [] else (ty.map Mark.reference).toList) ++ own)
    (hr : place.refused? dialect = none) (hp : place.referenced? = ty)
    (h : Mark.Agree own (marks dialect places)) :
    Mark.Agree doc.marks (marks dialect (place :: places)) := by
  have hm : marks dialect (place :: places) =
      (if dialect = .plain then [] else (ty.map Mark.reference).toList) ++
        marks dialect places := by
    cases ty with
    | none =>
      rw [marks_of_none (by simp only [mark?, hr, hp])]
      split_ifs <;> rfl
    | some ty =>
      have hm : place.mark? dialect =
          if dialect = .plain then none else some (.reference ty) := by
        simp only [mark?, hr, hp]
      split_ifs at hm ⊢ with hc
      · rw [marks_of_none hm, List.nil_append]
      · rw [marks_of_some hm]
        rfl
  rw [hd, hm]
  exact (Mark.Agree.refl _).append h

/-- The operand of a step that updates a loop may be written twice. -/
theorem agree_update (op : UnaryOp) (h : Mark.Agree doc.marks (marks dialect places)) :
    Mark.Agree (Phrase.update dialect op doc).marks (marks dialect places) := by
  rw [Phrase.marks_update]
  split_ifs
  · exact (Mark.Agree.twice doc.marks).trans h
  · exact h

end Place

/-- The document of the expression that updates a loop. -/
def Expr.updateDoc (style : Style) : Expr → Doc
  | .unary op operand => Phrase.update style.dialect op (operand.doc style)
  | update => update.doc style

theorem Stmt.doc_forLoop (style : Style) (init : Stmt) (test update : Expr) (body : Stmt) :
    (Stmt.forLoop init test update body).doc style =
      Phrase.forLoop style.dialect (init.doc style) (test.doc style) (update.updateDoc style)
        (Phrase.body body (body.doc style)) := by
  cases update <;> rfl

/-- The document of a string literal has no marks. -/
theorem Expr.marks_doc_of_stringKey (style : Style) (name : Expr) (text : String)
    (h : name.stringKey? = some text) : (name.doc style).marks = [] := by
  unfold Expr.stringKey? at h
  split at h
  · rw [Expr.doc, Phrase.marks_literal]
  · exact absurd h.symm (Option.some_ne_none text)

open Place (agree_inside agree_unless agree_reference agree_append agree_update) in
mutual

theorem Expr.agree_doc (style : Style) : (expr : Expr) →
    Mark.Agree (expr.doc style).marks
      (Place.marks style.dialect (.expr expr :: expr.inside style.dialect))
  | .literal value => agree_inside (by simp [Expr.doc]) rfl (.refl [])
  | .ident name => agree_inside rfl rfl (.refl [])
  | .this => agree_inside (by simp [Expr.doc]) rfl (.refl [])
  | .asyncResult name => agree_inside rfl rfl (.refl [])
  | .parens inner | .member inner _ | .valueOf _ inner | .dataMember inner _
  | .jsonObjectText inner | .jsonArrayText inner | .methodReference inner _ | .console inner =>
    agree_inside (by simp [Expr.doc]) rfl (inner.agree_doc style)
  | .unary op operand =>
    agree_unless (Phrase.marks_unary style.dialect op (operand.doc style)) rfl rfl
      (operand.agree_doc style)
  | .binary left _ right _ | .assign left right | .dataAssign left _ right | .mapGet left right =>
    agree_inside (by simp [Expr.doc]) rfl
      (agree_append (left.agree_doc style) (right.agree_doc style))
  | .conditional test consequent alternative =>
    agree_inside (Phrase.marks_conditional ..) rfl
      (agree_append (agree_append (test.agree_doc style) (consequent.agree_doc style))
        (alternative.agree_doc style))
  | .call none _ args => agree_inside (by simp [Expr.doc]) rfl (Expr.agree_docs style args)
  | .call (some receiver) _ args =>
    agree_inside (by simp [Expr.doc]) rfl
      (agree_append (receiver.agree_doc style) (Expr.agree_docs style args))
  | .construct ty args =>
    agree_reference (by simp [Expr.doc, Place.referenced?, Expr.referenced?]) rfl rfl
      (Expr.agree_docs style args)
  | .lambda _ body => agree_inside (by simp [Expr.doc]) rfl (body.agree_doc style)
  | .enumConstant ty _ | .apiType ty =>
    agree_reference (by simp [Expr.doc, Place.referenced?, Expr.referenced?]) rfl rfl (.refl [])
  | .jsonObject members =>
    agree_unless (Phrase.marks_jsonObject _ _) rfl rfl (Member.agree_docs style _ _ members)
  | .jsonArray values =>
    agree_unless (Phrase.marks_jsonArray _ _) rfl rfl (Expr.agree_docs style values)
  | .dataObject _ members =>
    agree_unless (Phrase.marks_dataObject _ _) rfl rfl (Member.agree_docs style _ _ members)
  | .jsonAssign object name value =>
    agree_unless (Phrase.marks_jsonAssign _ _ name _ _ (name.marks_doc_of_stringKey style)) rfl rfl
      (agree_append (agree_append (object.agree_doc style) (name.agree_doc style))
        (value.agree_doc style))
  | .jsonMember object name =>
    agree_unless (Phrase.marks_jsonMember _ _ name _ (name.marks_doc_of_stringKey style)) rfl rfl
      (agree_append (object.agree_doc style) (name.agree_doc style))
  | .mapForEach map _ _ body =>
    agree_unless (Phrase.marks_mapForEach ..) rfl rfl
      (agree_append (map.agree_doc style) (body.agree_doc style))

theorem Expr.agree_docs (style : Style) : (exprs : List Expr) →
    Mark.Agree ((Expr.docs style exprs).flatMap Doc.marks)
      (Place.marks style.dialect (Expr.insideAll style.dialect exprs))
  | [] => .refl []
  | expr :: rest => agree_append (expr.agree_doc style) (Expr.agree_docs style rest)

theorem Expr.agree_doc? (style : Style) : (expr : Option Expr) →
    Mark.Agree (Doc.marks? (Expr.doc? style expr))
      (Place.marks style.dialect (Expr.inside? style.dialect expr))
  | none => .refl []
  | some expr => expr.agree_doc style

theorem LambdaBody.agree_doc (style : Style) : (body : LambdaBody) →
    Mark.Agree (body.doc style).marks (Place.marks style.dialect (body.inside style.dialect))
  | .expr value => value.agree_doc style
  | .block stmts => Stmt.agree_lines style stmts

theorem Member.agree_doc (style : Style) (unquote : Bool) (containers : Containers) :
    (member : Member) → Mark.Agree (member.doc style unquote containers).marks
      (Place.marks style.dialect (member.inside style.dialect))
  | .single name value => by
    have hk := Phrase.marks_key style.dialect unquote name _ (name.marks_doc_of_stringKey style)
    rw [Member.doc, Phrase.marks_entry, hk]
    exact agree_append (name.agree_doc style) (value.agree_doc style)
  | .array name values => by
    have hk := Phrase.marks_key style.dialect unquote name _ (name.marks_doc_of_stringKey style)
    rw [Member.doc, Phrase.marks_entry, hk, Phrase.marks_array]
    exact agree_append (name.agree_doc style) (Expr.agree_docs style values)

theorem Member.agree_docs (style : Style) (unquote : Bool) (containers : Containers) :
    (members : List Member) →
      Mark.Agree ((Member.docs style unquote containers members).flatMap Doc.marks)
        (Place.marks style.dialect (Member.insideAll style.dialect members))
  | [] => .refl []
  | member :: rest =>
    agree_append (member.agree_doc style unquote containers)
      (Member.agree_docs style unquote containers rest)

theorem Stmt.agree_doc (style : Style) : (stmt : Stmt) →
    Mark.Agree (stmt.doc style).marks
      (Place.marks style.dialect (.stmt stmt :: stmt.inside style.dialect))
  | .block stmts => agree_inside rfl rfl (Stmt.agree_lines style stmts)
  | .declare _ _ value | .throwNew _ value | .returnWith value =>
    agree_inside (by simp [Stmt.doc]) rfl (Expr.agree_doc? style value)
  | .expr value => agree_inside rfl rfl (value.agree_doc style)
  | .forLoop init test update body => by
    have hi := init.agree_doc style
    have ht := test.agree_doc style
    have hb := body.agree_doc style
    -- A unary update is written in its own way; any other is written as an expression.
    have hu : Mark.Agree (update.updateDoc style).marks
        (Place.marks style.dialect (.update update :: update.inside style.dialect)) := by
      cases update with
      | unary op operand => exact agree_update op (operand.agree_doc style)
      | _ => exact Expr.agree_doc style _
    refine agree_inside (by rw [Stmt.doc_forLoop, Phrase.marks_forLoop, Phrase.marks_body]) rfl ?_
    refine agree_append (agree_append hi ht) ?_
    split_ifs
    · exact agree_append hb hu
    · exact agree_append hu hb
  | .forEach _ value body | .whileLoop value body =>
    agree_inside (by simp [Stmt.doc]) rfl
      (agree_append (value.agree_doc style) (body.agree_doc style))
  | .ifElse test consequent none =>
    agree_inside (by simp [Stmt.doc]) rfl
      (agree_append (test.agree_doc style) (consequent.agree_doc style))
  | .ifElse test consequent (some alternative) =>
    agree_inside (by simp only [Stmt.doc]; simp) rfl
      (agree_append (agree_append (test.agree_doc style) (consequent.agree_doc style))
        (alternative.agree_doc style))
  | .breakLoop => agree_inside rfl rfl (.refl [])
  | .continueLoop => agree_unless (Phrase.marks_continueLoop style.dialect) rfl rfl (.refl [])

theorem Stmt.agree_lines (style : Style) : (stmts : List Stmt) →
    Mark.Agree (Stmt.lines style stmts).marks
      (Place.marks style.dialect (Stmt.insideAll style.dialect stmts))
  | [] => .refl []
  | stmt :: rest => by
    rw [Stmt.lines, Doc.marks_append, Phrase.marks_line]
    exact agree_append (stmt.agree_doc style) (Stmt.agree_lines style rest)

end

end Polyglot
