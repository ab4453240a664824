import Mathlib.Tactic.Common
import Polyglot.Tree.Equality

/-! The structural comparison of trees decides their equality. -/
namespace Polyglot

namespace Compared

variable {α β : Type} {f g : α → β} {x y : α} {p q : Bool}

/-- The first part of a tree. -/
theorem first (hx : p = true → x = y) (h : p = true) : f x = f y :=
  congrArg f (hx h)

/-- A further part, where the parts before it have been compared. -/
theorem next (hf : p = true → f = g) (hx : q = true → x = y) (h : (p && q) = true) :
    f x = g y := by
  obtain ⟨hp, hq⟩ := Bool.and_eq_true_iff.mp h
  rw [hf hp, hx hq]

theorem both (hp : p = true) (hq : q = true) : (p && q) = true :=
  Bool.and_eq_true_iff.mpr ⟨hp, hq⟩

end Compared

open Compared (first next both)

mutual

theorem TypeInfo.eq_of_same : (a b : TypeInfo) → a.same b = true → a = b
  | .void, .void, _ => rfl
  | .primitive _, .primitive _, h | .ofClass _, .ofClass _, h => first eq_of_beq h
  | .generic _ args, .generic _ args', h =>
    next (first eq_of_beq) (TypeInfo.eq_of_sameList args args') h

theorem TypeInfo.eq_of_sameList : (a b : List TypeInfo) → TypeInfo.sameList a b = true → a = b
  | [], [], _ => rfl
  | ty :: rest, ty' :: rest', h =>
    next (first (ty.eq_of_same ty')) (TypeInfo.eq_of_sameList rest rest') h

end

mutual

theorem TypeInfo.same_refl : (ty : TypeInfo) → ty.same ty = true
  | .void => rfl
  | .primitive _ | .ofClass _ => BEq.rfl
  | .generic _ args => both BEq.rfl (TypeInfo.sameList_refl args)

theorem TypeInfo.sameList_refl : (types : List TypeInfo) → TypeInfo.sameList types types = true
  | [] => rfl
  | ty :: rest => both ty.same_refl (TypeInfo.sameList_refl rest)

end

theorem Param.eq_of_same : (a b : Param) → a.same b = true → a = b
  | ⟨_, ty⟩, ⟨_, ty'⟩, h => next (first eq_of_beq) (ty.eq_of_same ty') h

theorem Param.eq_of_sameList : (a b : List Param) → Param.sameList a b = true → a = b
  | [], [], _ => rfl
  | param :: rest, param' :: rest', h =>
    next (first (param.eq_of_same param')) (Param.eq_of_sameList rest rest') h

theorem Param.same_refl (param : Param) : param.same param = true :=
  both BEq.rfl param.ty.same_refl

theorem Param.sameList_refl : (params : List Param) → Param.sameList params params = true
  | [] => rfl
  | param :: rest => both param.same_refl (Param.sameList_refl rest)

mutual

/-- Only trees of one constructor can be the same, and then part by part. -/
theorem Expr.eq_of_same : (a b : Expr) → a.same b = true → a = b
  | .this, b, h => by
    cases b <;> try contradiction
    rfl
  | .literal _, b, h | .ident _, b, h | .apiType _, b, h | .asyncResult _, b, h => by
    cases b <;> try contradiction
    exact first eq_of_beq h
  | .enumConstant _ _, b, h => by
    cases b <;> try contradiction
    exact next (first eq_of_beq) eq_of_beq h
  | .parens inner, b, h | .jsonObjectText inner, b, h | .jsonArrayText inner, b, h
  | .console inner, b, h => by
    cases b <;> try contradiction
    exact first (inner.eq_of_same _) h
  | .member inner _, b, h | .dataMember inner _, b, h | .methodReference inner _, b, h => by
    cases b <;> try contradiction
    exact next (first (inner.eq_of_same _)) eq_of_beq h
  | .unary _ inner, b, h | .valueOf _ inner, b, h => by
    cases b <;> try contradiction
    exact next (first eq_of_beq) (inner.eq_of_same _) h
  | .assign left right, b, h | .jsonMember left right, b, h | .mapGet left right, b, h => by
    cases b <;> try contradiction
    exact next (first (left.eq_of_same _)) (right.eq_of_same _) h
  | .dataAssign left _ right, b, h => by
    cases b <;> try contradiction
    exact next (next (first (left.eq_of_same _)) eq_of_beq) (right.eq_of_same _) h
  | .binary left _ right _, b, h => by
    cases b <;> try contradiction
    exact next (next (next (first (left.eq_of_same _)) eq_of_beq) (right.eq_of_same _)) eq_of_beq h
  | .conditional left middle right, b, h | .jsonAssign left middle right, b, h => by
    cases b <;> try contradiction
    exact next (next (first (left.eq_of_same _)) (middle.eq_of_same _)) (right.eq_of_same _) h
  | .call receiver _ args, b, h => by
    cases b <;> try contradiction
    exact next (next (first (Expr.eq_of_sameOption receiver _)) eq_of_beq)
      (Expr.eq_of_sameList args _) h
  | .construct ty args, b, h => by
    cases b <;> try contradiction
    exact next (first (ty.eq_of_same _)) (Expr.eq_of_sameList args _) h
  | .lambda params body, b, h => by
    cases b <;> try contradiction
    exact next (first (Param.eq_of_sameList params _)) (body.eq_of_same _) h
  | .jsonObject members, b, h => by
    cases b <;> try contradiction
    exact first (Member.eq_of_sameList members _) h
  | .jsonArray values, b, h => by
    cases b <;> try contradiction
    exact first (Expr.eq_of_sameList values _) h
  | .dataObject _ members, b, h => by
    cases b <;> try contradiction
    exact next (first eq_of_beq) (Member.eq_of_sameList members _) h
  | .mapForEach map key value body, b, h => by
    cases b <;> try contradiction
    exact next (next (next (first (map.eq_of_same _)) (key.eq_of_same _)) (value.eq_of_same _))
      (body.eq_of_same _) h
termination_by structural a => a

theorem Expr.eq_of_sameList : (a b : List Expr) → Expr.sameList a b = true → a = b
  | [], [], _ => rfl
  | expr :: rest, expr' :: rest', h =>
    next (first (expr.eq_of_same expr')) (Expr.eq_of_sameList rest rest') h
termination_by structural a => a

theorem Expr.eq_of_sameOption : (a b : Option Expr) → Expr.sameOption a b = true → a = b
  | none, none, _ => rfl
  | some expr, some expr', h => first (expr.eq_of_same expr') h
termination_by structural a => a

theorem LambdaBody.eq_of_same : (a b : LambdaBody) → a.same b = true → a = b
  | .expr value, .expr value', h => first (value.eq_of_same value') h
  | .block stmts, .block stmts', h => first (Stmt.eq_of_sameList stmts stmts') h
termination_by structural a => a

theorem Member.eq_of_same : (a b : Member) → a.same b = true → a = b
  | .single name value, .single name' value', h =>
    next (first (name.eq_of_same name')) (value.eq_of_same value') h
  | .array name values, .array name' values', h =>
    next (first (name.eq_of_same name')) (Expr.eq_of_sameList values values') h
termination_by structural a => a

theorem Member.eq_of_sameList : (a b : List Member) → Member.sameList a b = true → a = b
  | [], [], _ => rfl
  | member :: rest, member' :: rest', h =>
    next (first (member.eq_of_same member')) (Member.eq_of_sameList rest rest') h
termination_by structural a => a

theorem Stmt.eq_of_same : (a b : Stmt) → a.same b = true → a = b
  | .breakLoop, b, h | .continueLoop, b, h => by
    cases b <;> try contradiction
    rfl
  | .block stmts, b, h => by
    cases b <;> try contradiction
    exact first (Stmt.eq_of_sameList stmts _) h
  | .expr value, b, h => by
    cases b <;> try contradiction
    exact first (value.eq_of_same _) h
  | .returnWith value, b, h => by
    cases b <;> try contradiction
    exact first (Expr.eq_of_sameOption value _) h
  | .throwNew _ value, b, h => by
    cases b <;> try contradiction
    exact next (first eq_of_beq) (Expr.eq_of_sameOption value _) h
  | .declare ty _ value, b, h => by
    cases b <;> try contradiction
    exact next (next (first (ty.eq_of_same _)) eq_of_beq) (Expr.eq_of_sameOption value _) h
  | .whileLoop value body, b, h => by
    cases b <;> try contradiction
    exact next (first (value.eq_of_same _)) (body.eq_of_same _) h
  | .forEach _ value body, b, h => by
    cases b <;> try contradiction
    exact next (next (first eq_of_beq) (value.eq_of_same _)) (body.eq_of_same _) h
  | .ifElse test consequent alternative, b, h => by
    cases b <;> try contradiction
    exact next (next (first (test.eq_of_same _)) (consequent.eq_of_same _))
      (Stmt.eq_of_sameOption alternative _) h
  | .forLoop init test update body, b, h => by
    cases b <;> try contradiction
    exact next (next (next (first (init.eq_of_same _)) (test.eq_of_same _)) (update.eq_of_same _))
      (body.eq_of_same _) h
termination_by structural a => a

theorem Stmt.eq_of_sameList : (a b : List Stmt) → Stmt.sameList a b = true → a = b
  | [], [], _ => rfl
  | stmt :: rest, stmt' :: rest', h =>
    next (first (stmt.eq_of_same stmt')) (Stmt.eq_of_sameList rest rest') h
termination_by structural a => a

theorem Stmt.eq_of_sameOption : (a b : Option Stmt) → Stmt.sameOption a b = true → a = b
  | none, none, _ => rfl
  | some stmt, some stmt', h => first (stmt.eq_of_same stmt') h
termination_by structural a => a

end

mutual

theorem Expr.same_refl : (expr : Expr) → expr.same expr = true
  | .this => rfl
  | .literal _ | .ident _ | .apiType _ | .asyncResult _ => BEq.rfl
  | .enumConstant _ _ => both BEq.rfl BEq.rfl
  | .parens inner | .jsonObjectText inner | .jsonArrayText inner | .console inner =>
    inner.same_refl
  | .member inner _ | .dataMember inner _ | .methodReference inner _ =>
    both inner.same_refl BEq.rfl
  | .unary _ inner | .valueOf _ inner => both BEq.rfl inner.same_refl
  | .assign left right | .jsonMember left right | .mapGet left right =>
    both left.same_refl right.same_refl
  | .dataAssign left _ right => both (both left.same_refl BEq.rfl) right.same_refl
  | .binary left _ right _ => both (both (both left.same_refl BEq.rfl) right.same_refl) BEq.rfl
  | .conditional left middle right | .jsonAssign left middle right =>
    both (both left.same_refl middle.same_refl) right.same_refl
  | .call receiver _ args =>
    both (both (Expr.sameOption_refl receiver) BEq.rfl) (Expr.sameList_refl args)
  | .construct ty args => both ty.same_refl (Expr.sameList_refl args)
  | .lambda params body => both (Param.sameList_refl params) body.same_refl
  | .jsonObject members => Member.sameList_refl members
  | .jsonArray values => Expr.sameList_refl values
  | .dataObject _ members => both BEq.rfl (Member.sameList_refl members)
  | .mapForEach map key value body =>
    both (both (both map.same_refl key.same_refl) value.same_refl) body.same_refl

theorem Expr.sameList_refl : (exprs : List Expr) → Expr.sameList exprs exprs = true
  | [] => rfl
  | expr :: rest => both expr.same_refl (Expr.sameList_refl rest)

theorem Expr.sameOption_refl : (expr : Option Expr) → Expr.sameOption expr expr = true
  | none => rfl
  | some expr => expr.same_refl

theorem LambdaBody.same_refl : (body : LambdaBody) → body.same body = true
  | .expr value => value.same_refl
  | .block stmts => Stmt.sameList_refl stmts

theorem Member.same_refl : (member : Member) → member.same member = true
  | .single name value => both name.same_refl value.same_refl
  | .array name values => both name.same_refl (Expr.sameList_refl values)

theorem Member.sameList_refl : (members : List Member) → Member.sameList members members = true
  | [] => rfl
  | member :: rest => both member.same_refl (Member.sameList_refl rest)

theorem Stmt.same_refl : (stmt : Stmt) → stmt.same stmt = true
  | .breakLoop | .continueLoop => rfl
  | .block stmts => Stmt.sameList_refl stmts
  | .expr value => value.same_refl
  | .returnWith value => Expr.sameOption_refl value
  | .throwNew _ value => both BEq.rfl (Expr.sameOption_refl value)
  | .declare ty _ value => both (both ty.same_refl BEq.rfl) (Expr.sameOption_refl value)
  | .whileLoop value body => both value.same_refl body.same_refl
  | .forEach _ value body => both (both BEq.rfl value.same_refl) body.same_refl
  | .ifElse test consequent alternative =>
    both (both test.same_refl consequent.same_refl) (Stmt.sameOption_refl alternative)
  | .forLoop init test update body =>
    both (both (both init.same_refl test.same_refl) update.same_refl) body.same_refl

theorem Stmt.sameList_refl : (stmts : List Stmt) → Stmt.sameList stmts stmts = true
  | [] => rfl
  | stmt :: rest => both stmt.same_refl (Stmt.sameList_refl rest)

theorem Stmt.sameOption_refl : (stmt : Option Stmt) → Stmt.sameOption stmt stmt = true
  | none => rfl
  | some stmt => stmt.same_refl

end

theorem Expr.same_iff (a b : Expr) : a.same b = true ↔ a = b := by
  constructor
  · exact a.eq_of_same b
  · rintro rfl
    exact a.same_refl

end Polyglot
