import Polyglot.Proofs.DataObjects
import Polyglot.Proofs.Decoded

/-! No data object with a repeated name is built from its members or read from a text. -/
namespace Polyglot

namespace Decode

open Place (AllDistinct allDistinct_nil allDistinct_cons allDistinct_append distinct_stmt
  distinct_update allDistinct_exprs allDistinct_option allDistinct_members allDistinct_stmts
  allDistinct_ifElse)

/-- All data objects in a value have different names. -/
def Distinct : Property
  | .expr, value => value.Distinct
  | .stmt, stmt => stmt.Distinct
  | .lambdaBody, body => body.Distinct
  | .member, member => member.Distinct
  | .memberValue, .inl value => value.Distinct
  | .memberValue, .inr values => ∀ value ∈ values, value.Distinct
  | .dataObject, object => object.expr.Distinct
  | .program, program => program.Distinct
  | .classKind, _ | .classType, _ | .typeInfo, _ | .literal, _ | .binaryOp, _ | .unaryOp, _
  | .param, _ => True

theorem exprVariants_keep : ∀ variant ∈ exprVariants, variant.2.Keeps Distinct Expr.Distinct := by
  -- Both sides come down to the places of the parts. A data object is a part of its own expression.
  simp only [exprVariants, List.forall_mem_cons, List.not_mem_nil, Payload.Keeps, Row.Holds,
    Kind.Holds, Distinct, Expr.distinct_iff, Place.Distinct, Place.dataObject?, LambdaBody.Distinct,
    Expr.inside, Expr.inside_call, allDistinct_nil, allDistinct_cons, allDistinct_append,
    allDistinct_exprs, allDistinct_option, allDistinct_members, reduceCtorEq, false_imp_iff,
    implies_true, true_and, and_true, and_assoc]

theorem stmtVariants_keep : ∀ variant ∈ stmtVariants, variant.2.Keeps Distinct Stmt.Distinct := by
  simp only [stmtVariants, List.forall_mem_cons, List.not_mem_nil, Payload.Keeps, Row.Holds,
    Kind.Holds, Distinct, allDistinct_ifElse, Stmt.Distinct, Expr.distinct_iff, Stmt.inside,
    allDistinct_nil, allDistinct_cons, allDistinct_append, allDistinct_stmts, allDistinct_option,
    distinct_stmt, distinct_update, reduceCtorEq, if_false, false_imp_iff, implies_true, true_and,
    and_true, and_assoc]

theorem member_keeps : Named.member.shape.Keeps Distinct Member.Distinct := by
  rintro ⟨name, value, ⟨⟩⟩ member hm
  obtain rfl := Except.ok.inj hm
  cases value with
  | inl value =>
    simp only [Member.Distinct, Member.inside, allDistinct_append, Row.Holds, Kind.Holds, Distinct,
      and_true]
    rfl
  | inr values =>
    simp only [Member.Distinct, Member.inside, allDistinct_append, allDistinct_exprs, Row.Holds,
      Kind.Holds, Distinct, and_true]
    rfl

/-- The members of a data object have been compared when it is made. -/
theorem dataObject_keeps : Named.dataObject.shape.Keeps Distinct (Distinct .dataObject) := by
  rintro ⟨ty, members, ⟨⟩⟩ object hm
  obtain ⟨rfl, hd⟩ := DataObject.ofMembers_eq_ok_iff.mp (mapError_eq_ok.mp hm)
  refine (DataObject.distinct_expr _).trans ((and_iff_right hd).trans ?_)
  simp only [Row.Holds, Kind.Holds, Distinct, true_and, and_true]

theorem shape_keeps (name : Named) : name.shape.Keeps Distinct (Distinct name) := by
  cases name with
  | expr => exact exprVariants_keep
  | stmt => exact stmtVariants_keep
  | member => exact member_keeps
  | dataObject => exact dataObject_keeps
  | lambdaBody =>
    simp only [Named.shape, Shape.Keeps, lambdaBodyVariants, List.forall_mem_cons, List.not_mem_nil,
      Payload.Keeps, Kind.Holds, Distinct, LambdaBody.Distinct, LambdaBody.inside,
      allDistinct_stmts, Expr.distinct_iff, allDistinct_cons, false_imp_iff, implies_true,
      and_true]
  | memberValue =>
    simp only [Named.shape, Shape.Keeps, memberValueVariants, List.forall_mem_cons,
      List.not_mem_nil, Payload.Keeps, Kind.Holds, Distinct, false_imp_iff, implies_true, and_true]
  | program =>
    rintro ⟨body, ⟨⟩⟩ program hm
    obtain rfl := Except.ok.inj hm
    exact (allDistinct_stmts body).trans (and_iff_left trivial).symm
  | param | classType =>
    intro row value hm
    simp [Row.Holds, Kind.Holds, Distinct]
  | _ =>
    simp [Named.shape, Shape.Keeps, classKindVariants, typeInfoVariants, literalVariants,
      binaryOpVariants, unaryOpVariants, Payload.Keeps, Kind.Holds, Row.Holds, Distinct]

end Decode

theorem Program.distinct_of_ofJson {text : String} {program : Program}
    (h : Program.ofJson text = .ok program) : program.Distinct :=
  Decode.ofText_holds Decode.shape_keeps h

namespace Member

theorem label_of_key {member : Member} {key : String} (h : member.name = .literal (.string key)) :
    member.label = key := by
  rw [label, h]

theorem label_of_no_key {member : Member} (h : ∀ key, member.name ≠ .literal (.string key)) :
    member.label = member.name.datum.outline := by
  unfold label
  split
  · next key hk => exact absurd hk (h key)
  · rfl

end Member

/-- Data objects are built from members with different names only, as they are given. The first
member that repeats a name is reported, by its key or by its outline. So the data objects of a
program that has been read have different names, wherever they stand. -/
theorem DataObject.memberNames_distinct :
    (∀ ty members object, DataObject.ofMembers ty members = .ok object ↔
      (members.map Member.name).Nodup ∧ object.ty = ty ∧ object.members = members) ∧
    (∀ ty members error, DataObject.ofMembers ty members = .error error ↔
      ∃ earlier member later, members = earlier ++ member :: later ∧
        (earlier.map Member.name).Nodup ∧ member.name ∈ earlier.map Member.name ∧
        error = .duplicateMember member.label) ∧
    (∀ member : Member,
      (∀ key, member.name = .literal (.string key) → member.label = key) ∧
      ((∀ key, member.name ≠ .literal (.string key)) →
        member.label = member.name.datum.outline)) ∧
    ∀ text program, Program.ofJson text = .ok program →
      ∀ object ∈ program.dataObjects, (object.members.map Member.name).Nodup := by
  refine ⟨fun ty members object => ?_, fun ty members error => ofMembers_eq_error_iff,
    fun member => ⟨fun key => Member.label_of_key, Member.label_of_no_key⟩,
    fun text program h => program.distinct_iff.mp (Program.distinct_of_ofJson h)⟩
  rw [ofMembers_eq_ok_iff]
  constructor
  · rintro ⟨rfl, hd⟩
    exact ⟨hd, rfl, rfl⟩
  · rintro ⟨hd, rfl, rfl⟩
    exact ⟨rfl, hd⟩

/-- A loop that updates a data object, one of whose members is named by another; the structures
are written as arrays. -/
def nestedObjects : String :=
  "[[\x7b\"For\":[\"Continue\",\"This\",\x7b\"DataObject\":[[\"Other\",\"\",\"\"]," ++
    "[[\x7b\"DataObject\":[[\"Other\",\"\",\"\"],[]]\x7d,\x7b\"Single\":\"This\"\x7d]," ++
    "[\"This\",\x7b\"Array\":[]\x7d]]]\x7d,\"Break\"]\x7d]]"

/-- Of members `x`, `y`, `x` and `y` the second `x` is reported. -/
theorem DataObject.memberNames_distinct_nestedObjects :
    let key (name : String) : Member := .single (.literal (.string name)) .this
    DataObject.ofMembers (.ofName .dataObject "geo.Point") [key "x", key "y", key "x", key "y"] =
      .error (.duplicateMember "x") ∧
    ∃ program, Program.ofJson nestedObjects = .ok program ∧ program.dataObjects.length = 2 ∧
      ∀ object ∈ program.dataObjects, (object.members.map Member.name).Nodup := by
  refine ⟨?_, ?_⟩
  · refine (memberNames_distinct.2.1 _ _ _).mpr
      ⟨[_, _], _, [_], rfl, ?_, List.mem_cons_self .., rfl⟩
    simp [Member.name]
  · have hl : (Program.ofJson nestedObjects).toOption.map (·.dataObjects.length) = some 2 := by
      decide +kernel
    cases hp : Program.ofJson nestedObjects with
    | error _ =>
      rw [hp] at hl
      contradiction
    | ok program =>
      rw [hp] at hl
      exact ⟨program, rfl, Option.some.inj hl, memberNames_distinct.2.2.2 _ _ hp⟩

end Polyglot
