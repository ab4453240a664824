import Mathlib.Data.List.Nodup
import Polyglot.Proofs.Equality
import Polyglot.Proofs.Visit
import Polyglot.Tree.DataObject

/-! Data object literals whose member names are pairwise different: when they can be built from
their members, and which trees hold no others. -/
namespace Polyglot

namespace Member

variable {seen : List Expr} {members : List Member} {member : Member}

theorem any_same_iff (name : Expr) : seen.any (·.same name) = true ↔ name ∈ seen := by
  simp [Expr.same_iff]

private theorem nodup_seen {name : Expr} (hs : seen.Nodup) (hm : name ∉ seen) :
    (seen ++ [name]).Nodup := by
  simpa using hs.concat hm

/-- The names seen so far and those to come stay one list without repetitions. -/
theorem firstRepeated?_eq_none_iff (hs : seen.Nodup) :
    firstRepeated? seen members = none ↔ (seen ++ members.map name).Nodup := by
  induction members generalizing seen with
  | nil => simpa [firstRepeated?] using hs
  | cons first rest ih =>
    rw [firstRepeated?]
    split_ifs with hm
    · rw [any_same_iff] at hm
      have hd : ¬ (seen ++ (first :: rest).map name).Nodup := fun hd =>
        List.disjoint_of_nodup_append hd hm (List.mem_cons_self ..)
      exact iff_of_false not_false hd
    · rw [any_same_iff] at hm
      rw [ih (nodup_seen hs hm), List.append_assoc]
      rfl

/-- The names in front of the first repetition are different, and it repeats one of them. -/
theorem firstRepeated?_eq_some_iff (hs : seen.Nodup) :
    firstRepeated? seen members = some member ↔
      ∃ earlier later, members = earlier ++ member :: later ∧
        (seen ++ earlier.map name).Nodup ∧ member.name ∈ seen ++ earlier.map name := by
  induction members generalizing seen with
  | nil => simp [firstRepeated?]
  | cons first rest ih =>
    rw [firstRepeated?]
    split_ifs with hm
    · rw [any_same_iff] at hm
      constructor
      · intro h
        obtain rfl := Option.some.inj h
        exact ⟨[], rest, rfl, by simpa using hs, by simpa using hm⟩
      · -- No repetition comes later, as the first name repeats one already.
        rintro ⟨earlier, later, he, hd, -⟩
        cases earlier with
        | nil => exact congrArg some (List.cons.inj he).1
        | cons other earlier =>
          obtain ⟨rfl, -⟩ := List.cons.inj he
          exact absurd (List.mem_cons_self ..) (List.disjoint_of_nodup_append hd hm)
    · rw [any_same_iff] at hm
      rw [ih (nodup_seen hs hm)]
      constructor
      · rintro ⟨earlier, later, rfl, hd, hr⟩
        refine ⟨first :: earlier, later, rfl, ?_, ?_⟩
        · simpa using hd
        · simpa using hr
      · rintro ⟨earlier, later, he, hd, hr⟩
        cases earlier with
        | nil =>
          obtain ⟨rfl, -⟩ := List.cons.inj he
          exact absurd (by simpa using hr) hm
        | cons other earlier =>
          obtain ⟨rfl, rfl⟩ := List.cons.inj he
          exact ⟨earlier, later, rfl, by simpa using hd, by simpa using hr⟩

end Member

namespace DataObject

variable {ty : ClassType} {members : List Member} {object : DataObject} {error : RenderError}

/-- No two members have the same name. -/
def Distinct (object : DataObject) : Prop :=
  (object.members.map Member.name).Nodup

theorem ofMembers_eq_ok_iff :
    ofMembers ty members = .ok object ↔ object = ⟨ty, members⟩ ∧ object.Distinct := by
  have hn := @Member.firstRepeated?_eq_none_iff [] members List.nodup_nil
  rw [List.nil_append] at hn
  unfold ofMembers
  split
  · next member hs =>
    refine iff_of_false nofun ?_
    rintro ⟨rfl, hd⟩
    exact Option.some_ne_none member (hs.symm.trans (hn.mpr hd))
  · next hs =>
    constructor
    · intro h
      obtain rfl := Except.ok.inj h
      exact ⟨rfl, hn.mp hs⟩
    · rintro ⟨rfl, -⟩
      rfl

theorem ofMembers_eq_error_iff :
    ofMembers ty members = .error error ↔
      ∃ earlier member later, members = earlier ++ member :: later ∧
        (earlier.map Member.name).Nodup ∧ member.name ∈ earlier.map Member.name ∧
        error = .duplicateMember member.label := by
  have hs := fun member => @Member.firstRepeated?_eq_some_iff [] members member List.nodup_nil
  simp only [List.nil_append] at hs
  unfold ofMembers
  split
  · next member hf =>
    constructor
    · intro h
      obtain ⟨earlier, later, he, hd, hm⟩ := (hs member).mp hf
      exact ⟨earlier, member, later, he, hd, hm, (Except.error.inj h).symm⟩
    · rintro ⟨earlier, other, later, he, hd, hm, rfl⟩
      have ho := (hs other).mpr ⟨earlier, later, he, hd, hm⟩
      rw [Option.some.inj (hf.symm.trans ho)]
  · next hf =>
    refine iff_of_false nofun ?_
    rintro ⟨earlier, member, later, he, hd, hm, -⟩
    have hf' := (hs member).mpr ⟨earlier, later, he, hd, hm⟩
    exact Option.some_ne_none member (hf'.symm.trans hf)

end DataObject

namespace Place

/-- The data object literal that stands at a place. -/
def dataObject? : Place → Option DataObject
  | .expr (.dataObject ty members) | .update (.dataObject ty members) => some ⟨ty, members⟩
  | _ => none

/-- A data object literal at the place has different names. -/
def Distinct (place : Place) : Prop :=
  ∀ object, place.dataObject? = some object → object.Distinct

def AllDistinct (places : List Place) : Prop :=
  ∀ place ∈ places, place.Distinct

theorem allDistinct_nil : AllDistinct [] :=
  nofun

theorem allDistinct_cons (place : Place) (places : List Place) :
    AllDistinct (place :: places) ↔ place.Distinct ∧ AllDistinct places :=
  List.forall_mem_cons

theorem allDistinct_append (places others : List Place) :
    AllDistinct (places ++ others) ↔ AllDistinct places ∧ AllDistinct others :=
  List.forall_mem_append

theorem distinct_stmt (stmt : Stmt) : (Place.stmt stmt).Distinct :=
  nofun

theorem distinct_update (value : Expr) :
    (Place.update value).Distinct ↔ (Place.expr value).Distinct := by
  have h : (Place.update value).dataObject? = (Place.expr value).dataObject? := by
    cases value <;> rfl
  rw [Distinct, Distinct, h]

end Place

open Place (AllDistinct)

/-! All data objects in a tree have different names. -/

def Expr.Distinct (value : Expr) : Prop :=
  AllDistinct (value.places .plain)

def LambdaBody.Distinct (body : LambdaBody) : Prop :=
  AllDistinct (body.inside .plain)

def Member.Distinct (member : Member) : Prop :=
  AllDistinct (member.inside .plain)

def Stmt.Distinct (stmt : Stmt) : Prop :=
  AllDistinct (stmt.inside .plain)

def Program.Distinct (program : Program) : Prop :=
  AllDistinct (program.places .plain)

theorem Expr.distinct_iff (value : Expr) :
    value.Distinct ↔ (Place.expr value).Distinct ∧ AllDistinct (value.inside .plain) :=
  Place.allDistinct_cons _ _

namespace Place

theorem allDistinct_exprs (values : List Expr) :
    AllDistinct (Expr.insideAll .plain values) ↔ ∀ value ∈ values, value.Distinct := by
  induction values with
  | nil => exact iff_of_true allDistinct_nil nofun
  | cons value rest ih =>
    rw [Expr.insideAll, allDistinct_append, ih, List.forall_mem_cons]
    rfl

theorem allDistinct_option (value : Option Expr) :
    AllDistinct (Expr.inside? .plain value) ↔ ∀ part ∈ value, part.Distinct := by
  cases value with
  | none => exact iff_of_true allDistinct_nil nofun
  | some value =>
    simp only [Option.mem_some, forall_eq']
    rfl

theorem allDistinct_members (members : List Member) :
    AllDistinct (Member.insideAll .plain members) ↔ ∀ member ∈ members, member.Distinct := by
  induction members with
  | nil => exact iff_of_true allDistinct_nil nofun
  | cons member rest ih =>
    rw [Member.insideAll, allDistinct_append, ih, List.forall_mem_cons]
    rfl

theorem allDistinct_stmt (stmt : Stmt) (places : List Place) :
    AllDistinct (.stmt stmt :: places) ↔ AllDistinct places := by
  rw [allDistinct_cons]
  exact and_iff_right (distinct_stmt stmt)

theorem allDistinct_stmts (stmts : List Stmt) :
    AllDistinct (Stmt.insideAll .plain stmts) ↔ ∀ stmt ∈ stmts, stmt.Distinct := by
  induction stmts with
  | nil => exact iff_of_true allDistinct_nil nofun
  | cons stmt rest ih =>
    rw [Stmt.insideAll, allDistinct_append, allDistinct_stmt, ih, List.forall_mem_cons]
    rfl

end Place

theorem Expr.inside_call (dialect : Dialect) (receiver : Option Expr) (method : String)
    (args : List Expr) :
    (Expr.call receiver method args).inside dialect =
      Expr.inside? dialect receiver ++ Expr.insideAll dialect args := by
  cases receiver with
  | none => rw [Expr.inside, Expr.inside?, List.nil_append]
  | some receiver => rw [Expr.inside, Expr.inside?]

theorem Place.allDistinct_ifElse (test : Expr) (consequent : Stmt) (alternative : Option Stmt) :
    AllDistinct ((Stmt.ifElse test consequent alternative).inside .plain) ↔
      test.Distinct ∧ consequent.Distinct ∧ ∀ part ∈ alternative, part.Distinct := by
  cases alternative with
  | none =>
    rw [Stmt.inside, allDistinct_append, allDistinct_stmt]
    exact and_congr_right' (and_iff_left nofun).symm
  | some alternative =>
    rw [Stmt.inside, allDistinct_append, allDistinct_append, allDistinct_stmt, allDistinct_stmt,
      and_assoc]
    simp only [Option.mem_some, forall_eq']
    rfl

theorem DataObject.distinct_expr (object : DataObject) :
    object.expr.Distinct ↔ object.Distinct ∧ ∀ member ∈ object.members, member.Distinct := by
  have hp : (Place.expr object.expr).Distinct ↔ object.Distinct := by
    simp [Place.Distinct, DataObject.expr, Place.dataObject?]
  rw [Expr.distinct_iff, hp, DataObject.expr, Expr.inside, Place.allDistinct_members]

/-- The data object literals of a program, at any depth. -/
def Program.dataObjects (program : Program) : List DataObject :=
  (program.places .plain).filterMap Place.dataObject?

theorem Program.distinct_iff (program : Program) :
    program.Distinct ↔ ∀ object ∈ program.dataObjects, object.Distinct := by
  constructor
  · intro h object hm
    obtain ⟨place, hp, ho⟩ := List.mem_filterMap.mp hm
    exact h place hp object ho
  · intro h place hp object ho
    exact h object (List.mem_filterMap.mpr ⟨place, hp, ho⟩)

end Polyglot
