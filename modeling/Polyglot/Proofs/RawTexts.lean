import Polyglot.Proofs.Rendering

/-! The texts of a tree that a dialect writes as they are, without quotes or escapes, and what holds
of phrases that are made of any number of parts. -/
namespace Polyglot

/-- The names of a class that a file may write: those in its body, and the one in its header. -/
def ClassType.written (dialect : Dialect) (ty : ClassType) : List String :=
  match dialect with
  | .plain => [ty.name]
  | .groovy => [ty.simpleName, Dialect.groovyName ty]
  | .lua => [ty.simpleName, ty.name, ty.spelling "lua"]

def TypeInfo.written (dialect : Dialect) (ty : TypeInfo) : List String :=
  match ty.imported? with
  | some raw => raw.written dialect
  | none => [ty.name]

namespace Phrase

variable {dialect : Dialect} {isName : String → Prop}

theorem typeName_of_imported {ty : TypeInfo} {raw : ClassType} (h : ty.imported? = some raw) :
    typeName dialect ty = reference dialect raw := by
  obtain ⟨hc, hi⟩ := Option.filter_eq_some_iff.mp h
  simp only [typeName, hc, if_pos hi]

theorem typeName_of_not_imported {ty : TypeInfo} (h : ty.imported? = none) :
    typeName dialect ty = .text ty.name := by
  unfold typeName
  cases hc : ty.classType? with
  | none => rfl
  | some raw =>
    rw [TypeInfo.imported?, hc, Option.filter_eq_none_iff] at h
    exact if_neg (h raw rfl)

/-- A type is written by a reference to it, or by its name. -/
theorem typeName_holds {holds : Doc → Prop} {ty : TypeInfo}
    (hr : ∀ raw : ClassType, (∀ name ∈ raw.written dialect, isName name) →
      holds (reference dialect raw))
    (ht : ∀ name, isName name → holds (.text name))
    (h : ∀ name ∈ ty.written dialect, isName name) : holds (typeName dialect ty) := by
  unfold TypeInfo.written at h
  cases hi : ty.imported? with
  | none =>
    rw [hi] at h
    rw [typeName_of_not_imported hi]
    exact ht _ (h _ (.head _))
  | some raw =>
    rw [hi] at h
    rw [typeName_of_imported hi]
    exact hr raw h

/-- The names of parameters in a row. -/
theorem names_holds {holds : String → Prop} (hz : holds "")
    (ho : ∀ name, isName name → holds name)
    (hc : ∀ name rest, isName name → holds rest → holds (name ++ ", " ++ rest))
    {params : List Param} (h : ∀ name ∈ params.map (·.name), isName name) :
    holds (names params) := by
  induction params with
  | nil => exact hz
  | cons param rest ih =>
    obtain ⟨hp, hr⟩ := List.forall_mem_cons.mp h
    cases rest with
    | nil => exact ho _ hp
    | cons next rest =>
      rw [names, List.map_cons, List.map_cons, String.intercalate_cons_cons]
      exact hc _ _ hp (ih hr)

section Rows

variable {holds : Doc → Prop} {separator : String} {docs : List Doc}

theorem sepBy_holds (hz : holds .empty)
    (hc : ∀ doc rest, holds doc → holds rest → holds (doc ++ (.text separator ++ rest)))
    (h : ∀ doc ∈ docs, holds doc) : holds (.sepBy separator docs) := by
  induction docs with
  | nil => exact hz
  | cons doc rest ih =>
    obtain ⟨hd, hr⟩ := List.forall_mem_cons.mp h
    cases rest with
    | nil => exact hd
    | cons next rest => exact hc doc _ hd (ih hr)

theorem rows_holds {holdsRow : Doc → Prop} (hz : holds .empty)
    (ho : ∀ row, holdsRow row → holds (row ++ .text "\n"))
    (hc : ∀ row rest, holdsRow row → holds rest →
      holds (row ++ .text (separator ++ "\n") ++ rest))
    (h : ∀ row ∈ docs, holdsRow row) : holds (rows separator docs) := by
  induction docs with
  | nil => exact hz
  | cons row rest ih =>
    obtain ⟨hd, hr⟩ := List.forall_mem_cons.mp h
    cases rest with
    | nil => exact ho row hd
    | cons next rest => exact hc row _ hd (ih hr)

end Rows

end Phrase

namespace Member

/-- The keys that are string literals. -/
def stringKeys (members : List Member) : List String :=
  members.filterMap (·.name.stringKey?)

theorem forall_stringKeys_cons {isName : String → Prop} {member : Member} {rest : List Member} :
    (∀ text ∈ stringKeys (member :: rest), isName text) ↔
      (∀ text ∈ member.name.stringKey?, isName text) ∧
        ∀ text ∈ stringKeys rest, isName text := by
  unfold stringKeys
  cases hk : member.name.stringKey? with
  | none => simp [hk]
  | some key => simp [hk]

end Member

namespace Expr

/-- The names of an expression itself; a key counts where it is written without quotes. -/
def names (dialect : Dialect) : Expr → List String
  | .ident name | .member _ name | .call _ name _ | .dataAssign _ name _ | .dataMember _ name
  | .methodReference _ name | .asyncResult name => [name]
  | .construct ty _ => ty.written dialect
  | .lambda params _ => params.map (·.name)
  | .enumConstant ty constant => constant :: ty.written dialect
  | .apiType ty => ty.written dialect
  | .jsonObject members => if dialect = .groovy then Member.stringKeys members else []
  | .dataObject _ members => if dialect = .lua then Member.stringKeys members else []
  | .jsonAssign _ key _ | .jsonMember _ key =>
    if dialect = .groovy then key.stringKey?.toList else []
  | .mapForEach _ key value _ => [key.name, value.name]
  | _ => []

/-- The text of a number. -/
def numerals : Expr → List String
  | .literal (.int digits) | .literal (.long digits) | .literal (.float digits)
  | .literal (.double digits) => [digits]
  | _ => []

end Expr

namespace Stmt

/-- On Lua the name of an exception becomes a string. -/
def names (dialect : Dialect) : Stmt → List String
  | .declare ty name _ => name :: if dialect = .plain then ty.written .plain else []
  | .forEach name _ _ => [name]
  | .throwNew exception _ => if dialect = .lua then [] else [exception]
  | _ => []

end Stmt

namespace Place

def names (dialect : Dialect) : Place → List String
  | .expr value | .update value => value.names dialect
  | .stmt value => value.names dialect

def numerals : Place → List String
  | .expr value | .update value => value.numerals
  | .stmt _ => []

/-- What is written as it is at places: names of one sort, and numbers of another. -/
def AllRaw (dialect : Dialect) (isName isNumeral : String → Prop) (places : List Place) : Prop :=
  ∀ place ∈ places, (∀ name ∈ place.names dialect, isName name) ∧
    ∀ digits ∈ place.numerals, isNumeral digits

namespace AllRaw

variable {dialect : Dialect} {isName isNumeral : String → Prop} {place : Place}
  {places others : List Place}

theorem name (h : AllRaw dialect isName isNumeral (place :: places)) :
    ∀ name ∈ place.names dialect, isName name :=
  (h place (.head _)).1

theorem numeral (h : AllRaw dialect isName isNumeral (place :: places)) :
    ∀ digits ∈ place.numerals, isNumeral digits :=
  (h place (.head _)).2

theorem inside (h : AllRaw dialect isName isNumeral (place :: places)) :
    AllRaw dialect isName isNumeral places :=
  (List.forall_mem_cons.mp h).2

/-- An update writes what it would write elsewhere. -/
theorem ofUpdate {value : Expr} (h : AllRaw dialect isName isNumeral (.update value :: places)) :
    AllRaw dialect isName isNumeral (.expr value :: places) :=
  List.forall_mem_cons.mpr (List.forall_mem_cons.mp h)

theorem left (h : AllRaw dialect isName isNumeral (places ++ others)) :
    AllRaw dialect isName isNumeral places :=
  (List.forall_mem_append.mp h).1

theorem right (h : AllRaw dialect isName isNumeral (places ++ others)) :
    AllRaw dialect isName isNumeral others :=
  (List.forall_mem_append.mp h).2

end AllRaw

/-- The names of a type that is referred to are written where it is referred to. -/
theorem written_subset_names {dialect : Dialect} {place : Place} {ty : ClassType}
    (h : place.referenced? = some ty) : ty.written dialect ⊆ place.names dialect := by
  have he : ∀ value : Expr, value.referenced? = some ty →
      ty.written dialect ⊆ value.names dialect := by
    intro value hv
    cases value with
    | enumConstant other constant =>
      cases hv
      exact List.subset_cons_self constant _
    | apiType other =>
      cases hv
      exact List.Subset.refl _
    | construct info args =>
      have hw : info.written dialect = ty.written dialect := by
        rw [TypeInfo.written, show info.imported? = some ty from hv]
      rw [Expr.names, hw]
      exact List.Subset.refl _
    | _ => cases hv
  cases place with
  | expr value | update value => exact he value h
  | stmt value => cases h

end Place

namespace Program

/-- The names in a program, and the numbers. -/
def names (dialect : Dialect) (program : Program) : List String :=
  (program.places dialect).flatMap (Place.names dialect)

def numerals (dialect : Dialect) (program : Program) : List String :=
  (program.places dialect).flatMap Place.numerals

variable {dialect : Dialect} {isName isNumeral : String → Prop} {program : Program}

theorem allRaw (hn : ∀ name ∈ program.names dialect, isName name)
    (hd : ∀ digits ∈ program.numerals dialect, isNumeral digits) :
    Place.AllRaw dialect isName isNumeral (program.places dialect) := by
  intro place hp
  exact ⟨fun name hm => hn name (List.mem_flatMap.mpr ⟨place, hp, hm⟩),
    fun digits hm => hd digits (List.mem_flatMap.mpr ⟨place, hp, hm⟩)⟩

theorem written_of_references (h : ∀ name ∈ program.names dialect, isName name) {ty : ClassType}
    (hm : ty ∈ program.references dialect) : ∀ name ∈ ty.written dialect, isName name := by
  intro name ht
  obtain ⟨place, hp, hr⟩ := List.mem_filterMap.mp hm
  exact h name (List.mem_flatMap.mpr ⟨place, hp, Place.written_subset_names hr ht⟩)

end Program

/-- The types that a session imports behind a pass, if those before and those in the program have
names of one sort. -/
theorem Session.written_of_render {session : Session} {program : Program}
    {isName : String → Prop} {text : String} (hd : session.dialect ≠ .plain)
    (h : (session.render program).1 = .ok text)
    (hi : ∀ ty ∈ session.imports.types, ∀ name ∈ ty.written session.dialect, isName name)
    (hn : ∀ name ∈ program.names session.dialect, isName name) :
    ∀ ty ∈ (session.render program).2.imports.types,
      ∀ name ∈ ty.written session.dialect, isName name := by
  intro ty hm
  rw [render_imports session program hd h, Imports.mem_insertAll] at hm
  cases hm with
  | inl hm => exact hi ty hm
  | inr hm => exact Program.written_of_references hn hm

end Polyglot
