import Polyglot.Proofs.Rendering

/-! The imports of a session after a pass, and how those of two languages compare. -/
namespace Polyglot

namespace Imports

/-- The first occurrences of the types that are not imported yet. -/
def firstSeen (imports : Imports) (types : List ClassType) : List ClassType :=
  (types.filter (· ∉ imports.types)).eraseDups

theorem firstSeen_of_mem {imports : Imports} {ty : ClassType} (h : ty ∈ imports.types)
    (rest : List ClassType) : imports.firstSeen (ty :: rest) = imports.firstSeen rest := by
  simp [firstSeen, h]

theorem firstSeen_of_notMem {imports : Imports} {ty : ClassType} (h : ty ∉ imports.types)
    (rest : List ClassType) :
    imports.firstSeen (ty :: rest) = ty :: (imports.insert ty).firstSeen rest := by
  have hf : (rest.filter (· ∉ imports.types)).filter (fun other => !other == ty) =
      rest.filter (· ∉ (imports.insert ty).types) := by
    rw [List.filter_filter]
    apply List.filter_congr
    intro other _
    by_cases ho : other = ty <;> simp [ho]
  have hc : (ty :: rest).filter (· ∉ imports.types) =
      ty :: rest.filter (· ∉ imports.types) := by
    simp [h]
  rw [firstSeen, hc, List.eraseDups_cons, hf, firstSeen]

/-- Inserting types one by one appends their first occurrences. -/
theorem insertAll_types (imports : Imports) (types : List ClassType) :
    (imports.insertAll types).types = imports.types ++ imports.firstSeen types := by
  induction types generalizing imports with
  | nil => simp [firstSeen]
  | cons ty rest ih =>
    rw [insertAll_cons, ih]
    by_cases h : ty ∈ imports.types
    · rw [insert_of_mem h, firstSeen_of_mem h]
    · rw [firstSeen_of_notMem h, types_insert_of_notMem h, List.append_assoc, List.singleton_append]

theorem insertAll_append (imports : Imports) (first second : List ClassType) :
    imports.insertAll (first ++ second) = (imports.insertAll first).insertAll second :=
  List.foldl_append

theorem prefix_insertAll (imports : Imports) (types : List ClassType) :
    imports.types <+: (imports.insertAll types).types := by
  rw [insertAll_types]
  exact List.prefix_append _ _

/-- The order in which types are inserted has no effect on which types are there. -/
theorem mem_insertAll_of_perm {first second : List ClassType} (h : first.Perm second)
    (imports : Imports) (ty : ClassType) :
    ty ∈ (imports.insertAll first).types ↔ ty ∈ (imports.insertAll second).types := by
  rw [mem_insertAll, mem_insertAll, h.mem_iff]

end Imports

namespace Place

variable {dialect : Dialect}

/-- The places that are visited before the first that is refused. -/
def beforeRefusal (dialect : Dialect) (places : List Place) : List Place :=
  places.takeWhile fun place => (place.refused? dialect).isNone

/-- A pass collects the references of the places that it reaches. -/
theorem collect_marks_references (hd : dialect ≠ .plain) (places : List Place)
    (imports : Imports) :
    (Mark.collect (marks dialect places) imports).1 =
      imports.insertAll (references (beforeRefusal dialect places)) := by
  induction places generalizing imports with
  | nil => rfl
  | cons place rest ih =>
    unfold beforeRefusal
    cases hr : place.refused? dialect with
    | some construct =>
      rw [marks_of_some (mark?_of_refused hr), List.takeWhile_cons_of_neg (by simp [hr])]
      rfl
    | none =>
      have hm := mark?_of_not_refused hr hd
      rw [List.takeWhile_cons_of_pos (by simp [hr]), references]
      cases ht : place.referenced? with
      | none =>
        rw [ht] at hm
        rw [marks_of_none hm, List.filterMap_cons_none ht]
        exact ih imports
      | some ty =>
        rw [ht] at hm
        rw [marks_of_some hm, List.filterMap_cons_some ht]
        exact ih (imports.insert ty)

theorem references_beforeRefusal_prefix (dialect : Dialect) (places : List Place) :
    references (beforeRefusal dialect places) <+: references places :=
  (List.takeWhile_prefix _).filterMap referenced?

/-- The loops whose parts are visited in different orders. -/
def isForLoop : Place → Bool
  | .stmt (.forLoop ..) => true
  | _ => false

/-- The same places in two orders, which differ inside loops only. -/
structure Reordered (first second : List Place) : Prop where
  perm : first.Perm second
  eq_of_loopless : (∀ place ∈ first, place.isForLoop = false) → first = second

namespace Reordered

variable {first second first' second' : List Place}

theorem refl (places : List Place) : Reordered places places :=
  ⟨.refl places, fun _ => rfl⟩

theorem cons (place : Place) (h : Reordered first second) :
    Reordered (place :: first) (place :: second) where
  perm := h.perm.cons place
  eq_of_loopless hl := by
    rw [h.eq_of_loopless (List.forall_mem_cons.mp hl).2]

theorem append (h : Reordered first second) (h' : Reordered first' second') :
    Reordered (first ++ first') (second ++ second') where
  perm := h.perm.append h'.perm
  eq_of_loopless hl := by
    obtain ⟨hf, hs⟩ := List.forall_mem_append.mp hl
    rw [h.eq_of_loopless hf, h'.eq_of_loopless hs]

/-- Inside a loop only the places themselves count. -/
theorem inLoop {place : Place} (hp : place.isForLoop = true) (h : first.Perm second) :
    Reordered (place :: first) (place :: second) where
  perm := h.cons place
  eq_of_loopless hl := absurd hp (by simp [hl place])

end Reordered

end Place

open Place.Reordered (refl cons append inLoop) in
mutual

theorem Expr.reordered (d d' : Dialect) : (expr : Expr) →
    Place.Reordered (expr.inside d) (expr.inside d')
  | .literal _ | .ident _ | .this | .enumConstant .. | .apiType _ | .asyncResult _ => refl []
  | .unary _ inner | .parens inner | .member inner _ | .valueOf _ inner | .dataMember inner _
  | .jsonObjectText inner | .jsonArrayText inner | .methodReference inner _ | .console inner =>
    cons _ (inner.reordered d d')
  | .binary left _ right _ | .assign left right | .dataAssign left _ right
  | .jsonMember left right | .mapGet left right =>
    append (cons _ (left.reordered d d')) (cons _ (right.reordered d d'))
  | .conditional first second third | .jsonAssign first second third =>
    append (append (cons _ (first.reordered d d')) (cons _ (second.reordered d d')))
      (cons _ (third.reordered d d'))
  | .call none _ args | .construct _ args | .jsonArray args => Expr.reorderedAll d d' args
  | .call (some receiver) _ args =>
    append (cons _ (receiver.reordered d d')) (Expr.reorderedAll d d' args)
  | .lambda _ body => body.reordered d d'
  | .jsonObject members | .dataObject _ members => Member.reorderedAll d d' members
  | .mapForEach map _ _ body => append (cons _ (map.reordered d d')) (body.reordered d d')

theorem Expr.reorderedAll (d d' : Dialect) : (exprs : List Expr) →
    Place.Reordered (Expr.insideAll d exprs) (Expr.insideAll d' exprs)
  | [] => refl []
  | expr :: rest => append (cons _ (expr.reordered d d')) (Expr.reorderedAll d d' rest)

theorem Expr.reordered? (d d' : Dialect) : (expr : Option Expr) →
    Place.Reordered (Expr.inside? d expr) (Expr.inside? d' expr)
  | none => refl []
  | some expr => cons _ (expr.reordered d d')

theorem LambdaBody.reordered (d d' : Dialect) : (body : LambdaBody) →
    Place.Reordered (body.inside d) (body.inside d')
  | .expr value => cons _ (value.reordered d d')
  | .block stmts => Stmt.reorderedAll d d' stmts

theorem Member.reordered (d d' : Dialect) : (member : Member) →
    Place.Reordered (member.inside d) (member.inside d')
  | .single name value => append (cons _ (name.reordered d d')) (cons _ (value.reordered d d'))
  | .array name values => append (cons _ (name.reordered d d')) (Expr.reorderedAll d d' values)

theorem Member.reorderedAll (d d' : Dialect) : (members : List Member) →
    Place.Reordered (Member.insideAll d members) (Member.insideAll d' members)
  | [] => refl []
  | member :: rest => append (member.reordered d d') (Member.reorderedAll d d' rest)

theorem Stmt.reordered (d d' : Dialect) : (stmt : Stmt) →
    Place.Reordered (.stmt stmt :: stmt.inside d) (.stmt stmt :: stmt.inside d')
  | .block stmts => cons _ (Stmt.reorderedAll d d' stmts)
  | .declare _ _ value | .throwNew _ value | .returnWith value =>
    cons _ (Expr.reordered? d d' value)
  | .expr value => cons _ (cons _ (value.reordered d d'))
  | .forLoop init test update body => by
    have hi := (init.reordered d d').perm
    have ht := (test.reordered d d').perm.cons (Place.expr test)
    have hu := (update.reordered d d').perm.cons (Place.update update)
    have hb := (body.reordered d d').perm
    refine inLoop rfl ((hi.append ht).append ?_)
    -- The update comes before the body or behind it.
    by_cases h : d = .lua <;> by_cases h' : d' = .lua
    · simpa only [if_pos h, if_pos h'] using hb.append hu
    · simpa only [if_pos h, if_neg h'] using (hb.append hu).trans List.perm_append_comm
    · simpa only [if_neg h, if_pos h'] using (hu.append hb).trans List.perm_append_comm
    · simpa only [if_neg h, if_neg h'] using hu.append hb
  | .forEach _ value body | .whileLoop value body =>
    cons _ (append (cons _ (value.reordered d d')) (body.reordered d d'))
  | .ifElse test consequent none =>
    cons _ (append (cons _ (test.reordered d d')) (consequent.reordered d d'))
  | .ifElse test consequent (some alternative) =>
    cons _ (append (append (cons _ (test.reordered d d')) (consequent.reordered d d'))
      (alternative.reordered d d'))
  | .breakLoop | .continueLoop => refl _

theorem Stmt.reorderedAll (d d' : Dialect) : (stmts : List Stmt) →
    Place.Reordered (Stmt.insideAll d stmts) (Stmt.insideAll d' stmts)
  | [] => refl []
  | stmt :: rest => append (stmt.reordered d d') (Stmt.reorderedAll d d' rest)

end

namespace Program

/-- Whether there is a loop with an initial statement anywhere in the program. -/
def hasForLoop (program : Program) : Bool :=
  (program.places .groovy).any (·.isForLoop)

/-- Two languages refer to the same types, each as often as the other. -/
theorem references_perm (program : Program) (d d' : Dialect) :
    (program.references d).Perm (program.references d') :=
  (Stmt.reorderedAll d d' program.body).perm.filterMap _

theorem references_eq_of_loopless {program : Program} (h : program.hasForLoop = false)
    (dialect : Dialect) : program.references .groovy = program.references dialect := by
  have hl : ∀ place ∈ program.places .groovy, place.isForLoop = false := by
    simpa [hasForLoop] using h
  have he := (Stmt.reorderedAll .groovy dialect program.body).eq_of_loopless hl
  rw [references, references, places, places, he]

end Program

namespace Session

/-- What a pass over a program does to the imports of its session. -/
structure CollectsExactly (session : Session) (program : Program) : Prop where
  rendered : ∀ text, (session.render program).1 = .ok text →
    (session.render program).2.imports.types =
      session.imports.types ++ session.imports.firstSeen (program.references session.dialect)
  failed : ∀ error, (session.render program).1 = .error error →
    session.imports.types <+: (session.render program).2.imports.types ∧
      (session.render program).2.imports.types <+:
        session.imports.types ++ session.imports.firstSeen (program.references session.dialect)
  /-- Neither the margin nor interpolation has a part in it. -/
  anySettings : ∀ settings, ({ session with settings := settings }.render program).2.imports =
    (session.render program).2.imports

theorem render_imports_reached {session : Session} (hd : session.dialect ≠ .plain)
    (program : Program) :
    (session.render program).2.imports =
      session.imports.insertAll (Place.references
        (Place.beforeRefusal session.dialect (program.places session.dialect))) := by
  rw [render_session, (bodyRun_collect session program).1, Place.collect_marks_references hd]

theorem collectsExactly {session : Session} (hd : session.dialect ≠ .plain)
    (program : Program) : session.CollectsExactly program where
  rendered text h := by
    rw [render_imports session program hd h, Imports.insertAll_types]
  failed error _ := by
    obtain ⟨rest, hr⟩ := Place.references_beforeRefusal_prefix session.dialect
      (program.places session.dialect)
    rw [render_imports_reached hd, ← Imports.insertAll_types, Program.references, ← hr,
      Imports.insertAll_append]
    exact ⟨Imports.prefix_insertAll _ _, Imports.prefix_insertAll _ _⟩
  anySettings settings := by
    rw [render_imports_reached hd]
    exact @render_imports_reached { session with settings := settings } hd program

/-- A pass on Groovy or Lua imports exactly what the program refers to, in the order in which the
language visits it. Sessions of the two languages with the same imports collect the same types,
and in the same order if there is no loop in which the order differs. -/
theorem render_imports_exactly (groovy lua : Session) (hg : groovy.dialect = .groovy)
    (hl : lua.dialect = .lua) (program : Program) :
    groovy.CollectsExactly program ∧ lua.CollectsExactly program ∧
    ∀ groovyText luaText, groovy.imports = lua.imports →
      (groovy.render program).1 = .ok groovyText → (lua.render program).1 = .ok luaText →
      (∀ ty, ty ∈ (groovy.render program).2.imports.types ↔
        ty ∈ (lua.render program).2.imports.types) ∧
      (program.hasForLoop = false →
        (groovy.render program).2.imports = (lua.render program).2.imports) := by
  have hgp : groovy.dialect ≠ .plain := by simp [hg]
  have hlp : lua.dialect ≠ .plain := by simp [hl]
  refine ⟨collectsExactly hgp program, collectsExactly hlp program, ?_⟩
  intro groovyText luaText hi hgt hlt
  rw [render_imports groovy program hgp hgt, render_imports lua program hlp hlt, hi, hg, hl]
  refine ⟨fun ty => ?_, fun h => ?_⟩
  · exact Imports.mem_insertAll_of_perm (program.references_perm .groovy .lua) _ ty
  · rw [Program.references_eq_of_loopless h]

/-- A loop that refers to one class in its update and to another in its body, and behind it a
declaration whose type counts for nothing. -/
def vertxLoop : Program where
  body := [
    .forLoop (.declare (.primitive "int") "i" none) (.ident "go")
      (.apiType (.ofName .api "io.Vertx"))
      (.expr (.enumConstant (.ofName .other "io.Color") "RED")),
    .declare (.ofClass (.ofName .api "io.Buffer")) "b"
      (some (.construct (.ofClass (.ofName .dataObject "io.Options"))
        [.apiType (.ofName .api "io.Vertx")]))]

theorem render_imports_exactly_vertxLoop :
    let groovy : Session := { dialect := .groovy }
    let lua : Session := { dialect := .lua }
    (groovy.render vertxLoop).2.imports.types =
      [.ofName .api "io.Vertx", .ofName .other "io.Color"] ∧
    (lua.render vertxLoop).2.imports.types =
      [.ofName .other "io.Color", .ofName .api "io.Vertx"] ∧
    ∀ ty, ty ∈ (groovy.render vertxLoop).2.imports.types ↔
      ty ∈ (lua.render vertxLoop).2.imports.types := by
  intro groovy lua
  have hg : ∃ text, (groovy.render vertxLoop).1 = .ok text := ⟨_, rfl⟩
  have hl : ∃ text, (lua.render vertxLoop).1 = .ok text := ⟨_, rfl⟩
  obtain ⟨groovyText, hg⟩ := hg
  obtain ⟨luaText, hl⟩ := hl
  obtain ⟨-, -, ha⟩ := render_imports_exactly groovy lua rfl rfl vertxLoop
  exact ⟨by decide +kernel, by decide +kernel, (ha groovyText luaText rfl hg hl).1⟩

end Session

end Polyglot
