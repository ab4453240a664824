import Mathlib.Data.List.DropRight
import Polyglot.Proofs.History
import Polyglot.Proofs.Imported

/-! The imports of a session over whole runs, in terms of the types that its actions register. -/
namespace Polyglot

namespace Mark

/-- The types that are referred to in front of the first refusal, each as often as it is. -/
def reached : List Mark → List ClassType
  | .reference ty :: rest => ty :: reached rest
  | _ => []

theorem collect_eq_insertAll (marks : List Mark) (imports : Imports) :
    (collect marks imports).1 = imports.insertAll (reached marks) := by
  induction marks generalizing imports with
  | nil => rfl
  | cons mark rest ih =>
    cases mark with
    | reference ty => exact ih (imports.insert ty)
    | refusal construct => rfl

end Mark

namespace Session

def Action.isReset : Action → Bool
  | .reset => true
  | _ => false

theorem Action.eq_reset {action : Action} (h : action.isReset = true) : action = .reset := by
  cases action with
  | reset => rfl
  | _ => contradiction

/-- The types that an action registers, each as often as it does so. A pass that fails has
registered what it met by then. -/
def registered (session : Session) : Action → List ClassType
  | .render program => Mark.reached (program.doc session.style).marks
  | .renderExpr expr => Mark.reached (expr.doc session.style).marks
  | .register ty | .apiType ty | .enumConstant ty _ => [ty]
  | .classExpression ty =>
    match session.dialect with
    | .groovy => []
    | _ => [ty]
  | .reset => []

/-- The actions behind the last reset. -/
def sinceReset (actions : List Action) : List Action :=
  actions.rtakeWhile fun action => !action.isReset

section Step

variable (session : Session)

theorem render_collects (program : Program) :
    (session.render program).2.imports =
      session.imports.insertAll (session.registered (.render program)) := by
  have hr := (Stroke.run_collect session.dialect
    (Stmt.lines session.style program.body).strokes session.newPass).1
  rw [render_session, registered, ← Mark.collect_eq_insertAll]
  exact hr

theorem renderExpr_collects (expr : Expr) :
    (session.renderExpr expr).2.imports =
      session.imports.insertAll (session.registered (.renderExpr expr)) := by
  have hr := (Stroke.run_collect session.dialect (expr.doc session.style).strokes
    session.newPass).1
  rw [renderExpr_eq, conclude_session, registered, ← Mark.collect_eq_insertAll]
  exact hr

/-- On Groovy a class as a value registers nothing, elsewhere it is an api type. -/
theorem classExpression_cases (ty : ClassType) :
    session.act (.classExpression ty) = session ∧
        session.registered (.classExpression ty) = [] ∨
      session.act (.classExpression ty) = session.act (.apiType ty) ∧
        session.registered (.classExpression ty) = [ty] := by
  simp only [act, classExpression, registered]
  cases session.dialect with
  | groovy => exact .inl ⟨rfl, rfl⟩
  | plain | lua => exact .inr ⟨rfl, rfl⟩

/-- Every action but a reset inserts what it registers. -/
theorem act_imports {action : Action} (h : action.isReset = false) :
    (session.act action).imports = session.imports.insertAll (session.registered action) := by
  cases action with
  | render program => exact session.render_collects program
  | renderExpr expr => exact session.renderExpr_collects expr
  | register ty | apiType ty | enumConstant ty constant => rfl
  | classExpression ty =>
    obtain ⟨ha, hr⟩ | ⟨ha, hr⟩ := session.classExpression_cases ty
    · rw [ha, hr, Imports.insertAll_nil]
    · rw [ha, hr]
      rfl
  | reset => contradiction

/-- No action changes anything but the imports. -/
theorem act_eq (action : Action) :
    session.act action = { session with imports := (session.act action).imports } := by
  cases action with
  | render program => rw [act, render_session]
  | renderExpr expr => rw [act, renderExpr_eq, conclude_session]
  | register ty | apiType ty | enumConstant ty constant | reset => rfl
  | classExpression ty =>
    obtain ⟨ha, -⟩ | ⟨ha, -⟩ := session.classExpression_cases ty
    · rw [ha]
    · rw [ha]
      rfl

end Step

section Run

variable (session : Session) (actions : List Action)

theorem after_concat (action : Action) :
    session.after (actions ++ [action]) = (session.after actions).act action :=
  List.foldl_concat ..

theorem after_eq :
    session.after actions = { session with imports := (session.after actions).imports } := by
  induction actions using List.reverseRecOn with
  | nil => rfl
  | append_singleton actions action ih =>
    rw [after_concat, act_eq, ih]

/-- What an action registers depends on the language and on the settings only. -/
theorem registered_after : (session.after actions).registered = session.registered := by
  rw [after_eq]
  rfl

theorem prefix_after_concat {action : Action} (h : action.isReset = false) :
    (session.after actions).imports.types <+:
      (session.after (actions ++ [action])).imports.types := by
  rw [after_concat, act_imports _ h]
  exact Imports.prefix_insertAll _ _

/-- The imports of a new session are inserted since the last reset. -/
theorem after_imports (h : session.imports = .empty) :
    (session.after actions).imports =
      Imports.empty.insertAll ((sinceReset actions).flatMap session.registered) := by
  induction actions using List.reverseRecOn with
  | nil => exact h
  | append_singleton actions action ih =>
    rw [after_concat, sinceReset, List.rtakeWhile_concat]
    cases ha : action.isReset with
    | true =>
      obtain rfl := Action.eq_reset ha
      rfl
    | false =>
      rw [act_imports _ ha, registered_after, ih, sinceReset, ← Imports.insertAll_append]
      simp

end Run

/-- Over any run of a new session no type is imported twice, every action but a reset leaves the
imports before it as the first of those after it, and the imports are the first occurrences of
the types registered since the last reset. Registering a type tells whether it was absent. -/
theorem imports_are_first_registered (dialect : Dialect) (settings : Settings)
    (actions : List Action) :
    let session : Session := { dialect := dialect, settings := settings }
    (session.after actions).imports.types.Nodup ∧
    (∀ action : Action, action.isReset = false →
      (session.after actions).imports.types <+:
        (session.after (actions ++ [action])).imports.types) ∧
    (session.after actions).imports.types =
      ((sinceReset actions).flatMap session.registered).eraseDups ∧
    (∀ ty, ((session.after actions).register ty).1 = true ↔
      ty ∉ (session.after actions).imports.types) := by
  intro session
  refine ⟨(session.after actions).imports.nodup, ?_, ?_, ?_⟩
  · intro action h
    exact prefix_after_concat session actions h
  · rw [after_imports session actions rfl, Imports.insertAll_types]
    simp [Imports.firstSeen]
  · intro ty
    simp [register, Imports.contains]

/-- A program that Lua gives up between its two references. -/
def abortedProgram : Program where
  body := [.expr (.enumConstant (.ofName .enumeration "io.Color") "RED"),
    .expr (.unary .preIncrement (.ident "i")), .expr (.apiType (.ofName .api "io.Vertx"))]

theorem imports_are_first_registered_abortedProgram :
    let session : Session := { dialect := .lua }
    let actions : List Action := [.apiType (.ofName .api "io.Buffer"), .reset,
      .render abortedProgram]
    let next : Action := .enumConstant (.ofName .api "io.Vertx") "RED"
    (session.after actions).imports.types = [.ofName .enumeration "io.Color"] ∧
      next.isReset = false ∧
      (session.after actions).imports.types <+:
        (session.after (actions ++ [next])).imports.types := by
  intro session actions next
  obtain ⟨-, hp, he, -⟩ := imports_are_first_registered .lua {} actions
  exact ⟨by rw [he]; decide +kernel, rfl, hp next rfl⟩

end Session

end Polyglot
