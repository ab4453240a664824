import Polyglot.Proofs.LuaNames

/-! Rendering the same tree twice. The first pass leaves imports behind that the second starts
from, and they change nothing: neither what is written, nor where the pass fails, nor what is
imported in the end. -/
namespace Polyglot

/-- A type that is imported is spelled in the same way when more types come behind it. -/
theorem Dialect.spell_of_imported (dialect : Dialect) {imports later : Imports} {ty : ClassType}
    (hm : ty ∈ imports.types) (hp : imports.types <+: later.types) :
    dialect.spell later ty = dialect.spell imports ty := by
  cases dialect with
  | plain | groovy => rfl
  | lua => exact Eq.symm <| luaLocal_of_prefix hm hp

namespace Outcome

/-- The same outcome beside other imports. -/
def withImports (imports : Imports) : Outcome → Outcome
  | .done pass => .done { pass with imports := imports }
  | .failed error pass => .failed error { pass with imports := imports }

theorem withImports_self (outcome : Outcome) :
    outcome.withImports outcome.pass.imports = outcome := by
  cases outcome <;> rfl

end Outcome

namespace Stroke

theorem prefix_run (dialect : Dialect) (strokes : List Stroke) (pass : Pass) :
    pass.imports.types <+: (run dialect strokes pass).pass.imports.types := by
  rw [(run_collect dialect strokes pass).1]
  exact Mark.prefix_collect _ pass.imports

/-- A stroke does the same where all that it imports is imported already. -/
theorem step_imported {dialect : Dialect} {stroke : Stroke} {pass : Pass} {later : Imports}
    (h : (stroke.step dialect pass).pass.imports.types <+: later.types) :
    stroke.step dialect { pass with imports := later } =
      (stroke.step dialect pass).withImports later := by
  cases stroke with
  | write content | indent | unindent | freshLine | refuse construct => rfl
  | refer ty =>
    have hp : (pass.imports.insert ty).types <+: later.types := h
    have hm : ty ∈ (pass.imports.insert ty).types := by simp
    have hi : later.insert ty = later := Imports.insert_of_mem (hp.subset hm)
    have hs := dialect.spell_of_imported hm hp
    simp only [step, Pass.refer, Outcome.withImports, hi, hs]

theorem run_imported {dialect : Dialect} {strokes : List Stroke} {pass : Pass} {later : Imports}
    (h : (run dialect strokes pass).pass.imports.types <+: later.types) :
    run dialect strokes { pass with imports := later } =
      (run dialect strokes pass).withImports later := by
  induction strokes generalizing pass with
  | nil => rfl
  | cons stroke rest ih =>
    rw [run_cons] at h ⊢
    cases hs : stroke.step dialect pass with
    | failed error next =>
      rw [hs] at h
      rw [step_imported (by rwa [hs]), run_cons, hs]
      rfl
    | done next =>
      -- What the first stroke imports is a part of what the whole run imports.
      rw [hs, Outcome.andThen_done] at h
      have hn : (stroke.step dialect pass).pass.imports.types <+: later.types := by
        rw [hs]
        exact (prefix_run dialect rest next).trans h
      rw [step_imported hn, run_cons, hs]
      exact ih h

/-- A run from the imports that it ends with is the same run. -/
theorem run_again (dialect : Dialect) (strokes : List Stroke) (pass : Pass) :
    run dialect strokes { pass with imports := (run dialect strokes pass).pass.imports } =
      run dialect strokes pass := by
  rw [run_imported List.prefix_rfl, Outcome.withImports_self]

end Stroke

namespace Session

variable (session : Session)

theorem bodyRun_again (program : Program) :
    { session with imports := (session.bodyRun program).pass.imports }.bodyRun program =
      session.bodyRun program :=
  Stroke.run_again session.dialect _ session.newPass

theorem exprRun_again (expr : Expr) :
    { session with imports := (session.exprRun expr).pass.imports }.exprRun expr =
      session.exprRun expr :=
  Stroke.run_again session.dialect _ session.newPass

/-- Rendering a tree for a second time gives the same text or the same error, and it leaves the
session as the first time has left it. -/
theorem render_twice (session : Session) :
    (∀ program : Program,
      (session.render program).2.render program = session.render program) ∧
    (∀ expr : Expr,
      (session.renderExpr expr).2.renderExpr expr = session.renderExpr expr) := by
  refine ⟨fun program => ?_, fun expr => ?_⟩
  · rw [render_session, render_eq, bodyRun_again, render_eq]
    cases session.bodyRun program <;> rfl
  · have hs : (session.renderExpr expr).2 =
        { session with imports := (session.exprRun expr).pass.imports } := by
      rw [renderExpr_eq, conclude_session]
    rw [hs, renderExpr_eq, exprRun_again, renderExpr_eq]
    cases session.exprRun expr <;> rfl

end Session

end Polyglot
