import Mathlib.Data.List.Basic
import Polyglot.Proofs.Visit
import Polyglot.Session

/-! Rendering as a run of strokes: what a session returns, and what it keeps, in terms of the
marks of the tree it renders. -/
namespace Polyglot

/-- Each statement on a line of its own, one after the other. -/
def Stmt.playEach (style : Style) : List Stmt → Pass → Outcome
  | [], pass => .done pass
  | stmt :: rest, pass =>
    ((Phrase.line (stmt.doc style)).play style.dialect pass).andThen (Stmt.playEach style rest)

theorem Stmt.play_lines (style : Style) (stmts : List Stmt) :
    (Stmt.lines style stmts).play style.dialect = Stmt.playEach style stmts := by
  induction stmts with
  | nil => rfl
  | cons stmt rest ih =>
    funext pass
    rw [Stmt.playEach, ← ih]
    rfl

namespace Place

/-- The types that places refer to. -/
def references (places : List Place) : List ClassType :=
  places.filterMap referenced?

/-- The first construct among places that a dialect has no notation for. -/
def firstRefused? (dialect : Dialect) (places : List Place) : Option Construct :=
  places.findSome? (refused? dialect)

variable {dialect : Dialect}

/-- Groovy has a notation for everything. -/
@[simp] theorem refused?_groovy (place : Place) : place.refused? .groovy = none := by
  cases place with
  | expr value | update value => cases value <;> rfl
  | stmt value => cases value <;> rfl

@[simp] theorem firstRefused?_groovy (places : List Place) :
    firstRefused? .groovy places = none := by
  simp [firstRefused?]

theorem mark?_of_refused {place : Place} {construct : Construct}
    (h : place.refused? dialect = some construct) :
    place.mark? dialect = some (.refusal construct) := by
  simp only [mark?, h]

theorem mark?_of_not_refused {place : Place} (h : place.refused? dialect = none)
    (hd : dialect ≠ .plain) : place.mark? dialect = place.referenced?.map .reference := by
  unfold mark?
  rw [h]
  cases place.referenced? with
  | none => rfl
  | some ty => exact if_neg hd

theorem mark?_plain {place : Place} (h : place.refused? .plain = none) :
    place.mark? .plain = none := by
  unfold mark?
  rw [h]
  cases place.referenced? <;> rfl

/-- Collecting the marks of places stops at the first of them that is refused. -/
theorem collect_marks_refused (places : List Place) (imports : Imports) :
    (Mark.collect (marks dialect places) imports).2 = firstRefused? dialect places := by
  induction places generalizing imports with
  | nil => rfl
  | cons place rest ih =>
    unfold firstRefused?
    cases hr : place.refused? dialect with
    | some construct =>
      rw [marks_of_some (mark?_of_refused hr), List.findSome?_cons, hr]
      rfl
    | none =>
      rw [List.findSome?_cons, hr]
      by_cases hd : dialect = .plain
      · subst hd
        rw [marks_of_none (mark?_plain hr)]
        exact ih imports
      · have hm := mark?_of_not_refused hr hd
        cases ht : place.referenced? with
        | none =>
          rw [ht] at hm
          rw [marks_of_none hm]
          exact ih imports
        | some ty =>
          rw [ht] at hm
          rw [marks_of_some hm]
          exact ih (imports.insert ty)

/-- Where nothing is refused, the marks of places are their references. -/
theorem referenced_marks (hd : dialect ≠ .plain) {places : List Place}
    (h : firstRefused? dialect places = none) :
    (marks dialect places).filterMap Mark.referenced? = references places := by
  have hn := List.findSome?_eq_none_iff.mp h
  unfold marks references
  rw [List.filterMap_filterMap]
  apply List.filterMap_congr
  intro place hp
  rw [mark?_of_not_refused (hn place hp) hd]
  cases place.referenced? <;> rfl

/-- What a document leaves behind, if it makes the marks of places. -/
theorem run_of_agree {doc : Doc} {places : List Place}
    (h : Mark.Agree doc.marks (marks dialect places)) (pass : Pass) :
    (Stroke.run dialect doc.strokes pass).pass.imports =
        (Mark.collect (marks dialect places) pass.imports).1 ∧
      (Stroke.run dialect doc.strokes pass).error? =
        (firstRefused? dialect places).map (.unsupported · dialect) := by
  have hr := Stroke.run_collect dialect doc.strokes pass
  rw [← collect_marks_refused places pass.imports, ← h pass.imports]
  exact hr

end Place

def Program.references (dialect : Dialect) (program : Program) : List ClassType :=
  Place.references (program.places dialect)

namespace Session

variable (session : Session) (program : Program)

/-- The statements of a program, written one by one inside a block that gets no header. -/
def renderBody : Except RenderError String × Session :=
  let start := { session.newPass with page := session.newPass.page.enterBlock }
  session.conclude ((Stmt.playEach session.style program.body start).alwaysOnPage Page.leaveBlock)

theorem conclude_error_iff (outcome : Outcome) (error : RenderError) :
    (session.conclude outcome).1 = .error error ↔ outcome.error? = some error := by
  cases outcome <;> simp [conclude, Outcome.error?]

theorem conclude_ok_iff (outcome : Outcome) (text : String) :
    (session.conclude outcome).1 = .ok text ↔
      ∃ pass, outcome = .done pass ∧ pass.page.text = text := by
  cases outcome <;> simp [conclude]

@[simp] theorem conclude_session (outcome : Outcome) :
    (session.conclude outcome).2 = { session with imports := outcome.pass.imports } := by
  cases outcome <;> rfl

/-- The strokes of the statements on an empty page. -/
def bodyRun : Outcome :=
  Stroke.run session.dialect (Stmt.lines session.style program.body).strokes session.newPass

/-- The strokes of an expression on an empty page. -/
def exprRun (expr : Expr) : Outcome :=
  Stroke.run session.dialect (expr.doc session.style).strokes session.newPass

/-- Neither the block around the statements nor any block in them brings a header. -/
theorem renderBody_eq : session.renderBody program = session.conclude (session.bodyRun program) := by
  have hf := Doc.playFragment_eq_run session.dialect (Stmt.lines session.style program.body)
    session.newPass
  have hp : (Stmt.lines session.style program.body).play session.dialect = _ :=
    Stmt.play_lines session.style program.body
  rw [Doc.playFragment, hp] at hf
  simp only [renderBody, bodyRun, hf]

/-- The header comes once, behind all strokes. -/
theorem render_eq : session.render program =
    session.conclude ((session.bodyRun program).andThen fun pass =>
      .done (pass.withHeader session.dialect)) := by
  unfold render Program.doc
  rw [Doc.play_block_outermost session.dialect _ session.newPass rfl, bodyRun]

theorem renderExpr_eq (expr : Expr) :
    session.renderExpr expr = session.conclude (session.exprRun expr) := by
  rw [renderExpr, Doc.playFragment_eq_run, exprRun]

theorem bodyRun_collect :
    (session.bodyRun program).pass.imports =
        (Mark.collect (Place.marks session.dialect (program.places session.dialect))
          session.imports).1 ∧
      (session.bodyRun program).error? =
        (Place.firstRefused? session.dialect (program.places session.dialect)).map
          (.unsupported · session.dialect) :=
  Place.run_of_agree (Stmt.agree_lines session.style program.body) session.newPass

theorem exprRun_collect (expr : Expr) :
    (session.exprRun expr).pass.imports =
        (Mark.collect (Place.marks session.dialect (expr.places session.dialect))
          session.imports).1 ∧
      (session.exprRun expr).error? =
        (Place.firstRefused? session.dialect (expr.places session.dialect)).map
          (.unsupported · session.dialect) :=
  Place.run_of_agree (expr.agree_doc session.style) session.newPass

theorem bodyRun_done (h : Place.firstRefused? session.dialect
    (program.places session.dialect) = none) : ∃ pass, session.bodyRun program = .done pass := by
  have he := (bodyRun_collect session program).2
  rw [h] at he
  cases hr : session.bodyRun program with
  | done pass => exact ⟨pass, rfl⟩
  | failed error pass =>
    rw [hr] at he
    exact absurd he (Option.some_ne_none error)

theorem render_session : (session.render program).2 =
    { session with imports := (session.bodyRun program).pass.imports } := by
  rw [render_eq, conclude_session]
  cases session.bodyRun program <;> rfl

theorem render_error_iff (error : RenderError) :
    (session.render program).1 = .error error ↔
      ∃ construct, Place.firstRefused? session.dialect (program.places session.dialect) =
        some construct ∧ error = .unsupported construct session.dialect := by
  have he : ((session.bodyRun program).andThen fun pass =>
      .done (pass.withHeader session.dialect)).error? = (session.bodyRun program).error? := by
    cases session.bodyRun program <;> rfl
  rw [render_eq, conclude_error_iff, he, (bodyRun_collect session program).2,
    Option.map_eq_some_iff]
  exact exists_congr fun construct => and_congr_right fun _ => eq_comm

theorem renderExpr_error_iff (expr : Expr) (error : RenderError) :
    (session.renderExpr expr).1 = .error error ↔
      ∃ construct, Place.firstRefused? session.dialect (expr.places session.dialect) =
        some construct ∧ error = .unsupported construct session.dialect := by
  rw [renderExpr_eq, conclude_error_iff, (exprRun_collect session expr).2,
    Option.map_eq_some_iff]
  exact exists_congr fun construct => and_congr_right fun _ => eq_comm

/-- A program that is rendered has the header of the imports that the session has afterwards
in front of its body. -/
theorem render_ok_iff (text : String) :
    (session.render program).1 = .ok text ↔
      ∃ pass, session.bodyRun program = .done pass ∧
        text = String.join ((session.dialect.header pass.imports).map (· ++ "\n")) ++
          pass.page.text := by
  have hl : String.singleton '\n' = "\n" := rfl
  rw [render_eq, conclude_ok_iff]
  cases session.bodyRun program with
  | done pass =>
    simp only [Outcome.andThen_done, Outcome.done.injEq, exists_eq_left', Pass.withHeader_eq,
      String.push_eq_append, hl]
    exact eq_comm
  | failed error pass => simp

/-- A program that is rendered has nothing that is refused. -/
theorem firstRefused?_of_render {text : String} (h : (session.render program).1 = .ok text) :
    Place.firstRefused? session.dialect (program.places session.dialect) = none := by
  cases hf : Place.firstRefused? session.dialect (program.places session.dialect) with
  | none => rfl
  | some construct =>
    have he := (render_error_iff session program _).mpr ⟨construct, hf, rfl⟩
    rw [h] at he
    exact absurd he (by simp)

/-- A session that has rendered a program imports what the program refers to. -/
theorem render_imports (hd : session.dialect ≠ .plain) {text : String}
    (h : (session.render program).1 = .ok text) :
    (session.render program).2.imports =
      session.imports.insertAll (program.references session.dialect) := by
  have hc := bodyRun_collect session program
  have hn := firstRefused?_of_render session program h
  rw [render_session, hc.1, Program.references, ← Place.referenced_marks hd hn]
  apply Mark.collect_of_done
  rw [Place.collect_marks_refused, hn]

end Session

end Polyglot
