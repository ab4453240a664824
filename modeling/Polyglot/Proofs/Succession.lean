import Polyglot.Proofs.Inline

/-! Statement lists one after the other. A statement ends its line whatever it holds, so what comes
behind it is written as on an empty page; only the imports tell that something was there before. -/
namespace Polyglot

namespace Page

@[simp] theorem freshLine_atLineStart (page : Page) : page.freshLine.atLineStart = true := by
  unfold freshLine
  split_ifs with h
  · exact h
  · simp [push]

/-- An empty line is not ended. -/
theorem freshLine_of_atLineStart {page : Page} (h : page.atLineStart = true) :
    page.freshLine = page :=
  if_pos h

end Page

namespace Stmt

variable (style : Style)

theorem strokes_lines_cons (stmt : Stmt) (rest : List Stmt) :
    (lines style (stmt :: rest)).strokes =
      (stmt.doc style).strokes ++ .freshLine :: (lines style rest).strokes := by
  simp [lines, Phrase.line, Doc.strokes]

theorem strokes_lines_append (first second : List Stmt) :
    (lines style (first ++ second)).strokes =
      (lines style first).strokes ++ (lines style second).strokes := by
  induction first with
  | nil => simp [lines, Doc.strokes]
  | cons stmt rest ih =>
    rw [List.cons_append, strokes_lines_cons, strokes_lines_cons, ih]
    simp

/-- Statements leave an empty line behind, unless there are none of them. -/
theorem atLineStart_of_run {dialect : Dialect} {stmts : List Stmt} {pass last : Pass}
    (hs : stmts ≠ [] ∨ pass.page.atLineStart = true)
    (h : Stroke.run dialect (lines style stmts).strokes pass = .done last) :
    last.page.atLineStart = true := by
  induction stmts generalizing pass with
  | nil =>
    rcases hs with hn | hp
    · exact absurd rfl hn
    · cases h
      exact hp
  | cons stmt rest ih =>
    rw [strokes_lines_cons, Stroke.run_append] at h
    cases hr : Stroke.run dialect (stmt.doc style).strokes pass with
    | failed error next =>
      rw [hr] at h
      cases h
    | done next =>
      rw [hr] at h
      exact ih (.inr (Page.freshLine_atLineStart next.page)) h

end Stmt

namespace Session

variable (session : Session)

/-- Behind the text of its statements, the page of a body is an empty one. -/
theorem page_of_bodyRun {program : Program} {last : Pass}
    (h : session.bodyRun program = .done last) :
    last.page = session.newPass.page.behind last.page.text := by
  have hs := Stmt.atLineStart_of_run session.style (.inr rfl) h
  have hu := Stroke.run_indentUnit session.dialect
    (Stmt.lines session.style program.body).strokes session.newPass
  have hb := ((Stmt.lines session.style program.body).playFragment_framed session.dialect
    session.newPass).balanced
  rw [Doc.playFragment_eq_run] at hb
  unfold bodyRun at h
  rw [h] at hu hb
  obtain ⟨⟨text, unit, level, start, depth⟩, imports⟩ := last
  obtain rfl : unit = session.settings.indent := hu
  obtain rfl : level = 0 := hb.level_eq rfl
  obtain rfl : start = true := hs
  obtain rfl : depth = 0 := hb.depth
  simp [Page.behind, Page.withText, newPass]

/-- The statements of the second list write what they would write as a program of their own, in a
session that has the imports of the first list. -/
theorem bodyRun_append (first second : List Stmt) :
    session.bodyRun ⟨first ++ second⟩ =
      (session.bodyRun ⟨first⟩).andThen fun pass =>
        ({ session with imports := pass.imports }.bodyRun ⟨second⟩).alwaysOnPage
          (Page.behind pass.page.text) := by
  have ha : session.bodyRun ⟨first ++ second⟩ =
      (session.bodyRun ⟨first⟩).andThen
        (Stroke.run session.dialect (Stmt.lines session.style second).strokes) := by
    unfold bodyRun
    rw [Stmt.strokes_lines_append, Stroke.run_append]
  rw [ha]
  cases hf : session.bodyRun ⟨first⟩ with
  | failed error pass => rfl
  | done pass =>
    obtain ⟨page, imports⟩ := pass
    have hp : page = session.newPass.page.behind page.text := session.page_of_bodyRun hf
    have hb := Stroke.run_behind session.dialect page.text
      (Stmt.lines session.style second).strokes ⟨session.newPass.page, imports⟩
    rw [← hp] at hb
    exact hb

/-- Rendering a program puts the header in front of its body and changes nothing else. -/
theorem render_eq_renderBody (program : Program) :
    session.render program =
      ((session.renderBody program).1.map
        (String.join ((session.dialect.header (session.renderBody program).2.imports).map
          (·.push '\n')) ++ ·),
        (session.renderBody program).2) := by
  simp only [render_eq, renderBody_eq, Pass.withHeader_eq]
  cases session.bodyRun program <;> rfl

theorem isOk_render (program : Program) :
    (session.render program).1.isOk = (session.renderBody program).1.isOk := by
  rw [render_eq_renderBody]
  cases (session.renderBody program).1 <;> rfl

theorem render_eq_error_iff (program : Program) (error : RenderError) :
    (session.render program).1 = .error error ↔ (session.renderBody program).1 = .error error := by
  rw [render_eq_renderBody]
  cases (session.renderBody program).1 <;> simp [Except.map]

/-- The body of two lists, in one equation for the result and one for the session. -/
theorem renderBody_append (first second : List Stmt) :
    let later := (session.renderBody ⟨first⟩).2
    (session.renderBody ⟨first ++ second⟩).1 =
        ((session.renderBody ⟨first⟩).1.bind fun text =>
          (later.renderBody ⟨second⟩).1.map (text ++ ·)) ∧
      (session.renderBody ⟨first ++ second⟩).2 =
        if (session.renderBody ⟨first⟩).1.isOk then (later.renderBody ⟨second⟩).2 else later := by
  intro later
  have hl : later = { session with imports := (session.bodyRun ⟨first⟩).pass.imports } := by
    show (session.renderBody ⟨first⟩).2 = _
    rw [renderBody_eq, conclude_session]
  rw [hl, renderBody_eq, renderBody_eq, renderBody_eq, bodyRun_append]
  cases session.bodyRun ⟨first⟩ with
  | failed error pass => exact ⟨rfl, rfl⟩
  | done pass =>
    simp only [Outcome.andThen_done, Outcome.pass]
    cases { session with imports := pass.imports }.bodyRun ⟨second⟩ <;> exact ⟨rfl, rfl⟩

/-- A program is rendered statement by statement: the second part of it has the body that it has
as a program of its own in the session that the first part leaves, and the first error counts. The
header in front of the body is that of the imports in the end. -/
theorem statement_lists_render_in_succession (first second : List Stmt) :
    let whole : Program := ⟨first ++ second⟩
    let later := (session.render ⟨first⟩).2
    ((session.render whole).1.isOk = true ↔
      (session.render ⟨first⟩).1.isOk = true ∧ (later.render ⟨second⟩).1.isOk = true) ∧
    (session.renderBody whole).1 =
      ((session.renderBody ⟨first⟩).1.bind fun text =>
        (later.renderBody ⟨second⟩).1.map (text ++ ·)) ∧
    (session.render whole).1 =
      (session.renderBody whole).1.map (String.join
        ((session.dialect.header (session.render whole).2.imports).map (·.push '\n')) ++ ·) ∧
    (session.render whole).2 =
      (if (session.render ⟨first⟩).1.isOk then (later.render ⟨second⟩).2 else later) ∧
    ∀ error, (session.render whole).1 = .error error ↔
      (session.render ⟨first⟩).1 = .error error ∨
        (session.render ⟨first⟩).1.isOk = true ∧ (later.render ⟨second⟩).1 = .error error := by
  intro whole later
  have hs (session : Session) (program : Program) :
      (session.render program).2 = (session.renderBody program).2 := by
    rw [render_eq_renderBody]
  have hl : later = (session.renderBody ⟨first⟩).2 := hs session ⟨first⟩
  obtain ⟨hb, hi⟩ := session.renderBody_append first second
  rw [← hl] at hb hi
  refine ⟨?_, hb, ?_, ?_, fun error => ?_⟩
  · rw [isOk_render, isOk_render, isOk_render, hb]
    cases (session.renderBody ⟨first⟩).1 <;> cases (later.renderBody ⟨second⟩).1 <;>
      simp [Except.bind, Except.map, Except.isOk, Except.toBool]
  · rw [hs, render_eq_renderBody]
  · rw [isOk_render, hs, hs, hi]
  · rw [render_eq_error_iff, render_eq_error_iff, render_eq_error_iff, isOk_render, hb]
    cases (session.renderBody ⟨first⟩).1 <;> cases (later.renderBody ⟨second⟩).1 <;>
      simp [Except.bind, Except.map, Except.isOk, Except.toBool]

end Session

end Polyglot
