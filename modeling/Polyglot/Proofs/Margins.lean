import Polyglot.Proofs.Rendering

/-! The margin of a page has no effect but to stand in front of lines. A draft holds what a page
holds apart from its margins, and the strokes of a document lead from drafts to drafts. -/
namespace Polyglot

/-- A line by the number of margins in front of it and what comes behind them. -/
structure Line where
  level : Nat
  content : String
  unbroken : '\n' ∉ content.toList

namespace Line

def blank : Line := ⟨0, "", by simp⟩

/-- An empty line gets no margin. -/
def text (unit : String) (line : Line) : String :=
  if line.content = "" then "" else String.join (List.replicate line.level unit) ++ line.content

/-- The text that has these lines. -/
def joined (unit : String) (lines : List Line) : String :=
  "\n".intercalate (lines.map (text unit))

@[simp] theorem text_blank (unit : String) : blank.text unit = "" := rfl

theorem text_of_level_zero {line : Line} (h : line.level = 0) (unit : String) :
    line.text unit = line.content := by
  unfold text
  split_ifs with hc
  · exact hc.symm
  · simp [h]

/-- The text of lines that all have an end. -/
def ended (unit : String) (lines : List Line) : String :=
  String.join (lines.map (text unit · ++ "\n"))

theorem ended_append (unit : String) (lines rest : List Line) :
    ended unit (lines ++ rest) = ended unit lines ++ ended unit rest := by
  simp [ended]

/-- Only the last line has no end. -/
theorem joined_concat (unit : String) (lines : List Line) (last : Line) :
    joined unit (lines ++ [last]) = ended unit lines ++ last.text unit := by
  induction lines with
  | nil => simp [joined, ended]
  | cons line rest ih =>
    have hr : joined unit (line :: (rest ++ [last])) =
        line.text unit ++ "\n" ++ joined unit (rest ++ [last]) :=
      String.intercalate_cons_of_ne_nil (by simp)
    rw [List.cons_append, hr, ih]
    simp [ended, String.append_assoc]

/-- Without margins the text of lines is their content. -/
theorem ended_of_level_zero {lines : List Line} (h : ∀ line ∈ lines, line.level = 0)
    (unit : String) : ended unit lines = String.join (lines.map (·.content ++ "\n")) := by
  unfold ended
  congr 1
  apply List.map_congr_left
  intro line hm
  rw [text_of_level_zero (h line hm)]

/-- Any text can be cut into lines without margins. -/
theorem exists_level_zero (chars : List Char) :
    ∃ (first : Line) (rest : List Line), (∀ line ∈ first :: rest, line.level = 0) ∧
      String.join ((first :: rest).map (·.content ++ "\n")) = String.ofList chars ++ "\n" := by
  induction chars with
  | nil => exact ⟨blank, [], by simp [blank], by simp [blank]⟩
  | cons c chars ih =>
    obtain ⟨first, rest, hl, he⟩ := ih
    by_cases hc : c = '\n'
    · refine ⟨blank, first :: rest, by simpa [blank] using hl, ?_⟩
      rw [List.map_cons, String.join_cons, he, hc, String.ofList_cons]
      rfl
    · have hu : '\n' ∉ (String.singleton c ++ first.content).toList := by
        simpa using ⟨Ne.symm hc, first.unbroken⟩
      refine ⟨⟨0, String.singleton c ++ first.content, hu⟩, rest, ?_, ?_⟩
      · simpa using (List.forall_mem_cons.mp hl).2
      · simp only [List.map_cons, String.join_cons, String.ofList_cons, String.append_assoc] at he ⊢
        rw [he]

/-- Whole lines of text, each of which may hold further ends of lines. -/
theorem exists_level_zero_all (texts : List String) :
    ∃ lines : List Line, (∀ line ∈ lines, line.level = 0) ∧
      String.join (lines.map (·.content ++ "\n")) = String.join (texts.map (· ++ "\n")) := by
  induction texts with
  | nil => exact ⟨[], by simp, rfl⟩
  | cons text texts ih =>
    obtain ⟨first, rest, hf, hfe⟩ := exists_level_zero text.toList
    obtain ⟨lines, hl, hle⟩ := ih
    refine ⟨first :: rest ++ lines, List.forall_mem_append.mpr ⟨hf, hl⟩, ?_⟩
    rw [List.map_append, String.join_append, hfe, hle, String.ofList_toList, List.map_cons,
      String.join_cons]

/-- Finished lines in front of others. -/
theorem joined_append (unit : String) (lines rest : List Line) (last : Line) :
    joined unit (lines ++ (rest ++ [last])) = ended unit lines ++ joined unit (rest ++ [last]) := by
  rw [← List.append_assoc, joined_concat, joined_concat, ended_append, String.append_assoc]

end Line

/-- A page without its margins: the lines that are finished, and the one that is not. -/
structure Draft where
  finished : List Line := []
  current : Line := .blank
  level : Nat := 0
  depth : Nat := 0

namespace Draft

def lines (draft : Draft) : List Line :=
  draft.finished ++ [draft.current]

/-- The page that has `unit` as its margin. -/
def page (unit : String) (draft : Draft) : Page where
  text := Line.joined unit draft.lines
  indentUnit := unit
  level := draft.level
  atLineStart := draft.current.content = ""
  depth := draft.depth

/-- The first character of a line decides on the level of the line. -/
def push (draft : Draft) (c : Char) : Draft :=
  if h : c = '\n' then
    { draft with finished := draft.lines, current := .blank }
  else if draft.current.content = "" then
    { draft with current := ⟨draft.level, String.singleton c, by simpa using Ne.symm h⟩ }
  else
    { draft with current := ⟨draft.current.level, draft.current.content.push c,
        by simpa using ⟨draft.current.unbroken, Ne.symm h⟩⟩ }

def write (draft : Draft) (text : String) : Draft :=
  text.toList.foldl push draft

def freshLine (draft : Draft) : Draft :=
  if draft.current.content = "" then draft else draft.push '\n'

theorem text_page (unit : String) (draft : Draft) :
    (draft.page unit).text = Line.ended unit draft.finished ++ draft.current.text unit :=
  Line.joined_concat unit draft.finished draft.current

theorem page_newline (unit : String) (draft : Draft) :
    (draft.page unit).push '\n' = (draft.push '\n').page unit := by
  have ht : (draft.page unit).text.push '\n' = ((draft.push '\n').page unit).text := by
    rw [text_page, text_page]
    simp [push, lines, Line.ended, String.push_eq_append, String.append_assoc]
  simp only [Page.push, if_pos, ht]
  simp [push, page, Line.blank]

theorem page_push (unit : String) (draft : Draft) (c : Char) :
    (draft.page unit).push c = (draft.push c).page unit := by
  by_cases hc : c = '\n'
  · rw [hc, page_newline]
  by_cases hs : draft.current.content = ""
  · -- The line is still empty, so the margin is written with its first character.
    have ht : ((draft.page unit).text ++ (draft.page unit).margin).push c =
        ((draft.push c).page unit).text := by
      rw [text_page, text_page]
      simp [← String.toList_inj, push, hc, hs, Line.text, Page.margin, page]
    simp only [Page.push, if_neg hc, ht]
    simp [push, page, hc, hs]
  · have ht : (draft.page unit).text.push c = ((draft.push c).page unit).text := by
      rw [text_page, text_page]
      simp [← String.toList_inj, push, hc, hs, Line.text]
    simp only [Page.push, if_neg hc, ht]
    simp [push, page, hc, hs]

theorem page_write (unit : String) (draft : Draft) (text : String) :
    (draft.page unit).write text = (draft.write text).page unit := by
  unfold Page.write write
  induction text.toList generalizing draft with
  | nil => rfl
  | cons c rest ih => rw [List.foldl_cons, List.foldl_cons, page_push, ih]

theorem page_freshLine (unit : String) (draft : Draft) :
    (draft.page unit).freshLine = draft.freshLine.page unit := by
  have hp := draft.page_newline unit
  by_cases h : draft.current.content = ""
  · simp [Page.freshLine, freshLine, page, h]
  · simpa [Page.freshLine, freshLine, page, h] using hp

end Draft

/-- Outcomes for every margin, with one draft behind all of them. -/
inductive Outcome.Drafted (outcome : String → Outcome) : Prop where
  | done (draft : Draft) (imports : Imports)
      (h : ∀ unit, outcome unit = .done ⟨draft.page unit, imports⟩)
  | failed (error : RenderError) (draft : Draft) (imports : Imports)
      (h : ∀ unit, outcome unit = .failed error ⟨draft.page unit, imports⟩)

namespace Stroke

variable (dialect : Dialect)

theorem step_drafted (stroke : Stroke) (draft : Draft) (imports : Imports) :
    Outcome.Drafted fun unit => stroke.step dialect ⟨draft.page unit, imports⟩ := by
  cases stroke with
  | write content =>
    refine .done (draft.write content) imports fun unit => ?_
    simp only [step, Pass.write, Draft.page_write]
  | indent => exact .done { draft with level := draft.level + 1 } imports fun _ => rfl
  | unindent => exact .done { draft with level := draft.level - 1 } imports fun _ => rfl
  | freshLine =>
    refine .done draft.freshLine imports fun unit => ?_
    simp only [step, Draft.page_freshLine]
  | refer ty =>
    refine .done (draft.write (dialect.spell (imports.insert ty) ty)) (imports.insert ty)
      fun unit => ?_
    simp only [step, Pass.refer, Draft.page_write]
  | refuse construct => exact .failed _ draft imports fun _ => rfl

/-- Strokes lead to the same draft whatever the margin is. -/
theorem run_drafted (strokes : List Stroke) (draft : Draft) (imports : Imports) :
    Outcome.Drafted fun unit => run dialect strokes ⟨draft.page unit, imports⟩ := by
  induction strokes generalizing draft imports with
  | nil => exact .done draft imports fun _ => rfl
  | cons stroke rest ih =>
    cases step_drafted dialect stroke draft imports with
    | done next later h =>
      simp only [run_cons, h, Outcome.andThen_done]
      exact ih next later
    | failed error next later h =>
      refine .failed error next later fun unit => ?_
      rw [run_cons, h, Outcome.andThen_failed]

end Stroke

namespace Session

/-- The session with another margin. -/
def withIndent (session : Session) (unit : String) : Session :=
  { session with settings := { session.settings with indent := unit } }

variable (session : Session)

theorem newPass_withIndent (unit : String) :
    (session.withIndent unit).newPass = ⟨({} : Draft).page unit, session.imports⟩ := by
  simp [newPass, withIndent, Draft.page, Draft.lines, Line.joined, Line.blank, Line.text]

theorem bodyRun_drafted (program : Program) :
    Outcome.Drafted fun unit => (session.withIndent unit).bodyRun program := by
  simp only [bodyRun, newPass_withIndent]
  exact Stroke.run_drafted session.dialect (Stmt.lines session.style program.body).strokes {}
    session.imports

theorem exprRun_drafted (expr : Expr) :
    Outcome.Drafted fun unit => (session.withIndent unit).exprRun expr := by
  simp only [exprRun, newPass_withIndent]
  exact Stroke.run_drafted session.dialect (expr.doc session.style).strokes {} session.imports

theorem conclude_withHeader (unit : String) (draft : Draft) (imports : Imports)
    {header : List Line} (hz : ∀ line ∈ header, line.level = 0)
    (hh : String.join (header.map (·.content ++ "\n")) =
      String.join ((session.dialect.header imports).map (· ++ "\n"))) :
    session.conclude (.done (Pass.withHeader session.dialect ⟨draft.page unit, imports⟩)) =
      (.ok (Line.joined unit (header ++ draft.lines)), { session with imports := imports }) := by
  have hl : ∀ text : String, text.push '\n' = text ++ "\n" := fun text => String.push_eq_append '\n'
  have ht : Line.joined unit (header ++ draft.lines) =
      String.join ((session.dialect.header imports).map (·.push '\n')) ++
        Line.joined unit draft.lines := by
    rw [Draft.lines, Line.joined_append, Line.ended_of_level_zero hz, hh]
    simp only [hl]
  rw [ht, Pass.withHeader_eq]
  rfl

/-- There is one list of lines, each with its level, that gives the text for every margin; an
error and the imports do not depend on the margin at all. The lines of the header come first
and have no margin. -/
theorem margin_only_leads_lines (session : Session) :
    (∀ program : Program, ∃ (result : Except RenderError (List Line)) (imports : Imports),
      (∀ unit, (session.withIndent unit).render program =
        (result.map (Line.joined unit), { session.withIndent unit with imports := imports })) ∧
      ∀ lines, result = .ok lines → ∃ header body, lines = header ++ body ∧
        (∀ line ∈ header, line.level = 0) ∧
        String.join (header.map (·.content ++ "\n")) =
          String.join ((session.dialect.header imports).map (· ++ "\n"))) ∧
    (∀ expr : Expr, ∃ (result : Except RenderError (List Line)) (imports : Imports),
      ∀ unit, (session.withIndent unit).renderExpr expr =
        (result.map (Line.joined unit), { session.withIndent unit with imports := imports })) := by
  refine ⟨fun program => ?_, fun expr => ?_⟩
  · cases session.bodyRun_drafted program with
    | failed error draft imports h =>
      refine ⟨.error error, imports, fun unit => ?_, by simp⟩
      rw [render_eq, h]
      rfl
    | done draft imports h =>
      obtain ⟨header, hz, hh⟩ := Line.exists_level_zero_all (session.dialect.header imports)
      refine ⟨.ok (header ++ draft.lines), imports, fun unit => ?_, ?_⟩
      · rw [render_eq, h]
        exact conclude_withHeader (session.withIndent unit) unit draft imports hz hh
      · rintro lines ⟨⟩
        exact ⟨header, draft.lines, rfl, hz, hh⟩
  · cases session.exprRun_drafted expr with
    | failed error draft imports h =>
      refine ⟨.error error, imports, fun unit => ?_⟩
      rw [renderExpr_eq, h]
      rfl
    | done draft imports h =>
      refine ⟨.ok draft.lines, imports, fun unit => ?_⟩
      rw [renderExpr_eq, h]
      rfl

end Session

end Polyglot
