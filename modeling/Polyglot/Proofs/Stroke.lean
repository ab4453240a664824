import Mathlib.Tactic.Common
import Polyglot.Doc

/-! Documents as flat lists of strokes. Inside an open block a document does to a pass what its
strokes do one after the other; a header is no stroke, so only a block that is entered from
outside all blocks can bring one. -/
namespace Polyglot

namespace Page

@[simp] theorem push_depth (page : Page) (c : Char) : (page.push c).depth = page.depth := by
  unfold push
  split_ifs <;> rfl

theorem push_enterBlock (page : Page) (c : Char) :
    page.enterBlock.push c = (page.push c).enterBlock := by
  by_cases hc : c = '\n'
  · simp [push, enterBlock, hc]
  · cases hs : page.atLineStart <;> simp [push, enterBlock, margin, hc, hs]

@[simp] theorem write_depth (page : Page) (text : String) :
    (page.write text).depth = page.depth := by
  unfold write
  induction text.toList generalizing page with
  | nil => rfl
  | cons c rest ih => rw [List.foldl_cons, ih, push_depth]

/-- Writing does not look at how many blocks are open. -/
theorem write_enterBlock (page : Page) (text : String) :
    page.enterBlock.write text = (page.write text).enterBlock := by
  unfold write
  induction text.toList generalizing page with
  | nil => rfl
  | cons c rest ih => rw [List.foldl_cons, List.foldl_cons, push_enterBlock, ih]

@[simp] theorem freshLine_depth (page : Page) : page.freshLine.depth = page.depth := by
  unfold freshLine
  split_ifs
  · rfl
  · exact push_depth page '\n'

theorem freshLine_enterBlock (page : Page) :
    page.enterBlock.freshLine = page.freshLine.enterBlock := by
  have hp := push_enterBlock page '\n'
  cases hs : page.atLineStart with
  | true => simp [freshLine, enterBlock, hs]
  | false => simpa [freshLine, enterBlock, hs] using hp

end Page

namespace Outcome

@[simp] theorem andThen_done (pass : Pass) (next : Pass → Outcome) :
    (done pass).andThen next = next pass := rfl

@[simp] theorem andThen_failed (error : RenderError) (pass : Pass) (next : Pass → Outcome) :
    (failed error pass).andThen next = failed error pass := rfl

theorem andThen_assoc (outcome : Outcome) (next last : Pass → Outcome) :
    (outcome.andThen next).andThen last = outcome.andThen fun pass => (next pass).andThen last := by
  cases outcome <;> rfl

@[simp] theorem alwaysOnPage_leave_enter (outcome : Outcome) :
    (outcome.alwaysOnPage Page.enterBlock).alwaysOnPage Page.leaveBlock = outcome := by
  cases outcome <;> rfl

end Outcome

/-- One thing that a document does to a pass. -/
inductive Stroke where
  | write (content : String)
  | indent
  | unindent
  | freshLine
  | refer (ty : ClassType)
  | refuse (construct : Construct)

namespace Stroke

def step (dialect : Dialect) : Stroke → Pass → Outcome
  | .write content, pass => .done (pass.write content)
  | .indent, pass => .done { pass with page := pass.page.indent }
  | .unindent, pass => .done { pass with page := pass.page.unindent }
  | .freshLine, pass => .done { pass with page := pass.page.freshLine }
  | .refer ty, pass => .done (pass.refer dialect ty)
  | .refuse construct, pass => .failed (.unsupported construct dialect) pass

/-- Stops at the first stroke that is refused. -/
def run (dialect : Dialect) : List Stroke → Pass → Outcome
  | [], pass => .done pass
  | stroke :: rest, pass => (stroke.step dialect pass).andThen (run dialect rest)

variable (dialect : Dialect)

@[simp] theorem run_nil (pass : Pass) : run dialect [] pass = .done pass := rfl

@[simp] theorem run_cons (stroke : Stroke) (rest : List Stroke) (pass : Pass) :
    run dialect (stroke :: rest) pass =
      (stroke.step dialect pass).andThen (run dialect rest) := rfl

theorem run_append (first second : List Stroke) (pass : Pass) :
    run dialect (first ++ second) pass =
      (run dialect first pass).andThen (run dialect second) := by
  induction first generalizing pass with
  | nil => rfl
  | cons stroke rest ih =>
    rw [List.cons_append, run_cons, run_cons, Outcome.andThen_assoc]
    congr 1
    funext next
    exact ih next

theorem step_depth (stroke : Stroke) (pass : Pass) :
    (stroke.step dialect pass).pass.page.depth = pass.page.depth := by
  cases stroke <;> simp [step, Outcome.pass, Pass.write, Pass.refer, Page.indent, Page.unindent]

theorem run_depth (strokes : List Stroke) (pass : Pass) :
    (run dialect strokes pass).pass.page.depth = pass.page.depth := by
  induction strokes generalizing pass with
  | nil => rfl
  | cons stroke rest ih =>
    have hs := step_depth dialect stroke pass
    rw [run_cons]
    cases h : stroke.step dialect pass with
    | done next => rw [Outcome.andThen_done, ih, ← hs, h, Outcome.pass]
    | failed error next => rw [Outcome.andThen_failed, ← hs, h]

theorem step_enterBlock (stroke : Stroke) (pass : Pass) :
    stroke.step dialect { pass with page := pass.page.enterBlock } =
      (stroke.step dialect pass).alwaysOnPage Page.enterBlock := by
  cases stroke with
  | write content =>
    simp only [step, Pass.write, Outcome.alwaysOnPage, Page.write_enterBlock]
  | indent => rfl
  | unindent => rfl
  | freshLine => simp only [step, Outcome.alwaysOnPage, Page.freshLine_enterBlock]
  | refer ty => simp only [step, Pass.refer, Outcome.alwaysOnPage, Page.write_enterBlock]
  | refuse construct => rfl

/-- Strokes do the same in one more open block. -/
theorem run_enterBlock (strokes : List Stroke) (pass : Pass) :
    run dialect strokes { pass with page := pass.page.enterBlock } =
      (run dialect strokes pass).alwaysOnPage Page.enterBlock := by
  induction strokes generalizing pass with
  | nil => rfl
  | cons stroke rest ih =>
    rw [run_cons, run_cons, step_enterBlock]
    cases stroke.step dialect pass with
    | done next => exact ih next
    | failed error next => rfl

end Stroke

namespace Doc

/-- A block has no strokes of its own. -/
def strokes : Doc → List Stroke
  | .empty => []
  | .text content => [.write content]
  | .append first second => first.strokes ++ second.strokes
  | .nest body => .indent :: body.strokes ++ [.unindent]
  | .block body => body.strokes
  | .quoted body => .write "\"" :: body.strokes ++ [.write "\""]
  | .reference ty => [.refer ty]
  | .freshLine => [.freshLine]
  | .unsupported construct => [.refuse construct]

@[simp] theorem strokes_append (first second : Doc) :
    (first ++ second).strokes = first.strokes ++ second.strokes := rfl

theorem run_nest (dialect : Dialect) (body : Doc) (pass : Pass) :
    Stroke.run dialect (nest body).strokes pass =
      (Stroke.run dialect body.strokes { pass with page := pass.page.indent }).onPage
        Page.unindent := by
  simp only [strokes, List.cons_append, Stroke.run_cons, Stroke.run_append, Stroke.step,
    Outcome.andThen_done]
  cases Stroke.run dialect body.strokes { pass with page := pass.page.indent } <;> rfl

theorem run_quoted (dialect : Dialect) (body : Doc) (pass : Pass) :
    Stroke.run dialect (quoted body).strokes pass =
      (Stroke.run dialect body.strokes (pass.write "\"")).andThen
        fun pass => .done (pass.write "\"") := by
  simp only [strokes, List.cons_append, Stroke.run_cons, Stroke.run_append, Stroke.step,
    Outcome.andThen_done]
  cases Stroke.run dialect body.strokes (pass.write "\"") <;> rfl

open Stroke in
/-- Inside an open block a document does what its strokes do. -/
theorem play_eq_run (dialect : Dialect) (doc : Doc) (pass : Pass) (h : 0 < pass.page.depth) :
    doc.play dialect pass = run dialect doc.strokes pass := by
  -- The depth stays positive along the document: strokes keep it, and a block only raises it.
  induction doc generalizing pass with
  | empty | text content | reference ty | freshLine | unsupported construct => rfl
  | append first second ihf ihs =>
    have hd := run_depth dialect first.strokes pass
    simp only [play, strokes, run_append, ihf pass h]
    cases hr : run dialect first.strokes pass with
    | failed error next => rfl
    | done next =>
      rw [hr, Outcome.pass] at hd
      exact ihs next (by omega)
  | nest body ih => rw [play, run_nest, ih { pass with page := pass.page.indent } h]
  | block body ih =>
    have hz : pass.page.depth ≠ 0 := by omega
    have hi := ih { pass with page := pass.page.enterBlock } (Nat.succ_pos pass.page.depth)
    simp only [play, strokes, if_neg hz, hi, run_enterBlock, Outcome.alwaysOnPage_leave_enter]
  | quoted body ih =>
    rw [play, run_quoted, ih (pass.write "\"") (by simpa [Pass.write] using h)]

/-- A block that gets no header leaves no trace of itself. -/
theorem playFragment_eq_run (dialect : Dialect) (doc : Doc) (pass : Pass) :
    doc.playFragment dialect pass = Stroke.run dialect doc.strokes pass := by
  unfold playFragment
  rw [play_eq_run dialect doc _ (Nat.succ_pos pass.page.depth), Stroke.run_enterBlock,
    Outcome.alwaysOnPage_leave_enter]

/-- The block entered from outside all blocks: its strokes, then the header. -/
theorem play_block_outermost (dialect : Dialect) (body : Doc) (pass : Pass)
    (h : pass.page.depth = 0) :
    (Doc.block body).play dialect pass =
      (Stroke.run dialect body.strokes pass).andThen fun pass =>
        .done (pass.withHeader dialect) := by
  have hf := playFragment_eq_run dialect body pass
  simp only [playFragment] at hf
  simp only [play, if_pos h, hf]

end Doc

end Polyglot
