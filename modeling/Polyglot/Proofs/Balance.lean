import Polyglot.Proofs.Rendering

/-! Rendering leaves the counters of a page balanced, and it only appends to the text. What a
document does to a page is the same whatever text the page holds already. -/
namespace Polyglot

namespace Page

@[simp] theorem push_level (page : Page) (c : Char) : (page.push c).level = page.level := by
  unfold push
  split_ifs <;> rfl

@[simp] theorem write_level (page : Page) (text : String) :
    (page.write text).level = page.level := by
  unfold write
  induction text.toList generalizing page with
  | nil => rfl
  | cons c rest ih => rw [List.foldl_cons, ih, push_level]

@[simp] theorem freshLine_level (page : Page) : page.freshLine.level = page.level := by
  unfold freshLine
  split_ifs
  · rfl
  · exact push_level page '\n'

/-- The same page with another text on it. -/
def withText (page : Page) (text : String) : Page :=
  { page with text := text }

/-- The page with more text in front of what it holds. -/
def behind (before : String) (page : Page) : Page :=
  page.withText (before ++ page.text)

private theorem append_push (before text : String) (c : Char) :
    (before ++ text).push c = before ++ text.push c := by
  rw [String.push_eq_append, String.push_eq_append, String.append_assoc]

theorem push_behind (before : String) (page : Page) (c : Char) :
    (page.behind before).push c = (page.push c).behind before := by
  by_cases hc : c = '\n'
  · simp [push, behind, withText, hc, append_push]
  · cases hs : page.atLineStart <;>
      simp [push, behind, withText, margin, hc, hs, append_push, String.append_assoc]

theorem write_behind (before : String) (page : Page) (text : String) :
    (page.behind before).write text = (page.write text).behind before := by
  unfold write
  induction text.toList generalizing page with
  | nil => rfl
  | cons c rest ih => rw [List.foldl_cons, List.foldl_cons, push_behind, ih]

theorem freshLine_behind (before : String) (page : Page) :
    (page.behind before).freshLine = page.freshLine.behind before := by
  have hp := push_behind before page '\n'
  cases hs : page.atLineStart with
  | true => simp [freshLine, behind, withText, hs]
  | false => simpa [freshLine, behind, withText, hs] using hp

theorem behind_withText_empty (before : String) (page : Page) :
    (page.withText "").behind before = page.withText before := by
  simp [behind, withText]

end Page

namespace Outcome

/-- What an outcome has done to the counters of the page that it started from: no block is left
open, and levels are left only by a failure. -/
structure Balanced (outcome : Outcome) (start : Page) : Prop where
  depth : outcome.pass.page.depth = start.depth
  level_le : start.level ≤ outcome.pass.page.level
  level_eq : outcome.error? = none → outcome.pass.page.level = start.level

namespace Balanced

variable {outcome : Outcome} {start : Page}

/-- A step that leaves the counters alone. -/
theorem done {pass : Pass} (hd : pass.page.depth = start.depth)
    (hl : pass.page.level = start.level) : (Outcome.done pass).Balanced start :=
  ⟨hd, Nat.le_of_eq hl.symm, fun _ => hl⟩

theorem andThen (h : outcome.Balanced start) {next : Pass → Outcome}
    (hn : ∀ pass, (next pass).Balanced pass.page) : (outcome.andThen next).Balanced start := by
  cases outcome with
  | failed error pass => exact h
  | done pass =>
    obtain ⟨hd, hl, he⟩ := hn pass
    have hs : pass.page.level = start.level := h.level_eq rfl
    exact ⟨hd.trans h.depth, hs ▸ hl, fun hf => (he hf).trans hs⟩

/-- A level that is entered is left again, unless something in it fails. -/
theorem nest (h : outcome.Balanced start.indent) :
    (outcome.onPage Page.unindent).Balanced start := by
  cases outcome with
  | failed error pass =>
    have hl : start.level + 1 ≤ pass.page.level := h.level_le
    exact ⟨h.depth, Nat.le_of_succ_le hl, fun hf => absurd hf (Option.some_ne_none error)⟩
  | done pass =>
    have hl : pass.page.level = start.level + 1 := h.level_eq rfl
    refine .done h.depth ?_
    simp only [Page.unindent, hl, Nat.add_sub_cancel]

/-- A block that is entered is always left again. -/
theorem block (h : outcome.Balanced start.enterBlock) :
    (outcome.alwaysOnPage Page.leaveBlock).Balanced start := by
  obtain ⟨hd, hl, he⟩ := h
  cases outcome with
  | failed error pass | done pass =>
    simp only [Outcome.pass, Page.enterBlock] at hd hl
    refine ⟨?_, hl, he⟩
    simp only [Outcome.alwaysOnPage, Outcome.pass, Page.leaveBlock, hd, Nat.add_sub_cancel]

end Balanced

end Outcome

namespace Doc

/-- Inside or outside of all blocks, a document leaves the counters balanced. -/
theorem play_balanced (dialect : Dialect) (doc : Doc) (pass : Pass) :
    (doc.play dialect pass).Balanced pass.page := by
  induction doc generalizing pass with
  | empty => exact .done rfl rfl
  | text content => exact .done (by simp [Pass.write]) (by simp [Pass.write])
  | append first second ihf ihs => exact (ihf pass).andThen ihs
  | nest body ih => exact (ih { pass with page := pass.page.indent }).nest
  | block body ih =>
    have hb := (ih { pass with page := pass.page.enterBlock }).block
    simp only [play]
    split_ifs
    · exact hb.andThen fun later => .done (by simp [Pass.withHeader]) (by simp [Pass.withHeader])
    · exact hb
  | quoted body ih =>
    have hq : ∀ pass : Pass, (Outcome.done (pass.write "\"")).Balanced pass.page :=
      fun pass => .done (by simp [Pass.write]) (by simp [Pass.write])
    exact ((hq pass).andThen ih).andThen hq
  | reference ty => exact .done (by simp [Pass.refer]) (by simp [Pass.refer])
  | freshLine => exact .done (by simp) (by simp)
  | unsupported construct =>
    exact ⟨rfl, Nat.le_refl _, fun hf => absurd hf (Option.some_ne_none _)⟩

end Doc

namespace Stroke

theorem step_behind (dialect : Dialect) (before : String) (stroke : Stroke) (pass : Pass) :
    stroke.step dialect { pass with page := pass.page.behind before } =
      (stroke.step dialect pass).alwaysOnPage (Page.behind before) := by
  cases stroke with
  | write content => simp only [step, Pass.write, Outcome.alwaysOnPage, Page.write_behind]
  | indent => rfl
  | unindent => rfl
  | freshLine => simp only [step, Outcome.alwaysOnPage, Page.freshLine_behind]
  | refer ty => simp only [step, Pass.refer, Outcome.alwaysOnPage, Page.write_behind]
  | refuse construct => rfl

/-- Strokes do the same behind any text. -/
theorem run_behind (dialect : Dialect) (before : String) (strokes : List Stroke) (pass : Pass) :
    run dialect strokes { pass with page := pass.page.behind before } =
      (run dialect strokes pass).alwaysOnPage (Page.behind before) := by
  induction strokes generalizing pass with
  | nil => rfl
  | cons stroke rest ih =>
    rw [run_cons, run_cons, step_behind]
    cases stroke.step dialect pass with
    | done next => exact ih next
    | failed error next => rfl

/-- What strokes write does not depend on the text that is there already, and nor does anything
else about their outcome. -/
theorem run_withText (dialect : Dialect) (strokes : List Stroke) (pass : Pass) :
    ∃ written, ∀ before,
      run dialect strokes { pass with page := pass.page.withText before } =
        (run dialect strokes pass).alwaysOnPage (·.withText (before ++ written)) := by
  -- All runs are compared with the one on the empty text.
  have hb (before : String) := run_behind dialect before strokes
    { pass with page := pass.page.withText "" }
  simp only [Page.behind_withText_empty] at hb
  have hp := hb pass.page.text
  refine ⟨(run dialect strokes { pass with page := pass.page.withText "" }).pass.page.text, ?_⟩
  intro before
  have hw : pass.page.withText pass.page.text = pass.page := rfl
  rw [hw] at hp
  rw [hb before, hp]
  cases run dialect strokes { pass with page := pass.page.withText "" } <;> rfl

end Stroke

/-- What rendering may do to a page. The text counts inside a block only, as a header is put in
front of everything. -/
structure Framed (play : Pass → Outcome) (pass : Pass) : Prop where
  balanced : (play pass).Balanced pass.page
  /-- Pages that differ in their texts get the same text appended, with the same outcome. -/
  appends : 0 < pass.page.depth →
    ∃ written, ∀ before, play { pass with page := pass.page.withText before } =
      (play pass).alwaysOnPage (·.withText (before ++ written))

namespace Doc

theorem play_framed (dialect : Dialect) (doc : Doc) (pass : Pass) :
    Framed (doc.play dialect) pass where
  balanced := doc.play_balanced dialect pass
  appends h := by
    obtain ⟨written, hw⟩ := Stroke.run_withText dialect doc.strokes pass
    refine ⟨written, fun before => ?_⟩
    rw [doc.play_eq_run dialect pass h, ← hw]
    exact doc.play_eq_run dialect { pass with page := pass.page.withText before } h

theorem playFragment_framed (dialect : Dialect) (doc : Doc) (pass : Pass) :
    Framed (doc.playFragment dialect) pass where
  balanced := (doc.play_balanced dialect { pass with page := pass.page.enterBlock }).block
  appends _ := by
    obtain ⟨written, hw⟩ := Stroke.run_withText dialect doc.strokes pass
    refine ⟨written, fun before => ?_⟩
    rw [playFragment_eq_run, playFragment_eq_run, hw]

end Doc

/-- Whatever is rendered, on whatever page and with whatever imports: the counters are balanced,
and text is only appended. Statements may be rendered bare or as lines, and a list of them with
a block around it or without. -/
theorem Style.rendering_framed (style : Style) (pass : Pass) :
    (∀ expr : Expr,
      Framed ((expr.doc style).play style.dialect) pass ∧
        Framed ((expr.doc style).playFragment style.dialect) pass) ∧
    (∀ stmt : Stmt,
      Framed ((stmt.doc style).play style.dialect) pass ∧
        Framed ((Phrase.line (stmt.doc style)).play style.dialect) pass) ∧
    (∀ stmts : List Stmt,
      Framed (Stmt.playEach style stmts) pass ∧
        Framed ((Doc.block (Stmt.lines style stmts)).play style.dialect) pass) := by
  refine ⟨fun expr => ⟨?_, ?_⟩, fun stmt => ⟨?_, ?_⟩, fun stmts => ⟨?_, ?_⟩⟩
  · exact (expr.doc style).play_framed style.dialect pass
  · exact (expr.doc style).playFragment_framed style.dialect pass
  · exact (stmt.doc style).play_framed style.dialect pass
  · exact (Phrase.line (stmt.doc style)).play_framed style.dialect pass
  · rw [← Stmt.play_lines]
    exact (Stmt.lines style stmts).play_framed style.dialect pass
  · exact (Doc.block (Stmt.lines style stmts)).play_framed style.dialect pass

/-- A pass in the middle of a line, two levels deep in a block. -/
def midLine (text : String) : Pass where
  page := { text := text, indentUnit := "  ", level := 2, atLineStart := false, depth := 1 }
  imports := .empty

/-- A loop that Lua has no notation for, which is found out one level deeper. -/
def endlessLoop : Stmt :=
  .whileLoop (.literal (.bool true)) .continueLoop

theorem Style.rendering_framed_endlessLoop :
    let play := (endlessLoop.doc ⟨.lua, true⟩).play .lua
    (play (midLine "x = 1;")).pass.page.text = "x = 1;while true do\n" ∧
      (play (midLine "x = 1;")).pass.page.level = 3 ∧
      (play (midLine "x = 1;")).pass.page.depth = 1 ∧
      ∃ written, ∀ before, play (midLine before) =
        (play (midLine "x = 1;")).alwaysOnPage (·.withText (before ++ written)) := by
  have hf := ((Style.rendering_framed ⟨.lua, true⟩ (midLine "x = 1;")).2.1 endlessLoop).1
  exact ⟨by decide +kernel, by decide +kernel, hf.balanced.depth, hf.appends Nat.one_pos⟩

end Polyglot
