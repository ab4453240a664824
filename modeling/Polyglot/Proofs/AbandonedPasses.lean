import Polyglot.Proofs.Inline
import Polyglot.Proofs.Margins

/-! Passes that fail. Once its text has been taken off, the page is at the start of a line and no
block is open on it; but the levels around the construct that was refused stay, and they lead the
lines of all that is written on the page from then on. -/
namespace Polyglot

namespace Outcome

/-- What an outcome should be: without a refusal it succeeds on the level that it started from, and
a refusal is met so many levels deeper. -/
def Meets (dialect : Dialect) (level : Nat) (outcome : Outcome) : Option (Construct × Nat) → Prop
  | none => ∃ last, outcome = .done last ∧ last.page.level = level
  | some (construct, extra) =>
    ∃ last, outcome = .failed (.unsupported construct dialect) last ∧
      last.page.level = level + extra

namespace Meets

variable {dialect : Dialect} {level : Nat} {outcome : Outcome}
  {refusal refusal' : Option (Construct × Nat)}

theorem andThen (h : outcome.Meets dialect level refusal) {next : Pass → Outcome}
    (hn : ∀ pass, pass.page.level = level → (next pass).Meets dialect level refusal') :
    (outcome.andThen next).Meets dialect level (refusal.or refusal') := by
  cases refusal with
  | some refusal =>
    obtain ⟨last, rfl, hl⟩ := h
    exact ⟨last, rfl, hl⟩
  | none =>
    obtain ⟨last, rfl, hl⟩ := h
    exact hn last hl

theorem level_of_done {last : Pass} (h : (Outcome.done last).Meets dialect level refusal) :
    last.page.level = level := by
  cases refusal with
  | some refusal =>
    obtain ⟨other, he, -⟩ := h
    cases he
  | none =>
    obtain ⟨other, he, hl⟩ := h
    cases he
    exact hl

/-- What is refused in a level is refused one level deeper, and the level stays. -/
theorem nest (h : outcome.Meets dialect (level + 1) refusal) :
    (outcome.onPage Page.unindent).Meets dialect level
      (refusal.map fun (construct, extra) => (construct, extra + 1)) := by
  cases refusal with
  | some refusal =>
    obtain ⟨last, rfl, hl⟩ := h
    refine ⟨last, rfl, ?_⟩
    omega
  | none =>
    obtain ⟨last, rfl, hl⟩ := h
    refine ⟨_, rfl, ?_⟩
    simp [Page.unindent, hl]

end Meets

end Outcome

namespace Doc

/-- The first construct without a notation, and the number of levels around it. -/
def refusal? : Doc → Option (Construct × Nat)
  | .append first second => first.refusal?.or second.refusal?
  | .nest body => body.refusal?.map fun (construct, level) => (construct, level + 1)
  | .block body | .quoted body => body.refusal?
  | .unsupported construct => some (construct, 0)
  | .empty | .text _ | .reference _ | .freshLine => none

/-- A run stops at the first refusal, on the level where that is. -/
theorem run_meets (dialect : Dialect) (doc : Doc) (pass : Pass) :
    (Stroke.run dialect doc.strokes pass).Meets dialect pass.page.level doc.refusal? := by
  have hw (content : String) (pass : Pass) :
      (Outcome.done (pass.write content)).Meets dialect pass.page.level none :=
    ⟨_, rfl, Page.write_level ..⟩
  induction doc generalizing pass with
  | empty => exact ⟨pass, rfl, rfl⟩
  | text content => exact hw content pass
  | reference ty => exact ⟨_, rfl, Page.write_level ..⟩
  | freshLine => exact ⟨_, rfl, Page.freshLine_level _⟩
  | unsupported construct => exact ⟨pass, rfl, rfl⟩
  | block body ih => exact ih pass
  | nest body ih =>
    rw [run_nest]
    exact (ih { pass with page := pass.page.indent }).nest
  | append first second ihf ihs =>
    rw [strokes, Stroke.run_append]
    exact (ihf pass).andThen fun last hl => hl ▸ ihs last
  | quoted body ih =>
    have hb := (ih (pass.write "\"")).andThen fun last hl => hl ▸ hw "\"" last
    rw [Option.or_none, Pass.write, Page.write_level] at hb
    rw [run_quoted]
    exact hb

end Doc

namespace Line

/-- The line with more margins in front of it, unless it is empty. -/
def raised (extra : Nat) (line : Line) : Line :=
  if line.content = "" then line else { line with level := line.level + extra }

@[simp] theorem raised_blank (extra : Nat) : blank.raised extra = blank := rfl

@[simp] theorem content_raised (extra : Nat) (line : Line) :
    (line.raised extra).content = line.content := by
  unfold raised
  split_ifs <;> rfl

/-- A margin has characters, unless there are no levels or a level has none. -/
theorem join_replicate_eq_empty_iff {count : Nat} {unit : String} :
    String.join (List.replicate count unit) = "" ↔ count = 0 ∨ unit = "" := by
  induction count with
  | zero => simp
  | succ count ih =>
    rw [List.replicate_succ, String.join_cons, String.append_eq_empty_iff, ih]
    tauto

/-- A margin of no characters makes no difference. -/
theorem text_raised_of_empty (extra : Nat) (line : Line) :
    (line.raised extra).text "" = line.text "" := by
  unfold raised
  split_ifs with h
  · rfl
  · have hm (count : Nat) := join_replicate_eq_empty_iff.mpr (.inr rfl : count = 0 ∨ "" = "")
    simp [text, h, hm]

theorem joined_raised_of_empty (extra : Nat) (lines : List Line) :
    joined "" (lines.map (raised extra)) = joined "" lines := by
  unfold joined
  rw [List.map_map]
  congr 1
  apply List.map_congr_left
  intro line _
  exact text_raised_of_empty extra line

end Line

namespace Draft

/-- The draft that has more levels from its start on. -/
def raised (extra : Nat) (draft : Draft) : Draft where
  finished := draft.finished.map (Line.raised extra)
  current := draft.current.raised extra
  level := draft.level + extra
  depth := draft.depth

theorem lines_raised (extra : Nat) (draft : Draft) :
    (draft.raised extra).lines = draft.lines.map (Line.raised extra) := by
  simp [lines, raised]

theorem push_raised (extra : Nat) (draft : Draft) (c : Char) :
    (draft.raised extra).push c = (draft.push c).raised extra := by
  by_cases hc : c = '\n'
  · simp only [push, dif_pos hc, lines_raised]
    simp [raised]
  by_cases hs : draft.current.content = ""
  · simp [push, hc, hs, raised, Line.raised]
  · simp [push, hc, hs, raised, Line.raised]

theorem write_raised (extra : Nat) (draft : Draft) (text : String) :
    (draft.raised extra).write text = (draft.write text).raised extra := by
  unfold write
  induction text.toList generalizing draft with
  | nil => rfl
  | cons c rest ih => rw [List.foldl_cons, List.foldl_cons, push_raised, ih]

theorem freshLine_raised (extra : Nat) (draft : Draft) :
    (draft.raised extra).freshLine = draft.freshLine.raised extra := by
  have hp := push_raised extra draft '\n'
  by_cases h : draft.current.content = ""
  · simp [freshLine, raised, h]
  · simpa [freshLine, raised, h] using hp

end Draft

/-- The same outcome on two pages, of which the second has more levels from its start on. -/
inductive Outcome.Raised (unit : String) (extra : Nat) : Outcome → Outcome → Prop
  | done (draft : Draft) (imports : Imports) :
    Raised unit extra (.done ⟨draft.page unit, imports⟩)
      (.done ⟨(draft.raised extra).page unit, imports⟩)
  | failed (error : RenderError) (draft : Draft) (imports : Imports) :
    Raised unit extra (.failed error ⟨draft.page unit, imports⟩)
      (.failed error ⟨(draft.raised extra).page unit, imports⟩)

namespace Outcome.Raised

variable {unit : String} {extra : Nat} {outcome other : Outcome}

theorem andThen (h : Raised unit extra outcome other) {next : Pass → Outcome}
    (hn : ∀ (draft : Draft) (imports : Imports), Raised unit extra
      (next ⟨draft.page unit, imports⟩) (next ⟨(draft.raised extra).page unit, imports⟩)) :
    Raised unit extra (outcome.andThen next) (other.andThen next) := by
  cases h with
  | done draft imports => exact hn draft imports
  | failed error draft imports => exact .failed error draft imports

theorem write (content : String) (draft : Draft) (imports : Imports) :
    Raised unit extra (.done (Pass.write ⟨draft.page unit, imports⟩ content))
      (.done (Pass.write ⟨(draft.raised extra).page unit, imports⟩ content)) := by
  simp only [Pass.write, Draft.page_write, Draft.write_raised]
  exact .done _ imports

/-- A level can be left on both pages, if there is one on the first. -/
theorem unindent (h : Raised unit extra outcome other)
    (hl : ∀ last, outcome = .done last → 0 < last.page.level) :
    Raised unit extra (outcome.onPage Page.unindent) (other.onPage Page.unindent) := by
  cases h with
  | failed error draft imports => exact .failed error draft imports
  | done draft imports =>
    have hp : 0 < draft.level := hl _ rfl
    have hr : ((draft.raised extra).page unit).unindent =
        (({ draft with level := draft.level - 1 } : Draft).raised extra).page unit := by
      have ha : draft.level + extra - 1 = draft.level - 1 + extra := by omega
      simp [Draft.page, Draft.lines, Draft.raised, Page.unindent, ha]
    simp only [Outcome.onPage, hr]
    exact .done { draft with level := draft.level - 1 } imports

end Outcome.Raised

/-- More levels at the start lead to more levels in every line, and to nothing else. -/
theorem Doc.run_raised (dialect : Dialect) (unit : String) (extra : Nat) (doc : Doc) (draft : Draft)
    (imports : Imports) :
    Outcome.Raised unit extra (Stroke.run dialect doc.strokes ⟨draft.page unit, imports⟩)
      (Stroke.run dialect doc.strokes ⟨(draft.raised extra).page unit, imports⟩) := by
  induction doc generalizing draft imports with
  | empty => exact .done draft imports
  | text content => exact .write content draft imports
  | reference ty =>
    exact .write (dialect.spell (imports.insert ty) ty) draft (imports.insert ty)
  | freshLine =>
    simp only [strokes, Stroke.run_cons, Stroke.run_nil, Stroke.step, Outcome.andThen_done,
      Draft.page_freshLine, Draft.freshLine_raised]
    exact .done _ imports
  | unsupported construct => exact .failed _ draft imports
  | block body ih => exact ih draft imports
  | append first second ihf ihs =>
    rw [strokes, Stroke.run_append, Stroke.run_append]
    exact (ihf draft imports).andThen ihs
  | quoted body ih =>
    rw [run_quoted, run_quoted]
    exact ((Outcome.Raised.write "\"" draft imports).andThen ih).andThen (.write "\"")
  | nest body ih =>
    have hi := ih { draft with level := draft.level + 1 } imports
    have hr : ((draft.raised extra).page unit).indent =
        (({ draft with level := draft.level + 1 } : Draft).raised extra).page unit := by
      simp [Draft.page, Draft.lines, Draft.raised, Page.indent, Nat.add_right_comm]
    rw [run_nest, run_nest, hr]
    refine hi.unindent fun last he => ?_
    -- The body comes back to the level that was entered.
    have hm := body.run_meets dialect
      ⟨({ draft with level := draft.level + 1 } : Draft).page unit, imports⟩
    rw [he] at hm
    rw [hm.level_of_done]
    exact Nat.succ_pos draft.level

/-- The header that an outcome has brought; a pass that fails brings none. -/
def Outcome.header (dialect : Dialect) : Outcome → String
  | .done pass => String.join ((dialect.header pass.imports).map (·.push '\n'))
  | .failed .. => ""

/-- The header has no margin on either page. -/
theorem Outcome.Raised.withHeader {unit : String} {extra : Nat} {outcome other : Outcome}
    (h : Raised unit extra outcome other) (dialect : Dialect) :
    let plain := outcome.andThen fun pass => .done (pass.withHeader dialect)
    let raised := other.andThen fun pass => .done (pass.withHeader dialect)
    raised.error? = plain.error? ∧ raised.pass.imports = plain.pass.imports ∧
      ∃ lines, plain.pass.page.text = plain.header dialect ++ Line.joined unit lines ∧
        raised.pass.page.text =
          plain.header dialect ++ Line.joined unit (lines.map (Line.raised extra)) := by
  cases h with
  | done draft imports =>
    simp only [Outcome.andThen_done, Pass.withHeader_eq]
    refine ⟨rfl, rfl, draft.lines, rfl, ?_⟩
    rw [← Draft.lines_raised]
    rfl
  | failed error draft imports =>
    refine ⟨rfl, rfl, draft.lines, ?_, ?_⟩
    · exact (String.empty_append).symm
    · rw [← Draft.lines_raised]
      exact (String.empty_append).symm

/-- The pass after its text has been taken off. -/
def Pass.cleared (pass : Pass) : Pass :=
  { pass with page := pass.page.cleared }

namespace Session

variable (session : Session)

/-- A new page in the session that a pass leaves. -/
def afresh (pass : Pass) : Pass :=
  { session with imports := pass.imports }.newPass

/-- Renders a program on a page that may have been used before. -/
def renderOn (program : Program) (pass : Pass) : Outcome :=
  (program.doc session.style).play session.dialect pass

theorem renderOn_eq (program : Program) {pass : Pass} (h : pass.page.depth = 0) :
    session.renderOn program pass =
      (Stroke.run session.dialect (Stmt.lines session.style program.body).strokes pass).andThen
        fun pass => .done (pass.withHeader session.dialect) :=
  Doc.play_block_outermost session.dialect _ pass h

/-- What a failed pass leaves when its text has been taken off: a new page but for the level. -/
theorem cleared_of_failed {program : Program} {error : RenderError} {pass : Pass}
    (h : session.renderOn program session.newPass = .failed error pass) :
    ∃ construct level,
      (program.doc session.style).refusal? = some (construct, level) ∧
      error = .unsupported construct session.dialect ∧
      pass.page.cleared = { session.newPass.page with level := level } := by
  rw [renderOn_eq session program rfl] at h
  have hm := (Stmt.lines session.style program.body).run_meets session.dialect session.newPass
  have hu := Stroke.run_indentUnit session.dialect
    (Stmt.lines session.style program.body).strokes session.newPass
  have hd := Stroke.run_depth session.dialect
    (Stmt.lines session.style program.body).strokes session.newPass
  show ∃ construct level, (Stmt.lines session.style program.body).refusal? = _ ∧ _
  cases hr : (Stmt.lines session.style program.body).refusal? with
  | none =>
    rw [hr] at hm
    obtain ⟨last, he, -⟩ := hm
    rw [he] at h
    cases h
  | some refusal =>
    rw [hr] at hm
    obtain ⟨last, he, hl⟩ := hm
    rw [he] at h hu hd
    obtain ⟨rfl, rfl⟩ := Outcome.failed.inj h
    refine ⟨refusal.1, refusal.2, rfl, rfl, ?_⟩
    obtain ⟨⟨text, unit, level, start, depth⟩, imports⟩ := last
    obtain rfl : unit = session.settings.indent := hu
    obtain rfl : level = refusal.2 := hl.trans (Nat.zero_add _)
    obtain rfl : depth = 0 := hd
    rfl

/-- Levels at the start lead the lines of the body. They change neither the header nor the rest of
the outcome. -/
theorem renderOn_raised (program : Program) (imports : Imports) (extra : Nat) :
    let plain := session.renderOn program ⟨session.newPass.page, imports⟩
    let raised := session.renderOn program
      ⟨{ session.newPass.page with level := extra }, imports⟩
    raised.error? = plain.error? ∧ raised.pass.imports = plain.pass.imports ∧
      ∃ lines,
        plain.pass.page.text = plain.header session.dialect ++
          Line.joined session.settings.indent lines ∧
        raised.pass.page.text = plain.header session.dialect ++
          Line.joined session.settings.indent (lines.map (Line.raised extra)) := by
  have hp : session.newPass.page = ({} : Draft).page session.settings.indent :=
    congrArg Pass.page (session.newPass_withIndent session.settings.indent)
  have hr : { session.newPass.page with level := extra } =
      (({} : Draft).raised extra).page session.settings.indent := by
    rw [hp]
    simp [Draft.page, Draft.lines, Draft.raised]
  have hd := (Stmt.lines session.style program.body).run_raised session.dialect
    session.settings.indent extra {} imports
  rw [← hp, ← hr] at hd
  rw [renderOn_eq session program rfl, renderOn_eq session program rfl]
  exact hd.withHeader session.dialect

/-- A statement that is one word, behind the margin of the page. -/
theorem text_renderOn_break (imports : Imports) (level : Nat) :
    (session.renderOn ⟨[.breakLoop]⟩
        ⟨{ session.newPass.page with level := level }, imports⟩).pass.page.text =
      String.join ((session.dialect.header imports).map (·.push '\n')) ++
        (String.join (List.replicate level session.settings.indent) ++ "break\n") := by
  have hs : (Stmt.lines session.style [.breakLoop]).strokes = [.write "break", .freshLine] := rfl
  have hw : ({ session.newPass.page with level := level } : Page).write "break" =
      ⟨"" ++ String.join (List.replicate level session.settings.indent) ++ "break",
        session.settings.indent, level, false, 0⟩ :=
    Page.write_atStart "" (by decide) (by decide)
  rw [renderOn_eq session _ rfl, hs]
  simp only [Stroke.run_cons, Stroke.run_nil, Stroke.step, Outcome.andThen_done, Pass.write, hw,
    Outcome.pass, Pass.withHeader_eq]
  rw [← String.toList_inj]
  simp [Page.freshLine, Page.push]

/-- After a pass that has failed and whose text has been taken off, the page is a new one but for
the levels around the construct that was refused. On a page with these levels, all lines of a body
are so much further in, and only where that cannot be seen the page is as good as a new one. -/
theorem failed_pass_leaves_levels {program : Program} {error : RenderError} {pass : Pass}
    (h : session.renderOn program session.newPass = .failed error pass) :
    ∃ construct level,
      (program.doc session.style).refusal? = some (construct, level) ∧
      error = .unsupported construct session.dialect ∧
      pass.cleared.page = { session.newPass.page with level := level } ∧
      (∀ next : Program,
        let fresh := session.renderOn next (session.afresh pass)
        let later := session.renderOn next pass.cleared
        later.error? = fresh.error? ∧ later.pass.imports = fresh.pass.imports ∧
          ∃ lines,
            fresh.pass.page.text = fresh.header session.dialect ++
              Line.joined session.settings.indent lines ∧
            later.pass.page.text = fresh.header session.dialect ++
              Line.joined session.settings.indent (lines.map (Line.raised level))) ∧
      ((∀ next : Program,
          (session.renderOn next pass.cleared).pass.page.text =
            (session.renderOn next (session.afresh pass)).pass.page.text) ↔
        level = 0 ∨ session.settings.indent = "") := by
  obtain ⟨construct, level, hr, he, hp⟩ := session.cleared_of_failed h
  have hc : pass.cleared = ⟨{ session.newPass.page with level := level }, pass.imports⟩ :=
    congrArg (fun page => (⟨page, pass.imports⟩ : Pass)) hp
  have hn (next : Program) := session.renderOn_raised next pass.imports level
  refine ⟨construct, level, hr, he, hp, fun next => ?_, fun hs => ?_, fun hz next => ?_⟩
  · rw [hc]
    exact hn next
  · have hb := hs ⟨[.breakLoop]⟩
    have hf : (session.renderOn ⟨[.breakLoop]⟩ (session.afresh pass)).pass.page.text = _ :=
      session.text_renderOn_break pass.imports 0
    rw [hc, text_renderOn_break, hf, ← String.toList_inj] at hb
    apply Line.join_replicate_eq_empty_iff.mp
    rw [← String.toList_inj]
    simpa using hb
  · rcases hz with rfl | hu
    · rw [hc]
      rfl
    · obtain ⟨-, -, lines, hf, hl⟩ := hn next
      rw [hu, Line.joined_raised_of_empty] at hl
      rw [hu] at hf
      rw [hc, hl, ← hf]
      rfl

/-- The pass that Lua abandons in the body of a loop. -/
def abandonedLoop : Pass :=
  (renderOn { dialect := .lua } ⟨[endlessLoop]⟩ (newPass { dialect := .lua })).pass

/-- The next program that is written on the page of such a pass begins one level too far in. -/
theorem failed_pass_leaves_levels_endlessLoop :
    let session : Session := { dialect := .lua }
    session.renderOn ⟨[endlessLoop]⟩ session.newPass =
        .failed (.unsupported .continueStatement .lua) abandonedLoop ∧
      (Program.doc session.style ⟨[endlessLoop]⟩).refusal? = some (.continueStatement, 1) ∧
      abandonedLoop.cleared.page = { session.newPass.page with level := 1 } ∧
      (session.renderOn ⟨[.breakLoop]⟩ abandonedLoop.cleared).pass.page.text = "  break\n" ∧
      (session.renderOn ⟨[.breakLoop]⟩ (session.afresh abandonedLoop)).pass.page.text =
        "break\n" := by
  intro session
  have h : session.renderOn ⟨[endlessLoop]⟩ session.newPass =
      .failed (.unsupported .continueStatement .lua) abandonedLoop := rfl
  have hr : (Program.doc session.style ⟨[endlessLoop]⟩).refusal? = some (.continueStatement, 1) :=
    rfl
  obtain ⟨construct, level, hf, -, hp, -, -⟩ := session.failed_pass_leaves_levels h
  obtain ⟨rfl, rfl⟩ := Prod.mk.inj (Option.some.inj (hf.symm.trans hr))
  exact ⟨h, hr, hp, by decide +kernel, by decide +kernel⟩

end Session

end Polyglot
