import Polyglot.Proofs.FilledLines
import Polyglot.Proofs.LuaReturns
import Polyglot.Proofs.Spots

/-! Statements on lines of their own. A statement of a list begins on an empty line and ends the
line that it is on, and no line of a program is empty. -/
namespace Polyglot

open Lua.Piece (ink text expr lines)
open Text (OneLine Unbroken AtLineStart EndsOnce NoEmptyLine lineAfter?)

/-- What strokes write behind a text. -/
def Stroke.Writes (dialect : Dialect) (strokes : List Stroke) (pass next : Pass)
    (written : String) : Prop :=
  run dialect strokes pass = .done next ∧ next.page.text = pass.page.text ++ written

/-- At the start of a line, nothing is behind the last end of line. -/
def Page.Marked (page : Page) : Prop :=
  page.atLineStart = true → AtLineStart page.text

namespace Page

theorem marked_push (page : Page) (c : Char) : (page.push c).Marked := by
  unfold push Marked
  split_ifs with hc hs
  · intro _
    exact .inr ⟨page.text, by rw [hc, String.push_eq_append]; rfl⟩
  · intro hf
    cases hf
  · intro hf
    exact absurd hf hs

theorem Marked.write {page : Page} (h : page.Marked) (content : String) :
    (page.write content).Marked := by
  unfold Page.write
  induction content.toList generalizing page with
  | nil => exact h
  | cons c rest ih => exact ih (marked_push page c)

theorem Marked.freshLine {page : Page} (h : page.Marked) : page.freshLine.Marked := by
  unfold Page.freshLine
  split_ifs
  · exact h
  · exact marked_push page '\n'

end Page

theorem Stroke.run_marked {dialect : Dialect} {strokes : List Stroke} {pass last : Pass}
    (h : run dialect strokes pass = .done last) (hp : pass.page.Marked) : last.page.Marked := by
  induction strokes generalizing pass with
  | nil =>
    cases h
    exact hp
  | cons stroke rest ih =>
    cases stroke with
    | write content | refer ty => exact ih h (hp.write _)
    | indent | unindent => exact ih h hp
    | freshLine => exact ih h hp.freshLine
    | refuse construct => cases h

/-- Strokes only add to a text. -/
theorem Stroke.writes_of_run {dialect : Dialect} {strokes : List Stroke} {pass next : Pass}
    (h : run dialect strokes pass = .done next) :
    ∃ written, Writes dialect strokes pass next written := by
  obtain ⟨written, hw⟩ := run_withText dialect strokes pass
  have ht : run dialect strokes pass = _ := hw pass.page.text
  rw [h] at ht
  exact ⟨written, h, congrArg (·.pass.page.text) ht⟩

/-- On an empty line, a statement and the end of its line make a text that ends in one end of
line. -/
theorem Stmt.endsOnce_of_writes {style : Style} {stmt : Stmt} {start next : Pass} {own : String}
    (hw : Place.AllRaw style.dialect Unbroken Unbroken (.stmt stmt :: stmt.inside style.dialect))
    (hb : stmt.isBlock = false) (hu : OneLine start.page.indentUnit)
    (hs : start.page.atLineStart = true)
    (h : Stroke.Writes style.dialect (Phrase.line (stmt.doc style)).strokes start next own) :
    EndsOnce own := by
  -- The statement writes what it would write on a page without a text.
  obtain ⟨hr, ho⟩ := h
  have hf := Stroke.run_behind style.dialect start.page.text (Phrase.line (stmt.doc style)).strokes
    { start with page := start.page.withText "" }
  have he : start.page.withText start.page.text = start.page := rfl
  rw [Page.behind_withText_empty, he, hr] at hf
  cases hn : Stroke.run style.dialect (Phrase.line (stmt.doc style)).strokes
      { start with page := start.page.withText "" } with
  | failed error pass => simp [hn, Outcome.alwaysOnPage] at hf
  | done last =>
    rw [hn] at hf
    cases hf
    obtain rfl : last.page.text = own := String.append_right_inj _ |>.mp ho
    obtain ⟨middle, hm, hl⟩ := Stroke.run_append_done hn
    have ht : (start.page.withText "").Tidy := ⟨congrArg some hs.symm, hu⟩
    obtain ⟨hd, hf⟩ := (stmt.lays_doc style hw).fills hb _ middle ht trivial hm
    have hp : last.page = middle.page.push '\n' := by
      cases hl
      exact if_neg (by rw [show middle.page.atLineStart = false from hf]; simp)
    have hc : middle.page.text.push '\n' = middle.page.text ++ "\n" := String.push_eq_append ..
    rw [hp]
    simp only [Page.push, if_true, hc]
    exact Text.endsOnce_of_inLine (hd.line.trans (congrArg some hf))

namespace Listed

variable {style : Style} {target : Stmt} {root : Place} {before after : List Stroke}

/-- What is written in front of a statement, for its line, and behind it. -/
theorem writes (h : Listed style target root before after) {pass last : Pass}
    (hr : Stroke.run style.dialect (root.doc style).strokes pass = .done last) :
    ∃ start next head own tail,
      Stroke.Writes style.dialect before pass start head ∧
      Stroke.Writes style.dialect (Phrase.line (target.doc style)).strokes start next own ∧
      Stroke.Writes style.dialect after next last tail := by
  rw [h.strokes_eq] at hr
  obtain ⟨start, hs, hr⟩ := Stroke.run_append_done hr
  obtain ⟨next, hn, hr⟩ := Stroke.run_append_done hr
  obtain ⟨head, hs⟩ := Stroke.writes_of_run hs
  obtain ⟨own, hn⟩ := Stroke.writes_of_run hn
  obtain ⟨tail, hr⟩ := Stroke.writes_of_run hr
  exact ⟨start, next, head, own, tail, hs, hn, hr⟩

theorem allRaw (h : Listed style target root before after) {isName isNumeral : String → Prop}
    (hr : Place.AllRaw style.dialect isName isNumeral (root :: root.inside style.dialect)) :
    Place.AllRaw style.dialect isName isNumeral (.stmt target :: target.inside style.dialect) :=
  fun place hp => hr place (h.subset hp)

end Listed

namespace Dialect

variable {dialect : Dialect} {imports : Imports}

/-- The lines of a header, if the names of the types have no end of line. -/
theorem unbroken_header
    (h : ∀ ty ∈ imports.types, ∀ name ∈ ty.written dialect, Unbroken name) :
    ∀ line ∈ dialect.header imports, Unbroken line := by
  cases dialect with
  | plain => exact List.forall_mem_nil _
  | groovy =>
    intro line hm
    obtain ⟨ty, ht, rfl⟩ := List.mem_map.mp hm
    exact Text.Unbroken.append (by decide) (h ty ht _ (.tail _ (.head _))).2
  | lua =>
    intro line hm
    obtain ⟨ty, ht, rfl⟩ := List.mem_map.mp hm
    have hl : Unbroken (luaLocal imports ty) := Phrase.unbroken_spell imports (h ty ht)
    have hs : OneLine (ty.spelling "lua") := (h ty ht _ (.tail _ (.tail _ (.head _)))).2
    exact (((Text.Unbroken.append (by decide) hl.2).append (by decide)).append hs).append
      (by decide)

end Dialect

/-- Lines that are ended leave an empty line behind. -/
theorem Text.lineAfter?_join {lines : List String} (h : ∀ line ∈ lines, Unbroken line) :
    lineAfter? true (String.join (lines.map (· ++ "\n"))).toList = some true := by
  induction lines with
  | nil => rfl
  | cons line rest ih =>
    obtain ⟨hl, hr⟩ := List.forall_mem_cons.mp h
    rw [List.map_cons, String.join_cons, String.toList_append, String.toList_append,
      lineAfter?_append, lineAfter?_append, lineAfter?_unbroken true hl]
    exact ih hr

theorem Text.AtLineStart.append {first second : String} (hf : AtLineStart first)
    (hs : AtLineStart second) : AtLineStart (first ++ second) := by
  obtain rfl | ⟨front, rfl⟩ := hs
  · rwa [String.append_empty]
  · exact .inr ⟨first ++ front, (String.append_assoc ..).symm⟩

namespace Session

open Stroke (Writes)

theorem unbroken_header_of_render {session : Session} {program : Program} {text : String}
    (h : (session.render program).1 = .ok text)
    (hi : ∀ ty ∈ session.imports.types, ∀ name ∈ ty.written session.dialect, Unbroken name)
    (hn : ∀ name ∈ program.names session.dialect, Unbroken name) :
    ∀ line ∈ session.dialect.header (session.render program).2.imports, Unbroken line := by
  by_cases hp : session.dialect = .plain
  · rw [hp]
    exact List.forall_mem_nil _
  · exact Dialect.unbroken_header (written_of_render hp h hi hn)

/-- Neither the header nor the body has an empty line. -/
theorem lineAfter?_render {session : Session} {program : Program} {text : String}
    (hu : OneLine session.settings.indent)
    (hi : ∀ ty ∈ session.imports.types, ∀ name ∈ ty.written session.dialect, Unbroken name)
    (hn : ∀ name ∈ program.names session.dialect, Unbroken name)
    (hd : ∀ digits ∈ program.numerals session.dialect, Unbroken digits)
    (h : (session.render program).1 = .ok text) : lineAfter? true text.toList = some true := by
  have hh := Text.lineAfter?_join (unbroken_header_of_render h hi hn)
  have hz : session.newPass.page.Tidy := ⟨rfl, hu⟩
  obtain ⟨last, hb, ht⟩ := (render_ok_iff session program text).mp h
  obtain ⟨hy, he⟩ := Stmt.lays_lines session.style program.body (Program.allRaw hn hd) .empty
    (by simp) _ last hz rfl hb
  rw [render_session, hb, Outcome.pass] at hh
  rw [ht, String.toList_append, Text.lineAfter?_append, hh, Option.bind_some, hy.line]
  exact congrArg some he

/-- If names and numbers are texts without an end of line, then no line of a rendered program is
empty and the last one is ended. Each statement of a list that is no block begins on a line of its
own, and its text ends in one end of line. -/
theorem statements_fill_lines (session : Session) (program : Program) (text : String)
    (hu : OneLine session.settings.indent)
    (hi : ∀ ty ∈ session.imports.types, ∀ name ∈ ty.written session.dialect, Unbroken name)
    (hn : ∀ name ∈ program.names session.dialect, Unbroken name)
    (hd : ∀ digits ∈ program.numerals session.dialect, Unbroken digits)
    (h : (session.render program).1 = .ok text) :
    (text = "" ∨ EndsOnce text) ∧ NoEmptyLine text ∧
      ∀ stmt before after, Listed session.style stmt program.root before after →
        stmt.isBlock = false →
        ∃ start next last header head own tail,
          header = String.join
            ((session.dialect.header (session.render program).2.imports).map (· ++ "\n")) ∧
          Writes session.dialect before session.newPass start head ∧
          Writes session.dialect (Phrase.line (stmt.doc session.style)).strokes start next own ∧
          Writes session.dialect after next last tail ∧
          text = header ++ head ++ own ++ tail ∧
          AtLineStart (header ++ head) ∧ EndsOnce own := by
  have hl := lineAfter?_render hu hi hn hd h
  refine ⟨Text.endsOnce_of_lineAfter? hl, Text.noEmptyLine_of_lineAfter? hl, ?_⟩
  intro stmt before after hs hk
  obtain ⟨last, hb, ht⟩ := (render_ok_iff session program text).mp h
  obtain ⟨start, next, head, own, tail, hf, ho, hr⟩ := hs.writes hb
  have ha := hs.atLineStart (fun _ => rfl) hf.1
  have hx : OneLine start.page.indentUnit := by
    have hx := Stroke.run_indentUnit session.style.dialect before session.newPass
    rw [hf.1] at hx
    exact hx.symm ▸ hu
  have hw : Place.AllRaw session.dialect Unbroken Unbroken
      (program.root :: program.places session.dialect) :=
    List.forall_mem_cons.mpr ⟨⟨List.forall_mem_nil _, List.forall_mem_nil _⟩, Program.allRaw hn hd⟩
  have hq := Stmt.endsOnce_of_writes (hs.allRaw hw) hk hx ha ho
  have hg : start.page.text = head := hf.2.trans (String.empty_append ..)
  refine ⟨start, next, last, _, head, own, tail, rfl, hf, ho, hr, ?_, ?_, hq⟩
  · rw [ht, hr.2, ho.2, hg, render_session, hb, Outcome.pass]
    simp only [String.append_assoc]
  · refine Text.AtLineStart.append ?_ (hg ▸ Stroke.run_marked hf.1 (fun _ => .inl rfl) ha)
    have hh := Text.lineAfter?_join (unbroken_header_of_render h hi hn)
    obtain he | ⟨front, c, -, he⟩ := Text.endsOnce_of_lineAfter? hh
    · exact .inl he
    · exact .inr ⟨_, he⟩

def importingSession : Session where
  dialect := .groovy
  imports := Imports.empty.insert (.ofName .enumeration "io.a.Color")

def returningClosure : Expr :=
  .lambda [⟨"x", .void⟩] (.block [.breakLoop, .returnWith (some (.literal (.string "\n")))])

/-- A loop that begins with two statements, which share their lines with its head. -/
def loopWithClosure : Stmt :=
  .forLoop (.block [.expr (.ident "a"), .expr (.ident "b")]) (.ident "t")
    (.unary .preIncrement (.ident "i")) (.block [.expr returningClosure])

def loopWithClosureText : String :=
  "import io.a.Color\nfor (a\nb\n; t; ++i) \x7b\n  \x7b x ->\n    break\n    return \"\\n\"\n" ++
    "  \x7d\n\x7d\n"

theorem statements_fill_lines_loopWithClosure :
    (importingSession.render ⟨[loopWithClosure]⟩).1 = .ok loopWithClosureText ∧
      EndsOnce loopWithClosureText ∧ NoEmptyLine loopWithClosureText ∧
      ∃ before after, Listed ⟨.groovy, true⟩ (.returnWith (some (.literal (.string "\n"))))
          (Program.root ⟨[loopWithClosure]⟩) before after ∧
        ∃ head own tail, loopWithClosureText = head ++ own ++ tail ∧ AtLineStart head ∧
          EndsOnce own := by
  have h : (importingSession.render ⟨[loopWithClosure]⟩).1 = .ok loopWithClosureText := by
    decide +kernel
  obtain ⟨he, hl, hs⟩ := statements_fill_lines importingSession ⟨[loopWithClosure]⟩ _
    (by decide) (by decide +kernel) (by decide +kernel) (by decide +kernel) h
  have hc : (Place.expr returningClosure).pieces ⟨.groovy, true⟩ =
      text "\x7b x ->\n" ++ [.stroke .indent] ++
        lines ([.breakLoop] ++ .returnWith (some (.literal (.string "\n"))) :: []) ++
        ([.stroke .unindent] ++ text "\x7d") := rfl
  have hx : (Place.stmt (.expr returningClosure)).pieces ⟨.groovy, true⟩ =
      [] ++ .place (.expr returningClosure) :: [] := rfl
  have hb : (Place.stmt (.block [.expr returningClosure])).pieces ⟨.groovy, true⟩ =
      [] ++ .place (.stmt (.expr returningClosure)) :: [.stroke .freshLine] := rfl
  have hf : (Place.stmt loopWithClosure).pieces ⟨.groovy, true⟩ =
      (text "for (" ++
        ink ((Stmt.block [.expr (.ident "a"), .expr (.ident "b")]).doc ⟨.groovy, true⟩) ++
        text "; " ++ expr (.ident "t") ++ text "; " ++
        [.place (.update (.unary .preIncrement (.ident "i")))] ++ text ")" ++
        text " \x7b\n" ++ [.stroke .indent]) ++
      .place (.stmt (.block [.expr returningClosure])) ::
        ([.stroke .unindent] ++ text "\x7d") := rfl
  have hr : (Program.root ⟨[loopWithClosure]⟩).pieces ⟨.groovy, true⟩ =
      [] ++ .place (.stmt loopWithClosure) :: [.stroke .freshLine] := rfl
  have hw := Listed.intro hc (.inside hr (.inside hf (.inside hb (.inside hx .here))))
  obtain ⟨_, _, _, header, head, own, tail, -, -, -, -, ht, ha, ho⟩ := hs _ _ _ hw rfl
  exact ⟨h, he.resolve_left (by decide), hl, _, _, hw, header ++ head, own, tail, ht, ha, ho⟩

end Session

end Polyglot
