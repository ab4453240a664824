import Polyglot.Proofs.Balance

/-! Documents that are one text: nothing in them depends on the page they are played on. -/
namespace Polyglot

theorem Page.write_append (page : Page) (first second : String) :
    page.write (first ++ second) = (page.write first).write second := by
  simp [write]

theorem Page.text_write_of_margin_empty {page : Page} (h : page.margin = "") (text : String) :
    (page.write text).text = page.text ++ text := by
  obtain ⟨start, hw⟩ := exists_write_of_margin_empty h text
  rw [hw]

/-- A page without a margin takes texts as they are. -/
theorem Page.text_write_of_level_zero {page : Page} (h : page.level = 0) (text : String) :
    (page.write text).text = page.text ++ text :=
  text_write_of_margin_empty (margin_of_level_zero h) text

namespace Page

variable {unit : String} {level depth : Nat}

theorem write_newline (text : String) (start : Bool) :
    (⟨text, unit, level, start, depth⟩ : Page).write "\n" =
      ⟨text ++ "\n", unit, level, true, depth⟩ := by
  simp [write, push, String.push_eq_append]

/-- In the middle of a line texts are taken as they are. -/
theorem write_inLine (text : String) {content : String} (hn : '\n' ∉ content.toList) :
    (⟨text, unit, level, false, depth⟩ : Page).write content =
      ⟨text ++ content, unit, level, false, depth⟩ := by
  rw [write, ← String.ofList_toList (s := content), String.toList_ofList]
  generalize content.toList = chars at hn
  induction chars generalizing text with
  | nil => simp
  | cons c rest ih =>
    obtain ⟨hc, hr⟩ := List.ne_and_not_mem_of_not_mem_cons hn
    have hp : (⟨text, unit, level, false, depth⟩ : Page).push c =
        ⟨text.push c, unit, level, false, depth⟩ := by
      simp [push, hc.symm]
    rw [List.foldl_cons, hp, ih _ hr]
    simp [← String.toList_inj]

/-- The first text of a line goes behind the margin. -/
theorem write_atStart (text : String) {content : String} (hn : '\n' ∉ content.toList)
    (hc : content ≠ "") :
    (⟨text, unit, level, true, depth⟩ : Page).write content =
      ⟨text ++ String.join (List.replicate level unit) ++ content, unit, level, false, depth⟩ := by
  obtain ⟨c, rest, hl⟩ : ∃ c rest, content.toList = c :: rest :=
    List.exists_cons_of_ne_nil (mt String.toList_eq_nil_iff.mp hc)
  have hm : c ≠ '\n' := fun he => hn (by simp [hl, he])
  have hi := @write_inLine unit level depth (text ++ String.join (List.replicate level unit)) _ hn
  rw [write, hl, List.foldl_cons] at hi ⊢
  rw [← hi]
  simp [push, hm, margin]

end Page

/-- A document that is written in one go. -/
inductive Doc.Plain : Doc → String → Prop
  | text (content : String) : Plain (.text content) content
  | append {first second : Doc} {content rest : String} (hf : Plain first content)
    (hs : Plain second rest) : Plain (first ++ second) (content ++ rest)
  | quoted {body : Doc} {content : String} (h : Plain body content) :
    Plain (.quoted body) ("\"" ++ content ++ "\"")

theorem Doc.Plain.play {doc : Doc} {content : String} (h : doc.Plain content) (dialect : Dialect)
    (pass : Pass) : doc.play dialect pass = .done (pass.write content) := by
  induction h generalizing pass with
  | text content => rfl
  | @append first second content rest hf hs ihf ihs =>
    have ha : (first ++ second).play dialect pass =
        (first.play dialect pass).andThen (second.play dialect) := rfl
    rw [ha, ihf, Outcome.andThen_done, ihs, Pass.write, Pass.write, Pass.write, Page.write_append]
  | quoted h ih =>
    simp only [Doc.play, ih, Outcome.andThen_done, Pass.write, Page.write_append]

/-- An expression is rendered inside a block that gets no header. -/
theorem Session.renderExpr_of_play {session : Session} {expr : Expr} {last : Pass}
    (h : (expr.doc session.style).play session.dialect
      ⟨⟨"", session.settings.indent, 0, true, 1⟩, session.imports⟩ = .done last) :
    (session.renderExpr expr).1 = .ok last.page.text := by
  have hp : { session.newPass with page := session.newPass.page.enterBlock } =
      (⟨⟨"", session.settings.indent, 0, true, 1⟩, session.imports⟩ : Pass) := rfl
  rw [renderExpr, Doc.playFragment, hp, h]
  rfl

/-- An expression that is one text is rendered as this text. -/
theorem Session.renderExpr_plain (session : Session) {expr : Expr} {content : String}
    (h : (expr.doc session.style).Plain content) : (session.renderExpr expr).1 = .ok content := by
  rw [renderExpr_of_play (h.play ..), Pass.write, Page.text_write_of_level_zero rfl,
    String.empty_append]

/-- Documents that do the same to every pass are rendered in the same way. -/
theorem Session.renderExpr_eq_of_play {session : Session} {expr other : Expr}
    (h : ∀ pass, (expr.doc session.style).play session.dialect pass =
      (other.doc session.style).play session.dialect pass) :
    session.renderExpr expr = session.renderExpr other := by
  rw [renderExpr, renderExpr, Doc.playFragment, Doc.playFragment, h]

end Polyglot
