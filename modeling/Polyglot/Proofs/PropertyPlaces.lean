import Polyglot.Proofs.Inline
import Polyglot.Proofs.Invocations

/-! Reading and writing a property. A write has the text of the read in front of the equals sign, so
both go to one place, and what cannot be rendered in one of them cannot be rendered in the other. -/
namespace Polyglot

/-- Where JSON objects have places, writing to one is an assignment to what reading it is. -/
theorem Phrase.jsonAssign_eq_assign {dialect : Dialect} (h : dialect ≠ .plain) (object : Doc)
    (name : Expr) (key value : Doc) :
    jsonAssign dialect object name key value =
      assign (jsonMember dialect object name key) value := by
  cases dialect with
  | plain => exact absurd rfl h
  | groovy | lua => rfl

namespace Invocation

open Accessor (Lowers classify_eq_get_iff classify_eq_set_iff)

theorem onDataObject_getter {object read : Expr} {suffix : String}
    (h : onDataObject object ("get" ++ suffix) [] = .ok read) :
    ∃ property, Lowers suffix property ∧ read = .dataMember object property := by
  unfold onDataObject at h
  cases hc : Accessor.classify ("get" ++ suffix) ([] : List Expr).length with
  | get property =>
    rw [hc] at h
    cases h
    obtain ⟨-, other, he, hl⟩ := classify_eq_get_iff.mp hc
    obtain rfl := String.append_right_inj _ |>.mp he
    exact ⟨property, hl, rfl⟩
  | set property => exact absurd (classify_eq_set_iff.mp hc).1 (by simp)
  | unsupported =>
    rw [hc] at h
    cases h

theorem onDataObject_setter {suffix property : String} (h : Lowers suffix property)
    (object value : Expr) :
    onDataObject object ("set" ++ suffix) [value] = .ok (.dataAssign object property value) := by
  have hc : Accessor.classify ("set" ++ suffix) [value].length = .set property :=
    classify_eq_set_iff.mpr ⟨rfl, suffix, rfl, h⟩
  unfold onDataObject
  rw [hc]

theorem onJsonObject_getter {object key read : Expr} {method : String}
    (h : onJsonObject object method [key] = .ok read) : read = .jsonMember object key := by
  simp only [onJsonObject] at h
  split_ifs at h
  cases h
  rfl

end Invocation

theorem Outcome.alwaysOnPage_alwaysOnPage (outcome : Outcome) (change further : Page → Page) :
    (outcome.alwaysOnPage change).alwaysOnPage further =
      outcome.alwaysOnPage fun page => further (change page) := by
  cases outcome <;> rfl

namespace Session

variable (session : Session)

/-- A place and then a value in the session that the place leaves, with an equals sign between. -/
def renderAssigned (place value : Expr) : Except RenderError String × Session :=
  match session.renderExpr place with
  | (.ok text, later) =>
    ((later.renderExpr value).1.map (text ++ " = " ++ ·), (later.renderExpr value).2)
  | (.error error, later) => (.error error, later)

/-- Behind a text without levels an expression is written as on an empty page. -/
theorem run_behind_exprRun (value : Expr) (before : String) (start : Bool) (imports : Imports) :
    ∃ stop, Stroke.run session.dialect (value.doc session.style).strokes
        ⟨⟨before, session.settings.indent, 0, start, 0⟩, imports⟩ =
      ({ session with imports := imports }.exprRun value).alwaysOnPage
        fun page => (page.starting stop).behind before := by
  have hb := Stroke.run_behind session.dialect before (value.doc session.style).strokes
    ⟨⟨"", session.settings.indent, 0, start, 0⟩, imports⟩
  simp only [Page.behind, Page.withText, String.append_empty] at hb
  obtain ⟨stop, hs⟩ := Stroke.run_starting session.dialect (value.settled_doc session.style) start
    ({ session with imports := imports } : Session).newPass rfl
  exact ⟨stop, hb.trans ((congrArg _ hs).trans (Outcome.alwaysOnPage_alwaysOnPage ..))⟩

/-- The two sides of an assignment are rendered one after the other. -/
theorem renderExpr_assign {write place value : Expr}
    (h : write.doc session.style =
      Phrase.assign (place.doc session.style) (value.doc session.style)) :
    session.renderExpr write = session.renderAssigned place value := by
  have hr : session.exprRun write = (session.exprRun place).andThen fun pass =>
      Stroke.run session.dialect (value.doc session.style).strokes (pass.write " = ") := by
    simp only [exprRun, h, Phrase.assign, Doc.strokes_append, Stroke.run_append,
      Outcome.andThen_assoc]
    rfl
  rw [renderAssigned, renderExpr_eq, renderExpr_eq, hr]
  cases hp : session.exprRun place with
  | failed error pass => rfl
  | done pass =>
    obtain ⟨⟨text, unit, level, start, depth⟩, imports⟩ := pass
    obtain ⟨rfl, rfl, rfl⟩ := exprRun_counters hp
    obtain ⟨middle, hw⟩ : ∃ middle, Page.write ⟨text, session.settings.indent, 0, start, 0⟩ " = " =
        ⟨text ++ " = ", session.settings.indent, 0, middle, 0⟩ :=
      ⟨_, Page.write_of_level_zero rfl " = "⟩
    obtain ⟨stop, hv⟩ := session.run_behind_exprRun value (text ++ " = ") middle imports
    simp only [Outcome.andThen_done, Pass.write, hw, hv, conclude, Outcome.pass, renderExpr_eq]
    cases ({ session with imports := imports } : Session).exprRun value <;> rfl

/-- The error that an expression gives, if it cannot be rendered. -/
def refusal? (expr : Expr) : Option RenderError :=
  match (session.renderExpr expr).1 with
  | .ok _ => none
  | .error error => some error

theorem refusal?_eq (expr : Expr) : session.refusal? expr =
    (Place.firstRefused? session.dialect (expr.places session.dialect)).map
      (.unsupported · session.dialect) := by
  rw [← (session.exprRun_collect expr).2, refusal?, renderExpr_eq]
  cases session.exprRun expr <;> rfl

/-- An expression that has a notation fails with its first operand that fails. -/
theorem refusal?_of_inside {expr : Expr} {operands : List Expr}
    (hr : expr.refused? session.dialect = none)
    (hi : expr.inside session.dialect = operands.flatMap (·.places session.dialect)) :
    session.refusal? expr = operands.findSome? session.refusal? := by
  have he : Place.refused? session.dialect (.expr expr) = none := hr
  rw [refusal?_eq, Expr.places, hi, Place.firstRefused?, List.findSome?_cons, he]
  clear hi
  induction operands with
  | nil => rfl
  | cons operand rest ih =>
    rw [List.flatMap_cons, List.findSome?_append, List.findSome?_cons, refusal?_eq, ← ih,
      Place.firstRefused?]
    cases (operand.places session.dialect).findSome? (Place.refused? session.dialect) <;> rfl

/-- A read and a write of the place that the operands lead to. -/
structure OnePlace (read write : Expr) (operands : List Expr) (value : Expr) : Prop where
  text : session.renderExpr write = session.renderAssigned read value
  readRefusal : session.refusal? read = operands.findSome? session.refusal?
  writeRefusal : session.refusal? write = (operands ++ [value]).findSome? session.refusal?

theorem onePlace_data (object value : Expr) (property : String) :
    session.OnePlace (.dataMember object property) (.dataAssign object property value) [object]
      value where
  text := session.renderExpr_assign rfl
  readRefusal := session.refusal?_of_inside rfl (by simp [Expr.inside, Expr.places])
  writeRefusal := session.refusal?_of_inside rfl (by simp [Expr.inside, Expr.places])

theorem onePlace_json (hd : session.dialect ≠ .plain) (object key value : Expr) :
    session.OnePlace (.jsonMember object key) (.jsonAssign object key value) [object, key]
      value where
  text := by
    apply session.renderExpr_assign
    rw [Expr.doc, Expr.doc]
    exact Phrase.jsonAssign_eq_assign hd ..
  readRefusal := session.refusal?_of_inside (if_neg hd) (by simp [Expr.inside, Expr.places])
  writeRefusal := session.refusal?_of_inside (if_neg hd) (by simp [Expr.inside, Expr.places])

/-- Where a getter of a data object reads, the setter of the same name writes; and where a getter
of a JSON object reads, `put` writes. -/
theorem writes_go_where_reads_look (object value : Expr) :
    (∀ suffix read, (Expr.valueOf .dataObject object).invoke ("get" ++ suffix) [] = .ok read →
      ∃ write, (Expr.valueOf .dataObject object).invoke ("set" ++ suffix) [value] = .ok write ∧
        session.OnePlace read write [object] value) ∧
    (session.dialect ≠ .plain → ∀ key getter read,
      (Expr.valueOf .jsonObject object).invoke getter [key] = .ok read →
      ∃ write, (Expr.valueOf .jsonObject object).invoke "put" [key, value] = .ok write ∧
        session.OnePlace read write [object, key] value) := by
  refine ⟨fun suffix read h => ?_, fun hd key getter read h => ?_⟩
  · obtain ⟨property, hl, rfl⟩ := Invocation.onDataObject_getter h
    exact ⟨_, Invocation.onDataObject_setter hl object value, session.onePlace_data object value _⟩
  · obtain rfl := Invocation.onJsonObject_getter h
    exact ⟨_, rfl, session.onePlace_json hd object key value⟩

/-- A property of a data object, and a computed key of a JSON object on Lua. -/
theorem writes_go_where_reads_look_computedKey :
    (∃ write, (Expr.valueOf .dataObject (.ident "o")).invoke "setHost" [.ident "v"] = .ok write ∧
      (renderExpr ⟨.plain, {}, .empty⟩ write).1 = .ok "o.host = v") ∧
    ∃ write, (Expr.valueOf .jsonObject (.ident "o")).invoke "put" [.call none "k" [], .ident "v"] =
        .ok write ∧ (renderExpr ⟨.lua, {}, .empty⟩ write).1 = .ok "o[k()] = v" := by
  have hd : (Expr.valueOf .dataObject (.ident "o")).invoke ("get" ++ "Host") [] =
      .ok (.dataMember (.ident "o") "host") := by rfl
  have hj : (Expr.valueOf .jsonObject (.ident "o")).invoke "getString" [.call none "k" []] =
      .ok (.jsonMember (.ident "o") (.call none "k" [])) := by rfl
  constructor
  · obtain ⟨write, hw, hp⟩ :=
      (writes_go_where_reads_look ⟨.plain, {}, .empty⟩ (.ident "o") (.ident "v")).1 "Host" _ hd
    refine ⟨write, hw, ?_⟩
    rw [hp.text]
    decide +kernel
  · obtain ⟨write, hw, hp⟩ :=
      (writes_go_where_reads_look ⟨.lua, {}, .empty⟩ (.ident "o") (.ident "v")).2 (by decide)
        _ _ _ hj
    refine ⟨write, hw, ?_⟩
    rw [hp.text]
    decide +kernel

end Session

end Polyglot
