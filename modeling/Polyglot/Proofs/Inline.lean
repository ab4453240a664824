import Polyglot.Proofs.PlainText

/-! Expressions in the middle of a line. The first thing that an expression does to a page is to
write, so it makes no difference whether the line in front of it is empty. -/
namespace Polyglot

namespace Page

/-- The same page, at the start of a line or not. -/
def starting (start : Bool) (page : Page) : Page :=
  { page with atLineStart := start }

/-- Without levels the first character of a line is like any other. -/
theorem write_starting {page : Page} (h : page.level = 0) (start : Bool) {text : String}
    (ht : text ≠ "") : (page.starting start).write text = page.write text := by
  unfold write
  cases hc : text.toList with
  | nil => exact absurd (String.toList_eq_nil_iff.mp hc) ht
  | cons c rest =>
    have hm : page.margin = "" := by simp [margin, h]
    have hs : (page.starting start).margin = "" := hm
    have hp : (page.starting start).push c = page.push c := by
      unfold push
      rw [hm, hs, String.append_empty, String.append_empty]
      by_cases hn : c = '\n'
      · simp [hn, starting]
      · cases start <;> cases page.atLineStart <;> simp [hn, starting]
    rw [List.foldl_cons, List.foldl_cons, hp]

theorem write_empty (page : Page) : page.write "" = page := rfl

@[simp] theorem write_indentUnit (page : Page) (text : String) :
    (page.write text).indentUnit = page.indentUnit := by
  unfold write
  induction text.toList generalizing page with
  | nil => rfl
  | cons c rest ih =>
    have hp : (page.push c).indentUnit = page.indentUnit := by
      unfold push
      split_ifs <;> rfl
    rw [List.foldl_cons, ih, hp]

/-- A page without levels changes in its text and in whether the line is empty. -/
theorem write_of_level_zero {page : Page} (h : page.level = 0) (content : String) :
    page.write content =
      ⟨page.text ++ content, page.indentUnit, 0, (page.write content).atLineStart, page.depth⟩ := by
  have he (page : Page) :
      page = ⟨page.text, page.indentUnit, page.level, page.atLineStart, page.depth⟩ := rfl
  rw [he (page.write content), text_write_of_level_zero h, write_indentUnit, write_level, h,
    write_depth]

end Page

namespace Outcome

theorem alwaysOnPage_starting_self (outcome : Outcome) :
    outcome.alwaysOnPage (Page.starting outcome.pass.page.atLineStart) = outcome := by
  cases outcome <;> rfl

end Outcome

namespace Stroke

/-- Nothing but texts in front of the first character. -/
def settled : List Stroke → Bool
  | [] => true
  | .write content :: rest => content ≠ "" || settled rest
  | .refer _ :: rest => settled rest
  | .refuse _ :: _ => true
  | _ => false

theorem settled_append {first second : List Stroke} (hf : settled first = true)
    (hs : settled second = true) : settled (first ++ second) = true := by
  fun_induction settled first with
  | case1 => exact hs
  | case2 content rest ih =>
    obtain hc | hr := Bool.or_eq_true_iff.mp hf
    · simp [settled, of_decide_eq_true hc]
    · simp [settled, ih hr]
  | case3 ty rest ih => exact ih hf
  | case4 construct rest => rfl
  | case5 => exact absurd hf Bool.false_ne_true

theorem run_write_starting (dialect : Dialect) {page : Page} (hl : page.level = 0) (start : Bool)
    {content : String} (hc : content ≠ "") (imports : Imports) (rest : List Stroke) :
    ∃ last, run dialect rest ⟨(page.starting start).write content, imports⟩ =
      (run dialect rest ⟨page.write content, imports⟩).alwaysOnPage (Page.starting last) := by
  rw [Page.write_starting hl start hc]
  exact ⟨_, (Outcome.alwaysOnPage_starting_self _).symm⟩

/-- The start of a line counts up to the first character only. -/
theorem run_starting (dialect : Dialect) {strokes : List Stroke} (h : settled strokes = true)
    (start : Bool) (pass : Pass) (hl : pass.page.level = 0) :
    ∃ last, run dialect strokes { pass with page := pass.page.starting start } =
      (run dialect strokes pass).alwaysOnPage (Page.starting last) := by
  fun_induction settled strokes generalizing pass with
  | case1 => exact ⟨start, rfl⟩
  | case2 content rest ih =>
    by_cases hc : content = ""
    · subst hc
      exact ih (by simpa using h) pass hl
    · exact run_write_starting dialect hl start hc pass.imports rest
  | case3 ty rest ih =>
    by_cases hc : dialect.spell (pass.imports.insert ty) ty = ""
    · have hi := ih h { pass with imports := pass.imports.insert ty } hl
      simpa [step, Pass.refer, hc, Page.write_empty] using hi
    · exact run_write_starting dialect hl start hc (pass.imports.insert ty) rest
  | case4 construct rest => exact ⟨start, rfl⟩
  | case5 => exact absurd h Bool.false_ne_true

theorem run_indentUnit (dialect : Dialect) (strokes : List Stroke) (pass : Pass) :
    (run dialect strokes pass).pass.page.indentUnit = pass.page.indentUnit := by
  induction strokes generalizing pass with
  | nil => rfl
  | cons stroke rest ih =>
    cases stroke with
    | refuse construct => rfl
    | indent | unindent => exact ih _
    | write content | refer ty =>
      rw [run_cons, step, Outcome.andThen_done, ih]
      exact Page.write_indentUnit ..
    | freshLine =>
      rw [run_cons, step, Outcome.andThen_done, ih]
      show pass.page.freshLine.indentUnit = _
      unfold Page.freshLine
      split_ifs
      · rfl
      · exact Page.write_indentUnit pass.page "\n"

/-- On Groovy the imports make no difference to what is written. -/
theorem run_groovy_page {strokes : List Stroke} {page : Page} {imports : Imports} {last : Pass}
    (h : run .groovy strokes ⟨page, imports⟩ = .done last) (other : Imports) :
    ∃ later, run .groovy strokes ⟨page, other⟩ = .done ⟨last.page, later⟩ := by
  induction strokes generalizing page imports other with
  | nil =>
    cases h
    exact ⟨other, rfl⟩
  | cons stroke rest ih =>
    cases stroke with
    | refuse construct => cases h
    | write content | indent | unindent | freshLine => exact ih h other
    | refer ty => exact ih h (other.insert ty)

end Stroke

namespace Doc

/-- The document begins with text. -/
def Settled (doc : Doc) : Prop :=
  Stroke.settled doc.strokes = true

namespace Settled

variable {doc first second : Doc}

theorem text (content : String) : Settled (.text content) := by
  simp [Settled, strokes, Stroke.settled]

theorem append (hf : first.Settled) (hs : second.Settled) : (first ++ second).Settled :=
  Stroke.settled_append hf hs

theorem quoted (body : Doc) : (Doc.quoted body).Settled := by
  simp [Settled, strokes, Stroke.settled]

theorem reference (ty : ClassType) : (Doc.reference ty).Settled := rfl

theorem unsupported (construct : Construct) : (Doc.unsupported construct).Settled := rfl

theorem enclosed (opening : String) (body : Doc) (closing : String) :
    (Phrase.enclosed opening body closing).Settled := by
  simp [Settled, Phrase.enclosed, strokes, Stroke.settled]

theorem parens (body : Doc) : (Phrase.parens body).Settled := by
  simp [Settled, Phrase.parens, strokes, Stroke.settled]

theorem array (containers : Containers) (values : List Doc) :
    (Phrase.array containers values).Settled := by
  unfold Phrase.array
  split_ifs
  · exact text _
  · simp [Settled, strokes, Stroke.settled]

theorem object (containers : Containers) (members : List Doc) :
    (Phrase.object containers members).Settled := by
  unfold Phrase.object
  split_ifs
  · exact text _
  · simp [Settled, strokes, Stroke.settled]

theorem literal (dialect : Dialect) (value : Literal) : (Phrase.literal dialect value).Settled := by
  cases value with
  | int | long | float | double | bool | null => exact text _
  | string => exact quoted _
  | char value =>
    simp only [Phrase.literal]
    split_ifs
    · exact quoted _
    · exact text _

theorem infixed (hf : first.Settled) (operator : String) (hs : second.Settled) :
    (Phrase.infixed first operator second).Settled :=
  (hf.append (text _)).append hs

theorem binary (style : Style) (op : BinaryOp) (concat spliceFirst spliceSecond : Bool)
    (hf : first.Settled) (hs : second.Settled) :
    (Phrase.binary style op concat spliceFirst spliceSecond first second).Settled := by
  unfold Phrase.binary
  split
  · exact hf.infixed _ hs
  · split_ifs
    · exact quoted _
    · exact hf.infixed _ hs
  · split_ifs
    · exact hf.infixed _ hs
    · simp [Settled, strokes, Stroke.settled]
    · exact hf.infixed _ hs

theorem unary (dialect : Dialect) (op : UnaryOp) (h : doc.Settled) :
    (Phrase.unary dialect op doc).Settled := by
  unfold Phrase.unary
  split <;> first
    | exact (text _).append h
    | exact h.append (text _)
    | exact unsupported _

theorem member (h : doc.Settled) (name : String) : (Phrase.member doc name).Settled :=
  h.append (text _)

theorem assign (hf : first.Settled) (hs : second.Settled) : (Phrase.assign first second).Settled :=
  (hf.append (text _)).append hs

theorem index (hf : first.Settled) (hs : second.Settled) : (Phrase.index first second).Settled :=
  ((hf.append (text _)).append hs).append (text _)

theorem conditional (dialect : Dialect) (truthy : Bool) (h : doc.Settled) (hf : first.Settled)
    (hs : second.Settled) : (Phrase.conditional dialect truthy doc first second).Settled := by
  have hm (one two : String) : (doc ++ .text one ++ first ++ .text two ++ second).Settled :=
    (((h.append (text one)).append hf).append (text two)).append hs
  cases dialect with
  | plain | groovy => exact hm _ _
  | lua =>
    cases truthy with
    | true => exact hm _ _
    | false => simp [Settled, Phrase.conditional, strokes, Stroke.settled]

theorem call {receiver : Option Doc} (h : ∀ doc ∈ receiver, doc.Settled) (method : String)
    (args : List Doc) : (Phrase.call receiver method args).Settled := by
  have hr : (receiver.getD .empty).Settled := by
    cases receiver with
    | none => rfl
    | some doc => exact h doc rfl
  exact (hr.append (text _)).append (parens _)

theorem typeName (dialect : Dialect) (ty : TypeInfo) : (Phrase.typeName dialect ty).Settled := by
  unfold Phrase.typeName
  split
  · split_ifs
    · cases dialect with
      | plain => exact text _
      | groovy | lua => exact reference _
    · exact text _
  · exact text _

theorem construct (dialect : Dialect) (ty : TypeInfo) (args : List Doc) :
    (Phrase.construct dialect ty args).Settled := by
  cases dialect with
  | lua => exact ((typeName .lua ty).append (text _)).append (parens _)
  | plain | groovy => exact ((text _).append (typeName _ ty)).append (parens _)

theorem lambda (dialect : Dialect) (params : List Param) (body : LambdaBody) (doc : Doc) :
    (Phrase.lambda dialect params body doc).Settled := by
  cases dialect with
  | plain => simp [Settled, Phrase.lambda, strokes, Stroke.settled]
  | groovy | lua => exact enclosed _ _ _

theorem enumConstant (dialect : Dialect) (ty : ClassType) (constant : String) :
    (Phrase.enumConstant dialect ty constant).Settled := by
  cases dialect with
  | plain => exact (text _).append (text _)
  | groovy | lua => exact (reference ty).append (text _)

theorem jsonPlace (dialect : Dialect) (hf : first.Settled) (name : Expr) (hs : second.Settled) :
    (Phrase.jsonPlace dialect first name second).Settled := by
  unfold Phrase.jsonPlace
  split
  · exact hf.member _
  · exact hf.index hs

end Settled

end Doc

/-- The document of an expression begins with text in every dialect. -/
theorem Expr.settled_doc (style : Style) : (expr : Expr) → (expr.doc style).Settled
  | .literal value => .literal style.dialect value
  | .binary left op right concat =>
    .binary style op concat _ _ (left.settled_doc style) (right.settled_doc style)
  | .unary op operand => .unary style.dialect op (operand.settled_doc style)
  | .parens inner => .parens _
  | .ident name => .text name
  | .this => .text _
  | .member object name => (object.settled_doc style).member name
  | .assign target value => (target.settled_doc style).assign (value.settled_doc style)
  | .conditional test consequent alternative =>
    .conditional style.dialect _ (test.settled_doc style) (consequent.settled_doc style)
      (alternative.settled_doc style)
  | .call none method args => by
    rw [Expr.doc]
    exact .call (by simp) method _
  | .call (some receiver) method args => by
    have hr := receiver.settled_doc style
    rw [Expr.doc]
    refine .call ?_ method _
    rintro doc ⟨⟩
    exact hr.append (.text _)
  | .construct ty args => .construct style.dialect ty _
  | .lambda params body => .lambda style.dialect params body _
  | .enumConstant ty constant => .enumConstant style.dialect ty constant
  | .apiType ty => by
    rw [Expr.doc]
    cases style.dialect with
    | plain => exact .text _
    | groovy | lua => exact .reference ty
  | .jsonObject members => by
    rw [Expr.doc]
    cases style.dialect with
    | plain => exact .unsupported _
    | groovy | lua => exact .object _ _
  | .jsonArray values => by
    rw [Expr.doc]
    cases style.dialect with
    | plain => exact .unsupported _
    | groovy | lua => exact .array _ _
  | .dataObject ty members => by
    rw [Expr.doc]
    cases style.dialect with
    | plain => exact .unsupported _
    | groovy | lua => exact .object _ _
  | .valueOf kind inner => inner.settled_doc style
  | .dataAssign object name value =>
    ((object.settled_doc style).member name).assign (value.settled_doc style)
  | .dataMember object name => (object.settled_doc style).member name
  | .jsonAssign object name value => by
    have hp (dialect : Dialect) :=
      Doc.Settled.jsonPlace dialect (object.settled_doc style) name (name.settled_doc style)
    have hv := value.settled_doc style
    rw [Expr.doc]
    cases style.dialect with
    | plain => exact .unsupported _
    | groovy | lua => exact (hp _).assign hv
  | .jsonMember object name => by
    have hp (dialect : Dialect) :=
      Doc.Settled.jsonPlace dialect (object.settled_doc style) name (name.settled_doc style)
    rw [Expr.doc]
    cases style.dialect with
    | plain => exact .unsupported _
    | groovy => exact hp .groovy
    | lua => exact hp .lua
  | .jsonObjectText object | .jsonArrayText object => by
    have ho := object.settled_doc style
    rw [Expr.doc]
    cases style.dialect with
    | plain | groovy => exact ho.append (.text _)
    | lua => exact ((Doc.Settled.text _).append ho).append (.text _)
  | .mapGet map key => by
    have hm := map.settled_doc style
    have hk := key.settled_doc style
    rw [Expr.doc]
    cases style.dialect with
    | plain => exact ((hm.append (.text _)).append hk).append (.text _)
    | groovy | lua => exact hm.index hk
  | .mapForEach map key value body => by
    have hm := map.settled_doc style
    rw [Expr.doc]
    cases style.dialect with
    | plain => exact .unsupported _
    | groovy => exact (hm.append (.text _)).append (.enclosed _ _ _)
    | lua => exact ((Doc.Settled.text _).append hm).append (.enclosed _ _ _)
  | .methodReference receiver method => by
    have hr := receiver.settled_doc style
    rw [Expr.doc]
    cases style.dialect with
    | plain | groovy => exact hr.append (.text _)
    | lua => exact ((Doc.Settled.text _).append hr).append (.text _)
  | .console message => (Doc.Settled.text _).append (.parens _)
  | .asyncResult name => .text name

/-- In a block and on a page without levels, whatever stands on it already, this text is added. -/
def Prints (unit : String) (play : Pass → Outcome) (content : String) : Prop :=
  ∀ (text : String) (start : Bool) (imports : Imports), ∃ (stop : Bool) (later : Imports),
    play ⟨⟨text, unit, 0, start, 1⟩, imports⟩ = .done ⟨⟨text ++ content, unit, 0, stop, 1⟩, later⟩

namespace Prints

variable {unit content rest : String} {play next : Pass → Outcome}

theorem write (unit content : String) :
    Prints unit (fun pass => .done (pass.write content)) content := by
  intro text start imports
  have hw := @Page.write_of_level_zero ⟨text, unit, 0, start, 1⟩ rfl content
  exact ⟨_, imports, congrArg (fun page => Outcome.done ⟨page, imports⟩) hw⟩

theorem andThen (hp : Prints unit play content) (hn : Prints unit next rest) :
    Prints unit (fun pass => (play pass).andThen next) (content ++ rest) := by
  intro text start imports
  obtain ⟨middle, between, hp⟩ := hp text start imports
  obtain ⟨stop, later, hn⟩ := hn (text ++ content) middle between
  refine ⟨stop, later, ?_⟩
  show (play _).andThen next = _
  rw [hp, Outcome.andThen_done, hn, String.append_assoc]

end Prints

namespace Session

variable {session : Session} {expr : Expr} {text : String}

theorem renderExpr_of_prints
    (h : Prints session.settings.indent ((expr.doc session.style).play session.dialect) text) :
    (session.renderExpr expr).1 = .ok text := by
  obtain ⟨stop, later, hp⟩ := h "" true session.imports
  rw [renderExpr_of_play hp, String.empty_append]

/-- The page that an expression leaves behind has the counters that it started with. -/
theorem exprRun_counters {last : Pass} (h : session.exprRun expr = .done last) :
    last.page.indentUnit = session.settings.indent ∧ last.page.level = 0 ∧ last.page.depth = 0 := by
  have hu := Stroke.run_indentUnit session.dialect (expr.doc session.style).strokes session.newPass
  have hb := ((expr.doc session.style).playFragment_framed session.dialect session.newPass).balanced
  rw [Doc.playFragment_eq_run] at hb
  unfold exprRun at h
  rw [h] at hu hb
  exact ⟨hu, hb.level_eq rfl, hb.depth⟩

/-- An expression of Groovy has the same text everywhere where there are no levels. -/
theorem prints_of_renderExpr (hg : session.dialect = .groovy)
    (h : (session.renderExpr expr).1 = .ok text) :
    Prints session.settings.indent ((expr.doc session.style).play .groovy) text := by
  intro before start imports
  rw [renderExpr_eq, conclude_ok_iff] at h
  obtain ⟨last, hr, rfl⟩ := h
  obtain ⟨hu, hl, hd⟩ := exprRun_counters hr
  rw [exprRun, hg] at hr
  -- The page differs from an empty one in its imports, its first line, its text and its depth.
  obtain ⟨later, hi⟩ := Stroke.run_groovy_page hr imports
  obtain ⟨stop, hs⟩ := Stroke.run_starting .groovy (expr.settled_doc session.style) start
    ⟨⟨"", session.settings.indent, 0, true, 0⟩, imports⟩ rfl
  have hb := Stroke.run_behind .groovy before (expr.doc session.style).strokes
    ⟨⟨"", session.settings.indent, 0, start, 0⟩, imports⟩
  simp only [Page.behind, Page.withText, String.append_empty] at hb
  have he := Stroke.run_enterBlock .groovy (expr.doc session.style).strokes
    ⟨⟨before, session.settings.indent, 0, start, 0⟩, imports⟩
  have hp : ((last.page.starting stop).behind before).enterBlock =
      ⟨before ++ last.page.text, session.settings.indent, 0, stop, 1⟩ := by
    rw [← hu, ← hl]
    show (⟨_, _, _, _, last.page.depth + 1⟩ : Page) = _
    rw [hd]
    rfl
  refine ⟨stop, later, ?_⟩
  rw [Doc.play_eq_run _ _ _ Nat.one_pos, ← hp]
  exact he.trans (congrArg _ (hb.trans (congrArg _ (hs.trans (congrArg _ hi)))))

end Session

end Polyglot
