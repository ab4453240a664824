import Polyglot.Proofs.LineEnds
import Polyglot.Proofs.RawTexts

/-! Lines that are filled before they are ended. If names and numbers are not empty, then each
expression fills the line that it ends on, and each statement fills a line before it is ended. -/
namespace Polyglot

open Text (OneLine Unbroken)

namespace Phrase

open Doc (Fills)

variable {dialect : Dialect} {doc first second third : Doc} {docs : List Doc} {name : String}

theorem oneLine_names {params : List Param} (h : ∀ name ∈ params.map (·.name), Unbroken name) :
    OneLine (names params) :=
  names_holds (by decide) (fun _ hn => hn.2)
    (fun _ _ hn hr => (hn.2.append (by decide)).append hr) h

/-- Escapes leave no end of line. -/
theorem oneLine_escaped (quotation : Text.Quotation) (content : List Char) :
    OneLine (String.ofList (content.flatMap quotation.escaped)) := by
  intro hm
  rw [String.toList_ofList, List.mem_flatMap] at hm
  obtain ⟨c, -, hc⟩ := hm
  exact quotation.escaped_not_mem_controls hc (by simp [Text.controls])

theorem oneLine_escape (content : String) : OneLine (Text.escape content) :=
  oneLine_escaped (.double false) content.toList

theorem oneLine_escapeTemplate (content : String) : OneLine (Text.escapeTemplate content) :=
  oneLine_escaped (.double true) content.toList

theorem unbroken_operator (op : BinaryOp) : Unbroken (" " ++ dialect.operator op ++ " ") := by
  cases dialect <;> cases op <;> decide

theorem fills_infixed {operator : String} (ho : Unbroken (" " ++ operator ++ " "))
    (hf : first.Fills dialect) (hs : second.Fills dialect) :
    (infixed first operator second).Fills dialect :=
  (hf.append (.text ho)).append hs.lays

theorem fills_unary (op : UnaryOp) (h : doc.Fills dialect) :
    (unary dialect op doc).Fills dialect := by
  cases dialect with
  | plain | groovy =>
    cases op with
    | postIncrement | postDecrement => exact h.appendText (by decide)
    | _ => exact .behind (by decide) h
  | lua =>
    cases op with
    | neg | not | complement => exact .behind (by decide) h
    | _ => exact .unsupported _

theorem fills_between {opening closing : String} (ho : Unbroken opening) (h : doc.Fills dialect)
    (hc : OneLine closing) : (.text opening ++ doc ++ .text closing : Doc).Fills dialect :=
  (Doc.Fills.behind ho h).appendText hc

theorem fills_parens (h : doc.Fills dialect) : (parens doc).Fills dialect :=
  .parens h.lays

theorem fills_this : (this dialect).Fills dialect := by
  cases dialect <;> exact .text (by decide)

theorem fills_member (h : doc.Fills dialect) (hn : Unbroken name) :
    (member doc name).Fills dialect :=
  h.appendText (.append (by decide) hn.2)

theorem fills_assign (hf : first.Fills dialect) (hs : second.Fills dialect) :
    (assign first second).Fills dialect :=
  (hf.appendText (by decide)).append hs.lays

theorem fills_conditional (truthy : Bool) (ht : first.Fills dialect) (hc : second.Fills dialect)
    (ha : third.Fills dialect) : (conditional dialect truthy first second third).Fills dialect := by
  have hi (operator delimiter : String) (ho : OneLine operator) (hd : OneLine delimiter) :
      (first ++ .text operator ++ second ++ .text delimiter ++ third).Fills dialect :=
    (((ht.appendText ho).append hc.lays).appendText hd).append ha.lays
  cases dialect with
  | plain | groovy => exact hi " ? " " : " (by decide) (by decide)
  | lua =>
    cases truthy with
    | true => exact hi " and " " or " (by decide) (by decide)
    | false =>
      refine .appendText (.append (.appendText (.append (.appendText ?_ ?_) hc.lays) ?_) ha.lays) ?_
      · exact .behind (by decide) ht
      all_goals decide

theorem lays_sepBy {separator : String} (hs : OneLine separator)
    (h : ∀ doc ∈ docs, doc.Fills dialect) :
    (Doc.sepBy separator docs).Lays dialect .filled .filled :=
  @sepBy_holds (Doc.Lays dialect .filled .filled) separator docs .empty
    (fun _ _ hd hr => hd.append ((Doc.Lays.oneLine hs).append hr)) fun doc hm => (h doc hm).lays

theorem lays_arguments (h : ∀ doc ∈ docs, doc.Fills dialect) :
    (arguments docs).Lays dialect .filled .filled :=
  .parens (lays_sepBy (by decide) h)

theorem fills_receiver (isType : Bool) (h : doc.Fills dialect) :
    (receiver dialect isType doc).Fills dialect := by
  refine h.appendText ?_
  split_ifs <;> decide

theorem fills_call {receiver : Option Doc} (hr : ∀ doc ∈ receiver, doc.Fills dialect)
    (hn : Unbroken name) (ha : ∀ doc ∈ docs, doc.Fills dialect) :
    (call receiver name docs).Fills dialect := by
  have hm : (receiver.getD .empty ++ .text name).Fills dialect := by
    cases receiver with
    | none => exact Doc.Lays.append .empty (.text hn)
    | some doc => exact (hr doc rfl).appendText hn.2
  exact hm.append (lays_arguments ha)

/-- A dotted name as one word is as long as the dotted name. -/
theorem unbroken_mangled (h : Unbroken name) : Unbroken (Dialect.mangled name) := by
  refine ⟨?_, ?_⟩
  · intro he
    have hl := congrArg String.toList he
    rw [Dialect.mangled, String.toList_ofList, String.toList_empty, List.map_eq_nil_iff] at hl
    exact h.1 (String.toList_eq_nil_iff.mp hl)
  · intro hm
    simp only [Dialect.mangled, String.toList_ofList, List.mem_map] at hm
    obtain ⟨c, hc, he⟩ := hm
    split_ifs at he
    · exact absurd he (by decide)
    · exact h.2 (he ▸ hc)

theorem unbroken_spell {ty : ClassType} (imports : Imports)
    (h : ∀ name ∈ ty.written dialect, Unbroken name) : Unbroken (dialect.spell imports ty) := by
  cases dialect with
  | plain => exact h _ (.head _)
  | groovy => exact h _ (.head _)
  | lua =>
    simp only [Dialect.spell, Dialect.luaLocal]
    split
    · split_ifs
      · exact h _ (.head _)
      · exact unbroken_mangled (h _ (.tail _ (.head _)))
    · exact h _ (.head _)

theorem fills_reference {ty : ClassType} (h : ∀ name ∈ ty.written dialect, Unbroken name) :
    (reference dialect ty).Fills dialect := by
  have hr : (Doc.reference ty).Fills dialect := by
    rintro pass last ht hp ⟨⟩
    exact ht.write (unbroken_spell _ h)
  cases dialect with
  | plain => exact .text (h _ (.head _))
  | groovy | lua => exact hr

theorem fills_typeName {ty : TypeInfo} (h : ∀ name ∈ ty.written dialect, Unbroken name) :
    (typeName dialect ty).Fills dialect :=
  typeName_holds (fun _ => fills_reference) (fun _ => .text) h

theorem fills_construct {ty : TypeInfo} (ht : ∀ name ∈ ty.written dialect, Unbroken name)
    (ha : ∀ doc ∈ docs, doc.Fills dialect) : (construct dialect ty docs).Fills dialect := by
  cases dialect with
  | plain | groovy =>
    exact (Doc.Fills.behind (by decide) (fills_typeName ht)).append (lays_arguments ha)
  | lua => exact ((fills_typeName ht).appendText (by decide)).append (lays_arguments ha)

/-- The body of a function: an expression, or statements that begin and end a line. -/
def LaysBody (dialect : Dialect) (body : LambdaBody) (doc : Doc) : Prop :=
  match body with
  | .expr _ => doc.Fills dialect
  | .block _ => doc.Lays dialect .empty .empty

theorem lays_bodyLine (body : LambdaBody) (h : LaysBody dialect body doc) :
    (bodyLine body doc).Lays dialect .empty .empty := by
  cases body with
  | expr value => exact Doc.Lays.append (Doc.Fills.lays h) .newline
  | block stmts => exact h

theorem lays_functionBody (body : LambdaBody) (h : LaysBody dialect body doc) :
    (functionBody body doc).Lays dialect .empty .empty := by
  cases body with
  | block stmts => exact h
  | expr value =>
    refine lays_bodyLine (.expr value) ?_
    split_ifs
    · exact h
    · exact .behind (by decide) h

theorem fills_enclosed {opening closing : String} (ho : Unbroken opening)
    (h : doc.Lays dialect .empty .empty) (hc : Unbroken closing) :
    (enclosed opening doc closing).Fills dialect :=
  .enclosed ho h (.text hc)

theorem fills_closure {params : List Param} (body : LambdaBody)
    (hp : ∀ name ∈ params.map (·.name), Unbroken name) (h : LaysBody dialect body doc) :
    (closure params body doc).Fills dialect := by
  refine fills_enclosed ?_ (lays_bodyLine body h) (by decide)
  have ho : Unbroken (brace ++ if params.isEmpty then "" else " ") := by
    cases params.isEmpty <;> decide
  exact (ho.append (oneLine_names hp)).append (by decide)

theorem fills_lambda {params : List Param} (body : LambdaBody)
    (hp : ∀ name ∈ params.map (·.name), Unbroken name) (h : LaysBody dialect body doc) :
    (lambda dialect params body doc).Fills dialect := by
  have hn := oneLine_names hp
  cases dialect with
  | plain =>
    have ho : Unbroken ("(" ++ names params ++ ") -> ") :=
      (Text.Unbroken.append (by decide) hn).append (by decide)
    cases body with
    | expr value => exact .behind ho h
    | block stmts => exact .behind ho (fills_enclosed (by decide) h (by decide))
  | groovy => exact fills_closure body hp h
  | lua =>
    exact fills_enclosed ((Text.Unbroken.append (by decide) hn).append (by decide))
      (lays_functionBody body h) (by decide)

theorem fills_enumConstant {ty : ClassType} (h : ∀ name ∈ ty.written dialect, Unbroken name)
    (hn : Unbroken name) : (enumConstant dialect ty name).Fills dialect :=
  fills_member (fills_reference h) hn

theorem lays_rows {separator : String} (hs : Unbroken separator)
    (h : ∀ row ∈ docs, row.Fills dialect) : (rows separator docs).Lays dialect .empty .empty :=
  @rows_holds (Doc.Lays dialect .empty .empty) separator docs (Fills dialect) .empty
    (fun _ hr => hr.lays.append .newline)
    (fun _ _ hr ht => (hr.lays.append (.line hs)).append ht) h

theorem fills_container {empty opening separator closing : String} (he : Unbroken empty)
    (ho : Unbroken opening) (hs : Unbroken separator) (hc : Unbroken closing)
    (h : ∀ doc ∈ docs, doc.Fills dialect) :
    (if docs.isEmpty then Doc.text empty
      else enclosed opening (rows separator docs) closing).Fills dialect := by
  split_ifs
  · exact .text he
  · exact fills_enclosed ho (lays_rows hs h) hc

theorem fills_array (dialect : Dialect) (h : ∀ doc ∈ docs, doc.Fills dialect) :
    (array dialect.containers docs).Fills dialect := by
  cases dialect <;> exact fills_container (by decide) (by decide) (by decide) (by decide) h

theorem fills_object (h : ∀ doc ∈ docs, doc.Fills dialect) :
    (object dialect.containers docs).Fills dialect := by
  cases dialect <;> exact fills_container (by decide) (by decide) (by decide) (by decide) h

theorem fills_key {unquote : Bool} {key : Expr}
    (hk : unquote = true → ∀ text ∈ key.stringKey?, Unbroken text) (h : doc.Fills dialect) :
    (Phrase.key dialect unquote key doc).Fills dialect := by
  unfold Phrase.key
  split
  · next text hs => exact .text (hk rfl text hs)
  · split
    · exact fills_between (by decide) h (by decide)
    · exact h

theorem fills_entry (hf : first.Fills dialect) (hs : second.Fills dialect) :
    (entry dialect.containers first second).Fills dialect := by
  refine (hf.appendText ?_).append hs.lays
  cases dialect <;> decide

theorem fills_jsonObject (h : ∀ doc ∈ docs, doc.Fills dialect) :
    (jsonObject dialect docs).Fills dialect := by
  cases dialect with
  | plain => exact .unsupported _
  | groovy | lua => exact fills_object h

theorem fills_jsonArray (h : ∀ doc ∈ docs, doc.Fills dialect) :
    (jsonArray dialect docs).Fills dialect := by
  cases dialect with
  | plain => exact .unsupported _
  | groovy => exact fills_array .groovy h
  | lua => exact fills_array .lua h

theorem fills_dataObject (h : ∀ doc ∈ docs, doc.Fills dialect) :
    (dataObject dialect docs).Fills dialect := by
  cases dialect with
  | plain => exact .unsupported _
  | groovy | lua => exact fills_object h

theorem fills_index (hf : first.Fills dialect) (hs : second.Fills dialect) :
    (index first second).Fills dialect :=
  ((hf.appendText (by decide)).append hs.lays).appendText (by decide)

theorem fills_mapGet (hf : first.Fills dialect) (hs : second.Fills dialect) :
    (mapGet dialect first second).Fills dialect := by
  cases dialect with
  | plain => exact ((hf.appendText (by decide)).append hs.lays).appendText (by decide)
  | groovy | lua => exact fills_index hf hs

theorem fills_jsonPlace {key : Expr}
    (hk : dialect = .groovy → ∀ text ∈ key.stringKey?, Unbroken text)
    (hf : first.Fills dialect) (hs : second.Fills dialect) :
    (jsonPlace dialect first key second).Fills dialect := by
  unfold jsonPlace
  split
  · next text he => exact fills_member hf (hk rfl text he)
  · exact fills_index hf hs

theorem fills_jsonMember {key : Expr}
    (hk : dialect = .groovy → ∀ text ∈ key.stringKey?, Unbroken text)
    (hf : first.Fills dialect) (hs : second.Fills dialect) :
    (jsonMember dialect first key second).Fills dialect := by
  cases dialect with
  | plain => exact .unsupported _
  | groovy | lua => exact fills_jsonPlace hk hf hs

theorem fills_jsonAssign {key : Expr}
    (hk : dialect = .groovy → ∀ text ∈ key.stringKey?, Unbroken text)
    (hf : first.Fills dialect) (hs : second.Fills dialect) (ht : third.Fills dialect) :
    (jsonAssign dialect first key second third).Fills dialect := by
  cases dialect with
  | plain => exact .unsupported _
  | groovy | lua => exact fills_assign (fills_jsonPlace hk hf hs) ht

theorem fills_jsonText (h : doc.Fills dialect) : (jsonText dialect doc).Fills dialect := by
  cases dialect with
  | plain | groovy => exact h.appendText (by decide)
  | lua => exact fills_between (by decide) h (by decide)

theorem fills_mapForEach {key value : Param} (body : LambdaBody) (hm : first.Fills dialect)
    (hn : ∀ name ∈ [key.name, value.name], Unbroken name) (h : LaysBody dialect body doc) :
    (mapForEach dialect first key value body doc).Fills dialect := by
  cases dialect with
  | plain => exact .unsupported _
  | groovy =>
    have hc : (closure [key, value] body doc).Fills .groovy := fills_closure body hn h
    exact (hm.appendText (by decide)).append hc.lays
  | lua =>
    have ho : Unbroken ("for " ++ key.name ++ ", " ++ value.name ++ " in pairs(") :=
      (((Text.Unbroken.append (by decide) (hn _ (.head _)).2).append (by decide)).append
        (hn _ (.tail _ (.head _))).2).append (by decide)
    exact (Doc.Fills.behind ho hm).append
      (fills_enclosed (by decide) (lays_bodyLine body h) (by decide)).lays

theorem fills_methodReference (h : doc.Fills dialect) (hn : Unbroken name) :
    (methodReference dialect doc name).Fills dialect := by
  cases dialect with
  | plain | groovy => exact h.appendText (.append (by decide) hn.2)
  | lua =>
    exact fills_between (by decide) h ((Text.OneLine.append (by decide) hn.2).append (by decide))

theorem fills_console (h : doc.Fills dialect) : (console dialect doc).Fills dialect := by
  cases dialect <;> exact (Doc.Fills.text (by decide)).append (.parens h.lays)

section Statements

/-- A statement fills the line it is on, and a block goes from one empty line to the next. -/
structure LaysStmt (dialect : Dialect) (stmt : Stmt) (doc : Doc) : Prop where
  fills : stmt.isBlock = false → doc.Fills dialect
  lines : stmt.isBlock = true → doc.Lays dialect .empty .empty
  keeps : doc.Lays dialect .unknown .unknown

variable {stmt : Stmt}

theorem LaysStmt.ofFills (hb : stmt.isBlock = false) (h : doc.Fills dialect) :
    LaysStmt dialect stmt doc where
  fills _ := h
  lines ht := absurd ht (by simp [hb])
  keeps := h.forget

theorem lays_line (h : LaysStmt dialect stmt doc) {before : LineState} :
    (line doc).Lays dialect before .empty :=
  h.keeps.ofAny.append .freshLine

theorem lays_body (h : LaysStmt dialect stmt doc) :
    (body stmt doc).Lays dialect .empty .empty := by
  unfold body
  split_ifs with hb
  · exact h.lines hb
  · exact lays_line h

theorem fills_braced (h : doc.Lays dialect .empty .empty) : (braced doc).Fills dialect :=
  fills_enclosed (by decide) h (by decide)

theorem fills_declare {ty : TypeInfo} {init : Option Doc}
    (ht : dialect = .plain → ∀ name ∈ ty.written .plain, Unbroken name) (hn : Unbroken name)
    (hi : ∀ doc ∈ init, doc.Fills dialect) : (declare dialect ty name init).Fills dialect := by
  -- The left side is what is declared without a value.
  have hl : (declare dialect ty name none).Fills dialect := by
    cases dialect with
    | plain => exact (fills_typeName (ht rfl)).appendText (Text.OneLine.append (by decide) hn.2)
    | groovy | lua => exact .text (Text.Unbroken.append (by decide) hn.2)
  cases init with
  | none => exact hl
  | some init => exact fills_assign hl (hi init rfl)

theorem fills_update (op : UnaryOp) (h : doc.Fills dialect) :
    (update dialect op doc).Fills dialect := by
  have hu := fills_unary op h
  unfold update
  split
  · next sign hs =>
    have ho : OneLine sign := by
      cases op <;> cases hs <;> decide
    exact fills_assign h (h.appendText ((Text.OneLine.append (by decide) ho).append (by decide)))
  · exact hu

theorem fills_forLoop {init test update body : Doc} (hi : init.Lays dialect .unknown .unknown)
    (ht : test.Fills dialect) (hu : update.Fills dialect)
    (hb : body.Lays dialect .empty .empty) :
    (forLoop dialect init test update body).Fills dialect := by
  have hs (content : String) (h : Unbroken content) {before : LineState} :
      (Doc.text content).Lays dialect before .filled := .text h
  have hl : (Doc.text ("end" ++ "\n")).Lays dialect .empty .empty := .line (by decide)
  cases dialect with
  | plain | groovy =>
    have ho : (.text "for (" ++ init ++ .text "; " : Doc).Fills _ :=
      ((hs "for (" (by decide)).append hi.ofAny).append (hs "; " (by decide))
    have hc := ((ho.append ht.lays).append (hs "; " (by decide))).append hu.lays
    exact (hc.append (hs ")" (by decide))).append (fills_braced hb).lays
  | lua =>
    have hr := (hb.append hu.lays).append .newline
    have hw : (line init ++ .text "while ").Lays .lua .empty .filled :=
      (hi.ofAny.append .freshLine).append (hs "while " (by decide))
    refine fills_enclosed (by decide) ?_ (by decide)
    exact (hw.append ht.lays).append (.enclosed (by decide) hr hl)

theorem fills_forEach (hn : Unbroken name) (hi : first.Fills dialect)
    (hb : second.Lays dialect .empty .empty) :
    (forEach dialect name first second).Fills dialect := by
  have ho (front back : String) (hf : Unbroken front) (hb : OneLine back) :
      Unbroken (front ++ name ++ back) := (hf.append hn.2).append hb
  cases dialect with
  | plain =>
    have hf := Doc.Fills.behind (ho "for (var " " : " (by decide) (by decide)) hi
    exact (hf.appendText (by decide)).append (fills_braced hb).lays
  | groovy =>
    have hf := ho (".each " ++ brace ++ " ") " ->" (by decide) (by decide)
    exact hi.append (fills_enclosed hf hb (by decide)).lays
  | lua =>
    have hf := Doc.Fills.behind (ho "for _, " " in ipairs(" (by decide) (by decide)) hi
    exact hf.append (fills_enclosed (by decide) hb (by decide)).lays

/-- On Lua the rest of an if statement stands on a line of its own. -/
theorem lays_otherwise {alternative : Option (Stmt × Doc)}
    (h : ∀ part ∈ alternative, LaysStmt dialect part.1 part.2) :
    (otherwise dialect alternative).Lays dialect
      (if dialect = .lua then .empty else .filled) .filled := by
  have hi (stmt : Stmt) (hs : stmt.isIfElse = true) : stmt.isBlock = false := by
    cases stmt <;> first | rfl | cases hs
  cases alternative with
  | none =>
    cases dialect with
    | plain | groovy => exact .empty
    | lua => exact .text (by decide)
  | some part =>
    obtain ⟨stmt, doc⟩ := part
    have hp : LaysStmt dialect stmt doc := h _ rfl
    cases hs : stmt.isIfElse with
    | true =>
      have hd := hp.fills (hi stmt hs)
      cases dialect <;> simp only [otherwise, hs, if_true] <;>
        exact (Doc.Fills.behind (by decide) hd).lays
    | false =>
      have hb := lays_body hp
      cases dialect with
      | plain | groovy =>
        simpa [otherwise, hs] using (Doc.Fills.behind (by decide) (fills_braced hb)).lays
      | lua => simpa [otherwise, hs] using (fills_enclosed (by decide) hb (by decide)).lays

theorem fills_ifElse {alternative : Option (Stmt × Doc)} (ht : first.Fills dialect)
    (hc : second.Lays dialect .empty .empty)
    (ha : ∀ part ∈ alternative, LaysStmt dialect part.1 part.2) :
    (ifElse dialect first second alternative).Fills dialect := by
  have ho := lays_otherwise ha
  cases dialect with
  | plain | groovy =>
    exact ((fills_between (by decide) ht (by decide)).append (fills_braced hc).lays).append ho
  | lua =>
    have hl : (Doc.text (" then" ++ "\n")).Lays .lua .filled .empty := .line (by decide)
    have hf : (.text "if " ++ first : Doc).Fills .lua := .behind (by decide) ht
    exact ((Doc.Lays.append hf hl).append (.nest hc)).append ho

theorem fills_whileLoop (ht : first.Fills dialect) (hb : second.Lays dialect .empty .empty) :
    (whileLoop dialect first second).Fills dialect := by
  cases dialect with
  | plain | groovy =>
    exact (fills_between (by decide) ht (by decide)).append (fills_braced hb).lays
  | lua =>
    exact (Doc.Fills.behind (by decide) ht).append
      (fills_enclosed (by decide) hb (by decide)).lays

theorem fills_throwNew {reason : Option Doc} (hn : dialect ≠ .lua → Unbroken name)
    (hr : ∀ doc ∈ reason, doc.Fills dialect) : (throwNew dialect name reason).Fills dialect := by
  cases dialect with
  | plain | groovy =>
    refine Doc.Fills.append (.text (.append (by decide) (hn (by decide)).2)) (.parens ?_)
    cases reason with
    | none => exact .empty
    | some doc => exact (hr doc rfl).lays
  | lua =>
    refine Doc.Fills.append (.text (by decide)) (.parens ?_)
    cases reason with
    | none => exact .quoted (.oneLine (oneLine_escape name))
    | some doc => exact (hr doc rfl).lays

theorem fills_returnWith {value : Option Doc} (h : ∀ doc ∈ value, doc.Fills dialect) :
    (returnWith value).Fills dialect := by
  cases value with
  | none => exact .text (by decide)
  | some doc => exact .behind (by decide) (h doc rfl)

theorem fills_continueLoop : (continueLoop dialect).Fills dialect := by
  cases dialect with
  | plain | groovy => exact .text (by decide)
  | lua => exact .unsupported _

end Statements

section Parts

/-- An expression fills its line, also as a part of a joined string. -/
structure LaysExpr (dialect : Dialect) (splice : Bool) (doc : Doc) : Prop where
  fills : doc.Fills dialect
  part : (part splice doc).Lays dialect .filled .filled

namespace LaysExpr

theorem ofFills (h : doc.Fills dialect) : LaysExpr dialect false doc where
  fills := h
  part := (fills_between (by decide) h (by decide)).lays

/-- What has no quotes of its own is the same without quotes. -/
theorem ofUnquoted (hu : doc.unquoted = doc) (splice : Bool) (h : doc.Fills dialect) :
    LaysExpr dialect splice doc := by
  cases splice with
  | true => exact ⟨h, by simpa [Phrase.part, hu] using h.lays⟩
  | false => exact ofFills h

theorem quoted (h : doc.Lays dialect .filled .filled) : LaysExpr dialect true (.quoted doc) where
  fills := .quoted h
  part := h

theorem literal (value : Literal)
    (h : ∀ digits ∈ (Expr.literal value).numerals, Unbroken digits) :
    LaysExpr dialect (Expr.literal value).isStringPart (Phrase.literal dialect value) := by
  have hd (digits suffix : String) (hd : Unbroken digits) (hs : OneLine suffix) :
      (Doc.text (if dialect = .groovy then digits ++ suffix else digits)).Fills dialect := by
    split_ifs
    · exact .text (hd.append hs)
    · exact .text hd
  cases value with
  | int digits => exact ofFills (.text (h _ (.head _)))
  | long digits | float digits | double digits => exact ofFills (hd _ _ (h _ (.head _)) (by decide))
  | char value =>
    have hc : OneLine (String.ofList (Text.escapeSingleChar value)) := by
      simpa [Text.Quotation.escaped] using oneLine_escaped .single [value]
    refine ofFills ?_
    simp only [Phrase.literal]
    split_ifs
    · exact .quoted (.oneLine (oneLine_escape _))
    · exact .text ((Text.Unbroken.append (by decide) hc).append (by decide))
  | string value =>
    refine quoted ?_
    split_ifs
    · exact .oneLine (oneLine_escapeTemplate value)
    · exact .oneLine (oneLine_escape value)
  | bool value => cases value <;> exact ofFills (.text (by decide))
  | null => cases dialect <;> exact ofFills (.text (by decide))

/-- Joined strings are one literal, or they are joined by an operator. -/
theorem binary (style : Style) (op : BinaryOp) (concat splice : Bool)
    {spliceFirst spliceSecond : Bool} (hf : LaysExpr style.dialect spliceFirst first)
    (hs : LaysExpr style.dialect spliceSecond second) :
    LaysExpr style.dialect splice
      (Phrase.binary style op concat spliceFirst spliceSecond first second) := by
  obtain ⟨dialect, interpolate⟩ := style
  have hj (operator : String) (ho : Unbroken (" " ++ operator ++ " ")) :
      LaysExpr dialect splice (infixed first operator second) :=
    .ofUnquoted rfl splice (fills_infixed ho hf.fills hs.fills)
  cases dialect with
  | plain => exact hj _ (unbroken_operator op)
  | groovy =>
    simp only [Phrase.binary]
    split_ifs
    · have hq := hf.part.append hs.part
      cases splice with
      | true => exact quoted hq
      | false => exact ofFills (quoted hq).fills
    · exact hj _ (unbroken_operator op)
  | lua =>
    simp only [Phrase.binary]
    split_ifs
    · exact hj ".." (by decide)
    · refine .ofUnquoted rfl splice (.appendText (.append (.appendText ?_ ?_) hs.fills.lays) ?_)
      · exact .behind (by decide) hf.fills
      all_goals decide
    · exact hj _ (unbroken_operator op)

end LaysExpr

end Parts

end Phrase

section Trees

open Phrase

variable (style : Style)

mutual

theorem Expr.lays_doc : (expr : Expr) →
    Place.AllRaw style.dialect Unbroken Unbroken (.expr expr :: expr.inside style.dialect) →
      LaysExpr style.dialect expr.isStringPart (expr.doc style)
  | .literal value, h => .literal value h.numeral
  | .binary left op right concat, h =>
    .binary style op concat _ (left.lays_doc h.inside.left) (right.lays_doc h.inside.right)
  | .unary op operand, h => .ofFills (fills_unary op (operand.lays_doc h.inside).fills)
  | .parens inner, h => .ofFills (fills_parens (inner.lays_doc h.inside).fills)
  | .ident name, h => .ofFills (.text (h.name name (.head _)))
  | .this, _ => .ofFills fills_this
  | .member object name, h =>
    .ofFills (fills_member (object.lays_doc h.inside).fills (h.name name (.head _)))
  | .assign target value, h =>
    .ofFills (fills_assign (target.lays_doc h.inside.left).fills
      (value.lays_doc h.inside.right).fills)
  | .conditional test consequent alternative, h =>
    .ofFills (fills_conditional _ (test.lays_doc h.inside.left.left).fills
      (consequent.lays_doc h.inside.left.right).fills (alternative.lays_doc h.inside.right).fills)
  | .call none method args, h => by
    refine .ofFills (fills_call ?_ (h.name method (.head _)) (Expr.lays_docs args h.inside))
    rintro doc ⟨⟩
  | .call (some receiver) method args, h => by
    have hr := fills_receiver receiver.isApiType (receiver.lays_doc h.inside.left).fills
    refine .ofFills (fills_call ?_ (h.name method (.head _)) (Expr.lays_docs args h.inside.right))
    rintro doc ⟨⟩
    exact hr
  | .construct ty args, h => .ofFills (fills_construct h.name (Expr.lays_docs args h.inside))
  | .lambda params body, h => .ofFills (fills_lambda body h.name (body.lays_doc h.inside))
  | .enumConstant ty constant, h =>
    .ofFills (fills_enumConstant (fun text hm => h.name text (.tail _ hm))
      (h.name constant (.head _)))
  | .apiType ty, h => .ofFills (fills_reference h.name)
  | .jsonObject members, h => by
    refine .ofFills (fills_jsonObject (Member.lays_docs _ members (fun hg => ?_) h.inside))
    simpa [Place.names, Expr.names, of_decide_eq_true hg] using h.name
  | .jsonArray values, h => .ofFills (fills_jsonArray (Expr.lays_docs values h.inside))
  | .dataObject ty members, h => by
    refine .ofFills (fills_dataObject (Member.lays_docs _ members (fun hl => ?_) h.inside))
    simpa [Place.names, Expr.names, of_decide_eq_true hl] using h.name
  | .valueOf kind inner, h => .ofFills (inner.lays_doc h.inside).fills
  | .dataAssign object name value, h =>
    .ofFills (fills_assign (fills_member (object.lays_doc h.inside.left).fills
      (h.name name (.head _))) (value.lays_doc h.inside.right).fills)
  | .dataMember object name, h =>
    .ofFills (fills_member (object.lays_doc h.inside).fills (h.name name (.head _)))
  | .jsonAssign object key value, h => by
    have ho := (object.lays_doc h.inside.left.left).fills
    have hk := (key.lays_doc h.inside.left.right).fills
    refine .ofFills (fills_jsonAssign (fun hg => ?_) ho hk (value.lays_doc h.inside.right).fills)
    simpa [Place.names, Expr.names, hg] using h.name
  | .jsonMember object key, h => by
    have ho := (object.lays_doc h.inside.left).fills
    refine .ofFills (fills_jsonMember (fun hg => ?_) ho (key.lays_doc h.inside.right).fills)
    simpa [Place.names, Expr.names, hg] using h.name
  | .jsonObjectText inner, h | .jsonArrayText inner, h =>
    .ofFills (fills_jsonText (inner.lays_doc h.inside).fills)
  | .mapGet map key, h =>
    .ofFills (fills_mapGet (map.lays_doc h.inside.left).fills (key.lays_doc h.inside.right).fills)
  | .mapForEach map key value body, h =>
    .ofFills (fills_mapForEach body (map.lays_doc h.inside.left).fills h.name
      (body.lays_doc h.inside.right))
  | .methodReference receiver method, h =>
    .ofFills (fills_methodReference (receiver.lays_doc h.inside).fills (h.name method (.head _)))
  | .console message, h => .ofFills (fills_console (message.lays_doc h.inside).fills)
  | .asyncResult name, h => .ofFills (.text (h.name name (.head _)))

theorem Expr.lays_docs : (exprs : List Expr) →
    Place.AllRaw style.dialect Unbroken Unbroken (Expr.insideAll style.dialect exprs) →
      ∀ doc ∈ Expr.docs style exprs, doc.Fills style.dialect
  | [], _ => List.forall_mem_nil _
  | expr :: rest, h =>
    List.forall_mem_cons.mpr ⟨(expr.lays_doc h.left).fills, Expr.lays_docs rest h.right⟩

theorem Expr.lays_doc? : (expr : Option Expr) →
    Place.AllRaw style.dialect Unbroken Unbroken (Expr.inside? style.dialect expr) →
      ∀ doc ∈ Expr.doc? style expr, doc.Fills style.dialect
  | none, _ => by
    rintro doc ⟨⟩
  | some expr, h => by
    have he := (expr.lays_doc h).fills
    rintro doc ⟨⟩
    exact he

theorem LambdaBody.lays_doc : (body : LambdaBody) →
    Place.AllRaw style.dialect Unbroken Unbroken (body.inside style.dialect) →
      LaysBody style.dialect body (body.doc style)
  | .expr value, h => (value.lays_doc h).fills
  | .block stmts, h => Stmt.lays_lines stmts h .empty (by simp)

theorem Member.lays_doc (unquote : Bool) : (member : Member) →
    (unquote = true → ∀ text ∈ member.name.stringKey?, Unbroken text) →
      Place.AllRaw style.dialect Unbroken Unbroken (member.inside style.dialect) →
        (member.doc style unquote style.dialect.containers).Fills style.dialect
  | .single name value, hk, h =>
    fills_entry (fills_key hk (name.lays_doc h.left).fills) (value.lays_doc h.right).fills
  | .array name values, hk, h =>
    fills_entry (fills_key hk (name.lays_doc h.left).fills)
      (fills_array _ (Expr.lays_docs values h.right))

theorem Member.lays_docs (unquote : Bool) : (members : List Member) →
    (unquote = true → ∀ text ∈ Member.stringKeys members, Unbroken text) →
      Place.AllRaw style.dialect Unbroken Unbroken (Member.insideAll style.dialect members) →
        ∀ doc ∈ Member.docs style unquote style.dialect.containers members,
          doc.Fills style.dialect
  | [], _, _ => List.forall_mem_nil _
  | member :: rest, hk, h =>
    List.forall_mem_cons.mpr
      ⟨member.lays_doc unquote (fun hu => (Member.forall_stringKeys_cons.mp (hk hu)).1) h.left,
        Member.lays_docs unquote rest (fun hu => (Member.forall_stringKeys_cons.mp (hk hu)).2)
          h.right⟩

theorem Stmt.lays_doc : (stmt : Stmt) →
    Place.AllRaw style.dialect Unbroken Unbroken (.stmt stmt :: stmt.inside style.dialect) →
      LaysStmt style.dialect stmt (stmt.doc style)
  | .block stmts, h =>
    have hl := Stmt.lays_lines stmts h.inside
    ⟨fun hb => absurd hb (by simp [Stmt.isBlock]), fun _ => hl .empty (by simp),
      hl .unknown (by simp)⟩
  | .declare ty name init, h => by
    have hi := Expr.lays_doc? init h.inside
    refine .ofFills rfl (fills_declare (fun hp => ?_) (h.name name (.head _)) hi)
    have hn := (List.forall_mem_cons.mp h.name).2
    simpa [hp] using hn
  | .expr value, h => .ofFills rfl (value.lays_doc h.inside).fills
  | .forLoop init test update body, h => by
    have hr : Place.AllRaw style.dialect Unbroken Unbroken
        (.update update :: update.inside style.dialect) ∧
        Place.AllRaw style.dialect Unbroken Unbroken (.stmt body :: body.inside style.dialect) := by
      have hr := h.inside.right
      split_ifs at hr
      · exact ⟨hr.right, hr.left⟩
      · exact ⟨hr.left, hr.right⟩
    have hi := init.lays_doc h.inside.left.left
    have ht := (test.lays_doc h.inside.left.right).fills
    have hb := lays_body (body.lays_doc hr.2)
    have hu : (update.updateDoc style).Fills style.dialect := by
      cases update with
      | unary op operand => exact fills_update op (operand.lays_doc hr.1.inside).fills
      | _ => exact (Expr.lays_doc _ hr.1.ofUpdate).fills
    refine .ofFills rfl ?_
    rw [Stmt.doc_forLoop]
    exact fills_forLoop hi.keeps ht hu hb
  | .forEach name iterable body, h =>
    .ofFills rfl (fills_forEach (h.name name (.head _)) (iterable.lays_doc h.inside.left).fills
      (lays_body (body.lays_doc h.inside.right)))
  | .throwNew exception reason, h => by
    refine .ofFills rfl (fills_throwNew (fun hl => ?_) (Expr.lays_doc? reason h.inside))
    have hn := h.name
    simpa [Place.names, Stmt.names, hl] using hn
  | .returnWith value, h => .ofFills rfl (fills_returnWith (Expr.lays_doc? value h.inside))
  | .ifElse test consequent none, h => by
    refine .ofFills rfl (fills_ifElse (test.lays_doc h.inside.left).fills
      (lays_body (consequent.lays_doc h.inside.right)) ?_)
    rintro part ⟨⟩
  | .ifElse test consequent (some alternative), h => by
    have ha := alternative.lays_doc h.inside.right
    refine .ofFills rfl (fills_ifElse (test.lays_doc h.inside.left.left).fills
      (lays_body (consequent.lays_doc h.inside.left.right)) ?_)
    rintro part ⟨⟩
    exact ha
  | .whileLoop test body, h =>
    .ofFills rfl (fills_whileLoop (test.lays_doc h.inside.left).fills
      (lays_body (body.lays_doc h.inside.right)))
  | .breakLoop, _ => .ofFills rfl (.text (by decide))
  | .continueLoop, _ => .ofFills rfl fills_continueLoop

theorem Stmt.lays_lines : (stmts : List Stmt) →
    Place.AllRaw style.dialect Unbroken Unbroken (Stmt.insideAll style.dialect stmts) →
      ∀ before, before ≠ .filled → (Stmt.lines style stmts).Lays style.dialect before before
  | [], _, _, _ => .empty
  | stmt :: rest, h, before, hb => by
    have hs : (line (stmt.doc style)).Lays style.dialect before .empty :=
      lays_line (stmt.lays_doc h.left)
    have hl := hs.append (Stmt.lays_lines rest h.right .empty (by simp))
    cases before with
    | unknown => exact hl.forget
    | empty => exact hl
    | filled => exact absurd rfl hb

end

end Trees

end Polyglot
