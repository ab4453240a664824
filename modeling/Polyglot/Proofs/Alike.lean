import Mathlib.Data.List.Forall2
import Mathlib.Data.Option.Basic
import Polyglot.Layout
import Polyglot.Proofs.Stroke

/-! Documents that no block can tell apart, because they do the same to every pass. Each notation
takes such documents to such documents again, whatever it puts around them. -/
namespace Polyglot

theorem Stroke.run_append_congr {dialect : Dialect} {first first' second second' : List Stroke}
    (hf : run dialect first = run dialect first') (hs : run dialect second = run dialect second') :
    run dialect (first ++ second) = run dialect (first' ++ second') := by
  funext pass
  rw [run_append, run_append, hf, hs]

/-- Do the same inside a block. The content of a quoted text is compared too: as a part of an
interpolated string it is all that is left of the document. -/
structure Doc.Alike (dialect : Dialect) (first second : Doc) : Prop where
  whole : Stroke.run dialect first.strokes = Stroke.run dialect second.strokes
  content : Stroke.run dialect first.unquoted.strokes = Stroke.run dialect second.unquoted.strokes

/-- Bodies of a closure that are written in the same place: both as its value, or both as a list of
statements. -/
inductive LambdaBody.SameForm : LambdaBody → LambdaBody → Prop
  | expr {value value' : Expr} (h : value.isLuaStatement = value'.isLuaStatement) :
    SameForm (.expr value) (.expr value')
  | block (stmts stmts' : List Stmt) : SameForm (.block stmts) (.block stmts')

/-- Statements that are written in the same way inside another one. -/
structure Stmt.SameForm (first second : Stmt) : Prop where
  isBlock : first.isBlock = second.isBlock
  isIfElse : first.isIfElse = second.isIfElse

namespace Doc.Alike

open Stroke (run run_append_congr)

variable {dialect : Dialect} {doc doc' first first' second second' third third' : Doc}
  {docs docs' : List Doc}

theorem refl (doc : Doc) : Alike dialect doc doc :=
  ⟨rfl, rfl⟩

theorem append (hf : Alike dialect first first') (hs : Alike dialect second second') :
    Alike dialect (first ++ second) (first' ++ second') :=
  have h := run_append_congr hf.whole hs.whole
  ⟨h, h⟩

theorem nest (h : Alike dialect doc doc') : Alike dialect (.nest doc) (.nest doc') := by
  have hn : run dialect (Doc.nest doc).strokes = run dialect (Doc.nest doc').strokes := by
    funext pass
    rw [run_nest, run_nest, h.whole]
  exact ⟨hn, hn⟩

theorem block (h : run dialect doc.strokes = run dialect doc'.strokes) :
    Alike dialect (.block doc) (.block doc') :=
  ⟨h, h⟩

theorem quoted (h : run dialect doc.strokes = run dialect doc'.strokes) :
    Alike dialect (.quoted doc) (.quoted doc') := by
  refine ⟨?_, h⟩
  funext pass
  rw [run_quoted, run_quoted, h]

theorem around (before : String) (h : Alike dialect doc doc') (after : String) :
    Alike dialect (.text before ++ doc ++ .text after) (.text before ++ doc' ++ .text after) :=
  ((refl _).append h).append (refl _)

theorem between (hf : Alike dialect first first') (content : String)
    (hs : Alike dialect second second') :
    Alike dialect (first ++ .text content ++ second) (first' ++ .text content ++ second') :=
  (hf.append (refl _)).append hs

theorem enclosed (opening : String) (h : Alike dialect doc doc') (closing : String) :
    Alike dialect (Phrase.enclosed opening doc closing) (Phrase.enclosed opening doc' closing) :=
  around _ h.nest closing

theorem parens (h : Alike dialect doc doc') :
    Alike dialect (Phrase.parens doc) (Phrase.parens doc') :=
  h.around "(" ")"

theorem sepBy (separator : String) (h : List.Forall₂ (Alike dialect) docs docs') :
    Alike dialect (.sepBy separator docs) (.sepBy separator docs') := by
  induction h with
  | nil => exact refl _
  | cons hd hr ih =>
    cases hr with
    | nil => exact hd
    | cons _ _ => exact hd.append ((refl _).append ih)

theorem rows (separator : String) (h : List.Forall₂ (Alike dialect) docs docs') :
    Alike dialect (Phrase.rows separator docs) (Phrase.rows separator docs') := by
  induction h with
  | nil => exact refl _
  | cons hd hr ih =>
    cases hr with
    | nil => exact hd.append (refl _)
    | cons _ _ => exact (hd.append (refl _)).append ih

/-- Both have members, or both are empty. -/
theorem container (empty opening separator closing : String)
    (h : List.Forall₂ (Alike dialect) docs docs') :
    Alike dialect
      (if docs.isEmpty then .text empty
        else .text opening ++ .nest (Phrase.rows separator docs) ++ .text closing)
      (if docs'.isEmpty then .text empty
        else .text opening ++ .nest (Phrase.rows separator docs') ++ .text closing) := by
  have hr := rows separator h
  cases h with
  | nil => exact refl _
  | cons _ _ => exact around opening hr.nest closing

theorem array (containers : Containers) (h : List.Forall₂ (Alike dialect) docs docs') :
    Alike dialect (Phrase.array containers docs) (Phrase.array containers docs') :=
  container _ _ _ _ h

theorem object (containers : Containers) (h : List.Forall₂ (Alike dialect) docs docs') :
    Alike dialect (Phrase.object containers docs) (Phrase.object containers docs') :=
  container _ _ _ _ h

theorem infixed (hf : Alike dialect first first') (operator : String)
    (hs : Alike dialect second second') :
    Alike dialect (Phrase.infixed first operator second) (Phrase.infixed first' operator second') :=
  hf.between _ hs

/-- Here the content of a quoted text counts without its quotes. -/
theorem parts {splice splice' : Bool} (hf : Alike dialect first first')
    (hs : Alike dialect second second') :
    Alike dialect (.quoted (Phrase.part splice first ++ Phrase.part splice' second))
      (.quoted (Phrase.part splice first' ++ Phrase.part splice' second')) := by
  have hp {doc doc' : Doc} (h : Alike dialect doc doc') (splice : Bool) :
      run dialect (Phrase.part splice doc).strokes =
        run dialect (Phrase.part splice doc').strokes := by
    cases splice with
    | true => exact h.content
    | false => exact (h.around _ _).whole
  exact quoted (run_append_congr (hp hf splice) (hp hs splice'))

theorem binary (style : Style) (op : BinaryOp) (concat spliceFirst spliceSecond : Bool)
    (hf : Alike style.dialect first first') (hs : Alike style.dialect second second') :
    Alike style.dialect (Phrase.binary style op concat spliceFirst spliceSecond first second)
      (Phrase.binary style op concat spliceFirst spliceSecond first' second') := by
  unfold Phrase.binary
  generalize style.dialect = dialect at *
  cases dialect with
  | plain => exact hf.infixed _ hs
  | groovy =>
    dsimp only
    split_ifs
    · exact parts hf hs
    · exact hf.infixed _ hs
  | lua =>
    dsimp only
    split_ifs
    · exact hf.infixed _ hs
    · exact ((hf.around _ _).append hs).append (refl _)
    · exact hf.infixed _ hs

theorem unary (op : UnaryOp) (h : Alike dialect doc doc') :
    Alike dialect (Phrase.unary dialect op doc) (Phrase.unary dialect op doc') := by
  cases dialect <;> cases op <;>
    first
    | exact refl _
    | exact (refl _).append h
    | exact h.append (refl _)

theorem member (h : Alike dialect doc doc') (name : String) :
    Alike dialect (Phrase.member doc name) (Phrase.member doc' name) :=
  h.append (refl _)

theorem assign (hf : Alike dialect first first') (hs : Alike dialect second second') :
    Alike dialect (Phrase.assign first second) (Phrase.assign first' second') :=
  hf.between " = " hs

theorem index (hf : Alike dialect first first') (hs : Alike dialect second second') :
    Alike dialect (Phrase.index first second) (Phrase.index first' second') :=
  (hf.between "[" hs).append (refl _)

theorem conditional (truthy : Bool) (hf : Alike dialect first first')
    (hs : Alike dialect second second') (ht : Alike dialect third third') :
    Alike dialect (Phrase.conditional dialect truthy first second third)
      (Phrase.conditional dialect truthy first' second' third') := by
  have hc (opening before between closing : String) :
      Alike dialect
        (.text opening ++ first ++ .text before ++ second ++ .text between ++ third ++
          .text closing)
        (.text opening ++ first' ++ .text before ++ second' ++ .text between ++ third' ++
          .text closing) :=
    ((((hf.around _ _).append hs).append (refl _)).append ht).append (refl _)
  have hb (before between : String) :
      Alike dialect (first ++ .text before ++ second ++ .text between ++ third)
        (first' ++ .text before ++ second' ++ .text between ++ third') :=
    (hf.between _ hs).between _ ht
  cases dialect with
  | plain | groovy => exact hb _ _
  | lua =>
    cases truthy with
    | true => exact hb _ _
    | false => exact hc _ _ _ _

theorem call {receiver receiver' : Option Doc} (hr : Option.Rel (Alike dialect) receiver receiver')
    (method : String) (h : List.Forall₂ (Alike dialect) docs docs') :
    Alike dialect (Phrase.call receiver method docs) (Phrase.call receiver' method docs') := by
  have ha : Alike dialect (Phrase.arguments docs) (Phrase.arguments docs') := (sepBy _ h).parens
  cases hr with
  | none => exact (refl _).append ha
  | some ho => exact (ho.append (refl _)).append ha

theorem construct (ty : TypeInfo) (h : List.Forall₂ (Alike dialect) docs docs') :
    Alike dialect (Phrase.construct dialect ty docs) (Phrase.construct dialect ty docs') := by
  have ha : Alike dialect (Phrase.arguments docs) (Phrase.arguments docs') := (sepBy _ h).parens
  cases dialect <;> exact (refl _).append ha

section Bodies

variable {body body' : LambdaBody}

theorem bodyLine (hb : body.SameForm body') (h : Alike dialect doc doc') :
    Alike dialect (Phrase.bodyLine body doc) (Phrase.bodyLine body' doc') := by
  cases hb with
  | expr _ => exact h.append (refl _)
  | block _ _ => exact h

theorem functionBody (hb : body.SameForm body') (h : Alike dialect doc doc') :
    Alike dialect (Phrase.functionBody body doc) (Phrase.functionBody body' doc') := by
  cases hb with
  | block _ _ => exact h
  | expr hv =>
    simp only [Phrase.functionBody, hv]
    split_ifs
    · exact h.append (refl _)
    · exact h.around _ _

theorem closure (params : List Param) (hb : body.SameForm body') (h : Alike dialect doc doc') :
    Alike dialect (Phrase.closure params body doc) (Phrase.closure params body' doc') :=
  (bodyLine hb h).enclosed _ _

theorem lambda (params : List Param) (hb : body.SameForm body') (h : Alike dialect doc doc') :
    Alike dialect (Phrase.lambda dialect params body doc)
      (Phrase.lambda dialect params body' doc') := by
  cases dialect with
  | plain =>
    cases hb with
    | expr _ => exact (refl _).append h
    | block _ _ => exact (refl _).append (h.enclosed _ _)
  | groovy => exact closure params hb h
  | lua => exact (functionBody hb h).enclosed _ _

theorem mapForEach (hf : Alike dialect first first') (key value : Param)
    (hb : body.SameForm body') (h : Alike dialect doc doc') :
    Alike dialect (Phrase.mapForEach dialect first key value body doc)
      (Phrase.mapForEach dialect first' key value body' doc') := by
  cases dialect with
  | plain => exact refl _
  | groovy => exact (hf.append (refl _)).append (closure _ hb h)
  | lua => exact ((refl _).append hf).append ((bodyLine hb h).enclosed _ _)

end Bodies

theorem jsonObject (h : List.Forall₂ (Alike dialect) docs docs') :
    Alike dialect (Phrase.jsonObject dialect docs) (Phrase.jsonObject dialect docs') := by
  cases dialect with
  | plain => exact refl _
  | groovy | lua => exact object _ h

theorem jsonArray (h : List.Forall₂ (Alike dialect) docs docs') :
    Alike dialect (Phrase.jsonArray dialect docs) (Phrase.jsonArray dialect docs') := by
  cases dialect with
  | plain => exact refl _
  | groovy | lua => exact array _ h

theorem dataObject (h : List.Forall₂ (Alike dialect) docs docs') :
    Alike dialect (Phrase.dataObject dialect docs) (Phrase.dataObject dialect docs') := by
  cases dialect with
  | plain => exact refl _
  | groovy | lua => exact object _ h

section Keys

variable {name name' : Expr}

theorem key (unquote : Bool) (hn : name.stringKey? = name'.stringKey?)
    (h : Alike dialect doc doc') :
    Alike dialect (Phrase.key dialect unquote name doc)
      (Phrase.key dialect unquote name' doc') := by
  unfold Phrase.key
  rw [← hn]
  split
  · exact refl _
  · cases dialect with
    | plain | groovy => exact h
    | lua => exact h.around "[" "]"

theorem entry (containers : Containers) (hf : Alike dialect first first')
    (hs : Alike dialect second second') :
    Alike dialect (Phrase.entry containers first second)
      (Phrase.entry containers first' second') :=
  hf.between _ hs

theorem jsonPlace (hf : Alike dialect first first') (hn : name.stringKey? = name'.stringKey?)
    (hs : Alike dialect second second') :
    Alike dialect (Phrase.jsonPlace dialect first name second)
      (Phrase.jsonPlace dialect first' name' second') := by
  unfold Phrase.jsonPlace
  rw [← hn]
  split
  · exact hf.member _
  · exact hf.index hs

theorem jsonMember (hf : Alike dialect first first') (hn : name.stringKey? = name'.stringKey?)
    (hs : Alike dialect second second') :
    Alike dialect (Phrase.jsonMember dialect first name second)
      (Phrase.jsonMember dialect first' name' second') := by
  cases dialect with
  | plain => exact refl _
  | groovy | lua => exact jsonPlace hf hn hs

theorem jsonAssign (hf : Alike dialect first first') (hn : name.stringKey? = name'.stringKey?)
    (hs : Alike dialect second second') (ht : Alike dialect third third') :
    Alike dialect (Phrase.jsonAssign dialect first name second third)
      (Phrase.jsonAssign dialect first' name' second' third') := by
  cases dialect with
  | plain => exact refl _
  | groovy | lua => exact (jsonPlace hf hn hs).assign ht

end Keys

theorem jsonText (h : Alike dialect doc doc') :
    Alike dialect (Phrase.jsonText dialect doc) (Phrase.jsonText dialect doc') := by
  cases dialect with
  | plain | groovy => exact h.append (refl _)
  | lua => exact h.around _ _

theorem mapGet (hf : Alike dialect first first') (hs : Alike dialect second second') :
    Alike dialect (Phrase.mapGet dialect first second) (Phrase.mapGet dialect first' second') := by
  cases dialect with
  | plain => exact (hf.between _ hs).append (refl _)
  | groovy | lua => exact hf.index hs

theorem methodReference (h : Alike dialect doc doc') (method : String) :
    Alike dialect (Phrase.methodReference dialect doc method)
      (Phrase.methodReference dialect doc' method) := by
  cases dialect with
  | plain | groovy => exact h.append (refl _)
  | lua => exact h.around _ _

theorem console (h : Alike dialect doc doc') :
    Alike dialect (Phrase.console dialect doc) (Phrase.console dialect doc') :=
  (refl _).append h.parens

theorem line (h : Alike dialect doc doc') :
    Alike dialect (Phrase.line doc) (Phrase.line doc') :=
  h.append (refl _)

theorem body {stmt stmt' : Stmt} (hf : stmt.SameForm stmt') (h : Alike dialect doc doc') :
    Alike dialect (Phrase.body stmt doc) (Phrase.body stmt' doc') := by
  unfold Phrase.body
  rw [hf.isBlock]
  split_ifs
  · exact h
  · exact h.line

theorem braced (h : Alike dialect doc doc') :
    Alike dialect (Phrase.braced doc) (Phrase.braced doc') :=
  h.enclosed _ _

theorem declare (ty : TypeInfo) (name : String) {init init' : Option Doc}
    (h : Option.Rel (Alike dialect) init init') :
    Alike dialect (Phrase.declare dialect ty name init)
      (Phrase.declare dialect ty name init') := by
  cases h with
  | none => exact refl _
  | some hi => exact (refl _).assign hi

theorem update (op : UnaryOp) (h : Alike dialect doc doc') :
    Alike dialect (Phrase.update dialect op doc) (Phrase.update dialect op doc') := by
  unfold Phrase.update
  split
  · exact h.assign (h.append (refl _))
  · exact h.unary op

theorem forLoop (hf : Alike dialect first first') (hs : Alike dialect second second')
    (ht : Alike dialect third third') (h : Alike dialect doc doc') :
    Alike dialect (Phrase.forLoop dialect first second third doc)
      (Phrase.forLoop dialect first' second' third' doc') := by
  have hl : Alike dialect (doc ++ third ++ .text "\n") (doc' ++ third' ++ .text "\n") :=
    (h.append ht).append (refl _)
  have hh : Alike dialect (.text "for (" ++ first ++ .text "; " ++ second ++ .text "; ")
      (.text "for (" ++ first' ++ .text "; " ++ second' ++ .text "; ") :=
    ((hf.around _ _).append hs).append (refl _)
  cases dialect with
  | plain | groovy => exact ((hh.append ht).append (refl _)).append h.braced
  | lua =>
    exact (((hf.line.append (refl _)).append hs).append (hl.enclosed _ _)).enclosed _ _

theorem forEach (name : String) (hf : Alike dialect first first') (h : Alike dialect doc doc') :
    Alike dialect (Phrase.forEach dialect name first doc)
      (Phrase.forEach dialect name first' doc') := by
  cases dialect with
  | plain => exact (hf.around _ _).append h.braced
  | groovy => exact hf.append (h.enclosed _ _)
  | lua => exact ((refl _).append hf).append (h.enclosed _ _)

theorem otherwise {alternative alternative' : Option (Stmt × Doc)}
    (h : Option.Rel (fun branch branch' =>
      branch.1.SameForm branch'.1 ∧ Alike dialect branch.2 branch'.2) alternative alternative') :
    Alike dialect (Phrase.otherwise dialect alternative)
      (Phrase.otherwise dialect alternative') := by
  cases h with
  | none => exact refl _
  | @some branch branch' hb =>
    obtain ⟨hf, hd⟩ := hb
    have hi := hf.isIfElse
    cases dialect <;> simp only [Phrase.otherwise, hi] <;> split_ifs
    · exact (refl _).append hd
    · exact (refl _).append (body hf hd).braced
    · exact (refl _).append hd
    · exact (refl _).append (body hf hd).braced
    · exact (refl _).append hd
    · exact (body hf hd).enclosed _ _

theorem ifElse {alternative alternative' : Option (Stmt × Doc)}
    (hf : Alike dialect first first') (hs : Alike dialect second second')
    (h : Option.Rel (fun branch branch' =>
      branch.1.SameForm branch'.1 ∧ Alike dialect branch.2 branch'.2) alternative alternative') :
    Alike dialect (Phrase.ifElse dialect first second alternative)
      (Phrase.ifElse dialect first' second' alternative') := by
  cases dialect with
  | plain | groovy =>
    exact ((hf.around _ _).append hs.braced).append (otherwise h)
  | lua => exact ((hf.around _ _).append hs.nest).append (otherwise h)

theorem whileLoop (hf : Alike dialect first first') (h : Alike dialect doc doc') :
    Alike dialect (Phrase.whileLoop dialect first doc) (Phrase.whileLoop dialect first' doc') := by
  cases dialect with
  | plain | groovy => exact (hf.around _ _).append h.braced
  | lua => exact ((refl _).append hf).append (h.enclosed _ _)

theorem throwNew (exception : String) {reason reason' : Option Doc}
    (h : Option.Rel (Alike dialect) reason reason') :
    Alike dialect (Phrase.throwNew dialect exception reason)
      (Phrase.throwNew dialect exception reason') := by
  cases h with
  | none => exact refl _
  | some hr => cases dialect <;> exact (refl _).append hr.parens

theorem returnWith {value value' : Option Doc} (h : Option.Rel (Alike dialect) value value') :
    Alike dialect (Phrase.returnWith value) (Phrase.returnWith value') := by
  cases h with
  | none => exact refl _
  | some hv => exact (refl _).append hv

end Doc.Alike

end Polyglot
