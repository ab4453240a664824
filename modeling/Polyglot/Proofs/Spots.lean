import Polyglot.Proofs.BracedPieces
import Polyglot.Proofs.Scan
import Polyglot.Proofs.Succession

/-! Where a line begins. The pieces of a place tell what is known about the last line in front of
each of them, and a statement of a list stands on an empty line, wherever the list is. -/
namespace Polyglot

open Lua (Piece)
open Lua.Piece (ink text expr stmt nest enclosed line lines body sepBy parens rows bodyLine strokes)

/-- What is written for a place, as a row of strokes and of places inside it. -/
def Place.pieces (style : Style) (place : Place) : List Piece :=
  if style.dialect = .lua then Lua.Piece.ofPlace place else Braced.ofPlace style place

/-- A place inside another one, with the strokes in front of it and behind it there. -/
inductive Place.Within (style : Style) (target : Place) :
    Place → List Stroke → List Stroke → Prop
  | here : Within style target target [] []
  | inside {whole child : Place} {front back : List Piece} {before after : List Stroke}
    (hp : whole.pieces style = front ++ .place child :: back)
    (h : Within style target child before after) :
    Within style target whole (strokes style front ++ before) (after ++ strokes style back)

/-- A statement of a list somewhere in a place, with the strokes in front of the statement and
behind the end of its line. -/
inductive Listed (style : Style) (target : Stmt) (root : Place) :
    List Stroke → List Stroke → Prop
  | intro {whole : Place} {front back : List Piece} {earlier later : List Stmt}
    {before after : List Stroke}
    (hp : whole.pieces style = front ++ lines (earlier ++ target :: later) ++ back)
    (hw : Place.Within style whole root before after) :
    Listed style target root (before ++ strokes style (front ++ lines earlier))
      (strokes style (lines later ++ back) ++ after)

/-- What is known about the last line of a page between pieces. -/
inductive Spot where
  /-- The line is empty. -/
  | empty
  | started
  /-- The line may have been started in front of the statement that was the last piece. -/
  | loose
  deriving DecidableEq

namespace Spot

def endsLine (content : String) : Bool :=
  content.toList.getLast? = some '\n'

/-- A block begins on an empty line, and so does a statement whose line is ended. -/
def step : Spot → Piece → Option Spot
  | _, .stroke (.write content) => some (if endsLine content then .empty else .started)
  | spot, .stroke .indent | spot, .stroke .unindent =>
    some (if spot = .empty then .empty else .started)
  | spot, .stroke .freshLine => if spot = .loose then none else some .empty
  | _, .stroke _ => some .started
  | spot, .place (.stmt value) =>
    if value.isBlock then if spot = .empty then some .empty else none
    else some (if spot = .empty then .started else .loose)
  | _, .place _ => some .started

def run (spot : Spot) : List Piece → Option Spot
  | [] => some spot
  | piece :: rest => (spot.step piece).bind (run · rest)

theorem run_append (spot : Spot) (first second : List Piece) :
    spot.run (first ++ second) = (spot.run first).bind (·.run second) := by
  induction first generalizing spot with
  | nil => rfl
  | cons piece rest ih =>
    simp only [List.cons_append, run, Option.bind_assoc]
    congr 1
    funext next
    exact ih next

/-- Pieces that can stand at a spot, and leave no statement with an open line. -/
def Takes (spot : Spot) (pieces : List Piece) : Prop :=
  ∃ next, spot.run pieces = some next ∧ next ≠ .loose

/-- Pieces that can stand on any line. -/
def Safe (pieces : List Piece) : Prop :=
  ∀ spot : Spot, spot ≠ .loose → spot.Takes pieces

variable {spot : Spot} {first second pieces : List Piece}

@[grind ←] theorem Takes.append (hf : spot.Takes first) (hs : Safe second) :
    spot.Takes (first ++ second) := by
  obtain ⟨middle, hm, hl⟩ := hf
  obtain ⟨next, hn, hl⟩ := hs middle hl
  exact ⟨next, by rw [run_append, hm, Option.bind_some, hn], hl⟩

namespace Safe

@[grind ←] theorem nil : Safe [] :=
  fun spot hs => ⟨spot, rfl, hs⟩

@[grind ←] theorem append (hf : Safe first) (hs : Safe second) : Safe (first ++ second) :=
  fun spot hl => (hf spot hl).append hs

@[grind ←] theorem stroke (own : Stroke) : Safe [.stroke own] := by
  intro spot hs
  cases own with
  | write content =>
    refine ⟨_, rfl, ?_⟩
    split_ifs <;> simp
  | indent | unindent =>
    refine ⟨_, rfl, ?_⟩
    split_ifs <;> simp
  | freshLine => exact ⟨.empty, by simp [run, step, hs], by simp⟩
  | refer ty => exact ⟨.started, rfl, by simp⟩
  | refuse construct => exact ⟨.started, rfl, by simp⟩

@[grind ←] theorem text (content : String) : Safe (text content) :=
  stroke _

@[grind ←] theorem ink (doc : Doc) : Safe (ink doc) := by
  unfold Lua.Piece.ink
  induction doc.strokes with
  | nil => exact nil
  | cons own rest ih => exact append (stroke own) ih

@[grind ←] theorem expr (value : Expr) : Safe (expr value) :=
  fun _ _ => ⟨.started, rfl, by simp⟩

@[grind ←] theorem update (value : Expr) : Safe [.place (.update value)] :=
  fun _ _ => ⟨.started, rfl, by simp⟩

/-- A body behind the line that opens it. -/
theorem opened (opening : String) (h : Spot.empty.Takes pieces) :
    Safe (Lua.Piece.text (opening ++ "\n") ++ nest pieces) := by
  intro spot hs
  obtain ⟨next, hn, hl⟩ := h
  have hr : spot.run (Lua.Piece.text (opening ++ "\n") ++ [.stroke .indent] ++ pieces) =
      some next := by
    rw [run_append, run_append]
    simp [run, Lua.Piece.text, step, endsLine, hn]
  have ht : spot.Takes (Lua.Piece.text (opening ++ "\n") ++ [.stroke .indent] ++ pieces) :=
    ⟨next, hr, hl⟩
  simpa [nest] using ht.append (stroke .unindent)

@[grind ←] theorem enclosed (opening closing : String) (h : Spot.empty.Takes pieces) :
    Safe (enclosed opening pieces closing) :=
  (opened opening h).append (text closing)

@[grind ←] theorem parens (h : Safe pieces) : Safe (parens pieces) := by
  exact append (append (text _) h) (text _)

@[grind ←] theorem sepBy (values : List Expr) : Safe (sepBy values) := by
  induction values with
  | nil => exact nil
  | cons value rest ih =>
    cases rest with
    | nil => exact expr value
    | cons next rest => exact append (append (expr value) (text ", ")) ih

@[grind ←] theorem rows {content : List (List Piece)} (h : ∀ row ∈ content, Safe row) :
    Safe (rows content) := by
  induction content with
  | nil => exact nil
  | cons row rest ih =>
    obtain ⟨hd, hr⟩ := List.forall_mem_cons.mp h
    cases rest with
    | nil => exact append hd (text "\n")
    | cons next rest => exact append (append hd (text ",\n")) (ih hr)

/-- What can stand on any line can stand on an empty one. -/
theorem empty (h : Safe pieces) : Spot.empty.Takes pieces :=
  h .empty (by simp)

end Safe

/-- A statement and the end of its line. -/
theorem run_line (value : Stmt) : Spot.empty.run (line (stmt value)) = some .empty := by
  cases hb : value.isBlock <;> simp [line, stmt, run, step, hb]

theorem run_lines (stmts : List Stmt) : Spot.empty.run (lines stmts) = some .empty := by
  induction stmts with
  | nil => rfl
  | cons value rest ih =>
    have hl : lines (value :: rest) = line (stmt value) ++ lines rest := rfl
    rw [hl, run_append, run_line, Option.bind_some, ih]

theorem run_body (value : Stmt) : Spot.empty.run (body value) = some .empty := by
  unfold body
  split_ifs with hb
  · simp [stmt, run, step, hb]
  · exact run_line value

@[grind ←] theorem takes_lines (stmts : List Stmt) : Spot.empty.Takes (lines stmts) :=
  ⟨.empty, run_lines stmts, by simp⟩

@[grind ←] theorem takes_body (value : Stmt) : Spot.empty.Takes (body value) :=
  ⟨.empty, run_body value, by simp⟩

@[grind ←] theorem takes_line (value : Stmt) : Spot.empty.Takes (line (stmt value)) :=
  ⟨.empty, run_line value, by simp⟩

@[grind ←] theorem takes_bodyLine (value : LambdaBody) : Spot.empty.Takes (bodyLine value) := by
  cases value with
  | expr value => exact Safe.empty (by grind [bodyLine])
  | block stmts => exact takes_lines stmts

/-- Pieces that may leave a statement with an open line. -/
theorem isSome_run_append (hf : spot.Takes first)
    (hs : ∀ spot : Spot, spot ≠ .loose → (spot.run second).isSome = true) :
    (spot.run (first ++ second)).isSome = true := by
  obtain ⟨middle, hm, hl⟩ := hf
  rw [run_append, hm, Option.bind_some]
  exact hs middle hl

theorem Safe.isSome_run (h : Safe pieces) (spot : Spot) (hs : spot ≠ .loose) :
    (spot.run pieces).isSome = true := by
  obtain ⟨next, hn, -⟩ := h spot hs
  rw [hn, Option.isSome_some]

/-- The statement that goes on with an if statement stands behind a word. -/
theorem isSome_run_chained (content : String) (value : Stmt) (hv : value.isIfElse = true)
    (spot : Spot) : (spot.run (text content ++ stmt value)).isSome = true := by
  have hb : value.isBlock = false := by
    cases value <;> first | rfl | cases hv
  simp [run, text, stmt, step, hb]

/-- Where a place may stand: a block needs an empty line. -/
def front : Place → Spot
  | .stmt value => if value.isBlock then .empty else .started
  | _ => .started

end Spot

namespace Lua.Piece

open Spot (Safe)

@[grind ←] theorem safe_container {content : List (List Piece)} (h : ∀ row ∈ content, Safe row) :
    Safe (container content) := by
  unfold container
  split_ifs
  · exact .text _
  · exact .enclosed _ _ (Safe.rows h).empty

@[grind ←] theorem safe_array (values : List Expr) : Safe (array values) := by
  grind [array]

@[grind ←] theorem safe_member (unquote : Bool) (value : Member) : Safe (member unquote value) := by
  have hk (name : Expr) : Safe (key unquote name) := by
    unfold key
    split <;> grind
  cases value <;> grind [member]

@[grind ←] theorem takes_functionBody (value : LambdaBody) :
    Spot.empty.Takes (functionBody value) := by
  cases value with
  | expr value =>
    refine Safe.empty ?_
    grind [functionBody]
  | block stmts => exact Spot.takes_lines stmts

@[grind ←] theorem safe_index (map key : Expr) : Safe (index map key) :=
  (((Safe.expr map).append (.text _)).append (.expr key)).append (.text _)

theorem safe_ofExpr (value : Expr) : Safe (ofExpr value) := by
  cases value with
  | unary op operand => cases op <;> grind [ofExpr]
  | call receiver method args => cases receiver <;> grind [ofExpr]
  | _ => grind [ofExpr]

theorem safe_ofUpdate (value : Expr) : Safe (ofUpdate value) := by
  have he := safe_ofExpr value
  cases value with
  | unary op operand => grind [ofUpdate]
  | _ => exact he

theorem isSome_run_otherwise (alternative : Option Stmt) (spot : Spot) (hs : spot ≠ .loose) :
    (spot.run (otherwise alternative)).isSome = true := by
  cases alternative with
  | none => exact (Safe.text "end").isSome_run spot hs
  | some alternative =>
    simp only [otherwise]
    split_ifs with hi
    · exact Spot.isSome_run_chained _ _ hi spot
    · exact (Safe.enclosed _ _ (Spot.takes_body alternative)).isSome_run spot hs

theorem isSome_run_ofStmt (value : Stmt) :
    ((Spot.front (.stmt value)).run (ofStmt value)).isSome = true := by
  have hs {pieces : List Piece} (h : Safe pieces) : (Spot.started.run pieces).isSome = true :=
    h.isSome_run .started (by simp)
  cases value with
  | block stmts => simp [Spot.front, Stmt.isBlock, ofStmt, Spot.run_lines]
  | ifElse test consequent alternative =>
    have ho : Safe (text (" then" ++ "\n") ++ nest (body consequent)) :=
      .opened _ (Spot.takes_body consequent)
    have hl : Safe (text "if " ++ expr test ++ text " then\n" ++ nest (body consequent)) := by
      rw [List.append_assoc]
      exact ((Safe.text _).append (.expr _)).append ho
    exact Spot.isSome_run_append (hl .started (by simp)) (isSome_run_otherwise alternative)
  | forLoop init test update repeated =>
    have hr : Spot.empty.Takes (body repeated ++ [.place (.update update)] ++ text "\n") :=
      ((Spot.takes_body repeated).append (.update update)).append (.text _)
    have hw := (((Spot.takes_line init).append (.text "while ")).append (.expr test)).append
      (.enclosed " do" "end\n" hr)
    exact hs (.enclosed _ _ hw)
  | declare ty name init => cases init <;> exact hs (by grind [ofStmt])
  | throwNew exception reason => cases reason <;> exact hs (by grind [ofStmt])
  | returnWith value => cases value <;> exact hs (by grind [ofStmt])
  | _ => exact hs (by grind [ofStmt])

end Lua.Piece

namespace Braced

open Spot (Safe)

@[grind ←] theorem safe_container (empty : String) {content : List (List Piece)}
    (h : ∀ row ∈ content, Safe row) : Safe (container empty content) := by
  unfold container
  split_ifs
  · exact .text _
  · exact .enclosed _ _ (Safe.rows h).empty

@[grind ←] theorem safe_array (values : List Expr) : Safe (array values) := by
  grind [array]

@[grind ←] theorem safe_member (unquote : Bool) (value : Member) : Safe (member unquote value) := by
  have hk (name : Expr) : Safe (key unquote name) := by
    unfold key
    split <;> grind
  cases value <;> grind [member]

@[grind ←] theorem safe_closure (params : List Param) (value : LambdaBody) :
    Safe (closure params value) :=
  .enclosed _ _ (Spot.takes_bodyLine value)

@[grind ←] theorem safe_arrow (value : LambdaBody) : Safe (arrow value) := by
  cases value <;> grind [arrow]

@[grind ←] theorem safe_splice (value : Expr) : Safe (splice value) := by
  fun_induction splice value <;> grind

@[grind ←] theorem safe_jsonPlace (object name : Expr) : Safe (jsonPlace object name) := by
  unfold jsonPlace
  split <;> grind [Lua.Piece.index]

@[grind ←] theorem safe_groovyOnly (dialect : Dialect) (construct : Construct)
    {pieces : List Piece} (h : Safe pieces) : Safe (groovyOnly dialect construct pieces) := by
  grind [groovyOnly]

theorem safe_ofExpr (style : Style) (value : Expr) : Safe (ofExpr style value) := by
  cases value with
  | unary op operand => cases op <;> grind [ofExpr, unary]
  | call receiver method args => cases receiver <;> grind [ofExpr]
  | _ => grind [ofExpr]

@[grind ←] theorem safe_braced (value : Stmt) : Safe (braced (body value)) :=
  .enclosed _ _ (Spot.takes_body value)

theorem isSome_run_otherwise (alternative : Option Stmt) (spot : Spot) (hs : spot ≠ .loose) :
    (spot.run (otherwise alternative)).isSome = true := by
  cases alternative with
  | none => exact Safe.nil.isSome_run spot hs
  | some alternative =>
    simp only [otherwise]
    split_ifs with hi
    · exact Spot.isSome_run_chained _ _ hi spot
    · exact ((Safe.text _).append (safe_braced alternative)).isSome_run spot hs

theorem isSome_run_ofStmt (style : Style) (value : Stmt) :
    ((Spot.front (.stmt value)).run (ofStmt style value)).isSome = true := by
  have hs {pieces : List Piece} (h : Safe pieces) : (Spot.started.run pieces).isSome = true :=
    h.isSome_run .started (by simp)
  cases value with
  | block stmts => simp [Spot.front, Stmt.isBlock, ofStmt, Spot.run_lines]
  | ifElse test consequent alternative =>
    have hl : Safe (text "if (" ++ expr test ++ text ")" ++ braced (body consequent)) := by grind
    exact Spot.isSome_run_append (hl .started (by simp)) (isSome_run_otherwise alternative)
  | forLoop init test update repeated =>
    have hi : Safe (text "for (" ++ ink (init.doc style) ++ text "; " ++ expr test) := by grind
    have hu := ((hi.append (.text "; ")).append (.update update)).append (.text ")")
    exact hs (hu.append (safe_braced repeated))
  | declare ty name init =>
    have hd : Safe (declared style.dialect ty name) := by grind [declared]
    cases init <;> exact hs (by grind [ofStmt])
  | throwNew exception reason => cases reason <;> exact hs (by grind [ofStmt])
  | returnWith value => cases value <;> exact hs (by grind [ofStmt])
  | _ => exact hs (by grind [ofStmt])

end Braced

namespace Page

theorem atLineStart_write {content : String} (h : Spot.endsLine content = true) (page : Page) :
    (page.write content).atLineStart = true := by
  obtain ⟨front, hf⟩ := List.getLast?_eq_some_iff.mp (of_decide_eq_true h)
  rw [write, hf, List.foldl_append]
  simp [push]

end Page

namespace Spot

/-- A page agrees with what is known about its last line. -/
def Allows (spot : Spot) (pass : Pass) : Prop :=
  spot = .empty → pass.page.atLineStart = true

variable {style : Style} {spot next : Spot} {pass last : Pass}

/-- Only a block leads from an empty line to an empty line. -/
theorem step_stmt {value : Stmt} (h : spot.step (.place (.stmt value)) = some .empty) :
    spot = .empty ∧ value.isBlock = true := by
  simp only [step] at h
  split_ifs at h with hb he
  · exact ⟨he, hb⟩
  · cases h
  · cases h

theorem step_allows {piece : Piece} (hs : spot.step piece = some next) (hp : spot.Allows pass)
    (hr : Stroke.run style.dialect (strokes style [piece]) pass = .done last) :
    next.Allows last := by
  rintro rfl
  cases piece with
  | stroke own =>
    cases own with
    | write content =>
      cases hr
      refine Page.atLineStart_write ?_ pass.page
      simpa [step] using hs
    | indent | unindent =>
      cases hr
      refine hp ?_
      simpa [step] using hs
    | freshLine =>
      cases hr
      exact Page.freshLine_atLineStart pass.page
    | refer ty | refuse construct => cases hs
  | place inner =>
    rw [Lua.Piece.strokes_place, Lua.Piece.strokes_nil, List.append_nil] at hr
    cases inner with
    | expr value | update value => cases hs
    | stmt value =>
      obtain ⟨he, hb⟩ := step_stmt hs
      cases value with
      | block stmts => exact Stmt.atLineStart_of_run style (.inr (hp he)) hr
      | _ => cases hb

theorem run_allows {pieces : List Piece} (hs : spot.run pieces = some next) (hp : spot.Allows pass)
    (hr : Stroke.run style.dialect (strokes style pieces) pass = .done last) :
    next.Allows last := by
  induction pieces generalizing spot pass with
  | nil =>
    cases hs
    cases hr
    exact hp
  | cons piece rest ih =>
    obtain ⟨middle, hm, hn⟩ := Option.bind_eq_some_iff.mp hs
    have hc : strokes style (piece :: rest) = strokes style [piece] ++ strokes style rest :=
      Lua.Piece.strokes_append style [piece] rest
    rw [hc] at hr
    obtain ⟨through, ht, hl⟩ := Stroke.run_append_done hr
    exact ih hn (step_allows hm hp ht) hl

/-- The spot in front of a piece. -/
theorem run_split {front back : List Piece} {piece : Piece}
    (h : (spot.run (front ++ piece :: back)).isSome = true) :
    ∃ middle next, spot.run front = some middle ∧ middle.step piece = some next ∧
      (next.run back).isSome = true := by
  obtain ⟨last, hl⟩ := Option.isSome_iff_exists.mp h
  rw [run_append] at hl
  obtain ⟨middle, hm, hl⟩ := Option.bind_eq_some_iff.mp hl
  obtain ⟨next, hn, hl⟩ := Option.bind_eq_some_iff.mp hl
  exact ⟨middle, next, hm, hn, by rw [hl, Option.isSome_some]⟩

/-- A place that needs an empty line stands on one. -/
theorem eq_empty_of_step {place : Place} (h : spot.step (.place place) = some next)
    (hf : front place = .empty) : spot = .empty := by
  cases place with
  | expr value | update value => cases hf
  | stmt value =>
    simp only [front] at hf
    split_ifs at hf with hb
    simp only [step, hb, if_true] at h
    split_ifs at h with he
    exact he

/-- A statement whose line is ended stands on an empty line. -/
theorem eq_empty_of_line {value : Stmt} {back : List Piece}
    (h : spot.step (.place (.stmt value)) = some next)
    (hl : (next.run (.stroke .freshLine :: back)).isSome = true) : spot = .empty := by
  by_contra he
  cases hb : value.isBlock with
  | true => simp [step, hb, he] at h
  | false =>
    obtain rfl : Spot.loose = next := by simpa [step, hb, he] using h
    simp [run, step] at hl

end Spot

namespace Place

variable {style : Style}

theorem strokes_pieces (style : Style) (place : Place) :
    strokes style (place.pieces style) = (place.doc style).strokes := by
  obtain ⟨dialect, interpolate⟩ := style
  unfold pieces
  split_ifs with hl
  · exact Lua.Piece.strokes_ofPlace hl place
  · refine Braced.strokes_ofPlace ?_ interpolate place
    cases dialect with
    | plain => exact .inl rfl
    | groovy => exact .inr rfl
    | lua => exact absurd rfl hl

/-- What a place is made of can stand where the place can. -/
theorem isSome_run_pieces (style : Style) (place : Place) :
    ((Spot.front place).run (place.pieces style)).isSome = true := by
  have hs : Spot.started ≠ .loose := by simp
  unfold pieces
  split_ifs
  · cases place with
    | expr value => exact (Lua.Piece.safe_ofExpr value).isSome_run .started hs
    | update value => exact (Lua.Piece.safe_ofUpdate value).isSome_run .started hs
    | stmt value => exact Lua.Piece.isSome_run_ofStmt value
  · cases place with
    | expr value | update value => exact (Braced.safe_ofExpr style value).isSome_run .started hs
    | stmt value => exact Braced.isSome_run_ofStmt style value

/-- A piece of a place is inside the place, with all that is inside it. -/
theorem inside_of_mem_pieces {whole child : Place} (h : .place child ∈ whole.pieces style) :
    child :: child.inside style.dialect ⊆ whole.inside style.dialect := by
  unfold pieces at h
  split_ifs at h with hl
  · rw [hl]
    have he : Lua.Piece.Everywhere (· ∈ whole.inside .lua) (Lua.Piece.ofPlace whole) :=
      Lua.Piece.everywhere_ofPlace fun _ hm => hm
    exact he child h
  · refine List.Subset.trans ?_ (Braced.reach_ofPlace style whole)
    exact fun inner hm => List.mem_flatMap.mpr ⟨_, h, hm⟩

namespace Within

variable {target whole : Place} {before after : List Stroke}

theorem strokes_eq (h : Within style target whole before after) :
    (whole.doc style).strokes = before ++ (target.doc style).strokes ++ after := by
  induction h with
  | here => simp
  | inside hp h ih =>
    rw [← strokes_pieces, hp]
    simp [ih]

theorem subset (h : Within style target whole before after) :
    target :: target.inside style.dialect ⊆ whole :: whole.inside style.dialect := by
  induction h with
  | here => exact List.Subset.refl _
  | inside hp h ih =>
    have hc := inside_of_mem_pieces (hp ▸ List.mem_append_right _ List.mem_cons_self)
    exact List.Subset.trans ih (List.Subset.trans hc (List.subset_cons_self _ _))

/-- A block inside a place begins on an empty line. -/
theorem allows (h : Within style target whole before after) {pass middle : Pass}
    (hp : (Spot.front whole).Allows pass)
    (hr : Stroke.run style.dialect before pass = .done middle) :
    (Spot.front target).Allows middle := by
  induction h generalizing pass with
  | here =>
    cases hr
    exact hp
  | @inside whole child front back before after hw h ih =>
    have hs := isSome_run_pieces style whole
    rw [hw] at hs
    obtain ⟨spot, next, hf, hn, -⟩ := Spot.run_split hs
    obtain ⟨through, ht, hl⟩ := Stroke.run_append_done hr
    refine ih (fun hc => ?_) hl
    exact Spot.run_allows hf hp ht (Spot.eq_empty_of_step hn hc)

end Within

end Place

namespace Listed

variable {style : Style} {target : Stmt} {root : Place} {before after : List Stroke}

theorem strokes_eq (h : Listed style target root before after) :
    (root.doc style).strokes =
      before ++ ((Phrase.line (target.doc style)).strokes ++ after) := by
  obtain ⟨hp, hw⟩ := h
  rw [hw.strokes_eq, ← Place.strokes_pieces, hp]
  simp [lines, line, Phrase.line, Doc.strokes]

/-- What holds of all places of a tree holds of all places of a statement in it. -/
theorem subset (h : Listed style target root before after) :
    .stmt target :: target.inside style.dialect ⊆ root :: root.inside style.dialect := by
  obtain @⟨whole, front, back, earlier, later, outer, behind, hp, hw⟩ := h
  have hm : .place (.stmt target) ∈ lines (earlier ++ target :: later) := by
    simp [lines, line, stmt]
  have hc := Place.inside_of_mem_pieces
    (hp ▸ List.mem_append_left _ (List.mem_append_right _ hm))
  exact List.Subset.trans (List.Subset.trans hc (List.subset_cons_self _ _)) hw.subset

/-- A statement of a list begins on an empty line. -/
theorem atLineStart (h : Listed style target root before after) {pass middle : Pass}
    (hp : (Spot.front root).Allows pass)
    (hr : Stroke.run style.dialect before pass = .done middle) :
    middle.page.atLineStart = true := by
  cases h with
  | @intro whole front back earlier later outer behind hw ho =>
    have hl : front ++ lines (earlier ++ target :: later) ++ back =
        (front ++ lines earlier) ++
          .place (.stmt target) :: .stroke .freshLine :: (lines later ++ back) := by
      simp [lines, line, stmt]
    have hs := Place.isSome_run_pieces style whole
    rw [hw, hl] at hs
    obtain ⟨spot, next, hf, hn, he⟩ := Spot.run_split hs
    obtain ⟨through, ht, hr⟩ := Stroke.run_append_done hr
    exact Spot.run_allows hf (ho.allows hp ht) hr (Spot.eq_empty_of_line hn he)

end Listed

end Polyglot
