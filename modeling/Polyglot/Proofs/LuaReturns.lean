import Polyglot.Proofs.LuaNames
import Polyglot.Proofs.LuaPieces
import Polyglot.Proofs.LuaWords
import Polyglot.Script.Number

/-! What stands behind a return statement in a Lua text. A return statement that is the last of its
list is followed by the end of a block, except that in the body of a loop with an update it is
followed by the update. -/
namespace Polyglot

mutual

/-- A return statement, or a block whose last statement ends in one. -/
def Stmt.endsInReturn : Stmt → Bool
  | .returnWith _ => true
  | .block stmts => Stmt.lastEndsInReturn stmts
  | _ => false

def Stmt.lastEndsInReturn : List Stmt → Bool
  | [] => false
  | [stmt] => stmt.endsInReturn
  | _ :: rest => Stmt.lastEndsInReturn rest

end

/-- No statement of a list but its last one ends in a return statement. -/
def Stmt.returnOnlyLast : List Stmt → Bool
  | [] | [_] => true
  | stmt :: rest => !stmt.endsInReturn && returnOnlyLast rest

def LambdaBody.returnOnlyLast : LambdaBody → Bool
  | .expr _ => true
  | .block stmts => Stmt.returnOnlyLast stmts

/-- Whether return statements come last in the lists that a place has. The statement in front of a
loop has the loop behind it. -/
def Place.returnsLast : Place → Bool
  | .expr (.lambda _ body) | .expr (.mapForEach _ _ _ body) => body.returnOnlyLast
  | .update (.lambda _ body) | .update (.mapForEach _ _ _ body) => body.returnOnlyLast
  | .stmt (.block stmts) => Stmt.returnOnlyLast stmts
  | .stmt (.forLoop init _ _ _) => !init.endsInReturn
  | _ => true

/-- The program as one place. -/
def Program.root (program : Program) : Place :=
  .stmt (.block program.body)

def Program.returnsLast (program : Program) : Bool :=
  (program.root :: program.places .lua).all Place.returnsLast

/-- A stroke that writes nothing but the end of a line. -/
def Stroke.isGap : Stroke → Bool
  | .freshLine | .indent | .unindent => true
  | _ => false

namespace Lua

open Script.Number (isBlank)

/-- The words that end a block, or go on with the next part of it. -/
def closers : List String := ["end", "else", "elseif"]

/-- A text of blanks only, or with a word behind them that ends a block. -/
def endsBlock (text : String) : Bool :=
  let rest := text.toList.dropWhile isBlank
  rest.isEmpty || String.ofList (rest.takeWhile isWordChar) ∈ closers

/-- A reader of the first word of a text. -/
inductive Lead where
  | blank
  | word (letters : List Char)
  | past (letters : List Char)

namespace Lead

def step : Lead → Char → Lead
  | .blank, c => if isBlank c then .blank else if isWordChar c then .word [c] else .past []
  | .word letters, c => if isWordChar c then .word (letters ++ [c]) else .past letters
  | .past letters, _ => .past letters

/-- Ends the word. -/
def settle : Lead → Lead
  | .word letters => .past letters
  | lead => lead

def scanner : Scanner Lead where
  start := .blank
  step := step

/-- The end of a line ends a word. -/
theorem step_newline (lead : Lead) : scanner.step lead '\n' = lead.settle := by
  cases lead <;> rfl

theorem overlooks {unit : String} (h : ∀ c ∈ unit.toList, isBlank c = true) :
    scanner.Overlooks unit := by
  refine ⟨rfl, fun lead => ?_, fun lead c hc => ?_⟩
  · cases lead <;> rfl
  · rw [step_newline]
    cases lead with
    | blank => simp [scanner, settle, step, h c hc]
    | word letters | past letters => rfl

theorem foldl_past (letters chars : List Char) :
    chars.foldl scanner.step (.past letters) = .past letters := by
  induction chars with
  | nil => rfl
  | cons c rest ih => exact ih

theorem settle_foldl_word (letters chars : List Char) :
    (chars.foldl scanner.step (.word letters)).settle =
      .past (letters ++ chars.takeWhile isWordChar) := by
  induction chars generalizing letters with
  | nil => simp [settle]
  | cons c rest ih =>
    rw [List.foldl_cons, List.takeWhile_cons]
    cases hc : isWordChar c with
    | true =>
      have hs : scanner.step (.word letters) c = .word (letters ++ [c]) := by
        simp [scanner, step, hc]
      rw [hs, ih]
      simp
    | false =>
      have hs : scanner.step (.word letters) c = .past letters := by simp [scanner, step, hc]
      rw [hs, foldl_past]
      simp [settle]

/-- The reader finds the first word. -/
theorem settle_scan (text : String) : (scanner.scan text).settle =
    if (text.toList.dropWhile isBlank).isEmpty then .blank
    else .past ((text.toList.dropWhile isBlank).takeWhile isWordChar) := by
  unfold Scanner.scan Scanner.read
  induction text.toList with
  | nil => rfl
  | cons c rest ih =>
    rw [List.foldl_cons, List.dropWhile_cons]
    cases hb : isBlank c with
    | true =>
      have hs : scanner.step scanner.start c = scanner.start := by simp [scanner, step, hb]
      rw [hs]
      simpa using ih
    | false =>
      cases hw : isWordChar c with
      | true =>
        have hs : scanner.step scanner.start c = .word [c] := by simp [scanner, step, hb, hw]
        rw [hs, settle_foldl_word]
        simp [hw]
      | false =>
        have hs : scanner.step scanner.start c = .past [] := by simp [scanner, step, hb, hw]
        rw [hs, foldl_past]
        simp [hw, settle]

variable (name : ClassType → String)

/-- Where the reader is behind strokes. -/
def along (lead : Lead) (strokes : List Stroke) : Lead :=
  strokes.foldl (Stroke.read scanner name) lead

@[simp] theorem along_past (letters : List Char) (strokes : List Stroke) :
    along name (.past letters) strokes = .past letters := by
  induction strokes with
  | nil => rfl
  | cons stroke rest ih =>
    have hs : stroke.read scanner name (.past letters) = .past letters := by
      cases stroke with
      | write content => exact foldl_past letters content.toList
      | refer ty => exact foldl_past letters (name ty).toList
      | indent | unindent | freshLine | refuse => rfl
    rw [along, List.foldl_cons, hs]
    exact ih

@[simp] theorem along_write (lead : Lead) (content : String) (strokes : List Stroke) :
    along name lead (.write content :: strokes) =
      along name (scanner.read lead content) strokes := rfl

theorem read_apart {content : String} (h : startsApart content = true) (letters : List Char) :
    scanner.read (.word letters) content = .past letters := by
  unfold startsApart at h
  unfold Scanner.read
  cases hc : content.toList with
  | nil => simp [hc] at h
  | cons c rest =>
    have hw : isWordChar c = false := by simpa [hc] using h
    have hp : scanner.step (.word letters) c = .past letters := by simp [scanner, step, hw]
    rw [List.foldl_cons, hp, foldl_past]

theorem read_closer {word : String} (h : word ∈ closers) :
    scanner.read .blank word = .word word.toList := by
  simp only [closers, List.mem_cons, List.not_mem_nil, or_false] at h
  obtain rfl | rfl | rfl := h <;> rfl

end Lead

/-- Strokes that do not go on with a word in front of them. -/
def Detached (strokes : List Stroke) : Prop :=
  ∀ name letters, (Lead.along name (.word letters) strokes).settle = .past letters

/-- Strokes that end a block, with nothing but blanks in front. -/
def Closes (strokes : List Stroke) : Prop :=
  ∀ name, (Lead.along name .blank strokes).settle = .blank ∨
    ∃ word ∈ closers, (Lead.along name .blank strokes).settle = .past word.toList

section Tails

variable {strokes : List Stroke} {content : String}

theorem detached_nil : Detached [] := fun _ _ => rfl

theorem detached_write (h : startsApart content = true) (strokes : List Stroke) :
    Detached (.write content :: strokes) := by
  intro name letters
  rw [Lead.along_write, Lead.read_apart h, Lead.along_past]
  rfl

theorem detached_freshLine (strokes : List Stroke) : Detached (.freshLine :: strokes) := by
  intro name letters
  have hs : Lead.along name (.word letters) (.freshLine :: strokes) =
      Lead.along name (.past letters) strokes := rfl
  rw [hs, Lead.along_past]
  rfl

theorem closes_nil : Closes [] := fun _ => .inl rfl

/-- A word that ends a block, in front of what does not go on with it. -/
theorem closes_word (hw : content ∈ closers) (h : Detached strokes) :
    Closes (.write content :: strokes) := by
  intro name
  rw [Lead.along_write, Lead.read_closer hw, h name content.toList]
  exact .inr ⟨content, hw, rfl⟩

/-- A text that begins with a word that ends a block. -/
theorem closes_write {word rest : String} (hw : word ∈ closers) (hr : startsApart rest = true)
    (strokes : List Stroke) : Closes (.write (word ++ rest) :: strokes) := by
  intro name
  rw [Lead.along_write, Scanner.read_append, Lead.read_closer hw, Lead.read_apart hr,
    Lead.along_past]
  exact .inr ⟨word, hw, rfl⟩

theorem closes_elseif (strokes : List Stroke) :
    Closes (.write "else" :: .write "if " :: strokes) := by
  intro name
  have hr : Lead.scanner.read (Lead.scanner.read .blank "else") "if " = .past "elseif".toList := rfl
  rw [Lead.along_write, Lead.along_write, hr, Lead.along_past]
  exact .inr ⟨"elseif", by decide, rfl⟩

theorem endsBlock_of_closes {name : ClassType → String} {strokes : List Stroke} {text : String}
    (h : Closes strokes) (ht : Lead.scanner.scan text = Lead.along name .blank strokes) :
    endsBlock text = true := by
  have hs := Lead.settle_scan text
  rw [ht] at hs
  simp only [endsBlock, Bool.or_eq_true, decide_eq_true_eq]
  cases he : (text.toList.dropWhile isBlank).isEmpty with
  | true => exact .inl rfl
  | false =>
    rw [he] at hs
    obtain hb | ⟨word, hw, hp⟩ := h name
    · cases hs.symm.trans hb
    · have hl : (text.toList.dropWhile isBlank).takeWhile isWordChar = word.toList :=
        Lead.past.inj (hs.symm.trans hp)
      rw [hl, String.ofList_toList]
      exact .inr hw

end Tails

section Places

variable (style : Style) (updates : Expr → Prop)

/-- What may stand behind a return statement: the end of a block, or the update of a loop. -/
def Follows (strokes : List Stroke) : Prop :=
  Closes strokes ∨ ∃ gap update rest, updates update ∧ gap.all Stroke.isGap ∧
    strokes = gap ++ (update.updateDoc style).strokes ++ rest

/-- What may stand behind a place. A block has ended its last line itself. -/
def Fits : Place → List Stroke → Prop
  | .expr _, strokes | .update _, strokes => Detached strokes
  | .stmt value, strokes =>
    (value.isBlock = false → Detached strokes) ∧
      (value.endsInReturn = true → Follows style updates strokes)

/-- What stands behind each place among the pieces may do so. -/
def AllFit : List Piece → List Stroke → Prop
  | [], _ => True
  | .stroke _ :: rest, strokes => AllFit rest strokes
  | .place child :: rest, strokes =>
    Fits style updates child (Piece.strokes style rest ++ strokes) ∧ AllFit rest strokes

end Places

section Steps

open Piece

variable {style : Style} {updates : Expr → Prop} {strokes : List Stroke}

theorem startsApart_append {first : String} (h : startsApart first = true) (second : String) :
    startsApart (first ++ second) = true := by
  unfold startsApart at *
  cases hf : first.toList <;> simp_all

@[simp] theorem allFit_append (first second : List Piece) (strokes : List Stroke) :
    AllFit style updates (first ++ second) strokes ↔
      AllFit style updates first (Piece.strokes style second ++ strokes) ∧
        AllFit style updates second strokes := by
  induction first with
  | nil => simp [AllFit]
  | cons piece rest ih => cases piece <;> simp [AllFit, ih, and_assoc]

@[simp] theorem allFit_stroke (own : Stroke) (rest : List Piece) (strokes : List Stroke) :
    AllFit style updates (.stroke own :: rest) strokes ↔ AllFit style updates rest strokes := .rfl

@[simp] theorem allFit_ink (doc : Doc) (strokes : List Stroke) :
    AllFit style updates (ink doc) strokes := by
  unfold ink
  induction doc.strokes with
  | nil => trivial
  | cons own rest ih => exact ih

@[simp] theorem allFit_text (content : String) (strokes : List Stroke) :
    AllFit style updates (text content) strokes := trivial

@[simp] theorem allFit_expr (value : Expr) (strokes : List Stroke) :
    AllFit style updates (expr value) strokes ↔ Detached strokes := by
  simp [expr, AllFit, Fits]

@[simp] theorem allFit_place (child : Place) (rest : List Piece) (strokes : List Stroke) :
    AllFit style updates (.place child :: rest) strokes ↔
      Fits style updates child (Piece.strokes style rest ++ strokes) ∧
        AllFit style updates rest strokes := .rfl

@[simp] theorem allFit_enclosed (opening closing : String) (pieces : List Piece)
    (strokes : List Stroke) :
    AllFit style updates (enclosed opening pieces closing) strokes ↔
      AllFit style updates pieces (.unindent :: .write closing :: strokes) := by
  simp [enclosed, nest, AllFit]

@[simp] theorem strokes_enclosed_cons (opening closing : String) (pieces : List Piece) :
    Piece.strokes style (enclosed opening pieces closing) =
      .write (opening ++ "\n") :: .indent :: (Piece.strokes style pieces ++
        [.unindent, .write closing]) := by
  simp [enclosed, nest]

theorem allFit_sepBy (values : List Expr) (h : Detached strokes) :
    AllFit style updates (sepBy values) strokes := by
  induction values with
  | nil => trivial
  | cons value rest ih =>
    cases rest with
    | nil => exact (allFit_expr value strokes).mpr h
    | cons next rest => simpa [sepBy] using ⟨detached_write rfl _, ih⟩

theorem allFit_arguments (values : List Expr) (strokes : List Stroke) :
    AllFit style updates (parens (sepBy values)) strokes := by
  simpa [parens] using allFit_sepBy values (detached_write rfl _)

/-- Rows that can stand in front of what does not go on with them. -/
theorem allFit_container {content : List (List Piece)}
    (h : ∀ row ∈ content, ∀ strokes, Detached strokes → AllFit style updates row strokes)
    (strokes : List Stroke) : AllFit style updates (container content) strokes := by
  have hr (strokes : List Stroke) : AllFit style updates (rows content) strokes := by
    induction content with
    | nil => trivial
    | cons row rest ih =>
      obtain ⟨hd, hr⟩ := List.forall_mem_cons.mp h
      cases rest with
      | nil => simpa [rows] using hd _ (detached_write rfl _)
      | cons next rest => simpa [rows] using ⟨hd _ (detached_write rfl _), ih hr⟩
  unfold container
  split_ifs
  · exact allFit_text _ _
  · exact (allFit_enclosed _ _ _ _).mpr (hr _)

theorem allFit_array (values : List Expr) (strokes : List Stroke) :
    AllFit style updates (array values) strokes := by
  refine allFit_container (fun row hm strokes hs => ?_) strokes
  obtain ⟨value, -, rfl⟩ := List.mem_map.mp hm
  exact (allFit_expr value strokes).mpr hs

theorem allFit_members (unquote : Bool) (values : List Member) (strokes : List Stroke) :
    AllFit style updates (container (values.map (member unquote))) strokes := by
  have hk (name : Expr) (strokes : List Stroke) :
      AllFit style updates (key unquote name) strokes := by
    unfold key
    split
    · exact allFit_text _ _
    · simpa using detached_write rfl _
  refine allFit_container (fun row hm strokes hs => ?_) strokes
  obtain ⟨value, -, rfl⟩ := List.mem_map.mp hm
  cases value with
  | single name value => simpa [member, hk] using hs
  | array name values => simpa [member, hk] using allFit_array values strokes

theorem follows_freshLine (h : Follows style updates strokes) :
    Follows style updates (.freshLine :: strokes) := by
  obtain h | ⟨gap, update, rest, hu, hg, rfl⟩ := h
  · exact .inl h
  · exact .inr ⟨.freshLine :: gap, update, rest, hu, hg, rfl⟩

/-- Only the last statement of a list is in front of what stands behind the list. -/
theorem allFit_lines {stmts : List Stmt} (hl : Stmt.returnOnlyLast stmts = true)
    (h : Stmt.lastEndsInReturn stmts = true → Follows style updates strokes) :
    AllFit style updates (lines stmts) strokes := by
  induction stmts with
  | nil => trivial
  | cons value rest ih =>
    have hs : lines (value :: rest) = stmt value ++ [.stroke .freshLine] ++ lines rest := rfl
    rw [hs]
    cases rest with
    | nil => exact ⟨⟨fun _ => detached_freshLine _, fun he => follows_freshLine (h he)⟩, trivial⟩
    | cons next rest =>
      obtain ⟨hv, hr⟩ := Bool.and_eq_true_iff.mp hl
      refine ⟨⟨fun _ => detached_freshLine _, fun he => ?_⟩, ih hr h⟩
      simp [he] at hv

theorem allFit_body {value : Stmt} (h : value.endsInReturn = true → Follows style updates strokes) :
    AllFit style updates (body value) strokes := by
  unfold body
  split_ifs with hb
  · exact ⟨⟨fun hn => absurd hb (by simp [hn]), h⟩, trivial⟩
  · exact ⟨⟨fun _ => detached_freshLine _, fun he => follows_freshLine (h he)⟩, trivial⟩

/-- The end of the block around a body. -/
theorem follows_end (h : Detached strokes) :
    Follows style updates (.unindent :: .write "end" :: strokes) :=
  .inl (closes_word (.head _) h)

theorem allFit_functionBody {value : LambdaBody} (hl : value.returnOnlyLast = true)
    (h : Detached strokes) :
    AllFit style updates (functionBody value) (.unindent :: .write "end" :: strokes) := by
  cases value with
  | expr value =>
    simp only [functionBody]
    split_ifs <;> simpa using detached_write rfl _
  | block stmts => exact allFit_lines hl fun _ => follows_end h

theorem allFit_bodyLine {value : LambdaBody} (hl : value.returnOnlyLast = true)
    (h : Detached strokes) :
    AllFit style updates (bodyLine value) (.unindent :: .write "end" :: strokes) := by
  cases value with
  | expr value => simpa [bodyLine] using detached_write rfl _
  | block stmts => exact allFit_lines hl fun _ => follows_end h

theorem allFit_index (map name : Expr) (strokes : List Stroke) :
    AllFit style updates (index map name) strokes := by
  simpa [index] using ⟨detached_write rfl _, detached_write rfl _⟩

theorem allFit_ofExpr {value : Expr} (hl : (Place.expr value).returnsLast = true)
    (h : Detached strokes) : AllFit style updates (ofExpr value) strokes := by
  cases value with
  | literal | ident | this | asyncResult | enumConstant | apiType => simp [ofExpr]
  | binary left op right concat =>
    simp only [ofExpr]
    split_ifs
    · simpa using ⟨detached_write rfl _, h⟩
    · simpa using ⟨detached_write rfl _, detached_write rfl _⟩
    · simpa using ⟨detached_write (startsApart_append (startsApart_append rfl _) _) _, h⟩
  | unary op operand =>
    cases op with
    | neg | not | complement => simpa [ofExpr] using h
    | preIncrement | preDecrement | postIncrement | postDecrement => simp [ofExpr]
  | parens inner => simpa [ofExpr, parens] using detached_write rfl _
  | member object name | dataMember object name =>
    simpa [ofExpr] using detached_write (startsApart_append rfl _) _
  | assign target value => simpa [ofExpr] using ⟨detached_write rfl _, h⟩
  | conditional test consequent alternative =>
    simp only [ofExpr]
    split_ifs
    · simpa using ⟨detached_write rfl _, detached_write rfl _, h⟩
    · simpa using ⟨detached_write rfl _, detached_write rfl _, detached_write rfl _⟩
  | call receiver method args =>
    cases receiver with
    | none => simpa [ofExpr] using allFit_arguments args strokes
    | some receiver =>
      have hd : startsApart (if receiver.isApiType then "." else ":") = true := by
        split_ifs <;> rfl
      simpa [ofExpr] using ⟨detached_write hd _, allFit_arguments args strokes⟩
  | construct ty args => simpa [ofExpr] using allFit_arguments args strokes
  | lambda params body => simpa [ofExpr] using allFit_functionBody hl h
  | jsonObject members | dataObject ty members => exact allFit_members _ members strokes
  | jsonArray values => exact allFit_array values strokes
  | valueOf kind inner => simpa [ofExpr] using h
  | dataAssign object name value =>
    simpa [ofExpr] using ⟨detached_write (startsApart_append rfl _) _, h⟩
  | jsonAssign object name value => simpa [ofExpr] using ⟨allFit_index object name _, h⟩
  | jsonMember object name | mapGet object name => exact allFit_index object name strokes
  | jsonObjectText inner | jsonArrayText inner => simpa [ofExpr] using detached_write rfl _
  | mapForEach map key value body =>
    simpa [ofExpr] using ⟨detached_write rfl _, allFit_bodyLine hl h⟩
  | methodReference receiver method =>
    simpa [ofExpr] using detached_write (startsApart_append (startsApart_append rfl _) _) _
  | console message => simpa [ofExpr, parens] using detached_write rfl _

theorem allFit_ofUpdate {value : Expr} (hl : (Place.update value).returnsLast = true)
    (h : Detached strokes) : AllFit style updates (ofUpdate value) strokes := by
  have he (hl : (Place.expr value).returnsLast = true) :
      AllFit style updates (ofExpr value) strokes := allFit_ofExpr hl h
  cases value with
  | unary op operand =>
    cases op with
    | neg | not | complement => exact he rfl
    | preIncrement | preDecrement | postIncrement | postDecrement =>
      simpa [ofUpdate, Phrase.stepSign?] using ⟨detached_write rfl _, detached_write rfl _⟩
  | _ => exact he hl

theorem allFit_otherwise (alternative : Option Stmt) (h : Detached strokes) :
    AllFit style updates (otherwise alternative) strokes := by
  cases alternative with
  | none => exact allFit_text _ _
  | some alternative =>
    simp only [otherwise]
    split_ifs with hi
    · have hn : alternative.endsInReturn = false := by
        cases alternative <;> simp_all [Stmt.isIfElse, Stmt.endsInReturn]
      exact ⟨⟨fun _ => h, fun he => by simp [hn] at he⟩, trivial⟩
    · exact (allFit_enclosed _ _ _ _).mpr (allFit_body fun _ => follows_end h)

/-- Behind the first body of an if statement comes a word that ends it. -/
theorem closes_otherwise (hd : style.dialect = .lua) (alternative : Option Stmt)
    (h : Detached strokes) : Closes (Piece.strokes style (otherwise alternative) ++ strokes) := by
  cases alternative with
  | none => exact closes_word (.head _) h
  | some alternative =>
    simp only [otherwise]
    split_ifs with hi
    · cases alternative with
      | ifElse test consequent alternative =>
        have hs := strokes_ofPlace hd (.stmt (.ifElse test consequent alternative))
        simp only [stmt, strokes_append, strokes_place, ← hs]
        exact closes_elseif _
      | _ => cases hi
    · rw [strokes_enclosed_cons, List.cons_append]
      exact closes_write (.tail _ (.head _)) rfl _

theorem allFit_ofStmt (hd : style.dialect = .lua) {value : Stmt}
    (hl : (Place.stmt value).returnsLast = true)
    (hu : ∀ init test update repeated, value = .forLoop init test update repeated →
      repeated.endsInReturn = true → updates update)
    (h : Fits style updates (.stmt value) strokes) :
    AllFit style updates (ofStmt value) strokes := by
  obtain ⟨ha, hr⟩ := h
  cases value with
  | block stmts => exact allFit_lines hl hr
  | declare ty name init =>
    cases init with
    | none => exact allFit_text _ _
    | some init => simpa [ofStmt] using ha rfl
  | expr value => simpa [ofStmt] using ha rfl
  | forLoop init test update repeated =>
    have hi (strokes : List Stroke) : Fits style updates (.stmt init) (.freshLine :: strokes) :=
      ⟨fun _ => detached_freshLine _, fun he => by simp [Place.returnsLast, he] at hl⟩
    -- What stands behind the body is the update, whatever the body ends in.
    have hb (strokes : List Stroke) : AllFit style updates (body repeated)
        ((update.updateDoc style).strokes ++ strokes) :=
      allFit_body fun he => .inr ⟨[], update, strokes, hu _ _ _ _ rfl he, rfl, rfl⟩
    have hn (strokes : List Stroke) :
        Fits style updates (.update update) (.write "\n" :: strokes) := detached_write rfl _
    simpa [ofStmt, line, stmt, Place.doc] using ⟨hi _, detached_write rfl _, hb _, hn _⟩
  | forEach name value repeated =>
    simpa [ofStmt] using ⟨detached_write rfl _, allFit_body fun _ => follows_end (ha rfl)⟩
  | whileLoop value repeated =>
    simpa [ofStmt] using ⟨detached_write rfl _, allFit_body fun _ => follows_end (ha rfl)⟩
  | throwNew exception reason =>
    cases reason with
    | none => simp [ofStmt, parens]
    | some reason => simpa [ofStmt, parens] using detached_write rfl _
  | returnWith value =>
    cases value with
    | none => exact allFit_text _ _
    | some value => simpa [ofStmt] using ha rfl
  | ifElse test consequent alternative =>
    have hc : Follows style updates
        (.unindent :: (Piece.strokes style (otherwise alternative) ++ strokes)) :=
      .inl (closes_otherwise hd alternative (ha rfl))
    simpa [ofStmt, nest] using
      ⟨detached_write rfl _, allFit_body fun _ => hc, allFit_otherwise alternative (ha rfl)⟩
  | breakLoop | continueLoop => simp [ofStmt]

theorem allFit_ofPlace (hd : style.dialect = .lua) {value : Place}
    (hl : value.returnsLast = true)
    (hu : ∀ init test update repeated, value = .stmt (.forLoop init test update repeated) →
      repeated.endsInReturn = true → updates update)
    (h : Fits style updates value strokes) : AllFit style updates (ofPlace value) strokes := by
  cases value with
  | expr value => exact allFit_ofExpr hl h
  | update value => exact allFit_ofUpdate hl h
  | stmt value =>
    exact allFit_ofStmt hd hl (fun _ _ _ _ he => hu _ _ _ _ (congrArg Place.stmt he)) h

end Steps

section Runs

open Piece (ofPlace)

variable {style : Style} {updates : Expr → Prop} {target whole : Place}
  {before after : List Stroke}

/-- What stands behind a place that is inside another one may do so, if that holds of the other. -/
theorem Occurs.fits (hd : style.dialect = .lua) (h : Occurs style target whole before after)
    (hl : ∀ inner ∈ whole :: whole.inside .lua, inner.returnsLast = true)
    (hu : ∀ init test update repeated,
      .stmt (.forLoop init test update repeated) ∈ whole :: whole.inside .lua →
      repeated.endsInReturn = true → updates update)
    {strokes : List Stroke} (hf : Fits style updates whole strokes) :
    Fits style updates target (after ++ strokes) := by
  induction h generalizing strokes with
  | here => exact hf
  | @inside whole child front back before after hp h ih =>
    obtain ⟨hw, hi⟩ := List.forall_mem_cons.mp hl
    have ha := allFit_ofPlace hd hw
      (fun _ _ _ _ he => hu _ _ _ _ (List.mem_cons.mpr (.inl he.symm))) hf
    rw [hp, allFit_append] at ha
    have hin : ∀ inner ∈ child :: child.inside .lua, inner ∈ whole.inside .lua :=
      Piece.everywhere_ofPlace (fun _ hm => hm) child (hp ▸ by simp)
    rw [List.append_assoc]
    exact ih (fun inner hm => hi inner (hin inner hm))
      (fun _ _ _ _ hm => hu _ _ _ _ (.tail _ (hin _ hm))) ha.2.1

theorem Occurs.trans {middle : Place} {first last : List Stroke}
    (h : Occurs style target middle before after) (ho : Occurs style middle whole first last) :
    Occurs style target whole (first ++ before) (after ++ last) := by
  induction ho with
  | here => simpa using h
  | inside hp _ ih => simpa only [List.append_assoc] using inside hp ih

end Runs

section LastReturns

open Piece

variable (style : Style)

mutual

/-- A statement that ends in a return statement has only ends of lines behind it. -/
theorem occurs_return : (stmt : Stmt) → stmt.endsInReturn = true →
    ∃ value before after, Occurs style (.stmt (.returnWith value)) (.stmt stmt) before after ∧
      after.all Stroke.isGap = true
  | .returnWith value, _ => ⟨value, [], [], .here, rfl⟩
  | .block stmts, h => by
    obtain ⟨last, front, hl, value, before, after, ho, hg⟩ := occurs_return_lines stmts h
    refine ⟨value, _, _, .inside hl ho, ?_⟩
    rw [List.all_append, hg]
    rfl

theorem occurs_return_lines : (stmts : List Stmt) → Stmt.lastEndsInReturn stmts = true →
    ∃ last front, lines stmts = front ++ .place (.stmt last) :: [.stroke .freshLine] ∧
      ∃ value before after, Occurs style (.stmt (.returnWith value)) (.stmt last) before after ∧
        after.all Stroke.isGap = true
  | [stmt], h => ⟨stmt, [], rfl, occurs_return stmt h⟩
  | first :: second :: rest, h => by
    obtain ⟨last, front, hl, ho⟩ := occurs_return_lines (second :: rest) h
    exact ⟨last, line (stmt first) ++ front, by simp [lines, ← hl], ho⟩

end

/-- In the body of a loop, the update is what comes next behind a return statement. -/
theorem occurs_return_loop (init : Stmt) (test update : Expr) {repeated : Stmt}
    (h : repeated.endsInReturn = true) :
    ∃ value before gap rest, gap.all Stroke.isGap = true ∧
      Occurs style (.stmt (.returnWith value)) (.stmt (.forLoop init test update repeated)) before
        (gap ++ (update.updateDoc style).strokes ++ rest) := by
  obtain ⟨value, before, after, ho, hg⟩ := occurs_return style repeated h
  -- A body that is no block ends its line in front of the update.
  obtain ⟨ending, he, hs⟩ : ∃ ending : List Piece, body repeated = stmt repeated ++ ending ∧
      (Piece.strokes style ending).all Stroke.isGap = true := by
    unfold body
    split_ifs
    · exact ⟨[], by simp, rfl⟩
    · exact ⟨[.stroke .freshLine], rfl, rfl⟩
  let front := text ("do" ++ "\n") ++ [.stroke .indent] ++ line (stmt init) ++ text "while " ++
    expr test ++ text (" do" ++ "\n") ++ [.stroke .indent]
  let behind := text "\n" ++ [.stroke .unindent] ++ text "end\n" ++ [.stroke .unindent] ++
    text "end"
  have hp : ofPlace (.stmt (.forLoop init test update repeated)) =
      front ++ .place (.stmt repeated) :: (ending ++ [.place (.update update)] ++ behind) := by
    simp [front, behind, ofPlace, ofStmt, enclosed, nest, stmt, he]
  refine ⟨value, Piece.strokes style front ++ before, after ++ Piece.strokes style ending,
    Piece.strokes style behind, ?_, ?_⟩
  · rw [List.all_append, hg, hs]
    rfl
  · simpa [Place.doc] using Occurs.inside hp ho

end LastReturns

end Lua

open Lua

/-- The update of a loop whose body ends in a return statement. -/
def Program.UpdatesBehindReturn (program : Program) (update : Expr) : Prop :=
  ∃ init test repeated, .stmt (.forLoop init test update repeated) ∈ program.places .lua ∧
    repeated.endsInReturn = true

namespace Session

/-- The strokes of a program that Lua has rendered. Each type goes by its local in the header from
the start. -/
theorem lua_bodyRun {session : Session} {program : Program} {text : String}
    (hl : session.dialect = .lua) (h : (session.render program).1 = .ok text) :
    ∃ last, Stroke.run .lua (program.root.doc session.style).strokes session.newPass =
        .done last ∧
      text = String.join
        ((Dialect.lua.header (session.render program).2.imports).map (· ++ "\n")) ++
          last.page.text ∧
      ∀ imports ty, ty ∈ imports.types → imports.types <+: last.imports.types →
        Dialect.lua.spell imports ty =
          Dialect.luaLocal (session.render program).2.imports ty := by
  obtain ⟨last, hb, ht⟩ := (render_ok_iff session program text).mp h
  have hi : (session.render program).2.imports = last.imports := by
    rw [render_session, hb, Outcome.pass]
  rw [bodyRun, hl] at hb
  rw [hl] at ht
  rw [hi]
  exact ⟨last, hb, ht, fun _ _ hm hp => Dialect.luaLocal_of_prefix hm hp⟩

/-- What a rendered program has behind one of its places, as a reader sees it. -/
theorem scan_behind {σ : Type} {scanner : Scanner σ} {session : Session} {program : Program}
    {text : String} (hl : session.dialect = .lua) (ho : scanner.Overlooks session.settings.indent)
    (h : (session.render program).1 = .ok text) {target : Place} {before after : List Stroke}
    (hp : Occurs session.style target program.root before after) :
    ∃ pass behind,
      Stroke.run .lua (before ++ (target.doc session.style).strokes) session.newPass = .done pass ∧
      text = String.join
        ((Dialect.lua.header (session.render program).2.imports).map (· ++ "\n")) ++
          pass.page.text ++ behind ∧
      scanner.scan behind =
        after.foldl (Stroke.read scanner (Dialect.luaLocal (session.render program).2.imports))
          scanner.start := by
  obtain ⟨last, hb, ht, hn⟩ := lua_bodyRun hl h
  rw [hp.strokes_eq hl] at hb
  obtain ⟨middle, hm, hr, hu, -⟩ := Stroke.scan_first ho hb hn
  obtain ⟨-, behind, he, hc⟩ := Stroke.scan_written hu hr hn
  exact ⟨middle, behind, hm, by rw [ht, he, String.append_assoc], hc⟩

/-- If return statements come last in their lists, then each of them is followed by the end of a
block, or by the update of a loop whose body ends in it. Each such loop has a return statement in
front of its update. -/
theorem lua_return_last (session : Session) (program : Program) (text : String)
    (hl : session.dialect = .lua)
    (hi : session.settings.indent.toList.all Script.Number.isBlank = true)
    (h : (session.render program).1 = .ok text) (hr : program.returnsLast = true) :
    (∀ value before after,
      Occurs session.style (.stmt (.returnWith value)) program.root before after →
      ∃ pass behind,
        Stroke.run .lua (before ++ ((Stmt.returnWith value).doc session.style).strokes)
          session.newPass = .done pass ∧
        text = String.join
          ((Dialect.lua.header (session.render program).2.imports).map (· ++ "\n")) ++
            pass.page.text ++ behind ∧
        (endsBlock behind = true ∨
          ∃ gap update rest, program.UpdatesBehindReturn update ∧ gap.all Stroke.isGap = true ∧
            after = gap ++ (update.updateDoc session.style).strokes ++ rest)) ∧
    ∀ init test update repeated before after,
      Occurs session.style (.stmt (.forLoop init test update repeated)) program.root before after →
      repeated.endsInReturn = true →
      ∃ value front gap rest, gap.all Stroke.isGap = true ∧
        Occurs session.style (.stmt (.returnWith value)) program.root front
          (gap ++ (update.updateDoc session.style).strokes ++ rest) := by
  have hp : ∀ inner ∈ program.root :: program.places .lua, inner.returnsLast = true :=
    List.all_eq_true.mp hr
  have hf : Fits session.style program.UpdatesBehindReturn program.root [] :=
    ⟨fun _ => detached_nil, fun _ => .inl closes_nil⟩
  refine ⟨fun value before after ho => ?_, fun init test update repeated before after ho hb => ?_⟩
  · obtain ⟨pass, behind, hrun, ht, hs⟩ :=
      scan_behind hl (Lead.overlooks (List.all_eq_true.mp hi)) h ho
    have hu : ∀ init test update repeated,
        .stmt (.forLoop init test update repeated) ∈ program.root :: program.places .lua →
        repeated.endsInReturn = true → program.UpdatesBehindReturn update := by
      intro init test update repeated hm he
      obtain hm | hm := List.mem_cons.mp hm
      · cases hm
      · exact ⟨init, test, repeated, hm, he⟩
    have hv := (ho.fits hl hp hu hf).2 rfl
    rw [List.append_nil] at hv
    exact ⟨pass, behind, hrun, ht, hv.imp_left fun hc => endsBlock_of_closes hc hs⟩
  · obtain ⟨value, front, gap, rest, hg, hv⟩ :=
      occurs_return_loop session.style init test update hb
    refine ⟨value, before ++ front, gap, rest ++ after, hg, ?_⟩
    simpa only [List.append_assoc] using hv.trans ho

/-- A loop that returns in its first turn. -/
def returningLoop : Stmt :=
  .forLoop (.declare .void "i" (some (.literal (.int "0"))))
    (.binary (.ident "i") .lt (.literal (.int "3")) false) (.unary .postIncrement (.ident "i"))
    (.block [.returnWith (some (.ident "i"))])

theorem lua_return_last_returningLoop :
    Program.returnsLast ⟨[returningLoop]⟩ = true ∧
      (render ⟨.lua, {}, .empty⟩ ⟨[returningLoop]⟩).1 =
        .ok ("do\n  local i = 0\n  while i < 3 do\n    return i" ++
          "\n    i = i + 1\n  end\nend\n") ∧
      endsBlock "\n    i = i + 1\n  end\nend\n" = false ∧
      ∃ value front gap rest, gap.all Stroke.isGap = true ∧
        Occurs ⟨.lua, true⟩ (.stmt (.returnWith value)) (Program.root ⟨[returningLoop]⟩) front
          (gap ++ ((Expr.unary .postIncrement (.ident "i")).updateDoc ⟨.lua, true⟩).strokes ++
            rest) := by
  have hr : Program.returnsLast ⟨[returningLoop]⟩ = true := by decide +kernel
  have h : (render ⟨.lua, {}, .empty⟩ ⟨[returningLoop]⟩).1 =
      .ok ("do\n  local i = 0\n  while i < 3 do\n    return i" ++
        "\n    i = i + 1\n  end\nend\n") := by decide +kernel
  have hp : Piece.ofPlace (Program.root ⟨[returningLoop]⟩) =
      [] ++ .place (.stmt returningLoop) :: [.stroke .freshLine] := rfl
  refine ⟨hr, h, by decide +kernel, ?_⟩
  exact (lua_return_last ⟨.lua, {}, .empty⟩ ⟨[returningLoop]⟩ _ rfl (by decide) h hr).2 _ _ _ _ _ _
    (.inside hp .here) rfl

end Session

end Polyglot
