import Polyglot.Proofs.LuaNames
import Polyglot.Proofs.LuaWords
import Polyglot.Proofs.RawTexts

/-! Brackets and block words in a Lua file. A phrase takes the reader from one stack to another, and
phrases follow each other where a word ends between them. -/
namespace Polyglot

namespace Lua

open Mode

variable (name : ClassType → String)

/-- The reader comes from one stack to another, and the last word has ended. -/
def Reaches (doc : Doc) (before after : List Opener) : Prop :=
  doc.read scanner name (.code before []) = .code after []

/-- The reader comes from one stack to another as soon as the last word has ended. -/
def Settles (doc : Doc) (before after : List Opener) : Prop :=
  settle (doc.read scanner name (.code before [])) = .code after []

/-- A document that does not go on with a word in front of it. -/
def Apart (doc : Doc) : Prop :=
  ∀ mode opened, settle mode = .code opened [] →
    doc.read scanner name mode = doc.read scanner name (.code opened [])

/-- A document that leaves open what was open in front of it, and whose last word has ended. -/
def Whole (doc : Doc) : Prop :=
  ∀ opened, Reaches name doc opened opened

/-- A document that leaves open what was open in front of it. -/
def Steady (doc : Doc) : Prop :=
  ∀ opened, Settles name doc opened opened

section Sequences

variable {name} {first second doc left right : Doc} {before middle after : List Opener}
  {text rest : String}

theorem Reaches.settles (h : Reaches name doc before after) : Settles name doc before after := by
  unfold Reaches at h
  rw [Settles, h]
  rfl

theorem Reaches.reach (hf : Reaches name first before middle)
    (hs : Reaches name second middle after) : Reaches name (first ++ second) before after := by
  unfold Reaches at *
  rw [Doc.read_append, hf, hs]

theorem Reaches.settle (hf : Reaches name first before middle)
    (hs : Settles name second middle after) : Settles name (first ++ second) before after := by
  unfold Reaches at hf
  unfold Settles at *
  rw [Doc.read_append, hf, hs]

theorem Settles.reach (hf : Settles name first before middle) (ha : Apart name second)
    (hs : Reaches name second middle after) : Reaches name (first ++ second) before after := by
  rw [Reaches, Doc.read_append, ha _ _ hf]
  exact hs

theorem Settles.settle (hf : Settles name first before middle) (ha : Apart name second)
    (hs : Settles name second middle after) : Settles name (first ++ second) before after := by
  rw [Settles, Doc.read_append, ha _ _ hf]
  exact hs

theorem Whole.steady (h : Whole name doc) : Steady name doc :=
  fun opened => (h opened).settles

theorem whole_append (hl : Whole name left) (hr : Whole name right) : Whole name (left ++ right) :=
  fun opened => (hl opened).reach (hr opened)

theorem steady_append (hl : Whole name left) (hr : Steady name right) :
    Steady name (left ++ right) :=
  fun opened => (hl opened).settle (hr opened)

theorem apart_text (h : startsApart text = true) : Apart name (.text text) :=
  fun _ _ hm => read_of_settle hm h

theorem apart_append (h : Apart name first) : Apart name (first ++ second) := by
  intro mode opened hm
  rw [Doc.read_append, Doc.read_append, h mode opened hm]

theorem apart_freshLine : Apart name .freshLine :=
  fun _ _ hm => step_of_settle hm rfl

theorem steady_text (h : Harmless text) : Steady name (.text text) := h

/-- A text with a gap in front of it. -/
theorem steady_suffix {gap : String} (h : Steady name doc) (ha : startsApart gap = true)
    (hg : Whole name (.text gap)) (ht : Harmless text) :
    Steady name (doc ++ .text (gap ++ text)) := by
  intro opened
  have hr : Settles name (doc ++ .text gap ++ .text text) opened opened :=
    ((h opened).reach (apart_text ha) (hg opened)).settle (ht opened)
  simpa [Settles] using hr

/-- Two documents with a gap between them. -/
theorem steady_joined {gap : String} (hl : Steady name left) (ha : startsApart gap = true)
    (hg : Whole name (.text gap)) (hr : Steady name right) :
    Steady name (left ++ .text gap ++ right) :=
  fun opened => ((hl opened).reach (apart_text ha) (hg opened)).settle (hr opened)

end Sequences

section Phrases

variable {name} {left right map value body doc test consequent : Doc} {docs : List Doc}
  {text opening closing : String} {before middle after : List Opener}

open Phrase

theorem steady_quoted (text : String) : Steady name (.quoted (.text (Text.escape text))) := by
  intro opened
  have ho : scanner.step (.code opened []) '"' = .string opened false := rfl
  rw [Settles, Doc.read_quoted, Doc.read_text, ho, read_escape]
  rfl

theorem steady_literal (value : Literal)
    (h : ∀ digits ∈ (Expr.literal value).numerals, IsNumeral digits) :
    Steady name (literal .lua value) := by
  cases value with
  | int digits | long digits | float digits | double digits =>
    exact steady_text (harmless_of_isNumeral (h _ (.head _)))
  | char value | string value => exact steady_quoted _
  | bool value => cases value <;> exact fun _ => rfl
  | null => exact fun _ => rfl

theorem steady_this : Steady name (this .lua) := fun _ => rfl

theorem steady_parens (h : Steady name doc) : Steady name (parens doc) := by
  intro opened
  have ho : Reaches name (.text "(") opened (.paren :: opened) := rfl
  exact (ho.settle (h _)).settle (apart_text rfl) rfl

theorem apart_parens : Apart name (parens doc) :=
  apart_append (apart_append (apart_text rfl))

/-- Something in front of what it is applied to. -/
theorem steady_applied (hl : Steady name left) (hr : Steady name right) :
    Steady name (left ++ parens right) :=
  fun opened => (hl opened).settle apart_parens (steady_parens hr opened)

theorem steady_index (hm : Steady name map) (hv : Steady name value) :
    Steady name (index map value) := by
  intro opened
  have ho : Reaches name (.text "[") opened (.bracket :: opened) := rfl
  exact (((hm opened).reach (apart_text rfl) ho).settle (hv _)).settle (apart_text rfl) rfl

/-- Lines between an opening line and a closing text. -/
theorem read_enclosed
    (ho : scanner.step (scanner.read (.code before []) opening) '\n' = .code middle [])
    (hb : Whole name body) : (enclosed opening body closing).read scanner name (.code before []) =
      scanner.read (.code middle []) closing := by
  have hn : scanner.read (scanner.read (.code before []) opening) "\n" = .code middle [] := ho
  have hm := hb middle
  unfold Reaches at hm
  rw [enclosed, Doc.read_append, Doc.read_append, Doc.read_nest, Doc.read_text, Doc.read_text,
    Scanner.read_append, hn, hm]

theorem settles_enclosed
    (ho : scanner.step (scanner.read (.code before []) opening) '\n' = .code middle [])
    (hb : Whole name body) (hc : settle (scanner.read (.code middle []) closing) = .code after []) :
    Settles name (enclosed opening body closing) before after := by
  rw [Settles, read_enclosed ho hb, hc]

theorem apart_enclosed (h : startsApart opening = true) :
    Apart name (enclosed opening body closing) := by
  refine apart_append (apart_append fun mode opened hm => ?_)
  rw [Doc.read_text, Doc.read_text, Scanner.read_append, Scanner.read_append, read_of_settle hm h]

theorem steady_sepBy (h : ∀ doc ∈ docs, Steady name doc) : Steady name (.sepBy ", " docs) := by
  refine sepBy_holds (fun _ => rfl) (fun doc rest hd hr opened => ?_) h
  have hg : Reaches name (.text ", ") opened opened := rfl
  exact (hd opened).settle (apart_append (apart_text rfl)) (hg.settle (hr opened))

theorem whole_rows (h : ∀ doc ∈ docs, Steady name doc) : Whole name (rows "," docs) := by
  refine rows_holds (fun _ => rfl) (fun row hd opened => ?_) (fun row rest hd hr => ?_) h
  · exact (hd opened).reach (apart_text rfl) rfl
  · exact whole_append (fun opened => (hd opened).reach (apart_text rfl) rfl) hr

theorem steady_array (h : ∀ doc ∈ docs, Steady name doc) : Steady name (array .lua docs) := by
  intro opened
  unfold array
  split_ifs
  · rfl
  · exact settles_enclosed rfl (whole_rows h) rfl

theorem steady_object (h : ∀ doc ∈ docs, Steady name doc) : Steady name (object .lua docs) := by
  intro opened
  unfold object
  split_ifs
  · rfl
  · exact settles_enclosed rfl (whole_rows h) rfl

theorem steady_unary (op : UnaryOp) (h : Steady name doc) : Steady name (unary .lua op doc) := by
  cases op with
  | neg | not | complement => exact steady_append (fun _ => rfl) h
  | preIncrement | preDecrement | postIncrement | postDecrement => exact fun _ => rfl

theorem steady_binary (interpolate : Bool) (op : BinaryOp) (concat spliceLeft spliceRight : Bool)
    (hl : Steady name left) (hr : Steady name right) :
    Steady name (binary ⟨.lua, interpolate⟩ op concat spliceLeft spliceRight left right) := by
  unfold binary
  dsimp only
  split_ifs
  · exact steady_joined hl rfl (fun _ => rfl) hr
  · intro opened
    have ho : Reaches name (.text "math.fmod(") opened (.paren :: opened) := rfl
    have hg : Whole name (.text ", ") := fun _ => rfl
    exact ((((ho.settle (hl _)).reach (apart_text rfl) (hg _)).settle (hr _))).settle
      (apart_text rfl) rfl
  · cases op <;> exact steady_joined hl rfl (fun _ => rfl) hr

theorem steady_member (h : Steady name doc) (hn : IsName text) : Steady name (member doc text) :=
  steady_suffix h rfl (fun _ => rfl) (harmless_of_isName hn)

theorem steady_assign (hl : Steady name left) (hr : Steady name right) :
    Steady name (assign left right) :=
  steady_joined hl rfl (fun _ => rfl) hr

theorem steady_conditional (truthy : Bool) (ht : Steady name test) (hl : Steady name left)
    (hr : Steady name right) : Steady name (conditional .lua truthy test left right) := by
  unfold conditional
  dsimp only
  split_ifs
  · exact steady_joined (steady_joined ht rfl (fun _ => rfl) hl) rfl (fun _ => rfl) hr
  · intro opened
    -- The function and the test are open over both values.
    let inner : List Opener := .branch :: .function :: .paren :: opened
    have ho : Reaches name (.text "(function() if ") opened inner := rfl
    have ht' : Reaches name (.text " then return ") inner inner := rfl
    have he : Reaches name (.text " else return ") inner inner := rfl
    have hc : Settles name (.text " end end)()") inner opened := rfl
    have hl' := ((ho.settle (ht inner)).reach (apart_text rfl) ht').settle (hl inner)
    exact ((hl'.reach (apart_text rfl) he).settle (hr inner)).settle (apart_text rfl) hc

theorem whole_receiver (isType : Bool) (h : Steady name doc) :
    Whole name (receiver .lua isType doc) := by
  intro opened
  cases isType <;> exact (h opened).reach (apart_text rfl) rfl

theorem steady_call {receiver : Option Doc} (hr : ∀ doc ∈ receiver, Whole name doc)
    (hn : IsName text) (ha : ∀ doc ∈ docs, Steady name doc) :
    Steady name (call receiver text docs) := by
  have hd : Whole name (receiver.getD .empty) := by
    cases receiver with
    | none => exact fun _ => rfl
    | some doc => exact hr doc rfl
  exact steady_applied (steady_append hd (harmless_of_isName hn)) (steady_sepBy ha)

theorem harmless_names {params : List Param} (h : ∀ name ∈ params.map (·.name), IsName name) :
    Harmless (names params) := by
  have ho : ∀ name, IsName name → Harmless name := fun _ => harmless_of_isName
  refine names_holds (fun _ => rfl) ho ?_ h
  intro name rest hn hr
  exact harmless_append (harmless_of_isName hn) rfl (fun _ => rfl) hr

/-- The document of a statement or of a body; that of a block ends with a line. -/
structure Ends (name : ClassType → String) (isBlock : Bool) (doc : Doc) : Prop where
  steady : Steady name doc
  whole : isBlock = true → Whole name doc

theorem Ends.ofSteady (h : Steady name doc) : Ends name false doc :=
  ⟨h, nofun⟩

theorem Ends.ofWhole {isBlock : Bool} (h : Whole name doc) : Ends name isBlock doc :=
  ⟨h.steady, fun _ => h⟩

theorem whole_bodyLine (body : LambdaBody) (h : Ends name (body.kind = .statement) doc) :
    Whole name (bodyLine body doc) := by
  cases body with
  | expr value => exact fun opened => (h.steady opened).reach (apart_text rfl) rfl
  | block stmts => exact h.whole rfl

theorem whole_functionBody (body : LambdaBody) (h : Ends name (body.kind = .statement) doc) :
    Whole name (functionBody body doc) := by
  cases body with
  | expr value =>
    have hv : Steady name (if value.isLuaStatement then doc else .text "return " ++ doc) := by
      split_ifs
      · exact h.steady
      · exact steady_append (fun _ => rfl) h.steady
    exact whole_bodyLine (.expr value) (.ofSteady hv)
  | block stmts => exact h.whole rfl

theorem steady_lambda {params : List Param} (body : LambdaBody)
    (hp : ∀ name ∈ params.map (·.name), IsName name)
    (h : Ends name (body.kind = .statement) doc) :
    Steady name (lambda .lua params body doc) := by
  intro opened
  have hf : scanner.read (.code opened []) "function(" =
      .code (.paren :: .function :: opened) [] := rfl
  have ho : scanner.step (scanner.read (.code opened [])
      ("function(" ++ names params ++ ")")) '\n' = .code (.function :: opened) [] := by
    rw [Scanner.read_append, Scanner.read_append, hf, read_of_settle (harmless_names hp _) rfl]
    rfl
  exact settles_enclosed ho (whole_functionBody body h) rfl

theorem steady_methodReference (h : Steady name doc) (hn : IsName text) :
    Steady name (methodReference .lua doc text) := by
  intro opened
  have hf : Reaches name (.text "function(...) return ") opened (.function :: opened) := rfl
  have hm : Steady name (doc ++ .text (":" ++ text)) :=
    steady_suffix h rfl (fun _ => rfl) (harmless_of_isName hn)
  have hc : Settles name (.text "(...) end") (.function :: opened) opened := rfl
  have hs := hf.settle ((hm (.function :: opened)).settle (apart_text rfl) hc)
  simpa [Settles, methodReference] using hs

theorem steady_key {unquote : Bool} {key : Expr}
    (hk : unquote = true → ∀ text ∈ key.stringKey?, IsName text) (h : Steady name doc) :
    Steady name (Phrase.key .lua unquote key doc) := by
  unfold Phrase.key
  split
  · next text hs => exact harmless_of_isName (hk rfl text hs)
  · intro opened
    have ho : Reaches name (.text "[") opened (.bracket :: opened) := rfl
    exact (ho.settle (h _)).settle (apart_text rfl) rfl

theorem steady_entry (hl : Steady name left) (hr : Steady name right) :
    Steady name (entry .lua left right) :=
  steady_joined hl rfl (fun _ => rfl) hr

theorem steady_jsonText (h : Steady name doc) : Steady name (jsonText .lua doc) := by
  intro opened
  have ho : Reaches name (.text "tostring(") opened (.paren :: opened) := rfl
  exact (ho.settle (h _)).settle (apart_text rfl) rfl

theorem steady_console (h : Steady name doc) : Steady name (console .lua doc) :=
  steady_applied (fun _ => rfl) h

/-- A loop over what stands between the parentheses behind `text`. -/
theorem steady_loop (hm : Steady name map) (hb : Whole name body)
    (ht : ∀ opened, scanner.read (.code opened []) text = .code (.paren :: opened) []) :
    Steady name (.text text ++ map ++ enclosed ") do" body "end") := by
  intro opened
  have ho : Reaches name (.text text) opened (.paren :: opened) := ht opened
  have hc : Settles name (enclosed ") do" body "end") (.paren :: opened) opened :=
    settles_enclosed rfl hb rfl
  exact (ho.settle (hm _)).settle (apart_enclosed rfl) hc

theorem steady_mapForEach {key value : Param} (body : LambdaBody) (hm : Steady name map)
    (hp : ∀ name ∈ [key.name, value.name], IsName name)
    (h : Ends name (body.kind = .statement) doc) :
    Steady name (mapForEach .lua map key value body doc) := by
  refine steady_loop hm (whole_bodyLine body h) fun opened => ?_
  have hn : Harmless ("for " ++ key.name ++ ", " ++ value.name) :=
    harmless_append (harmless_behind (fun _ => rfl) (harmless_of_isName (hp _ (.head _)))) rfl
      (fun _ => rfl) (harmless_of_isName (hp _ (.tail _ (.head _))))
  rw [Scanner.read_append, read_of_settle (hn opened) rfl]
  rfl

theorem steady_forEach (hn : IsName text) (hm : Steady name map) (hb : Whole name body) :
    Steady name (forEach .lua text map body) := by
  refine steady_loop hm hb fun opened => ?_
  have hl : Harmless ("for _, " ++ text) := harmless_behind (fun _ => rfl) (harmless_of_isName hn)
  rw [Scanner.read_append, read_of_settle (hl opened) rfl]
  rfl

theorem whole_line (h : Steady name doc) : Whole name (line doc) :=
  fun opened => (h opened).reach apart_freshLine rfl

theorem whole_body (stmt : Stmt) (h : Ends name stmt.isBlock doc) :
    Whole name (Phrase.body stmt doc) := by
  unfold Phrase.body
  split_ifs with hb
  · exact h.whole hb
  · exact whole_line h.steady

theorem steady_declare (ty : TypeInfo) {init : Option Doc} (hn : IsName text)
    (hi : ∀ doc ∈ init, Steady name doc) : Steady name (declare .lua ty text init) := by
  have hl : Steady name (.text ("local " ++ text)) :=
    harmless_behind (fun _ => rfl) (harmless_of_isName hn)
  cases init with
  | none => exact hl
  | some doc => exact steady_assign hl (hi doc rfl)

theorem steady_update (op : UnaryOp) (h : Steady name doc) : Steady name (update .lua op doc) := by
  cases op with
  | neg | not | complement => exact steady_append (fun _ => rfl) h
  | preIncrement | preDecrement | postIncrement | postDecrement =>
    exact steady_assign h fun opened => (h opened).settle (apart_text rfl) rfl

theorem steady_whileLoop (ht : Steady name test) (hb : Whole name body) :
    Steady name (whileLoop .lua test body) := by
  intro opened
  have ho : Reaches name (.text "while ") opened opened := rfl
  exact (ho.settle (ht opened)).settle (apart_enclosed rfl) (settles_enclosed rfl hb rfl)

theorem steady_forLoop {init update : Doc} (hi : Steady name init) (ht : Steady name test)
    (hu : Steady name update) (hb : Whole name body) :
    Steady name (forLoop .lua init test update body) := by
  have hw : Whole name (.text "while ") := fun _ => rfl
  have hl : Whole name (body ++ update ++ .text "\n") := fun opened =>
    (steady_append hb hu opened).reach (apart_text rfl) rfl
  have hr : Whole name (enclosed " do" (body ++ update ++ .text "\n") "end\n") := by
    intro opened
    rw [Reaches, read_enclosed rfl hl]
    rfl
  intro opened
  refine settles_enclosed rfl (fun inner => ?_) rfl
  exact (steady_append (whole_append (whole_line hi) hw) ht inner).reach (apart_enclosed rfl)
    (hr inner)

/-- A further if statement goes on with the word `else` in front of it, and stays in the branch that
is open there. -/
def Continues (name : ClassType → String) (doc : Doc) : Prop :=
  ∀ opened, doc.read scanner name (.code (.branch :: opened) "else".toList) =
    doc.read scanner name (.code opened [])

theorem continues_ifElse (alternative : Option (Stmt × Doc)) :
    Continues name (ifElse .lua test consequent alternative) := by
  intro opened
  have hi : scanner.read (.code (.branch :: opened) "else".toList) "if " =
      scanner.read (.code opened []) "if " := rfl
  simp only [ifElse, Doc.read_append, Doc.read_text, hi]

theorem settles_otherwise {alternative : Option (Stmt × Doc)}
    (h : ∀ part ∈ alternative, Ends name part.1.isBlock part.2)
    (hc : ∀ part ∈ alternative, part.1.isIfElse = true → Continues name part.2)
    (opened : List Opener) :
    Settles name (otherwise .lua alternative) (.branch :: opened) opened := by
  cases alternative with
  | none => rfl
  | some part =>
    obtain ⟨stmt, doc⟩ := part
    have he : Ends name stmt.isBlock doc := h _ rfl
    simp only [otherwise]
    split_ifs with hs
    · have hw : scanner.read (.code (.branch :: opened) []) "else" =
          .code (.branch :: opened) "else".toList := rfl
      rw [Settles, Doc.read_append, Doc.read_text, hw, hc _ rfl hs]
      exact he.steady opened
    · exact settles_enclosed rfl (whole_body stmt he) rfl

theorem steady_ifElse {alternative : Option (Stmt × Doc)} (ht : Steady name test)
    (hb : Whole name consequent) (h : ∀ part ∈ alternative, Ends name part.1.isBlock part.2)
    (hc : ∀ part ∈ alternative, part.1.isIfElse = true → Continues name part.2) :
    Steady name (ifElse .lua test consequent alternative) := by
  intro opened
  let inner : List Opener := .branch :: opened
  have hi : Reaches name (.text "if ") opened inner := rfl
  have hl : Reaches name (.text " then\n") inner inner := rfl
  have hn : Reaches name (.nest consequent) inner inner := by
    rw [Reaches, Doc.read_nest]
    exact hb inner
  exact (((hi.settle (ht inner)).reach (apart_text rfl) hl).reach hn).settle
    (settles_otherwise h hc opened)

theorem steady_throwNew (exception : String) {reason : Option Doc}
    (hr : ∀ doc ∈ reason, Steady name doc) : Steady name (throwNew .lua exception reason) := by
  have hd : Steady name (reason.getD (.quoted (Text.escape exception))) := by
    cases reason with
    | none => exact steady_quoted exception
    | some doc => exact hr doc rfl
  exact steady_applied (fun _ => rfl) hd

theorem steady_returnWith {value : Option Doc} (h : ∀ doc ∈ value, Steady name doc) :
    Steady name (returnWith value) := by
  cases value with
  | none => exact fun _ => rfl
  | some doc => exact steady_append (fun _ => rfl) (h doc rfl)

end Phrases

section Types

/-- Types go by harmless names if they have proper names. -/
def Spells (name : ClassType → String) : Prop :=
  ∀ ty : ClassType, (∀ text ∈ ty.written .lua, IsName text) → Harmless (name ty)

/-- The locals of a file are simple names or dotted names as one word. -/
theorem spells_luaLocal (imports : Imports) : Spells (Dialect.luaLocal imports) := by
  intro ty h
  have hs : Harmless ty.simpleName := harmless_of_isName (h _ (.head _))
  unfold Dialect.luaLocal
  split
  · split_ifs
    · exact hs
    · exact harmless_of_isName (isName_mangled (h _ (.tail _ (.head _))))
  · exact hs

variable {name} {docs : List Doc} {text : String}

open Phrase

theorem steady_reference (hn : Spells name) {ty : ClassType}
    (h : ∀ text ∈ ty.written .lua, IsName text) : Steady name (reference .lua ty) :=
  hn ty h

theorem steady_typeName (hn : Spells name) {ty : TypeInfo}
    (h : ∀ text ∈ ty.written .lua, IsName text) : Steady name (typeName .lua ty) :=
  typeName_holds (fun _ hr => steady_reference hn hr) (fun _ ht => harmless_of_isName ht) h

theorem steady_construct (hn : Spells name) {ty : TypeInfo}
    (h : ∀ text ∈ ty.written .lua, IsName text) (ha : ∀ doc ∈ docs, Steady name doc) :
    Steady name (construct .lua ty docs) := by
  have hc : Steady name (typeName .lua ty ++ .text ".new") := fun opened =>
    (steady_typeName hn h opened).settle (apart_text rfl) rfl
  exact steady_applied hc (steady_sepBy ha)

theorem steady_enumConstant (hn : Spells name) {ty : ClassType}
    (h : ∀ text ∈ ty.written .lua, IsName text) (ht : IsName text) :
    Steady name (enumConstant .lua ty text) :=
  steady_suffix (steady_reference hn h) rfl (fun _ => rfl) (harmless_of_isName ht)

end Types

end Lua

open Lua

/-- An if statement goes on with an `else` in front of it. -/
theorem Stmt.lua_continues {name : ClassType → String} (interpolate : Bool) {stmt : Stmt}
    (h : stmt.isIfElse = true) : Continues name (stmt.doc ⟨.lua, interpolate⟩) := by
  cases stmt with
  | ifElse test consequent alternative =>
    cases alternative with
    | none => exact continues_ifElse none
    | some other => exact continues_ifElse _
  | _ => cases h

section Trees

variable (spelling : Subtype Spells) (interpolate : Bool)

mutual

theorem Expr.lua_steady : (expr : Expr) →
    Place.AllRaw .lua IsName IsNumeral (.expr expr :: expr.inside .lua) →
      Steady spelling.val (expr.doc ⟨.lua, interpolate⟩)
  | .literal value, h => steady_literal value h.numeral
  | .binary left op right concat, h =>
    steady_binary interpolate op concat _ _ (left.lua_steady h.inside.left)
      (right.lua_steady h.inside.right)
  | .unary op operand, h => steady_unary op (operand.lua_steady h.inside)
  | .parens inner, h => steady_parens (inner.lua_steady h.inside)
  | .ident name, h => harmless_of_isName (h.name name (.head _))
  | .this, _ => steady_this
  | .member object name, h =>
    steady_member (object.lua_steady h.inside) (h.name name (.head _))
  | .assign target value, h =>
    steady_assign (target.lua_steady h.inside.left) (value.lua_steady h.inside.right)
  | .conditional test consequent alternative, h =>
    steady_conditional _ (test.lua_steady h.inside.left.left)
      (consequent.lua_steady h.inside.left.right) (alternative.lua_steady h.inside.right)
  | .call none method args, h =>
    steady_call nofun (h.name method (.head _)) (Expr.lua_all args h.inside)
  | .call (some receiver) method args, h => by
    have hr := whole_receiver receiver.isApiType (receiver.lua_steady h.inside.left)
    refine steady_call ?_ (h.name method (.head _)) (Expr.lua_all args h.inside.right)
    rintro doc ⟨⟩
    exact hr
  | .construct ty args, h => steady_construct spelling.property h.name (Expr.lua_all args h.inside)
  | .lambda params body, h => steady_lambda body h.name (body.lua_ends h.inside)
  | .enumConstant ty constant, h =>
    steady_enumConstant spelling.property (fun text hm => h.name text (.tail _ hm))
      (h.name constant (.head _))
  | .apiType ty, h => steady_reference spelling.property h.name
  | .jsonObject members, h => steady_object (Member.lua_all false members nofun h.inside)
  | .jsonArray values, h => steady_array (Expr.lua_all values h.inside)
  | .dataObject ty members, h =>
    steady_object (Member.lua_all true members (fun _ => h.name) h.inside)
  | .valueOf kind inner, h => inner.lua_steady h.inside
  | .dataAssign object name value, h =>
    steady_assign (steady_member (object.lua_steady h.inside.left) (h.name name (.head _)))
      (value.lua_steady h.inside.right)
  | .dataMember object name, h =>
    steady_member (object.lua_steady h.inside) (h.name name (.head _))
  | .jsonAssign object key value, h =>
    steady_assign (steady_index (object.lua_steady h.inside.left.left)
      (key.lua_steady h.inside.left.right)) (value.lua_steady h.inside.right)
  | .jsonMember object key, h =>
    steady_index (object.lua_steady h.inside.left) (key.lua_steady h.inside.right)
  | .jsonObjectText object, h | .jsonArrayText object, h =>
    steady_jsonText (object.lua_steady h.inside)
  | .mapGet map key, h =>
    steady_index (map.lua_steady h.inside.left) (key.lua_steady h.inside.right)
  | .mapForEach map key value body, h =>
    steady_mapForEach body (map.lua_steady h.inside.left) h.name (body.lua_ends h.inside.right)
  | .methodReference receiver method, h =>
    steady_methodReference (receiver.lua_steady h.inside) (h.name method (.head _))
  | .console message, h => steady_console (message.lua_steady h.inside)
  | .asyncResult name, h => harmless_of_isName (h.name name (.head _))

theorem Expr.lua_all : (exprs : List Expr) →
    Place.AllRaw .lua IsName IsNumeral (Expr.insideAll .lua exprs) →
      ∀ doc ∈ Expr.docs ⟨.lua, interpolate⟩ exprs, Steady spelling.val doc
  | [], _ => nofun
  | expr :: rest, h =>
    List.forall_mem_cons.mpr ⟨expr.lua_steady h.left, Expr.lua_all rest h.right⟩

theorem Expr.lua_steady? : (expr : Option Expr) →
    Place.AllRaw .lua IsName IsNumeral (Expr.inside? .lua expr) →
      ∀ doc ∈ Expr.doc? ⟨.lua, interpolate⟩ expr, Steady spelling.val doc
  | none, _ => nofun
  | some expr, h => by
    rintro doc ⟨⟩
    exact expr.lua_steady h

theorem LambdaBody.lua_ends : (body : LambdaBody) →
    Place.AllRaw .lua IsName IsNumeral (body.inside .lua) →
      Ends spelling.val (body.kind = .statement) (body.doc ⟨.lua, interpolate⟩)
  | .expr value, h => .ofSteady (value.lua_steady h)
  | .block stmts, h => .ofWhole (Stmt.lua_lines stmts h)

theorem Member.lua_steady (unquote : Bool) : (member : Member) →
    (unquote = true → ∀ text ∈ member.name.stringKey?, IsName text) →
      Place.AllRaw .lua IsName IsNumeral (member.inside .lua) →
        Steady spelling.val (member.doc ⟨.lua, interpolate⟩ unquote .lua)
  | .single key value, hk, h =>
    steady_entry (steady_key hk (key.lua_steady h.left)) (value.lua_steady h.right)
  | .array key values, hk, h =>
    steady_entry (steady_key hk (key.lua_steady h.left))
      (steady_array (Expr.lua_all values h.right))

theorem Member.lua_all (unquote : Bool) : (members : List Member) →
    (unquote = true → ∀ text ∈ Member.stringKeys members, IsName text) →
      Place.AllRaw .lua IsName IsNumeral (Member.insideAll .lua members) →
        ∀ doc ∈ Member.docs ⟨.lua, interpolate⟩ unquote .lua members, Steady spelling.val doc
  | [], _, _ => nofun
  | member :: rest, hk, h =>
    List.forall_mem_cons.mpr
      ⟨member.lua_steady unquote (fun hu => (Member.forall_stringKeys_cons.mp (hk hu)).1) h.left,
        Member.lua_all unquote rest (fun hu => (Member.forall_stringKeys_cons.mp (hk hu)).2)
          h.right⟩

theorem Stmt.lua_ends : (stmt : Stmt) →
    Place.AllRaw .lua IsName IsNumeral (.stmt stmt :: stmt.inside .lua) →
      Ends spelling.val stmt.isBlock (stmt.doc ⟨.lua, interpolate⟩)
  | .block stmts, h => .ofWhole (Stmt.lua_lines stmts h.inside)
  | .declare ty name init, h =>
    .ofSteady (steady_declare ty (h.name name (.head _)) (Expr.lua_steady? init h.inside))
  | .expr value, h => .ofSteady (value.lua_steady h.inside)
  | .forLoop init test update body, h => by
    have hi := (init.lua_ends h.inside.left.left).steady
    have ht := test.lua_steady h.inside.left.right
    have hr : Place.AllRaw .lua IsName IsNumeral
        (.stmt body :: body.inside .lua ++ .update update :: update.inside .lua) := h.inside.right
    have hb := whole_body body (body.lua_ends hr.left)
    have hu : Steady spelling.val (update.updateDoc ⟨.lua, interpolate⟩) := by
      cases update with
      | unary op operand => exact steady_update op (operand.lua_steady hr.right.inside)
      | _ => exact Expr.lua_steady _ hr.right.ofUpdate
    rw [Stmt.doc_forLoop]
    exact .ofSteady (steady_forLoop hi ht hu hb)
  | .forEach name iterable body, h =>
    .ofSteady (steady_forEach (h.name name (.head _)) (iterable.lua_steady h.inside.left)
      (whole_body body (body.lua_ends h.inside.right)))
  | .throwNew exception reason, h =>
    .ofSteady (steady_throwNew exception (Expr.lua_steady? reason h.inside))
  | .returnWith value, h => .ofSteady (steady_returnWith (Expr.lua_steady? value h.inside))
  | .ifElse test consequent none, h =>
    .ofSteady (steady_ifElse (test.lua_steady h.inside.left)
      (whole_body consequent (consequent.lua_ends h.inside.right)) nofun nofun)
  | .ifElse test consequent (some alternative), h => by
    have ha := alternative.lua_ends h.inside.right
    refine .ofSteady (steady_ifElse (test.lua_steady h.inside.left.left)
      (whole_body consequent (consequent.lua_ends h.inside.left.right)) ?_ ?_)
    · rintro part ⟨⟩
      exact ha
    · rintro part ⟨⟩
      exact Stmt.lua_continues interpolate
  | .whileLoop test body, h =>
    .ofSteady (steady_whileLoop (test.lua_steady h.inside.left)
      (whole_body body (body.lua_ends h.inside.right)))
  | .breakLoop, _ => .ofSteady fun _ => rfl
  | .continueLoop, _ => .ofSteady fun _ => rfl

theorem Stmt.lua_lines : (stmts : List Stmt) →
    Place.AllRaw .lua IsName IsNumeral (Stmt.insideAll .lua stmts) →
      Whole spelling.val (Stmt.lines ⟨.lua, interpolate⟩ stmts)
  | [], _ => fun _ => rfl
  | stmt :: rest, h =>
    whole_append (whole_line (stmt.lua_ends h.left).steady) (Stmt.lua_lines rest h.right)

end

end Trees

namespace Session

theorem scan_luaImport (imports : Imports) {ty : ClassType}
    (h : ∀ text ∈ ty.written .lua, IsName text) :
    Lua.scanner.scan (Dialect.luaImport imports ty ++ "\n") = Lua.scanner.start := by
  have hd : Harmless ("local " ++ Dialect.luaLocal imports ty) :=
    harmless_behind (fun _ => rfl) (spells_luaLocal imports ty h)
  have ho : Lua.scanner.read (.code [] []) " = require(\"" = .string [.paren] false := rfl
  have hs : IsName (ty.spelling "lua") := h _ (.tail _ (.tail _ (.head _)))
  have hc : Lua.scanner.read (Lua.scanner.read (.string [.paren] false) "\")") "\n" =
    .code [] [] := rfl
  have hb : Lua.scanner.start = .code [] [] := rfl
  rw [Scanner.scan, hb, Dialect.luaImport, Scanner.read_append, Scanner.read_append,
    Scanner.read_append, Scanner.read_append, read_of_settle (hd []) rfl, ho,
    read_name_inString [.paren] hs, hc]

/-- If the names of a program are proper names and its numbers are made like numbers, then the text
of the program nests its brackets and its blocks in each other, and leaves nothing open. -/
theorem lua_text_nests (session : Session) (program : Program) (text : String)
    (hl : session.dialect = .lua) (h : (session.render program).1 = .ok text)
    (hu : Spacing session.settings.indent)
    (hi : ∀ ty ∈ session.imports.types, ∀ name ∈ ty.written .lua, IsName name)
    (hn : ∀ name ∈ program.names .lua, IsName name)
    (hd : ∀ digits ∈ program.numerals .lua, IsNumeral digits) :
    Lua.scanner.scan text = .code [] [] := by
  have hr : Place.AllRaw .lua IsName IsNumeral (program.places .lua) := Program.allRaw hn hd
  have hw := written_of_render (by simp [hl]) h (hl ▸ hi) (hl ▸ hn)
  have hs : ∀ imports ty, ty ∈ imports.types →
      imports.types <+: (session.render program).2.imports.types →
      session.dialect.spell imports ty =
        Dialect.luaLocal (session.render program).2.imports ty := by
    intro imports ty hm hp
    rw [hl]
    exact Dialect.luaLocal_of_prefix hm hp
  have hh : ∀ line ∈ session.dialect.header (session.render program).2.imports,
      Lua.scanner.scan (line ++ "\n") = Lua.scanner.start := by
    rw [hl] at hw ⊢
    intro line hm
    obtain ⟨ty, ht, rfl⟩ := List.mem_map.mp hm
    exact scan_luaImport _ (hw ty ht)
  rw [scan_render h (overlooks hu) hs hh]
  have hb := Stmt.lua_lines ⟨_, spells_luaLocal (session.render program).2.imports⟩
    session.settings.interpolate program.body hr []
  rwa [← hl] at hb

/-- A session that has met another class of the same simple name. -/
def branchSession : Session where
  dialect := .lua
  imports := Imports.empty.insert (colorIn "io.a")

/-- A chain of branches inside a loop, a function that decides inside a call, and block words and
brackets in a string. -/
def branchesInLoop : Program where
  body := [.forLoop (.declare .void "i" (some (.literal (.int "0"))))
    (.binary (.ident "i") .lt (.literal (.int "0x1f")) false)
    (.unary .postIncrement (.ident "i"))
    (.ifElse (.enumConstant (colorIn "io.b") "RED")
      (.expr (.console (.conditional (.ident "c") (.ident "d") (.literal (.string "end ) \" do")))))
      (some (.ifElse (.ident "e") (.block []) (some .breakLoop))))]

def branchesInLoopText : String :=
  "local Color = require(\"io.a.Color\")\nlocal io_b_Color = require(\"io.b.Color\")\n" ++
    "do\n  local i = 0\n  while i < 0x1f do\n    if io_b_Color.RED then\n" ++
    "      print((function() if c then return d else return \"end ) \\\" do\" end end)())\n" ++
    "    elseif e then\n    else\n      break\n    end\n    i = i + 1\n  end\nend\n"

theorem lua_text_nests_branchesInLoop :
    "io.b.Color" ∈ branchesInLoop.names .lua ∧ "0x1f" ∈ branchesInLoop.numerals .lua ∧
      (branchSession.render branchesInLoop).1 = .ok branchesInLoopText ∧
      Lua.scanner.scan branchesInLoopText = .code [] [] := by
  have h : (branchSession.render branchesInLoop).1 = .ok branchesInLoopText := by decide +kernel
  refine ⟨by decide +kernel, by decide +kernel, h, ?_⟩
  exact lua_text_nests branchSession branchesInLoop branchesInLoopText rfl h (by decide)
    (by decide +kernel) (by decide +kernel) (by decide +kernel)

end Session

end Polyglot
