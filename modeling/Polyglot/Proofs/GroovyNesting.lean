import Polyglot.Proofs.RawTexts
import Polyglot.Proofs.Scan

/-! Brackets and quotes in a Groovy text. Each phrase closes what it opens, so a reader that keeps
a stack of what is open comes back to the stack that it had in front of the phrase. -/
namespace Polyglot

namespace Groovy

/-- What can be open in code. -/
inductive Opener where
  | paren | bracket | brace
  /-- Code that is spliced into a double-quoted literal. -/
  | splice
  deriving DecidableEq

/-- What the last character of a double-quoted literal says about the next one. -/
inductive Pending where
  | nothing | escape | dollar
  deriving DecidableEq

/-- Where a reader is: in code, in a literal, or behind something that does not fit. -/
inductive Mode where
  | code (opened : List Opener)
  | single (opened : List Opener) (escaped : Bool)
  | double (opened : List Opener) (pending : Pending)
  | broken
  deriving DecidableEq

namespace Mode

/-- The end of a splice leads back into the literal around it. -/
def close (opener : Opener) : List Opener → Mode
  | .splice :: rest => if opener = .brace then .double rest .nothing else .broken
  | last :: rest => if last = opener then .code rest else .broken
  | [] => .broken

def inCode (opened : List Opener) : Char → Mode
  | '(' => .code (.paren :: opened)
  | '[' => .code (.bracket :: opened)
  | '{' => .code (.brace :: opened)
  | ')' => close .paren opened
  | ']' => close .bracket opened
  | '}' => close .brace opened
  | '\'' => .single opened false
  | '"' => .double opened .nothing
  | _ => .code opened

def inSingle (opened : List Opener) : Char → Mode
  | '\'' => .code opened
  | '\\' => .single opened true
  | _ => .single opened false

def inDouble (opened : List Opener) (pending : Pending) : Char → Mode
  | '"' => .code opened
  | '\\' => .double opened .escape
  | '$' => .double opened .dollar
  | '{' => if pending = .dollar then .code (.splice :: opened) else .double opened .nothing
  | _ => .double opened .nothing

/-- No literal goes over the end of its line. -/
def step : Mode → Char → Mode
  | .code opened, c => inCode opened c
  | .single opened escaped, c =>
    if c = '\n' then .broken else if escaped then .single opened false else inSingle opened c
  | .double opened pending, c =>
    if c = '\n' then .broken
    else if pending = .escape then .double opened .nothing
    else inDouble opened pending c
  | .broken, _ => .broken

end Mode

def scanner : Scanner Mode where
  start := .code []
  step := Mode.step

/-- A text without brackets, quotes and backslashes. -/
def Unmarked (text : String) : Prop :=
  ∀ c ∈ text.toList, c ∉ ['(', ')', '[', ']', '{', '}', '\'', '"', '\\']

instance (text : String) : Decidable (Unmarked text) :=
  List.decidableBAll _ text.toList

section Steps

variable (opened : List Opener)

@[simp] theorem step_openParen : scanner.step (.code opened) '(' = .code (.paren :: opened) := rfl

@[simp] theorem step_openBracket :
    scanner.step (.code opened) '[' = .code (.bracket :: opened) := rfl

@[simp] theorem step_openBrace : scanner.step (.code opened) '{' = .code (.brace :: opened) := rfl

@[simp] theorem step_closeParen : scanner.step (.code (.paren :: opened)) ')' = .code opened := rfl

@[simp] theorem step_closeBracket :
    scanner.step (.code (.bracket :: opened)) ']' = .code opened := rfl

@[simp] theorem step_quote : scanner.step (.code opened) '"' = .double opened .nothing := rfl

@[simp] theorem step_unquote : scanner.step (.double opened .nothing) '"' = .code opened := rfl

/-- Anything else does not count in code. -/
@[simp] theorem step_unmarked {c : Char}
    (h : c ∉ ['(', ')', '[', ']', '{', '}', '\'', '"', '\\']) :
    scanner.step (.code opened) c = .code opened := by
  simp only [List.mem_cons, List.not_mem_nil, not_or] at h
  simp [scanner, Mode.step, Mode.inCode, h]

@[simp] theorem foldl_unmarked {text : String} (h : Unmarked text) :
    text.toList.foldl scanner.step (.code opened) = .code opened :=
  scanner.read_of_still fun c hc => step_unmarked opened (h c hc)

end Steps

/-- Margins without brackets and quotes are not seen. -/
theorem overlooks {unit : String} (h : Unmarked unit) : scanner.Overlooks unit := by
  have hl : ∀ mode, scanner.step mode '\n' = .broken ∨
      ∃ opened, scanner.step mode '\n' = .code opened := by
    intro mode
    cases mode with
    | code opened => exact .inr ⟨opened, rfl⟩
    | single opened escaped => exact .inl rfl
    | double opened pending => exact .inl rfl
    | broken => exact .inl rfl
  refine ⟨rfl, fun mode => ?_, fun mode c hc => ?_⟩
  · obtain he | ⟨opened, he⟩ := hl mode
    · rw [he]
      rfl
    · rw [he]
      rfl
  · obtain he | ⟨opened, he⟩ := hl mode
    · rw [he]
      rfl
    · rw [he]
      exact step_unmarked opened (h c hc)

/-- A document that is code and closes what it opens. -/
def Closed (doc : Doc) : Prop :=
  ∀ opened, doc.read scanner ClassType.simpleName (.code opened) = .code opened

/-- A document that can stand inside a double-quoted literal. -/
def Quotable (doc : Doc) : Prop :=
  ∀ opened,
    doc.read scanner ClassType.simpleName (.double opened .nothing) = .double opened .nothing

theorem Closed.read {doc : Doc} (h : Closed doc) (opened : List Opener) :
    doc.read scanner ClassType.simpleName (.code opened) = .code opened := h opened

theorem Quotable.read {doc : Doc} (h : Quotable doc) (opened : List Opener) :
    doc.read scanner ClassType.simpleName (.double opened .nothing) = .double opened .nothing :=
  h opened

section Literals

variable (opened : List Opener)

theorem step_inDouble {c : Char} (h : c ∉ ['"', '\\', '$', '\n']) :
    scanner.step (.double opened .nothing) c = .double opened .nothing := by
  simp only [List.mem_cons, List.not_mem_nil, or_false, not_or] at h
  obtain ⟨hq, hb, hd, hn⟩ := h
  by_cases hc : c = '{'
  · rw [hc]
    rfl
  · simp [scanner, Mode.step, Mode.inDouble, hn]

theorem step_inSingle {c : Char} (h : c ∉ ['\'', '\\', '\n']) :
    scanner.step (.single opened false) c = .single opened false := by
  simp only [List.mem_cons, List.not_mem_nil, or_false, not_or] at h
  simp [scanner, Mode.step, Mode.inSingle, h]

/-- A backslash takes the next character with it. -/
theorem step_escaped {c : Char} (h : c ≠ '\n') :
    scanner.step (scanner.step (.double opened .nothing) '\\') c = .double opened .nothing ∧
      scanner.step (scanner.step (.single opened false) '\\') c = .single opened false := by
  constructor <;> simp [scanner, Mode.step, Mode.inDouble, Mode.inSingle, h]

theorem foldl_escapeTemplateChar (c : Char) :
    (Text.escapeTemplateChar c).foldl scanner.step (.double opened .nothing) =
      .double opened .nothing := by
  unfold Text.escapeTemplateChar
  split_ifs with hd
  · exact (step_escaped opened (by decide)).1
  obtain ⟨code, hn, he⟩ | ⟨he, hc⟩ := Text.escapeChar_cases c
  · rw [he]
    exact (step_escaped opened hn).1
  · rw [he]
    apply step_inDouble
    simp only [List.mem_cons, List.not_mem_nil, or_false, not_or] at hc ⊢
    exact ⟨hc.2.1, hc.1, hd, hc.2.2.1⟩

theorem foldl_escapeSingleChar (c : Char) :
    (Text.escapeSingleChar c).foldl scanner.step (.single opened false) =
      .single opened false := by
  unfold Text.escapeSingleChar
  split_ifs with hs
  · exact (step_escaped opened (by decide)).2
  obtain ⟨code, hn, he⟩ | ⟨he, hc⟩ := Text.escapeChar_cases c
  · rw [he]
    exact (step_escaped opened hn).2
  · rw [he]
    apply step_inSingle
    simp only [List.mem_cons, List.not_mem_nil, or_false, not_or] at hc ⊢
    exact ⟨hs, hc.1, hc.2.2.1⟩

theorem quotable_escapeTemplate (value : String) :
    Quotable (.text (Text.escapeTemplate value)) := by
  intro opened
  simp only [Doc.read_text, Scanner.read, Text.escapeTemplate, String.toList_ofList]
  induction value.toList with
  | nil => rfl
  | cons c rest ih => rw [List.flatMap_cons, List.foldl_append, foldl_escapeTemplateChar, ih]

theorem closed_quoted {body : Doc} (h : Quotable body) : Closed (.quoted body) := by
  intro opened
  simp [h.read]

theorem closed_text {content : String} (h : Unmarked content) : Closed (.text content) := by
  intro opened
  simp [Scanner.read, h]

theorem closed_char (value : Char) :
    Closed (.text ("'" ++ String.ofList (Text.escapeSingleChar value) ++ "'")) := by
  intro opened
  have ho : scanner.read (.code opened) "'" = .single opened false := rfl
  have hc : scanner.read (.single opened false) "'" = .code opened := rfl
  have hi : scanner.read (.single opened false) (String.ofList (Text.escapeSingleChar value)) =
      .single opened false := by
    rw [Scanner.read, String.toList_ofList, foldl_escapeSingleChar]
  rw [Doc.read_text, Scanner.read_append, Scanner.read_append, ho, hi, hc]

end Literals

theorem unmarked_append {first second : String} (hf : Unmarked first) (hs : Unmarked second) :
    Unmarked (first ++ second) := by
  intro c hc
  rw [String.toList_append, List.mem_append] at hc
  exact hc.elim (hf c) (hs c)

theorem unmarked_names {params : List Param} (h : ∀ name ∈ params.map (·.name), Unmarked name) :
    Unmarked (Phrase.names params) := by
  refine Phrase.names_holds nofun (fun _ hn => hn) ?_ h
  intro name rest hn hr
  exact unmarked_append (unmarked_append hn (by decide)) hr

section Phrases

variable {left right map value body doc test consequent : Doc} {docs : List Doc} {name : String}

open Phrase

theorem closed_append (hl : Closed left) (hr : Closed right) : Closed (left ++ right) := by
  intro opened
  rw [Doc.read_append, hl.read, hr.read]

theorem closed_parens (h : Closed doc) : Closed (parens doc) := by
  intro opened
  simp [parens, Scanner.read, h.read]

theorem closed_this : Closed (this .groovy) :=
  closed_text (by decide)

theorem closed_index (hm : Closed map) (hv : Closed value) : Closed (index map value) := by
  intro opened
  simp [index, Scanner.read, hm.read, hv.read]

/-- Lines between an opening that ends inside a brace and the brace that closes it. -/
theorem closed_enclosed {opening : String}
    (ho : ∀ opened, scanner.read (.code opened) opening = .code (.brace :: opened))
    (h : Closed body) : Closed (enclosed opening body unbrace) := by
  intro opened
  simp only [enclosed, Doc.read_append, Doc.read_text, Doc.read_nest, Scanner.read_append, ho]
  exact congrArg (scanner.read · unbrace) (h (.brace :: opened))

theorem closed_braced (h : Closed body) : Closed (braced body) :=
  closed_enclosed (fun _ => rfl) h

theorem closed_arguments (h : ∀ doc ∈ docs, Closed doc) : Closed (arguments docs) := by
  refine closed_parens (sepBy_holds (fun _ => rfl) ?_ h)
  intro doc rest hd hr
  exact closed_append hd (closed_append (closed_text (by decide)) hr)

theorem closed_rows (h : ∀ doc ∈ docs, Closed doc) : Closed (rows "," docs) := by
  refine rows_holds (fun _ => rfl) (fun row hd => ?_) (fun row rest hd hr => ?_) h
  · exact closed_append hd (closed_text (by decide))
  · exact closed_append (closed_append hd (closed_text (by decide))) hr

theorem closed_array (h : ∀ doc ∈ docs, Closed doc) : Closed (array .groovy docs) := by
  intro opened
  unfold array
  split_ifs
  · rfl
  · simp [Containers.groovy, Scanner.read, (closed_rows h).read]

theorem closed_object (h : ∀ doc ∈ docs, Closed doc) : Closed (object .groovy docs) := by
  intro opened
  unfold object
  split_ifs
  · rfl
  · simp [Containers.groovy, Scanner.read, (closed_rows h).read]

theorem closed_unary (op : UnaryOp) (h : Closed doc) : Closed (unary .groovy op doc) := by
  cases op with
  | neg | not | complement | preIncrement | preDecrement =>
    exact closed_append (closed_text (by decide)) h
  | postIncrement | postDecrement => exact closed_append h (closed_text (by decide))

theorem closed_infixed (op : BinaryOp) (hl : Closed left) (hr : Closed right) :
    Closed (infixed left (Dialect.operator .groovy op) right) := by
  have ho : Unmarked (" " ++ Dialect.operator .groovy op ++ " ") := by cases op <;> decide
  exact closed_append (closed_append hl (closed_text ho)) hr

theorem closed_member (h : Closed doc) (hn : Unmarked name) : Closed (member doc name) :=
  closed_append h (closed_text (unmarked_append (by decide) hn))

theorem closed_assign (hl : Closed left) (hr : Closed right) : Closed (assign left right) :=
  closed_append (closed_append hl (closed_text (by decide))) hr

theorem closed_conditional (truthy : Bool) (ht : Closed test) (hl : Closed left)
    (hr : Closed right) : Closed (conditional .groovy truthy test left right) := by
  have hq : Closed (.text " ? ") := closed_text (by decide)
  have hc : Closed (.text " : ") := closed_text (by decide)
  exact closed_append (closed_append (closed_append (closed_append ht hq) hl) hc) hr

theorem closed_receiver (isType : Bool) (h : Closed doc) :
    Closed (receiver .groovy isType doc) := by
  cases isType <;> exact closed_append h (closed_text (by decide))

theorem closed_call {receiver : Option Doc} (hr : ∀ doc ∈ receiver, Closed doc)
    (hn : Unmarked name) (ha : ∀ doc ∈ docs, Closed doc) : Closed (call receiver name docs) := by
  have hd : Closed (receiver.getD .empty) := by
    cases receiver with
    | none => exact fun _ => rfl
    | some doc => exact hr doc rfl
  exact closed_append (closed_append hd (closed_text hn)) (closed_arguments ha)

theorem closed_reference {ty : ClassType} (h : ∀ text ∈ ty.written .groovy, Unmarked text) :
    Closed (reference .groovy ty) := by
  intro opened
  have hs : Unmarked ty.simpleName := h _ (.head _)
  simp [reference, Scanner.read, hs]

theorem closed_typeName {ty : TypeInfo} (h : ∀ text ∈ ty.written .groovy, Unmarked text) :
    Closed (typeName .groovy ty) :=
  typeName_holds (fun _ hr => closed_reference hr) (fun _ ht => closed_text ht) h

theorem closed_construct {ty : TypeInfo} (h : ∀ text ∈ ty.written .groovy, Unmarked text)
    (ha : ∀ doc ∈ docs, Closed doc) : Closed (construct .groovy ty docs) :=
  closed_append (closed_append (closed_text (by decide)) (closed_typeName h)) (closed_arguments ha)

theorem closed_bodyLine (body : LambdaBody) (h : Closed doc) : Closed (bodyLine body doc) := by
  cases body with
  | expr value => exact closed_append h (closed_text (by decide))
  | block stmts => exact h

theorem closed_closure {params : List Param} (body : LambdaBody)
    (hp : ∀ name ∈ params.map (·.name), Unmarked name) (h : Closed doc) :
    Closed (closure params body doc) := by
  apply closed_enclosed _ (closed_bodyLine body h)
  intro opened
  have hn := unmarked_names hp
  cases params.isEmpty <;> simp [brace, Scanner.read, hn]

theorem closed_enumConstant {ty : ClassType} (h : ∀ text ∈ ty.written .groovy, Unmarked text)
    (hn : Unmarked name) : Closed (enumConstant .groovy ty name) :=
  closed_append (closed_reference h) (closed_text (unmarked_append (by decide) hn))

theorem closed_key {unquote : Bool} {key : Expr}
    (hk : unquote = true → ∀ text ∈ key.stringKey?, Unmarked text) (h : Closed doc) :
    Closed (Phrase.key .groovy unquote key doc) := by
  unfold Phrase.key
  split
  · next text hs => exact closed_text (hk rfl text hs)
  · exact h

theorem closed_entry (hl : Closed left) (hr : Closed right) : Closed (entry .groovy left right) :=
  closed_append (closed_append hl (closed_text (by decide))) hr

theorem closed_jsonPlace {key : Expr} (hk : ∀ text ∈ key.stringKey?.toList, Unmarked text)
    (hm : Closed map) (hd : Closed doc) : Closed (jsonPlace .groovy map key doc) := by
  unfold jsonPlace
  split
  · next text _ hs => exact closed_member hm (hk text (Option.mem_toList.mpr hs))
  · exact closed_index hm hd

theorem closed_jsonText (h : Closed doc) : Closed (jsonText .groovy doc) :=
  closed_append h fun _ => rfl

theorem closed_mapForEach {key value : Param} (body : LambdaBody) (hm : Closed map)
    (hp : ∀ name ∈ [key.name, value.name], Unmarked name) (h : Closed doc) :
    Closed (mapForEach .groovy map key value body doc) :=
  closed_append (closed_append hm (closed_text (by decide))) (closed_closure body hp h)

theorem closed_methodReference (h : Closed doc) (hn : Unmarked name) :
    Closed (methodReference .groovy doc name) :=
  closed_append h (closed_text (unmarked_append (by decide) hn))

theorem closed_console (h : Closed doc) : Closed (console .groovy doc) :=
  closed_append (closed_text (by decide)) (closed_parens h)

theorem closed_line (h : Closed doc) : Closed (line doc) :=
  closed_append h fun _ => rfl

theorem closed_body (stmt : Stmt) (h : Closed doc) : Closed (Phrase.body stmt doc) := by
  unfold Phrase.body
  split_ifs
  · exact h
  · exact closed_line h

theorem closed_declare (ty : TypeInfo) {init : Option Doc} (hn : Unmarked name)
    (hi : ∀ doc ∈ init, Closed doc) : Closed (declare .groovy ty name init) := by
  have hl : Closed (.text ("def " ++ name)) := closed_text (unmarked_append (by decide) hn)
  cases init with
  | none => exact hl
  | some doc => exact closed_assign hl (hi doc rfl)

theorem closed_forLoop {init update : Doc} (hi : Closed init) (ht : Closed test)
    (hu : Closed update) (hb : Closed body) :
    Closed (forLoop .groovy init test update body) := by
  intro opened
  simp [forLoop, Scanner.read, hi.read, ht.read, hu.read, (closed_braced hb).read]

theorem closed_update (op : UnaryOp) (h : Closed doc) : Closed (update .groovy op doc) :=
  closed_unary op h

theorem closed_forEach (hn : Unmarked name) (hm : Closed map) (hb : Closed body) :
    Closed (forEach .groovy name map body) := by
  refine closed_append hm (closed_enclosed (fun opened => ?_) hb)
  simp [brace, Scanner.read, hn]

theorem closed_otherwise {alternative : Option (Stmt × Doc)}
    (h : ∀ part ∈ alternative, Closed part.2) : Closed (otherwise .groovy alternative) := by
  cases alternative with
  | none => exact fun _ => rfl
  | some part =>
    obtain ⟨stmt, doc⟩ := part
    have hd : Closed doc := h _ rfl
    simp only [otherwise]
    split_ifs
    · exact closed_append (closed_text (by decide)) hd
    · exact closed_append (closed_text (by decide)) (closed_braced (closed_body stmt hd))

theorem closed_ifElse {alternative : Option (Stmt × Doc)} (ht : Closed test)
    (hc : Closed consequent) (ha : ∀ part ∈ alternative, Closed part.2) :
    Closed (ifElse .groovy test consequent alternative) := by
  intro opened
  simp [ifElse, Scanner.read, ht.read, (closed_braced hc).read, (closed_otherwise ha).read]

theorem closed_whileLoop (ht : Closed test) (hb : Closed body) :
    Closed (whileLoop .groovy test body) := by
  intro opened
  simp [whileLoop, Scanner.read, ht.read, (closed_braced hb).read]

theorem closed_throwNew {reason : Option Doc} (hn : Unmarked name)
    (hr : ∀ doc ∈ reason, Closed doc) : Closed (throwNew .groovy name reason) := by
  have hd : Closed (reason.getD .empty) := by
    cases reason with
    | none => exact fun _ => rfl
    | some doc => exact hr doc rfl
  exact closed_append (closed_text (unmarked_append (by decide) hn)) (closed_parens hd)

theorem closed_returnWith {value : Option Doc} (h : ∀ doc ∈ value, Closed doc) :
    Closed (returnWith value) := by
  cases value with
  | none => exact closed_text (by decide)
  | some doc => exact closed_append (closed_text (by decide)) (h doc rfl)

end Phrases

/-- The document of an expression closes what it opens, and where strings are interpolated it can
also be a part of one. -/
structure Fits (interpolate splice : Bool) (doc : Doc) : Prop where
  closed : Closed doc
  part : interpolate = true → Quotable (Phrase.part splice doc)

namespace Fits

variable {interpolate : Bool} {doc left right : Doc}

/-- Code becomes a part of a literal by a splice. -/
theorem ofClosed (h : Closed doc) : Fits interpolate false doc where
  closed := h
  part _ opened := by
    have ho : scanner.read (.double opened .nothing) ("$" ++ Phrase.brace) =
        .code (.splice :: opened) := rfl
    have hc : scanner.read (.code (.splice :: opened)) Phrase.unbrace =
        .double opened .nothing := rfl
    simp only [Phrase.part, Bool.false_eq_true, if_false, Doc.read_append, Doc.read_text, ho,
      h.read, hc]

/-- A literal becomes a part of another one without its quotes. -/
theorem ofQuotable (h : Quotable doc) : Fits interpolate true (.quoted doc) where
  closed := closed_quoted h
  part _ := h

theorem quotable_append (hl : Quotable left) (hr : Quotable right) : Quotable (left ++ right) := by
  intro opened
  rw [Doc.read_append, hl.read, hr.read]

theorem literal (value : Literal)
    (h : ∀ digits ∈ (Expr.literal value).numerals, Unmarked digits) :
    Fits interpolate (Expr.literal value).isStringPart (Phrase.literal .groovy value) := by
  cases value with
  | int digits => exact ofClosed (closed_text (h _ (.head _)))
  | long digits | float digits | double digits =>
    exact ofClosed (closed_text (unmarked_append (h _ (.head _)) (by decide)))
  | char value => exact ofClosed (closed_char value)
  | string value => exact ofQuotable (quotable_escapeTemplate value)
  | bool value => cases value <;> exact ofClosed (closed_text (by decide))
  | null => exact ofClosed (closed_text (by decide))

/-- Joined strings are one literal if strings are interpolated, and else they are added. -/
theorem binary {op : BinaryOp} {concat spliceLeft spliceRight splice : Bool}
    (hs : splice = true → concat = true)
    (hl : Fits interpolate spliceLeft left) (hr : Fits interpolate spliceRight right) :
    Fits interpolate splice
      (Phrase.binary ⟨.groovy, interpolate⟩ op concat spliceLeft spliceRight left right) := by
  unfold Phrase.binary
  dsimp only
  split_ifs with hc
  · obtain ⟨-, hi⟩ := Bool.and_eq_true_iff.mp hc
    have hq := quotable_append (hl.part hi) (hr.part hi)
    cases splice with
    | true => exact ofQuotable hq
    | false => exact ofClosed (closed_quoted hq)
  · refine ⟨closed_infixed op hl.closed hr.closed, fun hi => ?_⟩
    -- Without a literal around it, this is no part of one.
    have hf : splice = false := by
      cases splice with
      | true => simp [hs rfl, hi] at hc
      | false => rfl
    rw [hf]
    exact (ofClosed (closed_infixed op hl.closed hr.closed)).part hi

end Fits

end Groovy

open Groovy

section Trees

variable (interpolate : Bool)

mutual

theorem Expr.groovy_fits : (expr : Expr) →
    Place.AllRaw .groovy Unmarked Unmarked (.expr expr :: expr.inside .groovy) →
      Fits interpolate expr.isStringPart (expr.doc ⟨.groovy, interpolate⟩)
  | .literal value, h => .literal value h.numeral
  | .binary left op right concat, h =>
    .binary (by cases op <;> cases concat <;> simp [Expr.isStringPart])
      (left.groovy_fits h.inside.left) (right.groovy_fits h.inside.right)
  | .unary op operand, h => .ofClosed (closed_unary op (operand.groovy_fits h.inside).closed)
  | .parens inner, h => .ofClosed (closed_parens (inner.groovy_fits h.inside).closed)
  | .ident name, h => .ofClosed (closed_text (h.name name (.head _)))
  | .this, _ => .ofClosed closed_this
  | .member object name, h =>
    .ofClosed (closed_member (object.groovy_fits h.inside).closed (h.name name (.head _)))
  | .assign target value, h =>
    .ofClosed (closed_assign (target.groovy_fits h.inside.left).closed
      (value.groovy_fits h.inside.right).closed)
  | .conditional test consequent alternative, h =>
    .ofClosed (closed_conditional _ (test.groovy_fits h.inside.left.left).closed
      (consequent.groovy_fits h.inside.left.right).closed
      (alternative.groovy_fits h.inside.right).closed)
  | .call none method args, h =>
    .ofClosed (closed_call nofun (h.name method (.head _)) (Expr.groovy_all args h.inside))
  | .call (some receiver) method args, h => by
    have hr := closed_receiver receiver.isApiType (receiver.groovy_fits h.inside.left).closed
    refine .ofClosed (closed_call ?_ (h.name method (.head _))
      (Expr.groovy_all args h.inside.right))
    rintro doc ⟨⟩
    exact hr
  | .construct ty args, h => .ofClosed (closed_construct h.name (Expr.groovy_all args h.inside))
  | .lambda params body, h => .ofClosed (closed_closure body h.name (body.groovy_closed h.inside))
  | .enumConstant ty constant, h =>
    .ofClosed (closed_enumConstant (fun text hm => h.name text (.tail _ hm))
      (h.name constant (.head _)))
  | .apiType ty, h => .ofClosed (closed_reference h.name)
  | .jsonObject members, h =>
    .ofClosed (closed_object (Member.groovy_all true members (fun _ => h.name) h.inside))
  | .jsonArray values, h => .ofClosed (closed_array (Expr.groovy_all values h.inside))
  | .dataObject ty members, h =>
    .ofClosed (closed_object (Member.groovy_all false members nofun h.inside))
  | .valueOf kind inner, h => .ofClosed (inner.groovy_fits h.inside).closed
  | .dataAssign object name value, h =>
    .ofClosed (closed_assign (closed_member (object.groovy_fits h.inside.left).closed
      (h.name name (.head _))) (value.groovy_fits h.inside.right).closed)
  | .dataMember object name, h =>
    .ofClosed (closed_member (object.groovy_fits h.inside).closed (h.name name (.head _)))
  | .jsonAssign object key value, h =>
    .ofClosed (closed_assign (closed_jsonPlace h.name
      (object.groovy_fits h.inside.left.left).closed (key.groovy_fits h.inside.left.right).closed)
      (value.groovy_fits h.inside.right).closed)
  | .jsonMember object key, h =>
    .ofClosed (closed_jsonPlace h.name (object.groovy_fits h.inside.left).closed
      (key.groovy_fits h.inside.right).closed)
  | .jsonObjectText object, h | .jsonArrayText object, h =>
    .ofClosed (closed_jsonText (object.groovy_fits h.inside).closed)
  | .mapGet map key, h =>
    .ofClosed (closed_index (map.groovy_fits h.inside.left).closed
      (key.groovy_fits h.inside.right).closed)
  | .mapForEach map key value body, h =>
    .ofClosed (closed_mapForEach body (map.groovy_fits h.inside.left).closed h.name
      (body.groovy_closed h.inside.right))
  | .methodReference receiver method, h =>
    .ofClosed (closed_methodReference (receiver.groovy_fits h.inside).closed
      (h.name method (.head _)))
  | .console message, h => .ofClosed (closed_console (message.groovy_fits h.inside).closed)
  | .asyncResult name, h => .ofClosed (closed_text (h.name name (.head _)))

theorem Expr.groovy_all : (exprs : List Expr) →
    Place.AllRaw .groovy Unmarked Unmarked (Expr.insideAll .groovy exprs) →
      ∀ doc ∈ Expr.docs ⟨.groovy, interpolate⟩ exprs, Closed doc
  | [], _ => nofun
  | expr :: rest, h =>
    List.forall_mem_cons.mpr ⟨(expr.groovy_fits h.left).closed, Expr.groovy_all rest h.right⟩

theorem Expr.groovy_closed? : (expr : Option Expr) →
    Place.AllRaw .groovy Unmarked Unmarked (Expr.inside? .groovy expr) →
      ∀ doc ∈ Expr.doc? ⟨.groovy, interpolate⟩ expr, Closed doc
  | none, _ => nofun
  | some expr, h => by
    rintro doc ⟨⟩
    exact (expr.groovy_fits h).closed

theorem LambdaBody.groovy_closed : (body : LambdaBody) →
    Place.AllRaw .groovy Unmarked Unmarked (body.inside .groovy) →
      Closed (body.doc ⟨.groovy, interpolate⟩)
  | .expr value, h => (value.groovy_fits h).closed
  | .block stmts, h => Stmt.groovy_lines stmts h

theorem Member.groovy_closed (unquote : Bool) : (member : Member) →
    (unquote = true → ∀ text ∈ member.name.stringKey?, Unmarked text) →
      Place.AllRaw .groovy Unmarked Unmarked (member.inside .groovy) →
        Closed (member.doc ⟨.groovy, interpolate⟩ unquote .groovy)
  | .single name value, hk, h =>
    closed_entry (closed_key hk (name.groovy_fits h.left).closed) (value.groovy_fits h.right).closed
  | .array name values, hk, h =>
    closed_entry (closed_key hk (name.groovy_fits h.left).closed)
      (closed_array (Expr.groovy_all values h.right))

theorem Member.groovy_all (unquote : Bool) : (members : List Member) →
    (unquote = true → ∀ text ∈ Member.stringKeys members, Unmarked text) →
      Place.AllRaw .groovy Unmarked Unmarked (Member.insideAll .groovy members) →
        ∀ doc ∈ Member.docs ⟨.groovy, interpolate⟩ unquote .groovy members, Closed doc
  | [], _, _ => nofun
  | member :: rest, hk, h =>
    List.forall_mem_cons.mpr
      ⟨member.groovy_closed unquote (fun hu => (Member.forall_stringKeys_cons.mp (hk hu)).1) h.left,
        Member.groovy_all unquote rest (fun hu => (Member.forall_stringKeys_cons.mp (hk hu)).2)
          h.right⟩

theorem Stmt.groovy_closed : (stmt : Stmt) →
    Place.AllRaw .groovy Unmarked Unmarked (.stmt stmt :: stmt.inside .groovy) →
      Closed (stmt.doc ⟨.groovy, interpolate⟩)
  | .block stmts, h => Stmt.groovy_lines stmts h.inside
  | .declare ty name init, h =>
    closed_declare ty (h.name name (.head _)) (Expr.groovy_closed? init h.inside)
  | .expr value, h => (value.groovy_fits h.inside).closed
  | .forLoop init test update body, h => by
    have hi := init.groovy_closed h.inside.left.left
    have ht := (test.groovy_fits h.inside.left.right).closed
    have hr : Place.AllRaw .groovy Unmarked Unmarked
        (.update update :: update.inside .groovy ++ .stmt body :: body.inside .groovy) :=
      h.inside.right
    have hb := closed_body body (body.groovy_closed hr.right)
    have hu : Closed (update.updateDoc ⟨.groovy, interpolate⟩) := by
      cases update with
      | unary op operand => exact closed_update op (operand.groovy_fits hr.left.inside).closed
      | _ => exact (Expr.groovy_fits _ hr.left.ofUpdate).closed
    rw [Stmt.doc_forLoop]
    exact closed_forLoop hi ht hu hb
  | .forEach name iterable body, h =>
    closed_forEach (h.name name (.head _)) (iterable.groovy_fits h.inside.left).closed
      (closed_body body (body.groovy_closed h.inside.right))
  | .throwNew exception reason, h =>
    closed_throwNew (h.name exception (.head _)) (Expr.groovy_closed? reason h.inside)
  | .returnWith value, h => closed_returnWith (Expr.groovy_closed? value h.inside)
  | .ifElse test consequent none, h =>
    closed_ifElse (test.groovy_fits h.inside.left).closed
      (closed_body consequent (consequent.groovy_closed h.inside.right)) nofun
  | .ifElse test consequent (some alternative), h => by
    have ha := alternative.groovy_closed h.inside.right
    refine closed_ifElse (test.groovy_fits h.inside.left.left).closed
      (closed_body consequent (consequent.groovy_closed h.inside.left.right)) ?_
    rintro part ⟨⟩
    exact ha
  | .whileLoop test body, h =>
    closed_whileLoop (test.groovy_fits h.inside.left).closed
      (closed_body body (body.groovy_closed h.inside.right))
  | .breakLoop, _ => closed_text (by decide)
  | .continueLoop, _ => closed_text (by decide)

theorem Stmt.groovy_lines : (stmts : List Stmt) →
    Place.AllRaw .groovy Unmarked Unmarked (Stmt.insideAll .groovy stmts) →
      Closed (Stmt.lines ⟨.groovy, interpolate⟩ stmts)
  | [], _ => fun _ => rfl
  | stmt :: rest, h =>
    closed_append (closed_line (stmt.groovy_closed h.left)) (Stmt.groovy_lines rest h.right)

end

end Trees

namespace Session

/-- Groovy renders every program. -/
theorem render_groovy {session : Session} (hg : session.dialect = .groovy) (program : Program) :
    ∃ text, (session.render program).1 = .ok text := by
  obtain ⟨pass, hp⟩ := bodyRun_done session program (by rw [hg, Place.firstRefused?_groovy])
  exact ⟨_, (render_ok_iff session program _).mpr ⟨pass, hp, rfl⟩⟩

/-- If brackets, quotes and backslashes stand in string and character literals only, then the text
of a program nests its brackets, its literals and the splices in them, and leaves nothing open. -/
theorem groovy_text_nests (session : Session) (program : Program)
    (hg : session.dialect = .groovy) (hu : Unmarked session.settings.indent)
    (hi : ∀ ty ∈ session.imports.types, ∀ name ∈ ty.written .groovy, Unmarked name)
    (hn : ∀ name ∈ program.names .groovy, Unmarked name)
    (hd : ∀ digits ∈ program.numerals .groovy, Unmarked digits) :
    ∃ text, (session.render program).1 = .ok text ∧ Groovy.scanner.scan text = .code [] := by
  obtain ⟨text, h⟩ := render_groovy hg program
  have hr : Place.AllRaw .groovy Unmarked Unmarked (program.places .groovy) := Program.allRaw hn hd
  have hw := written_of_render (by simp [hg]) h (hg ▸ hi) (hg ▸ hn)
  have hs : ∀ imports ty, session.dialect.spell imports ty = ty.simpleName := by
    intro imports ty
    rw [hg, Dialect.spell]
  have hh : ∀ line ∈ session.dialect.header (session.render program).2.imports,
      Groovy.scanner.scan (line ++ "\n") = Groovy.scanner.start := by
    rw [hg] at hw ⊢
    intro line hm
    obtain ⟨ty, ht, rfl⟩ := List.mem_map.mp hm
    have hty : Unmarked (Dialect.groovyName ty) := hw ty ht _ (.tail _ (.head _))
    exact closed_text (unmarked_append (unmarked_append (by decide) hty) (by decide)) []
  refine ⟨text, h, ?_⟩
  rw [scan_render h (overlooks hu) (fun imports ty _ _ => hs imports ty) hh]
  have hb := Stmt.groovy_lines session.settings.interpolate program.body hr []
  rwa [← hg] at hb

def closureSession : Session where
  dialect := .groovy
  imports := Imports.empty.insert (.ofName .enumeration "io.a.Color")

/-- A literal with a closure spliced into it, and in the closure a map with a literal. -/
def closureInString : Program where
  body := [.declare .void "s" (some (Expr.concat (.literal (.string "a\"$\x7b"))
    (.call (some (.lambda [] (.expr (.jsonObject [.single (.literal (.string "k"))
      (Expr.concat (.literal (.string ")\\")) (.literal (.char '\'')))])))) "call"
      [.literal (.long "7")])))]

def closureInStringText : String :=
  "import io.a.Color\n" ++
    "def s = \"a\\\"\\$\x7b$\x7b\x7b ->\n  [\n    k:\")\\\\$\x7b'\\''\x7d\"\n  ]\n" ++
    "\x7d.call(7L)\x7d\"\n"

theorem groovy_text_nests_closureInString :
    "k" ∈ closureInString.names .groovy ∧ "7" ∈ closureInString.numerals .groovy ∧
      (closureSession.render closureInString).1 = .ok closureInStringText ∧
      Groovy.scanner.scan closureInStringText = .code [] := by
  have h : (closureSession.render closureInString).1 = .ok closureInStringText := by
    decide +kernel
  obtain ⟨text, ht, hs⟩ := groovy_text_nests closureSession closureInString rfl
    (by decide) (by decide +kernel) (by decide) (by decide)
  obtain rfl : text = closureInStringText := Except.ok.inj (ht.symm.trans h)
  exact ⟨by decide, by decide, h, hs⟩

end Session

end Polyglot
