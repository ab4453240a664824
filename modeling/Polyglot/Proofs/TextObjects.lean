import Polyglot.Proofs.DataObjects
import Polyglot.Proofs.Escapes
import Polyglot.Proofs.PlainText
import Polyglot.Proofs.Scan

/-! Object literals whose names and values are texts, and a reader for those with quoted names. It
first takes the text apart into marks and quoted texts, and then reads the members off these. -/
namespace Polyglot

/-- A member with a text as its name, and one text or an array of texts as its value. -/
inductive TextMember where
  | single (name value : String)
  | array (name : String) (values : List String)
  deriving DecidableEq

namespace TextMember

def name : TextMember → String
  | .single name _ => name
  | .array name _ => name

def member : TextMember → Member
  | .single name value => .single (.literal (.string name)) (.literal (.string value))
  | .array name values =>
    .array (.literal (.string name)) (values.map fun value => .literal (.string value))

/-- Different names make a data object. -/
theorem ofMembers_of_nodup {ty : ClassType} {members : List TextMember}
    (h : (members.map name).Nodup) :
    DataObject.ofMembers ty (members.map member) =
      .ok ⟨ty, members.map member⟩ := by
  refine DataObject.ofMembers_eq_ok_iff.mpr ⟨rfl, ?_⟩
  have hn : (members.map member).map Polyglot.Member.name =
      (members.map name).map fun name => .literal (.string name) := by
    rw [List.map_map, List.map_map]
    apply List.map_congr_left
    rintro (⟨name, value⟩ | ⟨name, values⟩) -
    · rfl
    · rfl
  rw [DataObject.Distinct, hn]
  exact h.map fun first second he => Literal.string.inj (Expr.literal.inj he)

end TextMember

namespace Text

/-- White space, as Unicode has it. -/
def isBlank (c : Char) : Bool :=
  let code := c.toNat
  (0x9 ≤ code && code ≤ 0xd) || (0x2000 ≤ code && code ≤ 0x200a) ||
    code ∈ [0x20, 0x85, 0xa0, 0x1680, 0x2028, 0x2029, 0x202f, 0x205f, 0x3000]

end Text

namespace TextObject

inductive Token where
  | mark (c : Char)
  | text (value : String)
  deriving DecidableEq

/-- How far the text has been taken apart. -/
inductive Lexing where
  | outside (tokens : List Token)
  | inside (tokens : List Token) (chars : List Char)
  /-- Behind a backslash inside quotes. -/
  | escaped (tokens : List Token) (chars : List Char)
  | broken

/-- Quotes stay on their line, and a dollar sign in a template would open a splice. -/
def Lexing.step (template : Bool) : Lexing → Char → Lexing
  | .outside tokens, c =>
    if c = '"' then .inside tokens []
    else if Text.isBlank c then .outside tokens
    else .outside (tokens ++ [.mark c])
  | .inside tokens chars, c =>
    if c = '"' then .outside (tokens ++ [.text (String.ofList chars)])
    else if c = '\\' then .escaped tokens chars
    else if c = '\n' ∨ c = '\r' ∨ template ∧ c = '$' then .broken
    else .inside tokens (chars ++ [c])
  | .escaped tokens chars, c =>
    match Text.unescape? template c with
    | some meant => .inside tokens (chars ++ [meant])
    | none => .broken
  | .broken, _ => .broken

def lexer (template : Bool) : Scanner Lexing where
  start := .outside []
  step := Lexing.step template

def tokens? (template : Bool) (text : String) : Option (List Token) :=
  match (lexer template).scan text with
  | .outside tokens => some tokens
  | _ => none

/-- The marks around names and values. -/
structure Form where
  opening : Char
  closing : Char
  /-- In front of a name. -/
  before : List Char
  /-- Between a name and its value. -/
  behind : List Char
  /-- Between the brackets of an object without members. -/
  hollow : List Char
  /-- A dollar sign has a meaning inside quotes. -/
  template : Bool

namespace Form

def groovy : Form where
  opening := '['
  closing := ']'
  before := []
  behind := [':']
  hollow := [':']
  template := true

def lua : Form where
  opening := '{'
  closing := '}'
  before := ['[']
  behind := [']', '=']
  hollow := []
  template := false

/-- The tokens behind these marks. -/
def marks? : List Char → List Token → Option (List Token)
  | [], tokens => some tokens
  | c :: marks, .mark d :: tokens => if c = d then marks? marks tokens else none
  | _, _ => none

variable (form : Form)

def name? (tokens : List Token) : Option (String × List Token) :=
  match marks? form.before tokens with
  | some (.text name :: rest) => (marks? form.behind rest).map (name, ·)
  | _ => none

/-- Texts with commas between them, up to the closing bracket. -/
def values? : List Token → Option (List String × List Token)
  | .text value :: .mark c :: rest =>
    if c = ',' then (values? rest).map fun (values, rest) => (value :: values, rest)
    else if c = form.closing then some ([value], rest)
    else none
  | _ => none

def value? (name : String) : List Token → Option (TextMember × List Token)
  | .text value :: rest => some (.single name value, rest)
  | .mark c :: .mark d :: rest =>
    if c = form.opening ∧ d = form.closing then some (.array name [], rest) else none
  | .mark c :: rest =>
    if c = form.opening then
      (form.values? rest).map fun (values, rest) => (.array name values, rest)
    else none
  | [] => none

def member? (tokens : List Token) : Option (TextMember × List Token) :=
  (form.name? tokens).bind fun (name, rest) => form.value? name rest

theorem length_of_marks? {marks : List Char} {tokens rest : List Token}
    (h : marks? marks tokens = some rest) : rest.length ≤ tokens.length := by
  fun_induction marks? marks tokens with
  | case1 tokens => exact Nat.le_of_eq (congrArg List.length (Option.some.inj h)).symm
  | case2 marks c tokens ih => exact Nat.le_succ_of_le (ih h)
  | case3 | case4 => cases h

variable {form} {name : String} {member : TextMember} {tokens rest : List Token}

theorem length_of_name? (h : form.name? tokens = some (name, rest)) :
    rest.length ≤ tokens.length := by
  unfold name? at h
  split at h
  · next hb =>
    obtain ⟨others, ho, he⟩ := Option.map_eq_some_iff.mp h
    obtain ⟨rfl, rfl⟩ := Prod.mk.inj he
    exact Nat.le_trans (length_of_marks? ho) (Nat.le_of_succ_le (length_of_marks? hb))
  · cases h

theorem length_of_values? {values : List String} (h : form.values? tokens = some (values, rest)) :
    rest.length < tokens.length := by
  fun_induction values? form tokens generalizing values with
  | case1 value others ih =>
    obtain ⟨⟨more, last⟩, hm, he⟩ := Option.map_eq_some_iff.mp h
    obtain ⟨rfl, rfl⟩ := Prod.mk.inj he
    exact Nat.lt_succ_of_lt (Nat.lt_succ_of_lt (ih hm))
  | case2 value others hc =>
    obtain ⟨rfl, rfl⟩ := Prod.mk.inj (Option.some.inj h)
    exact Nat.lt_succ_of_lt (Nat.lt_succ_self _)
  | case3 | case4 => cases h

theorem length_of_value? (h : form.value? name tokens = some (member, rest)) :
    rest.length < tokens.length := by
  unfold value? at h
  split at h
  · obtain ⟨rfl, rfl⟩ := Prod.mk.inj (Option.some.inj h)
    exact Nat.lt_succ_self _
  · split_ifs at h
    obtain ⟨rfl, rfl⟩ := Prod.mk.inj (Option.some.inj h)
    exact Nat.lt_succ_of_lt (Nat.lt_succ_self _)
  · split_ifs at h
    obtain ⟨⟨values, others⟩, hv, he⟩ := Option.map_eq_some_iff.mp h
    obtain ⟨rfl, rfl⟩ := Prod.mk.inj he
    exact Nat.lt_succ_of_lt (length_of_values? hv)
  · cases h

/-- A member takes at least one token. -/
theorem length_of_member? (h : form.member? tokens = some (member, rest)) :
    rest.length < tokens.length := by
  obtain ⟨⟨name, others⟩, hn, hv⟩ := Option.bind_eq_some_iff.mp h
  exact Nat.lt_of_lt_of_le (length_of_value? hv) (length_of_name? hn)

variable (form)

/-- Members with commas between them, up to the closing bracket at the very end. -/
def members? (tokens : List Token) : Option (List TextMember) :=
  match _h : form.member? tokens with
  | some (member, [.mark c]) => if c = form.closing then some [member] else none
  | some (member, .mark c :: rest) =>
    if c = ',' then (members? rest).map (member :: ·) else none
  | _ => none
termination_by tokens.length
decreasing_by exact Nat.lt_of_succ_lt (length_of_member? _h)

def object? : List Token → Option (List TextMember)
  | .mark c :: rest =>
    if c ≠ form.opening then none
    else if rest = (form.hollow ++ [form.closing]).map .mark then some []
    else form.members? rest
  | _ => none

/-- The members of an object literal. -/
def read? (text : String) : Option (List TextMember) :=
  (tokens? form.template text).bind form.object?

end Form

/-! The tokens of an object literal. -/

/-- Rows with commas between them. -/
def separated : List (List Token) → List Token
  | [] => []
  | [row] => row
  | row :: rest => row ++ .mark ',' :: separated rest

namespace Form

variable (form : Form)

def container (hollow : List Char) (rows : List (List Token)) : List Token :=
  .mark form.opening ::
    ((if rows.isEmpty then hollow.map .mark else separated rows) ++ [.mark form.closing])

def key (name : String) : List Token :=
  form.before.map .mark ++ .text name :: form.behind.map .mark

def entry : TextMember → List Token
  | .single name value => form.key name ++ [.text value]
  | .array name values => form.key name ++ form.container [] (values.map fun value => [.text value])

def object (members : List TextMember) : List Token :=
  form.container form.hollow (members.map form.entry)

theorem marks?_append (marks : List Char) (rest : List Token) :
    marks? marks (marks.map .mark ++ rest) = some rest := by
  induction marks with
  | nil => rfl
  | cons c marks ih => rwa [List.map_cons, List.cons_append, marks?, if_pos rfl]

variable {form}

theorem name?_append (name : String) (rest : List Token) :
    form.name? (form.key name ++ rest) = some (name, rest) := by
  rw [name?, key, List.append_assoc, marks?_append]
  simp only [List.cons_append]
  rw [marks?_append]
  rfl

theorem values?_append (hc : form.closing ≠ ',') (value : String) (values : List String)
    (rest : List Token) :
    form.values? (separated ((value :: values).map fun value => [.text value]) ++
      .mark form.closing :: rest) = some (value :: values, rest) := by
  induction values generalizing value with
  | nil => simp [separated, values?, hc]
  | cons next values ih =>
    have hn := ih next
    rw [List.map_cons] at hn
    simp [separated, values?, hn]

theorem member?_append (hc : form.closing ≠ ',') (member : TextMember) (rest : List Token) :
    form.member? (form.entry member ++ rest) = some (member, rest) := by
  cases member with
  | single name value =>
    rw [member?, entry, List.append_assoc, name?_append]
    rfl
  | array name values =>
    rw [member?, entry, List.append_assoc, name?_append, Option.bind_some]
    cases values with
    | nil => simp [container, value?]
    | cons value values =>
      have hv := values?_append hc value values rest
      rw [List.map_cons] at hv ⊢
      cases values <;> simpa [container, separated, value?] using hv

theorem members?_last (h : form.member? tokens = some (member, [.mark form.closing])) :
    form.members? tokens = some [member] := by
  rw [members?]
  split <;> simp_all

theorem members?_more (h : form.member? tokens = some (member, .mark ',' :: rest))
    (hr : rest ≠ []) : form.members? tokens = (form.members? rest).map (member :: ·) := by
  rw [members?]
  split <;> simp_all

/-- The members are read off their tokens. -/
theorem members?_separated (hc : form.closing ≠ ',') (member : TextMember)
    (members : List TextMember) :
    form.members? (separated ((member :: members).map form.entry) ++ [.mark form.closing]) =
      some (member :: members) := by
  induction members generalizing member with
  | nil => exact members?_last (member?_append hc member _)
  | cons next members ih =>
    have hs : separated ((member :: next :: members).map form.entry) ++ [.mark form.closing] =
        form.entry member ++ .mark ',' ::
          (separated ((next :: members).map form.entry) ++ [.mark form.closing]) := by
      simp [separated]
    rw [hs, members?_more (member?_append hc member _) (by simp), ih next]
    rfl

theorem text_mem_entry (member : TextMember) : .text member.name ∈ form.entry member := by
  cases member <;> simp [entry, key, TextMember.name]

theorem object?_object (hc : form.closing ≠ ',') (members : List TextMember) :
    form.object? (form.object members) = some members := by
  cases members with
  | nil => simp [object, container, object?]
  | cons member members =>
    -- An object with members has names in it, and one without has marks only.
    have hn : separated ((member :: members).map form.entry) ++ [.mark form.closing] ≠
        (form.hollow ++ [form.closing]).map .mark := by
      intro he
      have hm : .text member.name ∈ separated ((member :: members).map form.entry) := by
        cases members <;> simp [separated, text_mem_entry]
      obtain ⟨c, -, hc⟩ := List.mem_map.mp (he ▸ List.mem_append_left _ hm)
      cases hc
    have ho : form.object (member :: members) = .mark form.opening ::
        (separated ((member :: members).map form.entry) ++ [.mark form.closing]) := rfl
    rw [ho, object?, if_neg (not_not_intro rfl), if_neg hn, members?_separated hc]

end Form

section Lexer

variable {template : Bool}

open Lexing

theorem overlooks_lexer {unit : String} (h : ∀ c ∈ unit.toList, Text.isBlank c = true) :
    (lexer template).Overlooks unit where
  start := rfl
  newline state := by cases state <;> rfl
  margin state c hc := by
    have hq : c ≠ '"' := by
      rintro rfl
      exact absurd (h _ hc) (by decide)
    cases state with
    | outside tokens =>
      show Lexing.step template (.outside tokens) c = .outside tokens
      simp [step, hq, h c hc]
    | inside | escaped | broken => rfl

/-- What is written inside quotes is read without its escapes. -/
theorem read_escaped (seen : List Token) (chars text : List Char) :
    (lexer template).read (.inside seen chars)
        (String.ofList (text.flatMap (Text.escapeIn template))) =
      .inside seen (chars ++ text) := by
  rw [Scanner.read, String.toList_ofList]
  induction text generalizing chars with
  | nil => simp
  | cons c rest ih =>
    have hc : (Text.escapeIn template c).foldl (lexer template).step (.inside seen chars) =
        .inside seen (chars ++ [c]) := by
      obtain ⟨code, he, hu⟩ | ⟨he, hn, hd⟩ := Text.escapeIn_cases template c
      · simp [he, lexer, step, hu]
      · simp only [List.mem_cons, List.not_mem_nil, or_false, not_or] at hn
        simpa [he, lexer, step, hn] using hd
    rw [List.flatMap_cons, List.foldl_append, hc, ih, List.append_assoc]
    rfl

/-- A text without quotes, with these marks between its blanks. -/
def Marked (content : String) (marks : List Char) : Prop :=
  '"' ∉ content.toList ∧ content.toList.filter (!Text.isBlank ·) = marks

instance (content : String) (marks : List Char) : Decidable (Marked content marks) :=
  inferInstanceAs (Decidable (_ ∧ _))

theorem read_marked {content : String} {marks : List Char} (h : Marked content marks)
    (seen : List Token) :
    (lexer template).read (.outside seen) content = .outside (seen ++ marks.map .mark) := by
  obtain ⟨hq, rfl⟩ := h
  unfold Scanner.read
  generalize content.toList = chars at hq
  induction chars generalizing seen with
  | nil => simp
  | cons c rest ih =>
    obtain ⟨hc, hr⟩ := List.ne_and_not_mem_of_not_mem_cons hq
    have hs : (lexer template).step (.outside seen) c =
        if Text.isBlank c then .outside seen else .outside (seen ++ [.mark c]) :=
      if_neg (Ne.symm hc)
    rw [List.foldl_cons, hs]
    by_cases hb : Text.isBlank c = true
    · simp [hb, ih _ hr]
    · simp [hb, ih _ hr]

/-- Wherever the document is played, it goes through and adds these tokens. -/
def Shows (template : Bool) (doc : Doc) (tokens : List Token) : Prop :=
  ∀ (dialect : Dialect) (pass : Pass) (seen : List Token),
    (lexer template).Views pass.page (.outside seen) →
      ∃ page, doc.play dialect pass = .done ⟨page, pass.imports⟩ ∧
        (lexer template).Views page (.outside (seen ++ tokens))

namespace Shows

variable {first second doc : Doc} {tokens rest : List Token}

theorem text {content : String} {marks : List Char} (h : Marked content marks) :
    Shows template (.text content) (marks.map .mark) := by
  intro dialect pass seen hv
  refine ⟨pass.page.write content, rfl, ?_⟩
  rw [← read_marked h]
  exact hv.write content

theorem append (hf : Shows template first tokens) (hs : Shows template second rest) :
    Shows template (first ++ second) (tokens ++ rest) := by
  intro dialect pass seen hv
  obtain ⟨middle, hm, hv⟩ := hf dialect pass seen hv
  obtain ⟨last, hl, hv⟩ := hs dialect ⟨middle, pass.imports⟩ _ hv
  rw [List.append_assoc] at hv
  refine ⟨last, ?_, hv⟩
  show (first.play dialect pass).andThen (second.play dialect) = _
  rw [hm, Outcome.andThen_done, hl]

theorem nest (h : Shows template doc tokens) : Shows template (.nest doc) tokens := by
  intro dialect pass seen hv
  obtain ⟨page, hp, hv⟩ := h dialect ⟨pass.page.indent, pass.imports⟩ seen hv.indent
  refine ⟨page.unindent, ?_, hv.unindent⟩
  rw [Doc.play, hp]
  rfl

theorem quoted (value : String) :
    Shows template (.quoted (.text (String.ofList (value.toList.flatMap (Text.escapeIn template)))))
      [.text value] := by
  intro dialect pass seen hv
  have hp := @Doc.Plain.quoted _ _
    (.text (String.ofList (value.toList.flatMap (Text.escapeIn template))))
  have ho : (lexer template).read (.outside seen) "\"" = .inside seen [] := rfl
  have hc (chars : List Char) : (lexer template).read (.inside seen chars) "\"" =
      .outside (seen ++ [.text (String.ofList chars)]) := rfl
  have hw := hv.write
    ("\"" ++ String.ofList (value.toList.flatMap (Text.escapeIn template)) ++ "\"")
  rw [Scanner.read_append, Scanner.read_append, ho, read_escaped, hc, List.nil_append,
    String.ofList_toList] at hw
  exact ⟨_, hp.play dialect pass, hw⟩

theorem empty : Shows template .empty [] :=
  fun _ pass seen hv => ⟨pass.page, rfl, by rwa [List.append_nil]⟩

theorem rows {docs : List Doc} {rows : List (List Token)}
    (h : List.Forall₂ (Shows template) docs rows) :
    Shows template (Phrase.rows "," docs) (separated rows) := by
  have hn : Shows template (.text "\n") [] := text (show Marked "\n" [] by decide)
  have hc : Shows template (.text ",\n") [.mark ','] := text (show Marked ",\n" [','] by decide)
  induction h with
  | nil => exact empty
  | @cons doc row docs rows hd hr ih =>
    cases hr with
    | nil =>
      have hl := hd.append hn
      rwa [List.append_nil] at hl
    | cons hd' hr =>
      have hl := (hd.append hc).append ih
      rw [List.append_assoc] at hl
      exact hl

/-- Rows between brackets, or a shorter text if there are none. -/
theorem container {docs : List Doc} {rows : List (List Token)} {form : Form} {hollow : List Char}
    {opening closing hollowed : String} (h : List.Forall₂ (Shows template) docs rows)
    (ho : Marked (opening ++ "\n") [form.opening]) (hc : Marked closing [form.closing])
    (he : Marked hollowed (form.opening :: (hollow ++ [form.closing]))) :
    Shows template
      (if docs.isEmpty then .text hollowed
      else .text (opening ++ "\n") ++ .nest (Phrase.rows "," docs) ++ .text closing)
      (form.container hollow rows) := by
  cases h with
  | nil =>
    have ht : Shows template (.text hollowed) _ := text he
    rwa [List.map_cons, List.map_append] at ht
  | cons hd hr =>
    have ht : Shows template _ _ := ((text ho).append (rows (.cons hd hr)).nest).append (text hc)
    exact ht

end Shows

end Lexer

/-- The marks of a dialect that has object literals. -/
def Form.of : Dialect → Form
  | .lua => .lua
  | _ => .groovy

section Documents

variable {dialect : Dialect} (hd : dialect ≠ .plain)

include hd

theorem shows_text (interpolate : Bool) (value : String) :
    Shows (Form.of dialect).template ((Expr.literal (.string value)).doc ⟨dialect, interpolate⟩)
      [.text value] := by
  cases dialect with
  | plain => exact absurd rfl hd
  | groovy => exact Shows.quoted value
  | lua => exact Shows.quoted value

theorem shows_texts (interpolate : Bool) (values : List String) :
    List.Forall₂ (Shows (Form.of dialect).template)
      (Expr.docs ⟨dialect, interpolate⟩ (values.map fun value => .literal (.string value)))
      (values.map fun value => [.text value]) := by
  induction values with
  | nil => exact .nil
  | cons value values ih => exact .cons (shows_text hd interpolate value) ih

theorem shows_array {docs : List Doc} {rows : List (List Token)}
    (h : List.Forall₂ (Shows (Form.of dialect).template) docs rows) :
    Shows (Form.of dialect).template (Phrase.array dialect.containers docs)
      ((Form.of dialect).container [] rows) := by
  cases dialect with
  | plain => exact absurd rfl hd
  | groovy => exact .container h (by decide) (by decide) (by decide)
  | lua => exact .container h (by decide) (by decide) (by decide)

theorem shows_object {docs : List Doc} {rows : List (List Token)}
    (h : List.Forall₂ (Shows (Form.of dialect).template) docs rows) :
    Shows (Form.of dialect).template (Phrase.object dialect.containers docs)
      ((Form.of dialect).container (Form.of dialect).hollow rows) := by
  cases dialect with
  | plain => exact absurd rfl hd
  | groovy => exact .container h (by decide) (by decide) (by decide)
  | lua => exact .container h (by decide) (by decide) (by decide)

/-- A quoted name with what separates it from the value. -/
theorem shows_key (interpolate : Bool) (name : String) :
    Shows (Form.of dialect).template
      (Phrase.key dialect false (.literal (.string name))
          ((Expr.literal (.string name)).doc ⟨dialect, interpolate⟩) ++
        .text dialect.containers.keySeparator)
      ((Form.of dialect).key name) := by
  have ht := shows_text hd interpolate name
  cases dialect with
  | plain => exact absurd rfl hd
  | groovy => exact ht.append (.text (show Marked ":" [':'] by decide))
  | lua =>
    have ho : Shows false (.text "[") [.mark '['] := .text (show Marked "[" ['['] by decide)
    have hc : Shows false (.text "]") [.mark ']'] := .text (show Marked "]" [']'] by decide)
    exact ((ho.append ht).append hc).append (.text (show Marked "=" ['='] by decide))

theorem shows_member (interpolate : Bool) (member : TextMember) :
    Shows (Form.of dialect).template
      (member.member.doc ⟨dialect, interpolate⟩ false dialect.containers)
      ((Form.of dialect).entry member) := by
  cases member with
  | single name value =>
    exact (shows_key hd interpolate name).append (shows_text hd interpolate value)
  | array name values =>
    have ha := shows_array hd (shows_texts hd interpolate values)
    exact (shows_key hd interpolate name).append ha

theorem shows_members (interpolate : Bool) (members : List TextMember) :
    Shows (Form.of dialect).template
      (Phrase.object dialect.containers
        (Member.docs ⟨dialect, interpolate⟩ false dialect.containers
          (members.map TextMember.member)))
      ((Form.of dialect).object members) := by
  have hm : List.Forall₂ (Shows (Form.of dialect).template)
      (Member.docs ⟨dialect, interpolate⟩ false dialect.containers (members.map TextMember.member))
      (members.map (Form.of dialect).entry) := by
    induction members with
    | nil => exact .nil
    | cons member members ih => exact .cons (shows_member hd interpolate member) ih
  exact shows_object hd hm

end Documents

end TextObject

namespace Session

open TextObject

variable {session : Session}

theorem renderExpr_of_shows (hb : ∀ c ∈ session.settings.indent.toList, Text.isBlank c = true)
    {template : Bool} {expr : Expr} {tokens : List Token}
    (h : Shows template (expr.doc session.style) tokens) :
    ∃ text, (session.renderExpr expr).1 = .ok text ∧ tokens? template text = some tokens := by
  have ho := @overlooks_lexer template _ hb
  obtain ⟨page, hp, hv⟩ := h session.dialect
    ⟨⟨"", session.settings.indent, 0, true, 1⟩, session.imports⟩ [] ⟨rfl, fun _ => ho.start, ho⟩
  refine ⟨page.text, renderExpr_of_play hp, ?_⟩
  rw [tokens?, hv.scan_eq]
  rfl

/-- An object with quoted names is rendered, and its members are read off the text. -/
theorem read_renderExpr (hb : ∀ c ∈ session.settings.indent.toList, Text.isBlank c = true)
    (hd : session.dialect ≠ .plain) {expr : Expr} {members : List TextMember}
    (he : expr.doc session.style = Phrase.object session.dialect.containers
      (Member.docs session.style false session.dialect.containers
        (members.map TextMember.member))) :
    ∃ text, (session.renderExpr expr).1 = .ok text ∧
      (Form.of session.dialect).read? text = some members := by
  have hs := shows_members hd session.settings.interpolate members
  obtain ⟨text, ht, hk⟩ := renderExpr_of_shows hb (he ▸ hs)
  have hc : (Form.of session.dialect).closing ≠ ',' := by
    cases session.dialect <;> decide
  exact ⟨text, ht, by rw [Form.read?, hk, Option.bind_some, Form.object?_object hc]⟩

theorem eq_of_read {form : Form} {expr other : Expr} {members others : List TextMember}
    (h : ∃ text, (session.renderExpr expr).1 = .ok text ∧ form.read? text = some members)
    (h' : ∃ text, (session.renderExpr other).1 = .ok text ∧ form.read? text = some others)
    (he : (session.renderExpr expr).1 = (session.renderExpr other).1) : members = others := by
  obtain ⟨text, ht, hr⟩ := h
  obtain ⟨text', ht', hr'⟩ := h'
  obtain rfl := Except.ok.inj (ht.symm.trans (he.trans ht'))
  exact Option.some.inj (hr.symm.trans hr')

/-- The members of an object with quoted names can be read off its text, so that the text tells
them apart: of a JSON object in Lua, and of a data object in Groovy. -/
theorem quotedNames_readable (session : Session)
    (hb : ∀ c ∈ session.settings.indent.toList, Text.isBlank c = true) :
    (session.dialect = .lua → ∀ members : List TextMember,
      (∃ text, (session.renderExpr (.jsonObject (members.map TextMember.member))).1 = .ok text ∧
        Form.lua.read? text = some members) ∧
      ∀ others : List TextMember,
        (session.renderExpr (.jsonObject (members.map TextMember.member))).1 =
          (session.renderExpr (.jsonObject (others.map TextMember.member))).1 →
        members = others) ∧
    (session.dialect = .groovy → ∀ (ty : ClassType) (members : List TextMember),
      (members.map TextMember.name).Nodup →
      ∃ object, DataObject.ofMembers ty (members.map TextMember.member) = .ok object ∧
        (∃ text, (session.renderExpr object.expr).1 = .ok text ∧
          Form.groovy.read? text = some members) ∧
        ∀ (ty' : ClassType) (others : List TextMember) (other : DataObject),
          DataObject.ofMembers ty' (others.map TextMember.member) = .ok other →
          (session.renderExpr object.expr).1 = (session.renderExpr other.expr).1 →
          members = others) := by
  constructor
  · intro hl members
    have hr (members : List TextMember) : ∃ text,
        (session.renderExpr (.jsonObject (members.map TextMember.member))).1 = .ok text ∧
          Form.lua.read? text = some members := by
      have he : (Expr.jsonObject (members.map TextMember.member)).doc session.style =
          Phrase.object session.dialect.containers (Member.docs session.style false
            session.dialect.containers (members.map TextMember.member)) := by
        simp [Expr.doc, style, Phrase.jsonObject, Dialect.containers, hl]
      have hr := read_renderExpr hb (by simp [hl]) he
      rwa [hl] at hr
    exact ⟨hr members, fun others => eq_of_read (hr members) (hr others)⟩
  · intro hg ty members hm
    have hr (ty : ClassType) (members : List TextMember) : ∃ text,
        (session.renderExpr (.dataObject ty (members.map TextMember.member))).1 = .ok text ∧
          Form.groovy.read? text = some members := by
      have he : (Expr.dataObject ty (members.map TextMember.member)).doc session.style =
          Phrase.object session.dialect.containers (Member.docs session.style false
            session.dialect.containers (members.map TextMember.member)) := by
        simp [Expr.doc, style, Phrase.dataObject, Dialect.containers, hg]
      have hr := read_renderExpr hb (by simp [hg]) he
      rwa [hg] at hr
    refine ⟨_, TextMember.ofMembers_of_nodup hm, hr ty members, fun ty' others other ho => ?_⟩
    obtain ⟨rfl, -⟩ := DataObject.ofMembers_eq_ok_iff.mp ho
    exact eq_of_read (hr ty members) (hr ty' others)

/-- Texts with quotes, brackets, commas, ends of lines and dollar signs in them. -/
theorem quotedNames_readable_delimiters :
    let members : List TextMember :=
      [.single "a\"]=" "$\x7bb\x7d\\", .array "\n" [], .array "" ["\",", "]\n"]]
    let lua : Session := { dialect := .lua, settings := { indent := "\t\u00a0" } }
    let groovy : Session := { dialect := .groovy }
    let ty : ClassType := { kind := .dataObject, name := "io.Options", simpleName := "Options" }
    (∃ text, (lua.renderExpr (.jsonObject (members.map TextMember.member))).1 = .ok text ∧
      Form.lua.read? text = some members) ∧
    ∃ object, DataObject.ofMembers ty (members.map TextMember.member) = .ok object ∧
      ∃ text, (groovy.renderExpr object.expr).1 = .ok text ∧
        Form.groovy.read? text = some members := by
  intro members lua groovy ty
  obtain ⟨hl, -⟩ := quotedNames_readable lua (List.all_eq_true.mp (by decide))
  obtain ⟨-, hg⟩ := quotedNames_readable groovy (List.all_eq_true.mp (by decide))
  obtain ⟨object, ho, hr, -⟩ := hg rfl ty members (by decide)
  exact ⟨(hl rfl members).1, object, ho, hr⟩

end Session

end Polyglot
