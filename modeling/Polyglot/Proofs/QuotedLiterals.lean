import Polyglot.Proofs.Escapes
import Polyglot.Proofs.PlainText

/-! Literals of strings and characters. The text of a literal stays on its line and does not depend
on the page, and a reader that starts at its first quote finds the last one and what is between
them, whatever comes behind. -/
namespace Polyglot

namespace Text

/-- The control characters that have an escape. -/
def controls : List Char := ['\n', '\r', '\t']

/-- What delimits a literal. In a template, a dollar sign would open a splice. -/
inductive Quotation where
  | double (template : Bool)
  | single
  deriving DecidableEq

namespace Quotation

def mark : Quotation → Char
  | .double _ => '"'
  | .single => '\''

/-- The character that a backslash in front of this one makes. -/
def meant? : Quotation → Char → Option Char
  | .double template, code => unescape? template code
  | .single, code => if code = '\'' then some '\'' else unescape? false code

/-- Characters that do not stand for themselves. -/
def isSpecial (quotation : Quotation) (c : Char) : Bool :=
  c = quotation.mark || c = '\\' || (quotation = .double true && c = '$')

/-- The content up to the closing quote, and what follows the quote. -/
def content? (quotation : Quotation) : List Char → Option (List Char × List Char)
  | [] => none
  | '\\' :: code :: rest =>
    (quotation.meant? code).bind fun c =>
      (content? quotation rest).map fun (content, rest) => (c :: content, rest)
  | c :: rest =>
    if c = quotation.mark then some ([], rest)
    else if quotation.isSpecial c then none
    else (content? quotation rest).map fun (content, rest) => (c :: content, rest)

/-- The content of a literal, and what follows the literal. -/
def read? (quotation : Quotation) : List Char → Option (List Char × List Char)
  | [] => none
  | c :: rest => if c = quotation.mark then quotation.content? rest else none

def escaped : Quotation → Char → List Char
  | .double template => escapeIn template
  | .single => escapeSingleChar

/-- A literal with this content. -/
def quoted (quotation : Quotation) (content : List Char) : List Char :=
  quotation.mark :: (content.flatMap quotation.escaped ++ [quotation.mark])

variable (quotation : Quotation)

theorem not_mem_controls_of_meant {code c : Char} (h : quotation.meant? code = some c) :
    code ∉ controls := by
  intro hm
  simp only [controls, List.mem_cons, List.not_mem_nil, or_false] at hm
  cases quotation with
  | double template => rcases hm with rfl | rfl | rfl <;> cases h
  | single => rcases hm with rfl | rfl | rfl <;> cases h

theorem isSpecial_eq_false {c : Char} (hm : c ≠ quotation.mark) (hb : c ≠ '\\')
    (hd : quotation = .double true → c ≠ '$') : quotation.isSpecial c = false := by
  simpa [isSpecial, hm, hb] using hd

/-- A character has a code behind a backslash, or it stands for itself. -/
theorem escaped_cases (c : Char) :
    (∃ code, quotation.escaped c = ['\\', code] ∧ quotation.meant? code = some c) ∨
      quotation.escaped c = [c] ∧ quotation.isSpecial c = false ∧ c ∉ controls := by
  have hp (hn : c ∉ ['\\', '"', '\n', '\r', '\t']) : c ≠ '\\' ∧ c ≠ '"' ∧ c ∉ controls := by
    simpa [controls] using hn
  cases quotation with
  | double template =>
    obtain hc | ⟨he, hn, hd⟩ := escapeIn_cases template c
    · exact .inl hc
    · obtain ⟨hb, hm, hc⟩ := hp hn
      refine .inr ⟨he, isSpecial_eq_false _ hm hb fun ht => ?_, hc⟩
      exact hd (Quotation.double.inj ht)
  | single =>
    by_cases hq : c = '\''
    · subst hq
      exact .inl ⟨'\'', rfl, rfl⟩
    have hs : escapeSingleChar c = escapeIn false c := if_neg hq
    obtain ⟨code, he, hu⟩ | ⟨he, hn, -⟩ := escapeIn_cases false c
    · have hm : code ≠ '\'' := by
        rintro rfl
        cases hu
      exact .inl ⟨code, hs.trans he, (if_neg hm).trans hu⟩
    · obtain ⟨hb, -, hc⟩ := hp hn
      exact .inr ⟨hs.trans he, isSpecial_eq_false _ hq hb (by simp), hc⟩

/-- The reader takes back one escape. -/
theorem content?_escaped (c : Char) (text : List Char) :
    quotation.content? (quotation.escaped c ++ text) =
      (quotation.content? text).map fun (content, rest) => (c :: content, rest) := by
  obtain ⟨code, he, hm⟩ | ⟨he, hs, -⟩ := quotation.escaped_cases c
  · rw [he, List.cons_append, List.cons_append, List.nil_append, content?, hm, Option.bind_some]
  · have hb : c ≠ '\\' := by
      rintro rfl
      simp [isSpecial] at hs
    have hq : c ≠ quotation.mark := by
      rintro rfl
      simp [isSpecial] at hs
    rw [he, List.cons_append, List.nil_append, content?]
    · simp only [hq, hs, if_false, Bool.false_eq_true]
    · intro code rest hc
      exact absurd hc hb

/-- The reader stops at the closing quote. -/
theorem content?_append_mark (content rest : List Char) :
    quotation.content? (content.flatMap quotation.escaped ++ quotation.mark :: rest) =
      some (content, rest) := by
  induction content with
  | nil => cases quotation <;> simp [content?, mark]
  | cons c content ih =>
    rw [List.flatMap_cons, List.append_assoc, content?_escaped, ih, Option.map_some]

theorem read?_quoted (content rest : List Char) :
    quotation.read? (quotation.quoted content ++ rest) = some (content, rest) := by
  have hc := quotation.content?_append_mark content rest
  simpa [quoted, read?] using hc

theorem mark_not_mem_controls : quotation.mark ∉ controls := by
  cases quotation <;> simp [mark, controls]

theorem escaped_not_mem_controls {c d : Char} (h : d ∈ quotation.escaped c) : d ∉ controls := by
  obtain ⟨code, he, hm⟩ | ⟨he, -, hc⟩ := quotation.escaped_cases c
  · rw [he, List.mem_pair] at h
    rcases h with rfl | rfl
    · simp [controls]
    · exact quotation.not_mem_controls_of_meant hm
  · rw [he, List.mem_singleton] at h
    rwa [h]

/-- A literal has no control characters, whatever its content is. -/
theorem quoted_not_mem_controls {content : List Char} {d : Char}
    (h : d ∈ quotation.quoted content) : d ∉ controls := by
  simp only [quoted, List.mem_cons, List.mem_append, List.mem_flatMap, List.not_mem_nil,
    or_false] at h
  rcases h with rfl | ⟨c, -, hd⟩ | rfl
  · exact quotation.mark_not_mem_controls
  · exact quotation.escaped_not_mem_controls hd
  · exact quotation.mark_not_mem_controls

end Quotation

end Text

namespace Page

/-- The page with a text added to its line, behind the margin if that has not been written yet. -/
def inked (page : Page) (text : String) : Page :=
  { page with
    text := page.text ++ (if page.atLineStart then page.margin else "") ++ text
    atLineStart := false }

/-- A text without an end of line goes to the line that the page is on. -/
theorem write_eq_inked (page : Page) {text : String} (hn : '\n' ∉ text.toList) (ht : text ≠ "") :
    page.write text = page.inked text := by
  obtain ⟨before, unit, level, start, depth⟩ := page
  cases start with
  | true => exact write_atStart before hn ht
  | false =>
    rw [write_inLine before hn]
    simp [inked]

end Page

namespace Literal

open Text (Quotation controls)

/-- The literal has one text for all pages, without any control character in it, and the text can
be read back in front of any other text. -/
def Survives (style : Style) (quotation : Quotation) (content : List Char) (literal : Literal) :
    Prop :=
  ∃ text : String,
    (∀ pass : Pass, ((Expr.literal literal).doc style).play style.dialect pass =
      .done { pass with page := pass.page.inked text }) ∧
    (∀ c ∈ text.toList, c ∉ controls) ∧
    ∀ rest, quotation.read? (text.toList ++ rest) = some (content, rest)

theorem survives_of_plain {style : Style} {literal : Literal} (quotation : Quotation)
    {content : List Char}
    (h : ((Expr.literal literal).doc style).Plain (String.ofList (quotation.quoted content))) :
    literal.Survives style quotation content := by
  have hc (c : Char) (hm : c ∈ (String.ofList (quotation.quoted content)).toList) :
      c ∉ controls := by
    rw [String.toList_ofList] at hm
    exact quotation.quoted_not_mem_controls hm
  refine ⟨_, fun pass => ?_, hc, fun rest => ?_⟩
  · have hn : '\n' ∉ (String.ofList (quotation.quoted content)).toList :=
      fun hm => hc _ hm (by simp [controls])
    have ht : String.ofList (quotation.quoted content) ≠ "" := by
      simp [Quotation.quoted, ← String.toList_inj]
    rw [h.play, Pass.write, Page.write_eq_inked _ hn ht]
  · rw [String.toList_ofList, quotation.read?_quoted]

/-- Text between double quotes. -/
theorem plain_quoted (template : Bool) (content : List Char) :
    (Doc.quoted (String.ofList (content.flatMap (Text.escapeIn template)))).Plain
      (String.ofList ((Quotation.double template).quoted content)) := by
  have hp := Doc.Plain.quoted (.text (String.ofList (content.flatMap (Text.escapeIn template))))
  have he : "\"" ++ String.ofList (content.flatMap (Text.escapeIn template)) ++ "\"" =
      String.ofList ((Quotation.double template).quoted content) := by
    rw [← String.toList_inj]
    simp [Quotation.quoted, Quotation.mark, Quotation.escaped]
  rwa [he] at hp

/-- A character between single quotes. -/
theorem plain_single (value : Char) :
    (Doc.text ("'" ++ String.ofList (Text.escapeSingleChar value) ++ "'")).Plain
      (String.ofList (Quotation.single.quoted [value])) := by
  have he : "'" ++ String.ofList (Text.escapeSingleChar value) ++ "'" =
      String.ofList (Quotation.single.quoted [value]) := by
    rw [← String.toList_inj]
    simp [Quotation.quoted, Quotation.mark, Quotation.escaped]
  rw [← he]
  exact .text _

end Literal

open Literal (survives_of_plain plain_quoted plain_single) in
/-- Every string and every character survives in every dialect. A dollar sign opens a splice between
the double quotes of Groovy only. -/
theorem Style.quoted_literals_survive (style : Style) :
    (∀ value : String, (Literal.string value).Survives style
      (.double (style.dialect = .groovy)) value.toList) ∧
    (∀ value : Char, (Literal.char value).Survives style
      (if style.dialect = .lua then .double false else .single) [value]) := by
  obtain ⟨dialect, interpolate⟩ := style
  constructor
  · intro value
    cases dialect with
    | plain | lua => exact survives_of_plain (.double false) (plain_quoted false value.toList)
    | groovy => exact survives_of_plain (.double true) (plain_quoted true value.toList)
  · intro value
    cases dialect with
    | plain | groovy => exact survives_of_plain .single (plain_single value)
    | lua =>
      have hs : (Literal.char value).Survives ⟨.lua, interpolate⟩ (.double false)
          (String.singleton value).toList := survives_of_plain _ (plain_quoted false _)
      rwa [String.toList_singleton] at hs

end Polyglot
