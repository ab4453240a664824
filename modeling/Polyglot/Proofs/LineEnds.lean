import Polyglot.Proofs.QuotedLiterals
import Polyglot.Proofs.Scan

/-! The ends of lines. The flag of a page tells whether the last line of its text is empty, and a
document ends no empty line if each of its parts finds the last line as it should be. -/
namespace Polyglot

namespace Text

def OneLine (content : String) : Prop :=
  '\n' ∉ content.toList

instance (content : String) : Decidable (OneLine content) :=
  inferInstanceAs (Decidable (_ ∉ _))

/-- A text with something in it and no end of line. -/
def Unbroken (content : String) : Prop :=
  content ≠ "" ∧ OneLine content

instance (content : String) : Decidable (Unbroken content) :=
  inferInstanceAs (Decidable (_ ∧ _))

theorem OneLine.append {first second : String} (hf : OneLine first) (hs : OneLine second) :
    OneLine (first ++ second) := by
  rw [OneLine, String.toList_append, List.mem_append]
  exact not_or.mpr ⟨hf, hs⟩

theorem Unbroken.append {first second : String} (hf : Unbroken first) (hs : OneLine second) :
    Unbroken (first ++ second) := by
  refine ⟨fun he => hf.1 ?_, hf.2.append hs⟩
  exact (String.append_eq_empty_iff.mp he).1

/-- Nothing stands behind the last end of line. -/
def AtLineStart (text : String) : Prop :=
  text = "" ∨ ∃ front, text = front ++ "\n"

/-- The text ends in an end of line, and what it ends is not empty. -/
def EndsOnce (text : String) : Prop :=
  ∃ (front : String) (c : Char), c ≠ '\n' ∧ text = front.push c ++ "\n"

/-- No line of the text is empty. -/
def NoEmptyLine (text : String) : Prop :=
  ¬['\n'] <+: text.toList ∧ ¬['\n', '\n'] <:+: text.toList

/-- Whether the last line is empty behind further characters. There is no answer if they end an
empty line. -/
def lineAfter? (empty : Bool) : List Char → Option Bool
  | [] => some empty
  | c :: rest =>
    if c = '\n' then if empty then none else lineAfter? true rest else lineAfter? false rest

theorem lineAfter?_append (empty : Bool) (first second : List Char) :
    lineAfter? empty (first ++ second) =
      (lineAfter? empty first).bind (lineAfter? · second) := by
  induction first generalizing empty with
  | nil => rfl
  | cons c rest ih =>
    simp only [List.cons_append, lineAfter?]
    split_ifs
    · rfl
    · exact ih true
    · exact ih false

theorem lineAfter?_oneLine (empty : Bool) {content : String} (h : OneLine content) :
    lineAfter? empty content.toList = some (empty && content.toList.isEmpty) := by
  unfold OneLine at h
  generalize content.toList = chars at h
  induction chars generalizing empty with
  | nil => simp [lineAfter?]
  | cons c rest ih =>
    obtain ⟨hc, hr⟩ := List.ne_and_not_mem_of_not_mem_cons h
    simp [lineAfter?, hc.symm, ih false hr]

theorem lineAfter?_unbroken (empty : Bool) {content : String} (h : Unbroken content) :
    lineAfter? empty content.toList = some false := by
  have hc : content.toList ≠ [] := mt String.toList_eq_nil_iff.mp h.1
  rw [lineAfter?_oneLine empty h.2, List.isEmpty_eq_false_iff.mpr hc, Bool.and_false]

/-- A line that is not empty ends in a character of its own. -/
theorem exists_concat_of_lineAfter? {chars : List Char} (h : lineAfter? true chars = some false) :
    ∃ front c, c ≠ '\n' ∧ chars = front ++ [c] := by
  obtain rfl | ⟨front, c, rfl⟩ := List.eq_nil_or_concat' chars
  · cases h
  · refine ⟨front, c, ?_, rfl⟩
    rintro rfl
    rw [lineAfter?_append] at h
    obtain ⟨empty, -, he⟩ := Option.bind_eq_some_iff.mp h
    cases empty <;> cases he

theorem endsOnce_of_inLine {text : String} (h : lineAfter? true text.toList = some false) :
    EndsOnce (text ++ "\n") := by
  obtain ⟨front, c, hc, he⟩ := exists_concat_of_lineAfter? h
  refine ⟨String.ofList front, c, hc, ?_⟩
  rw [← String.toList_inj]
  simp [he]

/-- A text whose last line is empty is itself empty or ends in an end of line. -/
theorem endsOnce_of_lineAfter? {text : String} (h : lineAfter? true text.toList = some true) :
    text = "" ∨ EndsOnce text := by
  obtain he | ⟨front, c, he⟩ := List.eq_nil_or_concat' text.toList
  · exact .inl (String.toList_eq_nil_iff.mp he)
  · right
    rw [he, lineAfter?_append] at h
    obtain ⟨empty, hf, hc⟩ := Option.bind_eq_some_iff.mp h
    have hn : c = '\n' ∧ empty = false := by
      by_cases hn : c = '\n'
      · cases empty <;> simp_all [lineAfter?]
      · simp [lineAfter?, hn] at hc
    obtain ⟨rfl, rfl⟩ := hn
    have ht : text = String.ofList front ++ "\n" := by
      rw [← String.toList_inj]
      simp [he]
    rw [ht]
    exact endsOnce_of_inLine (by simpa using hf)

theorem noEmptyLine_of_lineAfter? {text : String} {empty : Bool}
    (h : lineAfter? true text.toList = some empty) : NoEmptyLine text := by
  refine ⟨?_, ?_⟩
  · rintro ⟨rest, hr⟩
    rw [← hr] at h
    cases h
  · rintro ⟨front, back, hb⟩
    rw [← hb, lineAfter?_append, lineAfter?_append] at h
    cases hf : lineAfter? true front with
    | none => simp [hf] at h
    | some start => cases start <;> simp [hf, lineAfter?] at h

end Text

open Text (OneLine Unbroken lineAfter?)

/-- The text of a page has no empty line but perhaps the last one, and the flag tells about that. -/
structure Page.Tidy (page : Page) : Prop where
  line : lineAfter? true page.text.toList = some page.atLineStart
  unit : OneLine page.indentUnit

namespace Page

theorem oneLine_margin {page : Page} (h : OneLine page.indentUnit) : OneLine page.margin := by
  unfold margin
  induction page.level with
  | zero => simp [OneLine]
  | succ level ih =>
    rw [List.replicate_succ, String.join_cons]
    exact h.append ih

namespace Tidy

variable {page : Page}

theorem write (h : page.Tidy) {content : String} (hc : Unbroken content) :
    (page.write content).Tidy ∧ (page.write content).atLineStart = false := by
  obtain ⟨margin, hm, hi⟩ : ∃ margin, OneLine margin ∧
      page.inked content = { page with
        text := page.text ++ margin ++ content, atLineStart := false } := by
    refine ⟨_, ?_, rfl⟩
    split_ifs
    · exact oneLine_margin h.unit
    · decide
  rw [write_eq_inked page hc.2 hc.1, hi]
  refine ⟨⟨?_, h.unit⟩, rfl⟩
  simp [Text.lineAfter?_append, h.line, Text.lineAfter?_oneLine _ hm,
    Text.lineAfter?_unbroken _ hc]

theorem newline (h : page.Tidy) (hs : page.atLineStart = false) :
    (page.write "\n").Tidy ∧ (page.write "\n").atLineStart = true := by
  obtain ⟨before, unit, level, start, depth⟩ := page
  cases hs
  rw [write_newline]
  refine ⟨⟨?_, h.unit⟩, rfl⟩
  have hl := h.line
  simp_all [Text.lineAfter?_append, lineAfter?]

theorem freshLine (h : page.Tidy) :
    page.freshLine.Tidy ∧ page.freshLine.atLineStart = true := by
  unfold Page.freshLine
  split_ifs with hs
  · exact ⟨h, hs⟩
  · exact h.newline (Bool.not_eq_true _ ▸ hs)

end Tidy

end Page

/-- What is known about the last line of a page. -/
inductive LineState where
  | unknown | empty | filled

/-- The flag of a page agrees with what is known. -/
def LineState.Allows : LineState → Bool → Prop
  | .unknown, _ => True
  | .empty, start => start = true
  | .filled, start => start = false

namespace Doc

/-- A document ends no empty line if the last line is as it should be in front of it, and it leaves
the last line in a known state. -/
def Lays (dialect : Dialect) (before after : LineState) (doc : Doc) : Prop :=
  ∀ pass last, pass.page.Tidy → before.Allows pass.page.atLineStart →
    Stroke.run dialect doc.strokes pass = .done last →
      last.page.Tidy ∧ after.Allows last.page.atLineStart

namespace Lays

variable {dialect : Dialect} {before middle after : LineState} {doc first second : Doc}
  {content : String}

theorem append (hf : first.Lays dialect before middle) (hs : second.Lays dialect middle after) :
    (first ++ second).Lays dialect before after := by
  intro pass last ht hp hr
  obtain ⟨next, hn, hl⟩ := Stroke.run_append_done hr
  obtain ⟨hn, hm⟩ := hf pass next ht hp hn
  exact hs next last hn hm hl

theorem forget (h : doc.Lays dialect before after) : doc.Lays dialect before .unknown := by
  intro pass last ht hp hr
  exact ⟨(h pass last ht hp hr).1, trivial⟩

/-- What is laid on any line is laid on a line of a known state. -/
theorem ofAny (h : doc.Lays dialect .unknown after) : doc.Lays dialect before after :=
  fun pass last ht _ => h pass last ht trivial

theorem empty : Doc.empty.Lays dialect before before := by
  rintro pass last ht hp ⟨⟩
  exact ⟨ht, hp⟩

theorem text (h : Unbroken content) : (Doc.text content).Lays dialect before .filled := by
  rintro pass last ht hp ⟨⟩
  exact ht.write h

/-- In a line that is filled, nothing need be written. -/
theorem oneLine (h : OneLine content) : (Doc.text content).Lays dialect .filled .filled := by
  by_cases hc : content = ""
  · subst hc
    rintro pass last ht hp ⟨⟩
    exact ⟨ht, hp⟩
  · exact text ⟨hc, h⟩

theorem newline : (Doc.text "\n").Lays dialect .filled .empty := by
  rintro pass last ht hp ⟨⟩
  exact ht.newline hp

theorem line (h : Unbroken content) :
    (Doc.text (content ++ "\n")).Lays dialect before .empty := by
  rintro pass last ht hp ⟨⟩
  obtain ⟨hw, hf⟩ := ht.write h
  rw [Pass.write, Page.write_append]
  exact hw.newline hf

theorem freshLine : Doc.freshLine.Lays dialect before .empty := by
  rintro pass last ht hp ⟨⟩
  exact ht.freshLine

theorem unsupported (construct : Construct) :
    (Doc.unsupported construct).Lays dialect before after := by
  rintro pass last ht hp ⟨⟩

theorem nest (h : doc.Lays dialect before after) : (Doc.nest doc).Lays dialect before after := by
  intro pass last ht hp hr
  rw [Doc.run_nest] at hr
  cases hb : Stroke.run dialect doc.strokes { pass with page := pass.page.indent } with
  | failed error next => simp [hb, Outcome.onPage] at hr
  | done next =>
    rw [hb] at hr
    cases hr
    have hi : pass.page.indent.Tidy := ⟨ht.line, ht.unit⟩
    obtain ⟨hn, ha⟩ := h ⟨pass.page.indent, pass.imports⟩ next hi hp hb
    exact ⟨⟨hn.line, hn.unit⟩, ha⟩

theorem quoted (h : doc.Lays dialect .filled .filled) :
    (Doc.quoted doc).Lays dialect before .filled :=
  show (Doc.text "\"" ++ doc ++ Doc.text "\"").Lays dialect before .filled from
    ((text (by decide)).append h).append (text (by decide))

theorem parens (h : doc.Lays dialect .filled .filled) :
    (Phrase.parens doc).Lays dialect before .filled :=
  ((text (by decide)).append h).append (text (by decide))

theorem enclosed {opening closing : String} (ho : Unbroken opening)
    (h : doc.Lays dialect .empty .empty) (hc : (Doc.text closing).Lays dialect .empty after) :
    (Phrase.enclosed opening doc closing).Lays dialect before after :=
  ((line ho).append (nest h)).append hc

end Lays

/-- A document that ends no empty line and leaves a line with something in it. -/
def Fills (dialect : Dialect) (doc : Doc) : Prop :=
  doc.Lays dialect .unknown .filled

end Doc

namespace Doc.Fills

variable {dialect : Dialect} {doc first second : Doc} {content : String}

theorem lays (h : doc.Fills dialect) {before : LineState} : doc.Lays dialect before .filled :=
  h.ofAny

theorem text (h : Unbroken content) : (Doc.text content).Fills dialect :=
  Lays.text h

theorem append (hf : first.Fills dialect) (hs : second.Lays dialect .filled .filled) :
    (first ++ second).Fills dialect :=
  Lays.append hf hs

theorem appendText (h : doc.Fills dialect) (hc : OneLine content) :
    (doc ++ .text content).Fills dialect :=
  h.append (.oneLine hc)

/-- A text and an expression behind it. -/
theorem behind (hc : Unbroken content) (h : doc.Fills dialect) :
    (.text content ++ doc : Doc).Fills dialect :=
  (text hc).append h.lays

end Doc.Fills

end Polyglot
