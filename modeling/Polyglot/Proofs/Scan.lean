import Polyglot.Proofs.Balance
import Polyglot.Proofs.Spelling

/-! Readers of a rendered text that take one character after the other. A reader for which margins
and repeated ends of lines make no difference can be run along a document, and it ends where it
ends on the text. -/
namespace Polyglot

namespace Text

/-- A character is escaped by a backslash and one more character of the same line, or it stands
for itself. -/
theorem escapeChar_cases (c : Char) :
    (∃ code, code ≠ '\n' ∧ escapeChar c = ['\\', code]) ∨
      (escapeChar c = [c] ∧ c ∉ ['\\', '"', '\n', '\r', '\t']) := by
  unfold escapeChar
  split
  · exact .inl ⟨'\\', by decide, rfl⟩
  · exact .inl ⟨'"', by decide, rfl⟩
  · exact .inl ⟨'n', by decide, rfl⟩
  · exact .inl ⟨'r', by decide, rfl⟩
  · exact .inl ⟨'t', by decide, rfl⟩
  · next hb hq hn hr ht =>
    refine .inr ⟨rfl, ?_⟩
    simp only [List.mem_cons, List.not_mem_nil, or_false, not_or]
    exact ⟨hb, hq, hn, hr, ht⟩

end Text

/-- A reader of texts. -/
structure Scanner (σ : Type) where
  start : σ
  step : σ → Char → σ

namespace Scanner

variable {σ : Type} (scanner : Scanner σ)

def read (state : σ) (text : String) : σ :=
  text.toList.foldl scanner.step state

/-- Where the reader is at the end of a text. -/
def scan (text : String) : σ :=
  scanner.read scanner.start text

@[simp] theorem read_empty (state : σ) : scanner.read state "" = state := rfl

@[simp] theorem read_append (state : σ) (first second : String) :
    scanner.read state (first ++ second) = scanner.read (scanner.read state first) second := by
  simp [read]

@[simp] theorem read_push (state : σ) (text : String) (c : Char) :
    scanner.read state (text.push c) = scanner.step (scanner.read state text) c := by
  simp [read]

/-- A text of characters that do not move the reader. -/
theorem read_of_still {state : σ} {text : String}
    (h : ∀ c ∈ text.toList, scanner.step state c = state) : scanner.read state text = state := by
  unfold read
  generalize text.toList = chars at h
  induction chars with
  | nil => rfl
  | cons c rest ih =>
    obtain ⟨hc, hr⟩ := List.forall_mem_cons.mp h
    rw [List.foldl_cons, hc]
    exact ih hr

theorem read_join_of_still {state : σ} {texts : List String}
    (h : ∀ text ∈ texts, scanner.read state text = state) :
    scanner.read state (String.join texts) = state := by
  induction texts with
  | nil => rfl
  | cons text rest ih =>
    obtain ⟨ht, hr⟩ := List.forall_mem_cons.mp h
    rw [String.join_cons, read_append, ht]
    exact ih hr

/-- At the start of a line, neither a margin nor a further end of line moves the reader. -/
structure Overlooks (unit : String) : Prop where
  start : scanner.step scanner.start '\n' = scanner.start
  newline : ∀ state, scanner.step (scanner.step state '\n') '\n' = scanner.step state '\n'
  margin : ∀ state, ∀ c ∈ unit.toList,
    scanner.step (scanner.step state '\n') c = scanner.step state '\n'

/-- A page as the reader sees it. -/
structure Views (page : Page) (state : σ) : Prop where
  scan_eq : scanner.scan page.text = state
  lineStart : page.atLineStart = true → scanner.step state '\n' = state
  overlooks : scanner.Overlooks page.indentUnit

namespace Views

variable {scanner} {page : Page} {state : σ}

/-- The margin of a line is not seen. -/
theorem margin (h : scanner.Views page state) (hs : page.atLineStart = true) :
    scanner.read state page.margin = state := by
  apply scanner.read_join_of_still
  intro text hm
  obtain rfl := List.eq_of_mem_replicate hm
  apply scanner.read_of_still
  intro c hc
  have hl := h.lineStart hs
  rw [← hl]
  exact h.overlooks.margin state c hc

theorem push (h : scanner.Views page state) (c : Char) :
    scanner.Views (page.push c) (scanner.step state c) := by
  obtain ⟨ht, hl, ho⟩ := h
  by_cases hc : c = '\n'
  · subst hc
    refine ⟨?_, fun _ => ho.newline state, ?_⟩
    · simpa [Page.push, scan] using congrArg (scanner.step · '\n') ht
    · simpa [Page.push] using ho
  cases hs : page.atLineStart with
  | true =>
    have hm : scanner.read state page.margin = state := margin ⟨ht, hl, ho⟩ hs
    refine ⟨?_, by simp [Page.push, hc, hs], ?_⟩
    · rw [scan] at ht
      simp [Page.push, hc, hs, scan, ht, hm]
    · simpa [Page.push, hc, hs] using ho
  | false =>
    refine ⟨?_, by simp [Page.push, hc, hs], ?_⟩
    · rw [scan] at ht
      simp [Page.push, hc, hs, scan, ht]
    · simpa [Page.push, hc, hs] using ho

theorem write (h : scanner.Views page state) (text : String) :
    scanner.Views (page.write text) (scanner.read state text) := by
  unfold Page.write read
  induction text.toList generalizing page state with
  | nil => exact h
  | cons c rest ih => exact ih (h.push c)

/-- Where the line is empty already, its end would not be seen. -/
theorem freshLine (h : scanner.Views page state) :
    scanner.Views page.freshLine (scanner.step state '\n') := by
  unfold Page.freshLine
  split_ifs with hs
  · rw [h.lineStart hs]
    exact h
  · exact h.push '\n'

theorem indent (h : scanner.Views page state) : scanner.Views page.indent state :=
  ⟨h.scan_eq, h.lineStart, h.overlooks⟩

theorem unindent (h : scanner.Views page state) : scanner.Views page.unindent state :=
  ⟨h.scan_eq, h.lineStart, h.overlooks⟩

end Views

end Scanner

namespace Stroke

variable {σ : Type} (scanner : Scanner σ) (name : ClassType → String)

/-- What a stroke does to a reader, if types go by their names. -/
def read (state : σ) : Stroke → σ
  | .write content => scanner.read state content
  | .refer ty => scanner.read state (name ty)
  | .freshLine => scanner.step state '\n'
  | .indent | .unindent | .refuse _ => state

variable {scanner name}

theorem step_views {dialect : Dialect} {stroke : Stroke} {pass next : Pass} {state : σ}
    (hv : scanner.Views pass.page state) (h : stroke.step dialect pass = .done next)
    (hn : ∀ ty, stroke = .refer ty → dialect.spell next.imports ty = name ty) :
    scanner.Views next.page (stroke.read scanner name state) := by
  cases stroke with
  | write content =>
    cases h
    exact hv.write content
  | indent =>
    cases h
    exact hv.indent
  | unindent =>
    cases h
    exact hv.unindent
  | freshLine =>
    cases h
    exact hv.freshLine
  | refer ty =>
    cases h
    rw [read, ← hn ty rfl]
    exact hv.write _
  | refuse construct => cases h

/-- A reader that is run along strokes ends where it ends on the page. -/
theorem run_views {dialect : Dialect} {strokes : List Stroke} {pass last : Pass} {state : σ}
    (hv : scanner.Views pass.page state) (h : run dialect strokes pass = .done last)
    (hn : ∀ imports ty, ty ∈ imports.types → imports.types <+: last.imports.types →
      dialect.spell imports ty = name ty) :
    scanner.Views last.page (strokes.foldl (read scanner name) state) := by
  induction strokes generalizing pass state with
  | nil =>
    cases h
    exact hv
  | cons stroke rest ih =>
    rw [run_cons] at h
    cases hs : stroke.step dialect pass with
    | failed error next =>
      rw [hs] at h
      cases h
    | done next =>
      rw [hs, Outcome.andThen_done] at h
      refine ih (step_views hv hs ?_) h
      rintro ty rfl
      cases hs
      exact hn _ ty (by simp [Pass.refer]) (run_grows h)

/-- What strokes write behind a text is read as if it was alone. -/
theorem scan_written {dialect : Dialect} {strokes : List Stroke} {pass last : Pass}
    (ho : scanner.Overlooks pass.page.indentUnit) (h : run dialect strokes pass = .done last)
    (hn : ∀ imports ty, ty ∈ imports.types → imports.types <+: last.imports.types →
      dialect.spell imports ty = name ty) :
    scanner.Overlooks last.page.indentUnit ∧
      ∃ written, last.page.text = pass.page.text ++ written ∧
        scanner.scan written = strokes.foldl (read scanner name) scanner.start := by
  obtain ⟨written, hw⟩ := run_withText dialect strokes pass
  rw [h] at hw
  have hv : scanner.Views (pass.page.withText "") scanner.start := ⟨rfl, fun _ => ho.start, ho⟩
  have hl := run_views hv (hw "") hn
  refine ⟨hl.overlooks, written, ?_, ?_⟩
  · have ht : Outcome.done last = _ := h.symm.trans (hw pass.page.text)
    exact congrArg (·.pass.page.text) ht
  · have hs := hl.scan_eq
    rwa [String.empty_append] at hs

/-- The first part of strokes has been done when the rest begins. -/
theorem run_append_done {dialect : Dialect} {first rest : List Stroke} {pass last : Pass}
    (h : run dialect (first ++ rest) pass = .done last) :
    ∃ middle, run dialect first pass = .done middle ∧ run dialect rest middle = .done last := by
  rw [run_append] at h
  cases hf : run dialect first pass with
  | failed error middle =>
    rw [hf] at h
    cases h
  | done middle =>
    rw [hf] at h
    exact ⟨middle, rfl, h⟩

/-- What the first part of strokes writes is read as if it was alone. -/
theorem scan_first {dialect : Dialect} {first rest : List Stroke} {pass last : Pass}
    (ho : scanner.Overlooks pass.page.indentUnit)
    (h : run dialect (first ++ rest) pass = .done last)
    (hn : ∀ imports ty, ty ∈ imports.types → imports.types <+: last.imports.types →
      dialect.spell imports ty = name ty) :
    ∃ middle, run dialect first pass = .done middle ∧ run dialect rest middle = .done last ∧
      scanner.Overlooks middle.page.indentUnit ∧
      ∃ written, middle.page.text = pass.page.text ++ written ∧
        scanner.scan written = first.foldl (read scanner name) scanner.start := by
  obtain ⟨middle, hf, hr⟩ := run_append_done h
  have hm := scan_written ho hf fun imports ty ht hp => hn imports ty ht (hp.trans (run_grows hr))
  exact ⟨middle, hf, hr, hm⟩

end Stroke

namespace Doc

variable {σ : Type} (scanner : Scanner σ) (name : ClassType → String)

/-- What a document does to a reader, if types go by their names. -/
def read (doc : Doc) (state : σ) : σ :=
  doc.strokes.foldl (Stroke.read scanner name) state

@[simp] theorem read_empty (state : σ) : empty.read scanner name state = state := rfl

@[simp] theorem read_text (content : String) (state : σ) :
    (text content).read scanner name state = scanner.read state content := rfl

@[simp] theorem read_append (first second : Doc) (state : σ) :
    (first ++ second).read scanner name state =
      second.read scanner name (first.read scanner name state) := by
  simp [read]

@[simp] theorem read_nest (body : Doc) (state : σ) :
    (nest body).read scanner name state = body.read scanner name state := by
  simp [read, strokes, Stroke.read]

@[simp] theorem read_block (body : Doc) (state : σ) :
    (block body).read scanner name state = body.read scanner name state := rfl

@[simp] theorem read_quoted (body : Doc) (state : σ) :
    (quoted body).read scanner name state =
      scanner.step (body.read scanner name (scanner.step state '"')) '"' := by
  simp [read, strokes, Stroke.read, Scanner.read]

@[simp] theorem read_reference (ty : ClassType) (state : σ) :
    (reference ty).read scanner name state = scanner.read state (name ty) := rfl

@[simp] theorem read_freshLine (state : σ) :
    freshLine.read scanner name state = scanner.step state '\n' := rfl

@[simp] theorem read_unsupported (construct : Construct) (state : σ) :
    (unsupported construct).read scanner name state = state := rfl

end Doc

/-- A rendered program, as a reader sees it that overlooks the margin and is back at its start
behind each line of the header. -/
theorem Session.scan_render {σ : Type} {scanner : Scanner σ} {name : ClassType → String}
    {session : Session} {program : Program} {text : String}
    (h : (session.render program).1 = .ok text)
    (ho : scanner.Overlooks session.settings.indent)
    (hn : ∀ imports ty, ty ∈ imports.types →
      imports.types <+: (session.render program).2.imports.types →
      session.dialect.spell imports ty = name ty)
    (hh : ∀ line ∈ session.dialect.header (session.render program).2.imports,
      scanner.scan (line ++ "\n") = scanner.start) :
    scanner.scan text =
      (Stmt.lines session.style program.body).read scanner name scanner.start := by
  obtain ⟨pass, hp, ht⟩ := (render_ok_iff session program text).mp h
  have hi : (session.render program).2.imports = pass.imports := by
    rw [render_session, hp, Outcome.pass]
  rw [hi] at hn hh
  have hv : scanner.Views session.newPass.page scanner.start := ⟨rfl, fun _ => ho.start, ho⟩
  have hb := (Stroke.run_views hv hp hn).scan_eq
  have hs : scanner.scan (String.join ((session.dialect.header pass.imports).map (· ++ "\n"))) =
      scanner.start := by
    apply scanner.read_join_of_still
    intro line hm
    obtain ⟨content, hc, rfl⟩ := List.mem_map.mp hm
    exact hh content hc
  rw [Scanner.scan] at hs hb
  rw [ht, Scanner.scan, Scanner.read_append, hs, hb, Doc.read]

end Polyglot
