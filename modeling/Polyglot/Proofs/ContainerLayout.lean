import Polyglot.Proofs.Interpolation
import Polyglot.Proofs.PageRuns

/-! Object and array literals. Their rows stand one level deeper on lines of their own, with a
separator between any two and none behind the last, whatever the delimiters and the rows are. Each
row starts a line, so it is written as it would be alone on a page. -/
namespace Polyglot

namespace Page

theorem behind_empty (page : Page) : page.behind "" = page := by
  simp [behind, withText]

theorem behind_behind (first second : String) (page : Page) :
    (page.behind second).behind first = page.behind (first ++ second) := by
  simp [behind, withText, String.append_assoc]

/-- Pages at the start of a line differ in their counters and their texts only. -/
theorem eq_behind {page row : Page} (ht : page.text = "") (hu : row.indentUnit = page.indentUnit)
    (hl : row.level = page.level) (hs : row.atLineStart = page.atLineStart)
    (hd : row.depth = page.depth) : row = page.behind row.text := by
  obtain ⟨text, unit, level, start, depth⟩ := row
  simp only at hu hl hs hd
  simp [behind, withText, ht, hu, hl, hs, hd]

end Page

theorem Outcome.alwaysOnPage_behind_empty (outcome : Outcome) :
    outcome.alwaysOnPage (Page.behind "") = outcome := by
  cases outcome <;> simp [alwaysOnPage, Page.behind_empty]

theorem Outcome.alwaysOnPage_behind (first second : String) (outcome : Outcome) :
    (outcome.alwaysOnPage (Page.behind second)).alwaysOnPage (Page.behind first) =
      outcome.alwaysOnPage (Page.behind (first ++ second)) := by
  cases outcome <;> simp [alwaysOnPage, Page.behind_behind]

namespace Stroke

theorem step_truthful (dialect : Dialect) (stroke : Stroke) {pass : Pass}
    (h : pass.page.Truthful) : (stroke.step dialect pass).pass.page.Truthful := by
  cases stroke with
  | write content => exact h.write content
  | refer ty => exact h.write _
  | indent | unindent | refuse construct => exact h
  | freshLine =>
    show pass.page.freshLine.Truthful
    unfold Page.freshLine
    split_ifs
    · exact h
    · exact Page.push_truthful pass.page '\n'

/-- Rendering never makes a page wrong about its line. -/
theorem run_truthful (dialect : Dialect) (strokes : List Stroke) {pass : Pass}
    (h : pass.page.Truthful) : (run dialect strokes pass).pass.page.Truthful := by
  induction strokes generalizing pass with
  | nil => exact h
  | cons stroke rest ih =>
    have hs := step_truthful dialect stroke h
    rw [run_cons]
    cases he : stroke.step dialect pass with
    | done next =>
      rw [he] at hs
      exact ih hs
    | failed error next =>
      rw [he] at hs
      exact hs

end Stroke

namespace Doc

/-- The document does what its strokes do, and it may put text in front of the page. -/
def Fronts (dialect : Dialect) (doc : Doc) : Prop :=
  ∀ pass, ∃ front, doc.play dialect pass =
    (Stroke.run dialect doc.strokes pass).alwaysOnPage (Page.behind front)

namespace Fronts

variable {dialect : Dialect} {first second : Doc}

theorem ofPlay {doc : Doc}
    (h : ∀ pass, doc.play dialect pass = Stroke.run dialect doc.strokes pass) :
    Fronts dialect doc :=
  fun pass => ⟨"", (h pass).trans (Outcome.alwaysOnPage_behind_empty _).symm⟩

theorem append (hf : Fronts dialect first) (hs : Fronts dialect second) :
    Fronts dialect (first ++ second) := by
  intro pass
  obtain ⟨front, hp⟩ := hf pass
  have ha : (first ++ second).play dialect pass =
      (first.play dialect pass).andThen (second.play dialect) := rfl
  rw [ha, hp, strokes_append, Stroke.run_append]
  cases Stroke.run dialect first.strokes pass with
  | failed error next => exact ⟨front, rfl⟩
  | done next =>
    -- The second document comes behind what the first one has put in front.
    obtain ⟨more, hm⟩ := hs { next with page := next.page.behind front }
    refine ⟨more ++ front, ?_⟩
    rw [← Outcome.alwaysOnPage_behind, Outcome.andThen_done, ← Stroke.run_behind, ← hm]
    rfl

theorem nest {body : Doc} (h : Fronts dialect body) : Fronts dialect (.nest body) := by
  intro pass
  obtain ⟨front, hf⟩ := h { pass with page := pass.page.indent }
  refine ⟨front, ?_⟩
  rw [play, run_nest, hf]
  cases Stroke.run dialect body.strokes { pass with page := pass.page.indent } <;> rfl

/-- Only a block that is entered from outside brings a header, and only if it goes through. -/
theorem block (body : Doc) : Fronts dialect (.block body) := by
  intro pass
  by_cases hd : pass.page.depth = 0
  · rw [play_block_outermost dialect body pass hd]
    show ∃ front, _ = (Stroke.run dialect body.strokes pass).alwaysOnPage _
    cases Stroke.run dialect body.strokes pass with
    | failed error last => exact ⟨"", (Outcome.alwaysOnPage_behind_empty _).symm⟩
    | done last =>
      refine ⟨String.join ((dialect.header last.imports).map (·.push '\n')), ?_⟩
      rw [Outcome.andThen_done, Pass.withHeader_eq]
      rfl
  · refine ⟨"", ?_⟩
    rw [play_eq_run dialect _ pass (Nat.pos_of_ne_zero hd), Outcome.alwaysOnPage_behind_empty]

end Fronts

theorem fronts (dialect : Dialect) (doc : Doc) : Fronts dialect doc := by
  induction doc with
  | empty | text content | reference ty | freshLine | unsupported construct =>
    exact .ofPlay fun _ => rfl
  | append first second ihf ihs => exact ihf.append ihs
  | nest body ih => exact ih.nest
  | block body ih => exact .block body
  | quoted body ih =>
    have hq : Fronts dialect (.text "\"") := .ofPlay fun _ => rfl
    exact (hq.append ih).append hq

/-- Nothing is put in front from inside a block. -/
theorem exists_front (dialect : Dialect) (doc : Doc) (pass : Pass) :
    ∃ front, (0 < pass.page.depth → front = "") ∧
      doc.play dialect pass =
        (Stroke.run dialect doc.strokes pass).alwaysOnPage (Page.behind front) := by
  by_cases hd : 0 < pass.page.depth
  · refine ⟨"", fun _ => rfl, ?_⟩
    rw [play_eq_run dialect doc pass hd, Outcome.alwaysOnPage_behind_empty]
  · obtain ⟨front, hf⟩ := doc.fronts dialect pass
    exact ⟨front, fun hp => absurd hp hd, hf⟩

/-- The documents write these texts, each of them alone on the page. The imports go from one to the
next. -/
inductive Written (dialect : Dialect) (page : Page) :
    List Doc → Imports → List String → Imports → Prop
  | nil (imports : Imports) : Written dialect page [] imports [] imports
  | cons {doc : Doc} {docs : List Doc} {imports later : Imports} {row : Pass}
      {texts : List String} (hd : doc.playFragment dialect ⟨page, imports⟩ = .done row)
      (hr : Written dialect page docs row.imports texts later) :
      Written dialect page (doc :: docs) imports (row.page.text :: texts) later

theorem Written.length_eq {dialect : Dialect} {page : Page} {docs : List Doc}
    {imports later : Imports} {texts : List String}
    (h : Written dialect page docs imports texts later) : texts.length = docs.length := by
  induction h with
  | nil => rfl
  | cons hd hr ih => rw [List.length_cons, ih, List.length_cons]

/-- No margin can come into the separators: there are no margins, or all separators stand behind
something in their line. -/
def Unmargined (unit separator : String) (texts : List String) : Prop :=
  unit = "" ∨ '\n' ∉ separator.toList ∧ ∀ text ∈ texts, ¬ LastLineEmpty text

end Doc

namespace Page

/-- The end of a line can be written at once with what comes in front of it. -/
theorem write_line_end (page : Page) (content : String) :
    page.write (content ++ "\n") =
      { page.write content with
        text := (page.write content).text ++ "\n", atLineStart := true } := by
  rw [write_append]
  exact write_newline (page.write content).text (page.write content).atLineStart

theorem margin_of_unit_empty {page : Page} (h : page.indentUnit = "") : page.margin = "" := by
  unfold margin
  rw [h]
  induction page.level with
  | zero => rfl
  | succ level ih => rw [List.replicate_succ, String.join_cons, ih, String.append_empty]

theorem text_line_end {page : Page} {content : String}
    (h : page.indentUnit = "" ∨ '\n' ∉ content.toList ∧ page.atLineStart = false) :
    (page.write (content ++ "\n")).text = page.text ++ (content ++ "\n") := by
  rcases h with hu | ⟨hn, hs⟩
  · exact text_write_of_margin_empty (margin_of_unit_empty hu) _
  · obtain ⟨text, unit, level, start, depth⟩ := page
    obtain rfl : start = false := hs
    rw [write_line_end, write_inLine text hn, String.append_assoc]

theorem count_push {page : Page} {c : Char} (hu : c ∉ page.indentUnit.toList) (next : Char) :
    (page.push next).text.toList.count c = page.text.toList.count c + [next].count c := by
  have hm : page.margin.toList.count c = 0 := by
    apply List.count_eq_zero_of_not_mem
    unfold margin
    induction page.level with
    | zero => simp
    | succ level ih => simpa [List.replicate_succ] using ⟨hu, by simpa using ih⟩
  unfold push
  split_ifs <;> simp [hm]

/-- Margins add none of the characters that they do not have. -/
theorem count_write {page : Page} {c : Char} (hu : c ∉ page.indentUnit.toList) (text : String) :
    (page.write text).text.toList.count c = page.text.toList.count c + text.toList.count c := by
  unfold write
  induction text.toList generalizing page with
  | nil => rfl
  | cons next rest ih =>
    have hp : (page.push next).indentUnit = page.indentUnit := by
      unfold push
      split_ifs <;> rfl
    have hc : (next :: rest).count c = [next].count c + rest.count c := by
      rw [← List.count_append, List.singleton_append]
    rw [List.foldl_cons, ih (by rwa [hp]), count_push hu, hc, Nat.add_assoc]

end Page

/-- A row that has been written alone on a page, at the start of a line. -/
structure Page.RowOn (page row : Page) : Prop where
  indentUnit : row.indentUnit = page.indentUnit
  level : row.level = page.level
  depth : row.depth = page.depth
  truthful : row.Truthful

namespace Page.RowOn

variable {page row : Page}

/-- What ends the row leads back to the start of a line. -/
theorem write_line_end (h : page.RowOn row) (ht : page.text = "") (hs : page.atLineStart = true)
    (before content : String) :
    (row.behind before).write (content ++ "\n") =
      page.behind (before ++ (row.write (content ++ "\n")).text) := by
  have he : row.write (content ++ "\n") = page.behind (row.write (content ++ "\n")).text := by
    apply Page.eq_behind ht
    · rw [Page.write_indentUnit, h.indentUnit]
    · rw [Page.write_level, h.level]
    · rw [Page.write_line_end, hs]
    · rw [Page.write_depth, h.depth]
  rw [Page.write_behind, he, Page.behind_behind]
  rw [← he]

theorem text_line_end (h : page.RowOn row) {content : String}
    (hm : page.indentUnit = "" ∨ '\n' ∉ content.toList ∧ ¬ LastLineEmpty row.text) :
    (row.write (content ++ "\n")).text = row.text ++ (content ++ "\n") := by
  apply Page.text_line_end
  rw [h.indentUnit]
  refine hm.imp_right fun hm => ⟨hm.1, ?_⟩
  exact Bool.eq_false_iff.mpr (mt h.truthful.mp hm.2)

end Page.RowOn

namespace Phrase

variable {dialect : Dialect} {page : Page}

/-- A row in its place is the row on its own, behind the text that is there. -/
theorem row_of_run {doc : Doc} {before : String} {imports : Imports} {last : Pass}
    (ht : page.Truthful)
    (h : Stroke.run dialect doc.strokes ⟨page.behind before, imports⟩ = .done last) :
    ∃ row : Page, doc.playFragment dialect ⟨page, imports⟩ = .done ⟨row, last.imports⟩ ∧
      last.page = row.behind before ∧ page.RowOn row := by
  have hb := Stroke.run_behind dialect before doc.strokes ⟨page, imports⟩
  have hu := Stroke.run_indentUnit dialect doc.strokes ⟨page, imports⟩
  have hc := (doc.playFragment_framed dialect ⟨page, imports⟩).balanced
  have hw := @Stroke.run_truthful dialect doc.strokes ⟨page, imports⟩ ht
  rw [Doc.playFragment_eq_run] at hc ⊢
  rw [h] at hb
  cases hr : Stroke.run dialect doc.strokes ⟨page, imports⟩ with
  | failed error row =>
    rw [hr] at hb
    cases hb
  | done row =>
    rw [hr] at hb hu hc hw
    obtain rfl := Outcome.done.inj hb
    exact ⟨row.page, rfl, rfl, hu, hc.level_eq rfl, hc.depth, hw⟩

/-- Behind a row and what ends it, the page is at the start of a line again. -/
theorem ended_row_of_run {doc : Doc} {content before : String} {imports : Imports} {last : Pass}
    {more : List Stroke} (ht : page.text = "") (hs : page.atLineStart = true)
    (h : Stroke.run dialect (doc.strokes ++ .write (content ++ "\n") :: more)
      ⟨page.behind before, imports⟩ = .done last) :
    ∃ row later, doc.playFragment dialect ⟨page, imports⟩ = .done ⟨row, later⟩ ∧
      page.RowOn row ∧
      Stroke.run dialect more
        ⟨page.behind (before ++ (row.write (content ++ "\n")).text), later⟩ = .done last := by
  rw [Stroke.run_append] at h
  cases hm : Stroke.run dialect doc.strokes ⟨page.behind before, imports⟩ with
  | failed error mid =>
    rw [hm] at h
    cases h
  | done mid =>
    obtain ⟨row, hf, hb, ho⟩ := row_of_run (iff_of_true hs (.inl ht)) hm
    refine ⟨row, mid.imports, hf, ho, ?_⟩
    rw [← ho.write_line_end ht hs, ← hb]
    rw [hm] at h
    exact h

/-- Rows write what they write alone, and between them stands the separator. -/
theorem run_rows (separator : String) {docs : List Doc} (hd : docs ≠ []) (ht : page.text = "")
    (hs : page.atLineStart = true) {before : String} {imports : Imports} {last : Pass}
    (h : Stroke.run dialect (rows separator docs).strokes ⟨page.behind before, imports⟩ =
      .done last) :
    ∃ texts, Doc.Written dialect page docs imports texts last.imports ∧
      last.page = page.behind last.page.text ∧
      (Doc.Unmargined page.indentUnit separator texts →
        last.page.text = before ++ (separator ++ "\n").intercalate texts ++ "\n") ∧
      ∀ c, c ≠ '\n' → c ∉ page.indentUnit.toList →
        last.page.text.toList.count c = before.toList.count c +
          (String.join texts).toList.count c + (docs.length - 1) * separator.toList.count c := by
  induction docs generalizing before imports with
  | nil => exact absurd rfl hd
  | cons doc rest ih =>
    cases rest with
    | nil =>
      have hr : (rows separator [doc]).strokes = doc.strokes ++ .write ("" ++ "\n") :: [] := rfl
      rw [hr] at h
      obtain ⟨row, later, hf, ho, hl⟩ := ended_row_of_run ht hs h
      obtain rfl := Outcome.done.inj hl
      have hw : (row.write ("" ++ "\n")).text = row.text ++ "\n" := by
        rw [Page.write_line_end]
        rfl
      refine ⟨[row.text], .cons hf (.nil later), ?_, fun _ => ?_, fun c hc hu => ?_⟩
      · simp [Page.behind, Page.withText, ht]
      · rw [hw]
        simp [Page.behind, Page.withText, ht, String.append_assoc]
      · rw [hw]
        simp [Page.behind, Page.withText, ht, hc.symm]
    | cons next rest =>
      have hr : (rows separator (doc :: next :: rest)).strokes =
          doc.strokes ++ .write (separator ++ "\n") :: (rows separator (next :: rest)).strokes := by
        simp [rows, Doc.strokes]
      rw [hr] at h
      obtain ⟨row, later, hf, ho, hl⟩ := ended_row_of_run ht hs h
      obtain ⟨texts, hw, hb, hi, hn⟩ := ih (List.cons_ne_nil next rest) hl
      refine ⟨row.text :: texts, .cons hf hw, hb, fun hu => ?_, fun c hc hu => ?_⟩
      · have he : texts ≠ [] := by
          intro hn
          simpa [hn] using hw.length_eq
        have hrow := ho.text_line_end (hu.imp_right fun hm => ⟨hm.1, hm.2 row.text (.head _)⟩)
        have hrest := hi (hu.imp_right fun hm =>
          ⟨hm.1, fun text hx => hm.2 text (.tail _ hx)⟩)
        rw [hrest, hrow, String.intercalate_cons_of_ne_nil he]
        simp only [String.append_assoc]
      · have hrow : (row.write (separator ++ "\n")).text.toList.count c = _ :=
          Page.count_write (by rwa [ho.indentUnit]) _
        have hs : (separator ++ "\n").toList.count c = separator.toList.count c := by
          simp [hc.symm]
        have hd : (doc :: next :: rest).length - 1 = (next :: rest).length - 1 + 1 := rfl
        rw [hn c hc hu, String.toList_append, List.count_append, hrow, hs, hd, Nat.succ_mul,
          String.join_cons, String.toList_append, List.count_append]
        omega

/-- The rows are joined, and the last one ends its line. -/
theorem play_rows (separator : String) {docs : List Doc} (hd : docs ≠ []) (pass : Pass) :
    (rows separator docs).play dialect pass =
      (Doc.playAll dialect (docs.intersperse (.text (separator ++ "\n"))) pass).andThen
        fun inner => .done (inner.write "\n") := by
  induction docs generalizing pass with
  | nil => exact absurd rfl hd
  | cons doc rest ih =>
    cases rest with
    | nil =>
      show (doc.play dialect pass).andThen _ = _
      simp only [List.intersperse_singleton, Doc.playAll, Outcome.andThen_assoc]
      rfl
    | cons next rest =>
      have hi := ih (List.cons_ne_nil next rest)
      show ((doc.play dialect pass).andThen _).andThen _ = _
      simp only [List.intersperse_cons_cons, Doc.playAll, Outcome.andThen_assoc]
      congr 1
      funext mid
      exact hi (mid.write (separator ++ "\n"))

end Phrase

namespace Pass

def indent (pass : Pass) : Pass :=
  { pass with page := pass.page.indent }

def unindent (pass : Pass) : Pass :=
  { pass with page := pass.page.unindent }

end Pass

/-- A container of rows. Between the delimiters the rows come one level deeper, with the separator
and the end of the line between any two of them. The text of a row is what it writes alone on a
page of that level; a header that a block in some row brings goes in front of the whole page. -/
structure Doc.LaysOut (dialect : Dialect) (empty opening separator closing : String)
    (rows : List Doc) (doc : Doc) : Prop where
  without : rows = [] → ∀ pass, doc.play dialect pass = .done (pass.write empty)
  joined : rows ≠ [] → ∀ pass, doc.play dialect pass =
    (playAll dialect (rows.intersperse (.text (separator ++ "\n")))
      ((pass.write opening).write "\n").indent).andThen
        fun inner => .done ((inner.write "\n").unindent.write closing)
  text : rows ≠ [] → ∀ pass last, doc.play dialect pass = .done last →
    ∃ front texts, (0 < pass.page.depth → front = "") ∧ texts.length = rows.length ∧
      Written dialect pass.page.indent.cleared rows pass.imports texts last.imports ∧
      (Unmargined pass.page.indentUnit separator texts →
        last.page.text = front ++ ((pass.page.write (opening ++ "\n")).text ++
          (separator ++ "\n").intercalate texts ++ "\n" ++
            (pass.page.cleared.write closing).text)) ∧
      ∀ c, c ≠ '\n' → c ∉ pass.page.indentUnit.toList →
        last.page.text.toList.count c = front.toList.count c + pass.page.text.toList.count c +
          opening.toList.count c + (String.join texts).toList.count c +
            (rows.length - 1) * separator.toList.count c + closing.toList.count c

def Doc.LaysOutObject (dialect : Dialect) (containers : Containers) : List Doc → Doc → Prop :=
  LaysOut dialect containers.emptyObject containers.objectOpen containers.separator
    containers.objectClose

def Doc.LaysOutArray (dialect : Dialect) (containers : Containers) : List Doc → Doc → Prop :=
  LaysOut dialect containers.emptyArray containers.arrayOpen containers.separator
    containers.arrayClose

namespace Phrase

variable (dialect : Dialect) (opening separator closing : String)

/-- The strokes of a container with rows. -/
theorem text_of_run {docs : List Doc} (hd : docs ≠ []) {pass last : Pass}
    (h : Stroke.run dialect
      (.text (opening ++ "\n") ++ .nest (rows separator docs) ++ .text closing : Doc).strokes pass =
        .done last) :
    ∃ texts, Doc.Written dialect pass.page.indent.cleared docs pass.imports texts last.imports ∧
      (Doc.Unmargined pass.page.indentUnit separator texts →
        last.page.text = (pass.page.write (opening ++ "\n")).text ++
          (separator ++ "\n").intercalate texts ++ "\n" ++
            (pass.page.cleared.write closing).text) ∧
      ∀ c, c ≠ '\n' → c ∉ pass.page.indentUnit.toList →
        last.page.text.toList.count c = pass.page.text.toList.count c + opening.toList.count c +
          (String.join texts).toList.count c +
            (docs.length - 1) * separator.toList.count c + closing.toList.count c := by
  have hs :
      (.text (opening ++ "\n") ++ .nest (rows separator docs) ++ .text closing : Doc).strokes =
      [.write (opening ++ "\n"), .indent] ++
        ((rows separator docs).strokes ++ [.unindent, .write closing]) := by
    simp [Doc.strokes]
  -- Behind the opening line stands an empty page of the next level.
  have hp : (pass.page.write (opening ++ "\n")).indent =
      pass.page.indent.cleared.behind (pass.page.write (opening ++ "\n")).text := by
    apply Page.eq_behind rfl
    · exact Page.write_indentUnit ..
    · exact congrArg (· + 1) (Page.write_level ..)
    · rw [Page.write_line_end]
      rfl
    · exact Page.write_depth ..
  rw [hs, Stroke.run_append] at h
  have ho : Stroke.run dialect [.write (opening ++ "\n"), .indent] pass =
      .done ⟨pass.page.indent.cleared.behind (pass.page.write (opening ++ "\n")).text,
        pass.imports⟩ := by
    rw [← hp]
    rfl
  rw [ho, Outcome.andThen_done, Stroke.run_append] at h
  cases hr : Stroke.run dialect (rows separator docs).strokes
      ⟨pass.page.indent.cleared.behind (pass.page.write (opening ++ "\n")).text, pass.imports⟩ with
  | failed error inner =>
    rw [hr] at h
    cases h
  | done inner =>
    obtain ⟨texts, hw, hb, ht, hn⟩ := run_rows separator hd rfl rfl hr
    rw [hr] at h
    obtain rfl := Outcome.done.inj h
    -- One level up again, the rest is written as on an empty page.
    have hc : inner.page.unindent = pass.page.cleared.behind inner.page.text :=
      (congrArg Page.unindent hb).trans rfl
    have hl : (inner.page.unindent.write closing).text =
        inner.page.text ++ (pass.page.cleared.write closing).text := by
      rw [hc, Page.write_behind]
      rfl
    refine ⟨texts, hw, fun hu => ?_, fun c hn' hu => ?_⟩
    · rw [← ht hu]
      exact hl
    · have hopen := Page.count_write hu (opening ++ "\n")
      have hclose : (pass.page.cleared.write closing).text.toList.count c =
          0 + closing.toList.count c :=
        @Page.count_write pass.page.cleared c hu closing
      have ho : (opening ++ "\n").toList.count c = opening.toList.count c := by
        simp [hn'.symm]
      show (inner.page.unindent.write closing).text.toList.count c = _
      rw [hl, String.toList_append, List.count_append, hn c hn' hu, hopen, hclose, ho]
      omega

/-- Any delimiters with any rows between them. -/
theorem container_laysOut (empty : String) (docs : List Doc) :
    Doc.LaysOut dialect empty opening separator closing docs
      (if docs.isEmpty then .text empty
        else .text (opening ++ "\n") ++ .nest (rows separator docs) ++ .text closing) where
  without hd pass := by
    rw [hd]
    rfl
  joined hd pass := by
    have hw : (pass.write (opening ++ "\n")) = (pass.write opening).write "\n" :=
      congrArg (Pass.mk · pass.imports) (Page.write_append ..)
    rw [if_neg (by simpa using hd), ← hw]
    show (((rows separator docs).play dialect (pass.write (opening ++ "\n")).indent).onPage
      Page.unindent).andThen _ = _
    rw [play_rows separator hd]
    cases Doc.playAll dialect (docs.intersperse (.text (separator ++ "\n")))
      (pass.write (opening ++ "\n")).indent <;> rfl
  text hd pass last h := by
    rw [if_neg (by simpa using hd)] at h
    obtain ⟨front, hf, hp⟩ := Doc.exists_front dialect
      (.text (opening ++ "\n") ++ .nest (rows separator docs) ++ .text closing) pass
    rw [h] at hp
    cases hr : Stroke.run dialect
        (.text (opening ++ "\n") ++ .nest (rows separator docs) ++ .text closing : Doc).strokes
        pass with
    | failed error plain =>
      rw [hr] at hp
      cases hp
    | done plain =>
      rw [hr] at hp
      obtain rfl := Outcome.done.inj hp
      obtain ⟨texts, hw, ht, hn⟩ := text_of_run dialect opening separator closing hd hr
      refine ⟨front, texts, hf, hw.length_eq, hw, fun hu => ?_, fun c hc hu => ?_⟩
      · rw [← ht hu]
        rfl
      · have hp := hn c hc hu
        show (front ++ plain.page.text).toList.count c = _
        rw [String.toList_append, List.count_append, hp]
        omega

end Phrase

theorem Expr.docs_eq_map (style : Style) (values : List Expr) :
    Expr.docs style values = values.map (Expr.doc style) := by
  induction values with
  | nil => rfl
  | cons value rest ih => rw [Expr.docs, ih, List.map_cons]

/-- Groovy and Lua have literals, each with delimiters of its own. -/
theorem Expr.doc_literals {style : Style} (h : style.dialect ≠ .plain) :
    (∀ members, (Expr.jsonObject members).doc style =
      Phrase.object style.dialect.containers
        (Member.docs style (style.dialect = .groovy) style.dialect.containers members)) ∧
    (∀ ty members, (Expr.dataObject ty members).doc style =
      Phrase.object style.dialect.containers
        (Member.docs style (style.dialect = .lua) style.dialect.containers members)) ∧
    (∀ values, (Expr.jsonArray values).doc style =
      Phrase.array style.dialect.containers (Expr.docs style values)) := by
  refine ⟨fun members => ?_, fun ty members => ?_, fun values => ?_⟩ <;>
  · rw [Expr.doc]
    cases hd : style.dialect with
    | plain => exact absurd hd h
    | groovy | lua => rfl

namespace Member

theorem docs_eq_map (style : Style) (unquote : Bool) (containers : Containers)
    (members : List Member) :
    Member.docs style unquote containers members =
      members.map (Member.doc style unquote containers) := by
  induction members with
  | nil => rfl
  | cons member rest ih => rw [Member.docs, ih, List.map_cons]

/-- What stands behind the key of a member; an array is laid out between the same delimiters. -/
def valueDoc (style : Style) (containers : Containers) : Member → Doc
  | .single _ value => value.doc style
  | .array _ values => Phrase.array containers (Expr.docs style values)

end Member

theorem Phrase.object_laysOut (style : Style) (unquote : Bool) (containers : Containers)
    (members : List Member) :
    Doc.LaysOutObject style.dialect containers (members.map (Member.doc style unquote containers))
      (Phrase.object containers (Member.docs style unquote containers members)) := by
  rw [Member.docs_eq_map]
  exact container_laysOut ..

theorem Phrase.array_laysOut (style : Style) (containers : Containers) (values : List Expr) :
    Doc.LaysOutArray style.dialect containers (values.map (Expr.doc style))
      (Phrase.array containers (Expr.docs style values)) := by
  rw [Expr.docs_eq_map]
  exact container_laysOut ..

/-- Whatever the language, the delimiters and the page are: objects and arrays lay out their rows,
and a member is its key and its value with the key separator in between. The literals of Groovy and
Lua are such containers at every depth, and there an array among the members of an object is written
like an array literal. -/
theorem Style.container_rows_are_joined (style : Style) (containers : Containers)
    (unquote : Bool) :
    (∀ members, Doc.LaysOutObject style.dialect containers
      (members.map (Member.doc style unquote containers))
      (Phrase.object containers (Member.docs style unquote containers members))) ∧
    (∀ values, Doc.LaysOutArray style.dialect containers (values.map (Expr.doc style))
      (Phrase.array containers (Expr.docs style values))) ∧
    (∀ (member : Member) (pass : Pass),
      (member.doc style unquote containers).play style.dialect pass =
        ((Phrase.key style.dialect unquote member.name (member.name.doc style)).play
          style.dialect pass).andThen fun named =>
            (member.valueDoc style containers).play style.dialect
              (named.write containers.keySeparator)) ∧
    (style.dialect ≠ .plain →
      (∀ members, Doc.LaysOutObject style.dialect style.dialect.containers
        (members.map (Member.doc style (style.dialect = .groovy) style.dialect.containers))
        ((Expr.jsonObject members).doc style)) ∧
      (∀ ty members, Doc.LaysOutObject style.dialect style.dialect.containers
        (members.map (Member.doc style (style.dialect = .lua) style.dialect.containers))
        ((Expr.dataObject ty members).doc style)) ∧
      (∀ values, Doc.LaysOutArray style.dialect style.dialect.containers
        (values.map (Expr.doc style)) ((Expr.jsonArray values).doc style)) ∧
      ∀ name values,
        (Member.array name values).doc style unquote style.dialect.containers =
          (Member.single name (.jsonArray values)).doc style unquote style.dialect.containers) := by
  refine ⟨Phrase.object_laysOut style unquote containers, Phrase.array_laysOut style containers,
    fun member pass => ?_, fun hd => ?_⟩
  · have ha := Outcome.andThen_assoc
      ((Phrase.key style.dialect unquote member.name (member.name.doc style)).play
        style.dialect pass)
    cases member with
    | single name value => exact ha _ _
    | array name values => exact ha _ _
  · obtain ⟨ho, ht, ha⟩ := Expr.doc_literals hd
    refine ⟨fun members => ?_, fun ty members => ?_, fun values => ?_, fun name values => ?_⟩
    · rw [ho]
      exact Phrase.object_laysOut ..
    · rw [ht]
      exact Phrase.object_laysOut ..
    · rw [ha]
      exact Phrase.array_laysOut ..
    · rw [Member.doc, Member.doc, ha]

/-- Delimiters that neither language has. -/
def angles : Containers where
  objectOpen := "<"
  objectClose := ">"
  emptyObject := "<>"
  arrayOpen := "("
  arrayClose := ")"
  emptyArray := "()"
  keySeparator := " -> "
  separator := ";"

def hostAndPorts : List Member :=
  [.single (.literal (.string "host")) (.literal (.string "a;b")),
    .array (.literal (.string "ports")) [.ident "p", .ident "q"]]

def anglesDoc : Doc :=
  Phrase.object angles (Member.docs ⟨.lua, true⟩ true angles hostAndPorts)

def anglesText : String :=
  "x = <\n      host -> \"a;b\";\n      ports -> (\n        p;\n        q\n      )\n    >"

theorem Style.container_rows_are_joined_hostAndPorts :
    ∃ last, anglesDoc.play .lua (midLine "x = ") = .done last ∧ last.page.text = anglesText ∧
      ∃ texts, Doc.Written .lua (midLine "x = ").page.indent.cleared
          (hostAndPorts.map (Member.doc ⟨.lua, true⟩ true angles)) (midLine "x = ").imports texts
          last.imports ∧
        anglesText.toList.count ';' = (String.join texts).toList.count ';' + 1 := by
  have ht : (anglesDoc.play .lua (midLine "x = ")).pass.page.text = anglesText := by
    decide +kernel
  have he : (anglesDoc.play .lua (midLine "x = ")).error?.isNone = true := by decide +kernel
  obtain ⟨ho, -⟩ := Style.container_rows_are_joined ⟨.lua, true⟩ angles true
  cases hp : anglesDoc.play .lua (midLine "x = ") with
  | failed error last =>
    rw [hp] at he
    cases he
  | done last =>
    rw [hp] at ht
    obtain ⟨front, texts, hf, -, hw, -, hn⟩ :=
      (ho hostAndPorts).text (by simp [hostAndPorts]) _ _ hp
    have hc := hn ';' (by decide) (by decide)
    rw [hf Nat.one_pos, show last.page.text = anglesText from ht] at hc
    refine ⟨last, rfl, ht, texts, hw, hc.trans ?_⟩
    simp [midLine, angles, hostAndPorts]

end Polyglot
