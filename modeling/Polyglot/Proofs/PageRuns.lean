import Polyglot.Proofs.PlainText

/-! Pages over whole runs. Whether a line has just begun is kept beside the text and not read off
it, and whatever is done to a page the two agree. -/
namespace Polyglot

/-- There is nothing on the last line of the text. -/
def LastLineEmpty (text : String) : Prop :=
  text = "" ∨ ∃ before, text = before ++ "\n"

namespace LastLineEmpty

/-- The last character decides. -/
theorem push_iff (text : String) (c : Char) : LastLineEmpty (text.push c) ↔ c = '\n' := by
  constructor
  · rintro (he | ⟨before, he⟩)
    · have hl := congrArg String.toList he
      simp at hl
    · have hl : text.toList ++ [c] = before.toList ++ ['\n'] := by
        simpa [← String.toList_inj] using he
      exact List.singleton_inj.mp (List.append_inj_right' hl rfl)
  · rintro rfl
    exact .inr ⟨text, String.push_eq_append '\n'⟩

theorem exists_push {text : String} (h : text ≠ "") : ∃ start c, text = String.push start c := by
  obtain he | ⟨chars, c, he⟩ := List.eq_nil_or_concat text.toList
  · exact absurd (String.toList_eq_nil_iff.mp he) h
  · exact ⟨String.ofList chars, c, by simp [← String.toList_inj, he]⟩

/-- Lines that all have an end leave an empty line behind. -/
theorem join_lines (lines : List String) :
    LastLineEmpty (String.join (lines.map (·.push '\n'))) := by
  induction lines with
  | nil => exact .inl rfl
  | cons line rest ih =>
    rw [List.map_cons, String.join_cons]
    rcases ih with he | ⟨before, he⟩
    · rw [he, String.append_empty]
      exact (push_iff line '\n').mpr rfl
    · exact .inr ⟨line.push '\n' ++ before, by rw [he, String.append_assoc]⟩

/-- Whole lines in front of a text make no difference to its last line. -/
theorem lines_append_iff (lines : List String) (text : String) :
    LastLineEmpty (String.join (lines.map (·.push '\n')) ++ text) ↔ LastLineEmpty text := by
  by_cases ht : text = ""
  · subst ht
    rw [String.append_empty]
    exact iff_of_true (join_lines lines) (.inl rfl)
  · obtain ⟨start, c, rfl⟩ := exists_push ht
    have hp (before : String) : before ++ start.push c = (before ++ start).push c := by
      simp [← String.toList_inj]
    rw [hp, push_iff, push_iff]

end LastLineEmpty

namespace Page

/-- What can be done to a page. -/
inductive Step where
  | write (text : String)
  | push (c : Char)
  | indent
  | unindent
  | enterBlock
  | leaveBlock
  | prependHeader (lines : List String)
  /-- Takes the text off the page. -/
  | take

def step (page : Page) : Step → Page
  | .write text => page.write text
  | .push c => page.push c
  | .indent => page.indent
  | .unindent => page.unindent
  | .enterBlock => page.enterBlock
  | .leaveBlock => page.leaveBlock
  | .prependHeader lines => page.prependHeader lines
  | .take => page.cleared

/-- A new page after these steps. -/
def after (unit : String) (steps : List Step) : Page :=
  steps.foldl step { indentUnit := unit }

/-- The page knows whether its last line is empty. -/
def Truthful (page : Page) : Prop :=
  page.atLineStart = true ↔ LastLineEmpty page.text

/-- A character settles the matter, even on a page that was wrong about its line before. -/
theorem push_truthful (page : Page) (c : Char) : (page.push c).Truthful := by
  unfold push
  split_ifs with hc hs
  · exact iff_of_true rfl ((LastLineEmpty.push_iff _ c).mpr hc)
  · exact iff_of_false Bool.false_ne_true
      (mt (LastLineEmpty.push_iff (page.text ++ page.margin) c).mp hc)
  · exact iff_of_false hs (mt (LastLineEmpty.push_iff _ c).mp hc)

theorem Truthful.write {page : Page} (h : page.Truthful) (text : String) :
    (page.write text).Truthful := by
  unfold Page.write
  induction text.toList generalizing page with
  | nil => exact h
  | cons c rest ih =>
    rw [List.foldl_cons]
    exact ih (push_truthful page c)

theorem Truthful.prependHeader {page : Page} (h : page.Truthful) (lines : List String) :
    (page.prependHeader lines).Truthful := by
  rw [prependHeader_eq]
  exact h.trans (LastLineEmpty.lines_append_iff lines page.text).symm

theorem Truthful.step {page : Page} (h : page.Truthful) (step : Step) :
    (page.step step).Truthful := by
  cases step with
  | write text => exact h.write text
  | push c => exact push_truthful page c
  | indent | unindent | enterBlock | leaveBlock => exact h
  | prependHeader lines => exact h.prependHeader lines
  | take => exact iff_of_true rfl (.inl rfl)

theorem Truthful.steps {page : Page} (h : page.Truthful) (steps : List Step) :
    (steps.foldl Page.step page).Truthful := by
  induction steps generalizing page with
  | nil => exact h
  | cons first rest ih =>
    rw [List.foldl_cons]
    exact ih (h.step first)

/-- Over every run from a new page: the page is at the start of a line just where its last line is
empty. Texts may be written in parts. A header goes in front of the old text, each line with its
end, and leaves all counters as they were at whatever level it comes; without levels texts are
taken as they are. -/
theorem line_starts_told_over_runs (unit : String) (steps : List Step) :
    let page := after unit steps
    (page.atLineStart = true ↔ page.text = "" ∨ ∃ before, page.text = before ++ "\n") ∧
    (∀ first second, page.write (first ++ second) = (page.write first).write second) ∧
    (∀ lines, page.prependHeader lines =
      { page with text := String.join (lines.map (· ++ "\n")) ++ page.text }) ∧
    (page.level = 0 → ∀ text, (page.write text).text = page.text ++ text) := by
  intro page
  have hn : ({ indentUnit := unit } : Page).Truthful := iff_of_true rfl (.inl rfl)
  refine ⟨hn.steps steps, page.write_append, fun lines => ?_, page.text_write_of_level_zero⟩
  have hl : ∀ line : String, line.push '\n' = line ++ "\n" := fun line => String.push_eq_append '\n'
  simp only [prependHeader_eq, hl]

/-- A block with an empty line in it, then a header at a deeper level, then the end of the block. -/
def importedBlock : List Step :=
  [.write "a \x7b\n", .enterBlock, .indent, .write "b\n\n", .prependHeader ["import x", "import y"],
    .push 'c', .push '\n', .leaveBlock, .unindent, .write "\x7d"]

theorem line_starts_told_over_runs_importedBlock :
    (after "  " importedBlock).text = "import x\nimport y\na \x7b\n  b\n\n  c\n\x7d" ∧
      (after "  " importedBlock).atLineStart = false ∧
      (¬ ∃ before, (after "  " importedBlock).text = before ++ "\n") ∧
      (after "  " importedBlock).level = 0 ∧
      ∀ text, ((after "  " importedBlock).write text).text =
        (after "  " importedBlock).text ++ text := by
  have hz : (after "  " importedBlock).level = 0 := by decide +kernel
  have hs : (after "  " importedBlock).atLineStart = false := by decide +kernel
  obtain ⟨ht, -, -, hw⟩ := line_starts_told_over_runs "  " importedBlock
  refine ⟨by decide +kernel, hs, fun he => ?_, hz, hw hz⟩
  exact absurd (ht.mpr (.inr he)) (by rw [hs]; exact Bool.false_ne_true)

end Page

end Polyglot
