/-! An indenting page: text is appended, and each non-empty line starts with its margin. -/

namespace Polyglot

/-- `level` counts the margins of the next line, `depth` the blocks that are open. -/
structure Page where
  text : String := ""
  indentUnit : String
  level : Nat := 0
  atLineStart : Bool := true
  depth : Nat := 0

namespace Page

def margin (page : Page) : String :=
  String.join (List.replicate page.level page.indentUnit)

/-- The margin is written with the first character of a line, so an empty line has none. -/
def push (page : Page) (c : Char) : Page :=
  if c = '\n' then
    { page with text := page.text.push c, atLineStart := true }
  else if page.atLineStart then
    { page with text := (page.text ++ page.margin).push c, atLineStart := false }
  else
    { page with text := page.text.push c }

def write (page : Page) (text : String) : Page :=
  text.toList.foldl push page

def freshLine (page : Page) : Page :=
  if page.atLineStart then page else page.push '\n'

def indent (page : Page) : Page :=
  { page with level := page.level + 1 }

def unindent (page : Page) : Page :=
  { page with level := page.level - 1 }

def enterBlock (page : Page) : Page :=
  { page with depth := page.depth + 1 }

def leaveBlock (page : Page) : Page :=
  { page with depth := page.depth - 1 }

def writeLine (page : Page) (line : String) : Page :=
  (page.write line).push '\n'

/-- Puts whole lines in front of everything written so far. The text is taken off the page while
the lines are written without a margin, and then it is put back as it was. -/
def prependHeader (page : Page) (lines : List String) : Page :=
  if lines.isEmpty then page
  else
    let header := lines.foldl writeLine { page with text := "", level := 0, atLineStart := true }
    { header with
      text := header.text ++ page.text, level := page.level, atLineStart := page.atLineStart }

/-- The page after its text has been taken off. -/
def cleared (page : Page) : Page :=
  { page with text := "", atLineStart := true }

theorem margin_of_level_zero {page : Page} (h : page.level = 0) : page.margin = "" := by
  simp [margin, h]

/-- A page without a margin takes a text as it is, and nothing else changes but the start of a
line. -/
theorem exists_write_of_margin_empty {page : Page} (h : page.margin = "") (text : String) :
    ∃ start, page.write text = { page with text := page.text ++ text, atLineStart := start } := by
  unfold write
  rw [← String.ofList_toList (s := text), String.toList_ofList]
  induction text.toList generalizing page with
  | nil => exact ⟨page.atLineStart, by simp⟩
  | cons c rest ih =>
    obtain ⟨start, hp⟩ :
        ∃ start, page.push c = { page with text := page.text.push c, atLineStart := start } := by
      unfold push
      split
      · exact ⟨true, rfl⟩
      · split
        · exact ⟨false, by simp [h]⟩
        · exact ⟨page.atLineStart, rfl⟩
    obtain ⟨last, hr⟩ := @ih { page with text := page.text.push c, atLineStart := start } h
    refine ⟨last, ?_⟩
    rw [List.foldl_cons, hp, hr]
    simp [← String.toList_inj]

theorem writeLine_of_level_zero {page : Page} (h : page.level = 0) (line : String) :
    page.writeLine line = { page with text := page.text ++ line.push '\n', atLineStart := true } := by
  obtain ⟨start, hw⟩ := exists_write_of_margin_empty (margin_of_level_zero h) line
  rw [writeLine, hw]
  simp [push, ← String.toList_inj]

theorem foldl_writeLine {page : Page} (h : page.level = 0) (hs : page.atLineStart = true)
    (lines : List String) :
    lines.foldl writeLine page =
      { page with text := page.text ++ String.join (lines.map (·.push '\n')) } := by
  induction lines generalizing page with
  | nil => simp
  | cons line rest ih =>
    rw [List.foldl_cons, writeLine_of_level_zero h,
      @ih { page with text := page.text ++ line.push '\n', atLineStart := true } h rfl]
    simp [hs, String.append_assoc]

/-- The lines come in front, each with its end, and the page stays as it is in all else. -/
theorem prependHeader_eq (page : Page) (lines : List String) :
    page.prependHeader lines =
      { page with text := String.join (lines.map (·.push '\n')) ++ page.text } := by
  unfold prependHeader
  split
  · next he =>
    rw [List.isEmpty_iff.mp he]
    simp
  · have hf := @foldl_writeLine { page with text := "", level := 0, atLineStart := true } rfl rfl
      lines
    simp [hf]

@[simp] theorem prependHeader_level (page : Page) (lines : List String) :
    (page.prependHeader lines).level = page.level := by
  rw [prependHeader_eq]

@[simp] theorem prependHeader_depth (page : Page) (lines : List String) :
    (page.prependHeader lines).depth = page.depth := by
  rw [prependHeader_eq]

end Page

end Polyglot
