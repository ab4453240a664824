import Polyglot.Proofs.Scan

/-! A reader of Lua texts that follows brackets and block words. A word counts only when it has
ended, so the reader keeps the word that it is in beside the stack of what is open. -/
namespace Polyglot

namespace Lua

/-- What can be open: brackets, and blocks that an `end` closes. -/
inductive Opener where
  | paren | bracket | brace
  | function | loop | branch
  deriving DecidableEq

/-- Where a reader is: in code behind the letters of a word so far, in a string, or behind something
that does not fit. -/
inductive Mode where
  | code (opened : List Opener) (word : List Char)
  | string (opened : List Opener) (escaped : Bool)
  | broken
  deriving DecidableEq

def isWordChar (c : Char) : Bool :=
  c.isAlphanum || c = '_'

namespace Mode

/-- What an `else` or an `elseif` goes on with. -/
def continueBranch : List Opener → Mode
  | .branch :: rest => .code (.branch :: rest) []
  | _ => .broken

/-- What an `end` closes. -/
def closeBlock : List Opener → Mode
  | .function :: rest | .loop :: rest | .branch :: rest => .code rest []
  | _ => .broken

/-- What a word does that has ended. -/
def endWord (opened : List Opener) : List Char → Mode
  | ['f', 'u', 'n', 'c', 't', 'i', 'o', 'n'] => .code (.function :: opened) []
  | ['d', 'o'] => .code (.loop :: opened) []
  | ['i', 'f'] => .code (.branch :: opened) []
  | ['e', 'l', 's', 'e'] | ['e', 'l', 's', 'e', 'i', 'f'] => continueBranch opened
  | ['e', 'n', 'd'] => closeBlock opened
  | _ => .code opened []

/-- Ends the word that the reader is in. -/
def settle : Mode → Mode
  | .code opened word => endWord opened word
  | mode => mode

def close (opener : Opener) : List Opener → Mode
  | last :: rest => if last = opener then .code rest [] else .broken
  | [] => .broken

/-- A character between words. -/
def mark (opened : List Opener) : Char → Mode
  | '(' => .code (.paren :: opened) []
  | '[' => .code (.bracket :: opened) []
  | '{' => .code (.brace :: opened) []
  | ')' => close .paren opened
  | ']' => close .bracket opened
  | '}' => close .brace opened
  | '"' => .string opened false
  | _ => .code opened []

/-- No string goes over the end of its line. -/
def step : Mode → Char → Mode
  | .code opened word, c =>
    if isWordChar c then .code opened (word ++ [c])
    else
      match endWord opened word with
      | .code opened _ => mark opened c
      | mode => mode
  | .string opened escaped, c =>
    if c = '\n' then .broken
    else if escaped then .string opened false
    else if c = '"' then .code opened []
    else .string opened (c = '\\')
  | .broken, _ => .broken

end Mode

def scanner : Scanner Mode where
  start := .code [] []
  step := Mode.step

open Mode

section Boundaries

variable {mode : Mode} {opened : List Opener}

/-- A word that has ended leaves no letters behind. -/
theorem endWord_cases (opened : List Opener) (word : List Char) :
    endWord opened word = .broken ∨ ∃ left, endWord opened word = .code left [] := by
  have hb : continueBranch opened = .broken ∨ ∃ left, continueBranch opened = .code left [] := by
    unfold continueBranch
    split
    · exact .inr ⟨_, rfl⟩
    · exact .inl rfl
  have he : closeBlock opened = .broken ∨ ∃ left, closeBlock opened = .code left [] := by
    unfold closeBlock
    split
    · exact .inr ⟨_, rfl⟩
    · exact .inr ⟨_, rfl⟩
    · exact .inr ⟨_, rfl⟩
    · exact .inl rfl
  unfold endWord
  split
  · exact .inr ⟨_, rfl⟩
  · exact .inr ⟨_, rfl⟩
  · exact .inr ⟨_, rfl⟩
  · exact hb
  · exact hb
  · exact he
  · exact .inr ⟨_, rfl⟩

theorem step_between {c : Char} (hc : isWordChar c = false) (word : List Char) :
    scanner.step (.code opened word) c =
      match endWord opened word with
      | .code left _ => mark left c
      | mode => mode := by
  simp [scanner, Mode.step, hc]

theorem step_word {c : Char} (hc : isWordChar c = true) (word : List Char) :
    scanner.step (.code opened word) c = .code opened (word ++ [c]) := by
  simp [scanner, Mode.step, hc]

/-- Where the word in front is settled, a character between words is read as if it was not there. -/
theorem step_of_settle (h : settle mode = .code opened []) {c : Char}
    (hc : isWordChar c = false) : scanner.step mode c = scanner.step (.code opened []) c := by
  cases mode with
  | code before word =>
    have he : endWord before word = .code opened [] := h
    have hn : endWord opened [] = .code opened [] := rfl
    rw [step_between hc, step_between hc, he, hn]
  | string before escaped => cases h
  | broken => cases h

/-- A text that does not go on with a word in front of it. -/
def startsApart (text : String) : Bool :=
  text.toList.head?.any (!isWordChar ·)

theorem read_of_settle (h : settle mode = .code opened []) {text : String}
    (ht : startsApart text = true) :
    scanner.read mode text = scanner.read (.code opened []) text := by
  unfold startsApart at ht
  unfold Scanner.read
  cases hc : text.toList with
  | nil => simp [hc] at ht
  | cons c rest =>
    have hw : isWordChar c = false := by simpa [hc] using ht
    rw [List.foldl_cons, List.foldl_cons, step_of_settle h hw]

/-- The end of a line ends the word. -/
theorem newline_cases (mode : Mode) : scanner.step mode '\n' = .broken ∨
    ∃ left, scanner.step mode '\n' = .code left [] := by
  cases mode with
  | code opened word =>
    rw [step_between rfl]
    obtain he | ⟨left, he⟩ := endWord_cases opened word
    · rw [he]
      exact .inl rfl
    · rw [he]
      exact .inr ⟨left, rfl⟩
  | string opened escaped => exact .inl rfl
  | broken => exact .inl rfl

end Boundaries

/-- A text that is neither part of a word nor a bracket or a quote, such as white space. -/
def Spacing (text : String) : Prop :=
  ∀ c ∈ text.toList, isWordChar c = false ∧ c ∉ ['(', ')', '[', ']', '{', '}', '"']

instance (text : String) : Decidable (Spacing text) :=
  List.decidableBAll _ text.toList

theorem overlooks {unit : String} (h : Spacing unit) : scanner.Overlooks unit := by
  refine ⟨rfl, fun mode => ?_, fun mode c hc => ?_⟩
  · obtain he | ⟨left, he⟩ := newline_cases mode
    · rw [he]
      rfl
    · rw [he]
      rfl
  · obtain he | ⟨left, he⟩ := newline_cases mode
    · rw [he]
      rfl
    · obtain ⟨hw, hm⟩ := h c hc
      have hn : endWord left [] = .code left [] := rfl
      simp only [List.mem_cons, List.not_mem_nil, or_false, not_or] at hm
      rw [he, step_between hw, hn]
      simp [mark, hm]

section Words

def keywords : List String :=
  ["and", "break", "do", "else", "elseif", "end", "false", "for", "function", "goto", "if", "in",
    "local", "nil", "not", "or", "repeat", "return", "then", "true", "until", "while"]

/-- Words with dots between them, none of which is a keyword. -/
def IsName (text : String) : Prop :=
  (∀ c ∈ text.toList, isWordChar c = true ∨ c = '.') ∧
    ∀ word ∈ text.toList.splitOn '.', String.ofList word ∉ keywords

instance (text : String) : Decidable (IsName text) :=
  @instDecidableAnd _ _ (List.decidableBAll _ text.toList)
    (List.decidableBAll _ (text.toList.splitOn '.'))

def numeralChars : List Char := "0123456789.+-abcdefxpABCDEFXP".toList

def IsNumeral (text : String) : Prop :=
  ∀ c ∈ text.toList, c ∈ numeralChars

instance (text : String) : Decidable (IsNumeral text) :=
  List.decidableBAll _ text.toList

/-- A text that leaves open what was open in front of it, as soon as its last word has ended. -/
def Harmless (text : String) : Prop :=
  ∀ opened, settle (scanner.read (.code opened []) text) = .code opened []

theorem endWord_of_notMem {word : List Char} (h : String.ofList word ∉ keywords)
    (opened : List Opener) : endWord opened word = .code opened [] := by
  unfold endWord
  split
  · exact absurd (by decide +kernel) h
  · exact absurd (by decide +kernel) h
  · exact absurd (by decide +kernel) h
  · exact absurd (by decide +kernel) h
  · exact absurd (by decide +kernel) h
  · exact absurd (by decide +kernel) h
  · rfl

/-- The induction is over the characters, with the letters of the word so far in front of the first
word of the rest. -/
theorem settle_foldl (isGap : Char → Bool) {chars word : List Char} (opened : List Opener)
    (hg : ∀ c ∈ chars, isGap c = !isWordChar c)
    (hm : ∀ c ∈ chars, isWordChar c = true ∨ c ∈ ['.', '+', '-'])
    (hw : ∀ run ∈ (chars.splitOnP isGap).modifyHead (word ++ ·), String.ofList run ∉ keywords) :
    settle (chars.foldl scanner.step (.code opened word)) = .code opened [] := by
  induction chars generalizing word with
  | nil => exact endWord_of_notMem (by simpa using hw) opened
  | cons c rest ih =>
    obtain ⟨hgc, hgr⟩ := List.forall_mem_cons.mp hg
    obtain ⟨hmc, hmr⟩ := List.forall_mem_cons.mp hm
    rw [List.splitOnP_cons_eq_if_modifyHead] at hw
    rw [List.foldl_cons]
    cases hc : isWordChar c with
    | true =>
      rw [step_word hc]
      apply ih hgr hmr
      simpa [hgc, hc, List.modifyHead_modifyHead, Function.comp_def] using hw
    | false =>
      have hn : String.ofList word ∉ keywords ∧
          ∀ run ∈ rest.splitOnP isGap, String.ofList run ∉ keywords := by
        simpa [hgc, hc] using hw
      have hs : scanner.step (.code opened word) c = .code opened [] := by
        rw [step_between hc, endWord_of_notMem hn.1]
        have hd : c ∈ ['.', '+', '-'] := hmc.resolve_left (by simp [hc])
        simp only [List.mem_cons, List.not_mem_nil, or_false] at hd
        obtain rfl | rfl | rfl := hd <;> rfl
      rw [hs]
      exact ih hgr hmr (congrFun List.modifyHead_id (rest.splitOnP isGap) ▸ hn.2)

/-- Words without keywords among them do nothing. -/
theorem harmless_of_words (isGap : Char → Bool) {text : String}
    (hg : ∀ c ∈ text.toList, isGap c = !isWordChar c)
    (hm : ∀ c ∈ text.toList, isWordChar c = true ∨ c ∈ ['.', '+', '-'])
    (hw : ∀ run ∈ text.toList.splitOnP isGap, String.ofList run ∉ keywords) : Harmless text := by
  intro opened
  exact settle_foldl isGap opened hg hm
    (congrFun List.modifyHead_id (text.toList.splitOnP isGap) ▸ hw)

theorem harmless_of_isName {text : String} (h : IsName text) : Harmless text := by
  refine harmless_of_words (· == '.') ?_ ?_ h.2
  · intro c hc
    obtain hw | rfl := h.1 c hc
    · have hd : c ≠ '.' := by
        rintro rfl
        exact absurd hw (by decide)
      simp [hw, hd]
    · rfl
  · intro c hc
    exact (h.1 c hc).imp_right fun hd => by simp [hd]

theorem mem_of_mem_splitOnP {chars run : List Char} {isGap : Char → Bool} {c : Char}
    (hr : run ∈ chars.splitOnP isGap) (hc : c ∈ run) : c ∈ chars := by
  induction chars generalizing run with
  | nil =>
    obtain rfl : run = [] := by simpa using hr
    exact hc
  | cons d rest ih =>
    rw [List.splitOnP_cons_eq_if_modifyHead] at hr
    split_ifs at hr with hd
    · obtain rfl | hr := List.mem_cons.mp hr
      · cases hc
      · exact .tail _ (ih hr hc)
    · cases hs : rest.splitOnP isGap with
      | nil => simp [hs] at hr
      | cons first others =>
        rw [hs] at ih hr
        obtain rfl | hr := List.mem_cons.mp hr
        · obtain rfl | hc := List.mem_cons.mp hc
          · exact .head _
          · exact .tail _ (ih (.head _) hc)
        · exact .tail _ (ih (.tail _ hr) hc)

/-- Every keyword has a letter that numbers do not have. -/
theorem exists_notMem_numeralChars :
    ∀ keyword ∈ keywords, ∃ c ∈ keyword.toList, c ∉ numeralChars := by
  have h : keywords.all (·.toList.any (· ∉ numeralChars)) = true := by decide +kernel
  simpa using h

theorem numeralChars_cases :
    ∀ c ∈ numeralChars, isWordChar c = true ∨ c ∈ ['.', '+', '-'] := by
  have h : numeralChars.all (fun c => isWordChar c || c ∈ ['.', '+', '-']) = true := by
    decide +kernel
  simpa using h

theorem harmless_of_isNumeral {text : String} (h : IsNumeral text) : Harmless text := by
  refine harmless_of_words (!isWordChar ·) (fun _ _ => rfl)
    (fun c hc => numeralChars_cases c (h c hc)) ?_
  intro run hr hk
  obtain ⟨c, hc, hx⟩ := exists_notMem_numeralChars _ hk
  rw [String.toList_ofList] at hc
  exact hx (h c (mem_of_mem_splitOnP hr hc))

/-- A dotted name as one word is no keyword either, because a keyword has no underscore. -/
theorem isName_mangled {text : String} (h : IsName text) : IsName (Dialect.mangled text) := by
  have hw : ∀ c ∈ (Dialect.mangled text).toList, isWordChar c = true := by
    intro c hc
    rw [Dialect.mangled, String.toList_ofList] at hc
    obtain ⟨d, hd, rfl⟩ := List.mem_map.mp hc
    split_ifs with he
    · rfl
    · exact (h.1 d hd).resolve_right he
  have hd : ∀ c ∈ (Dialect.mangled text).toList, (c == '.') = false := by
    intro c hc
    rw [beq_eq_false_iff_ne]
    rintro rfl
    exact absurd (hw _ hc) (by decide)
  refine ⟨fun c hc => .inl (hw c hc), ?_⟩
  rw [List.splitOn, List.splitOnP_eq_singleton hd, List.forall_mem_singleton,
    String.ofList_toList]
  intro hk
  have hu : ∀ keyword ∈ keywords, '_' ∉ keyword.toList := by decide +kernel
  have hn : '.' ∉ text.toList := by
    intro hm
    refine hu _ hk ?_
    rw [Dialect.mangled, String.toList_ofList]
    exact List.mem_map.mpr ⟨'.', hm, rfl⟩
  have hs : Dialect.mangled text = text := by
    rw [← String.toList_inj, Dialect.mangled, String.toList_ofList]
    exact (List.map_congr_left fun c hc => if_neg (ne_of_mem_of_not_mem hc hn)).trans
      (List.map_id' _)
  rw [hs] at hd hk
  refine h.2 text.toList ?_ (by rwa [String.ofList_toList])
  rw [List.splitOn, List.splitOnP_eq_singleton hd]
  exact .head _

theorem harmless_behind {lead text : String}
    (hl : ∀ opened, scanner.read (.code opened []) lead = .code opened []) (h : Harmless text) :
    Harmless (lead ++ text) := by
  intro opened
  rw [Scanner.read_append, hl, h]

/-- Two harmless texts are harmless with a gap between them. -/
theorem harmless_append {first gap second : String} (hf : Harmless first)
    (ha : startsApart gap = true)
    (hg : ∀ opened, scanner.read (.code opened []) gap = .code opened [])
    (hs : Harmless second) : Harmless (first ++ gap ++ second) := by
  intro opened
  rw [Scanner.read_append, Scanner.read_append, read_of_settle (hf opened) ha, hg, hs]

end Words

section Strings

variable (opened : List Opener)

theorem step_inString {c : Char} (h : c ∉ ['"', '\\', '\n']) :
    scanner.step (.string opened false) c = .string opened false := by
  simp only [List.mem_cons, List.not_mem_nil, or_false, not_or] at h
  simp [scanner, Mode.step, h]

/-- A backslash takes the next character with it. -/
theorem step_escaped {c : Char} (h : c ≠ '\n') :
    scanner.step (scanner.step (.string opened false) '\\') c = .string opened false := by
  simp [scanner, Mode.step, h]

theorem foldl_escapeChar (c : Char) :
    (Text.escapeChar c).foldl scanner.step (.string opened false) = .string opened false := by
  obtain ⟨code, hn, he⟩ | ⟨he, hc⟩ := Text.escapeChar_cases c
  · rw [he]
    exact step_escaped opened hn
  · rw [he]
    apply step_inString
    simp only [List.mem_cons, List.not_mem_nil, or_false, not_or] at hc ⊢
    exact ⟨hc.2.1, hc.1, hc.2.2.1⟩

theorem read_escape (value : String) :
    scanner.read (.string opened false) (Text.escape value) = .string opened false := by
  rw [Scanner.read, Text.escape, String.toList_ofList]
  induction value.toList with
  | nil => rfl
  | cons c rest ih => rw [List.flatMap_cons, List.foldl_append, foldl_escapeChar, ih]

/-- A name can also stand in a string. -/
theorem read_name_inString {text : String} (h : IsName text) :
    scanner.read (.string opened false) text = .string opened false := by
  apply scanner.read_of_still
  intro c hc
  apply step_inString
  have hn : ∀ d ∈ ['"', '\\', '\n'], isWordChar d = false ∧ d ≠ '.' := by simp [isWordChar]
  intro hm
  obtain ⟨hw, hd⟩ := hn c hm
  obtain he | he := h.1 c hc
  · simp [he] at hw
  · exact hd he

end Strings

end Lua

end Polyglot
