import Polyglot.Proofs.TextObjects

/-! JSON objects of Groovy, whose names are written without quotes and without escapes. Names of one
line can be told from everything else in the text. A name with an end of line in it can hold the
text of a whole member. -/
namespace Polyglot

namespace BareNames

def margin (unit : String) (level : Nat) : List Char :=
  (String.join (List.replicate level unit)).toList

/-- On a page of this level, where the line is empty or not, the document goes through and adds this
text. -/
def Lays (unit : String) (level : Nat) (start : Bool) (doc : Doc) (stop : Bool)
    (content : List Char) : Prop :=
  ∀ (dialect : Dialect) (text : String) (depth : Nat) (imports : Imports),
    doc.play dialect ⟨⟨text, unit, level, start, depth⟩, imports⟩ =
      .done ⟨⟨text ++ String.ofList content, unit, level, stop, depth⟩, imports⟩

namespace Lays

variable {unit : String} {level : Nat} {start middle stop : Bool} {doc first second : Doc}
  {content rest : List Char} {text : String}

theorem append (hf : Lays unit level start first middle content)
    (hs : Lays unit level middle second stop rest) :
    Lays unit level start (first ++ second) stop (content ++ rest) := by
  intro dialect text depth imports
  show (first.play dialect _).andThen (second.play dialect) = _
  rw [hf, Outcome.andThen_done, hs, String.append_assoc, String.ofList_append]

theorem nest (h : Lays unit (level + 1) start doc stop content) :
    Lays unit level start (.nest doc) stop content := by
  intro dialect text depth imports
  have hb := h dialect text depth imports
  simp only [Doc.play, Page.indent, hb]
  rfl

theorem inLine (h : doc.Plain text) (hn : '\n' ∉ text.toList) :
    Lays unit level false doc false text.toList := by
  intro dialect before depth imports
  rw [h.play, Pass.write, Page.write_inLine before hn, String.ofList_toList]

theorem atStart (h : doc.Plain text) (hn : '\n' ∉ text.toList) (ht : text ≠ "") :
    Lays unit level true doc false (margin unit level ++ text.toList) := by
  intro dialect before depth imports
  rw [h.play, Pass.write, Page.write_atStart before hn ht, String.ofList_append, margin,
    String.ofList_toList, String.ofList_toList, String.append_assoc]

theorem newline (h : Lays unit level start (.text text) stop content) :
    Lays unit level start (.text (text ++ "\n")) true (content ++ ['\n']) := by
  intro dialect before depth imports
  have hw := h dialect before depth imports
  simp only [Doc.play, Pass.write, Outcome.done.injEq, Pass.mk.injEq, and_true] at hw ⊢
  rw [Page.write_append, hw, Page.write_newline, String.ofList_append, String.append_assoc]

end Lays

/-- What follows a row. -/
def ending (last : Bool) : List Char :=
  if last then ['\n'] else [',', '\n']

def rowsText {α : Type} (margin : List Char) (row : α → List Char) : List α → List Char
  | [] => []
  | first :: rest => margin ++ row first ++ ending rest.isEmpty ++ rowsText margin row rest

theorem Lays.rows {α : Type} {unit : String} {level : Nat} {doc : α → Doc} {row : α → List Char}
    (items : List α)
    (h : ∀ item ∈ items, Lays unit level true (doc item) false (margin unit level ++ row item)) :
    Lays unit level true (Phrase.rows "," (items.map doc)) true
      (rowsText (margin unit level) row items) := by
  have hn : Lays unit level false (.text ("" ++ "\n")) true _ :=
    .newline (.inLine (.text "") (by decide))
  have hc : Lays unit level false (.text ("," ++ "\n")) true _ :=
    .newline (.inLine (.text ",") (by decide))
  induction items with
  | nil =>
    intro dialect text depth imports
    simp [Phrase.rows, rowsText, Doc.play]
  | cons item items ih =>
    obtain ⟨hi, hr⟩ := List.forall_mem_cons.mp h
    cases items with
    | nil =>
      have hl := hi.append hn
      simpa [rowsText, ending, Phrase.rows] using hl
    | cons next items =>
      have hl := (hi.append hc).append (ih hr)
      simpa [rowsText, ending, Phrase.rows] using hl

/-! The text of an object. -/

def quotedText (value : String) : List Char :=
  '"' :: (value.toList.flatMap (Text.escapeIn true) ++ ['"'])

def arrayText (unit : String) (values : List String) : List Char :=
  if values.isEmpty then ['[', ']']
  else '[' :: '\n' :: (rowsText (margin unit 2) quotedText values ++ margin unit 1 ++ [']'])

def valueText (unit : String) : TextMember → List Char
  | .single _ value => quotedText value
  | .array _ values => arrayText unit values

def memberText (unit : String) (member : TextMember) : List Char :=
  member.name.toList ++ ':' :: valueText unit member

def objectText (unit : String) (members : List TextMember) : List Char :=
  if members.isEmpty then ['[', ':', ']']
  else '[' :: '\n' :: (rowsText (margin unit 1) (memberText unit) members ++ [']'])

section Documents

variable {unit : String} (interpolate : Bool)

/-- A member with its name as it is. -/
def row (member : TextMember) : Doc :=
  member.member.doc ⟨.groovy, interpolate⟩ true .groovy

theorem doc_jsonObject (members : List TextMember) :
    (Expr.jsonObject (members.map TextMember.member)).doc ⟨.groovy, interpolate⟩ =
      Phrase.object .groovy (members.map (row interpolate)) := by
  have hd : Member.docs ⟨.groovy, interpolate⟩ true .groovy (members.map TextMember.member) =
      members.map (row interpolate) := by
    induction members with
    | nil => rfl
    | cons member members ih => exact congrArg (_ :: ·) ih
  rw [← hd]
  rfl

theorem plain_string (value : String) :
    ((Expr.literal (.string value)).doc ⟨.groovy, interpolate⟩).Plain
      (String.ofList (quotedText value)) := by
  have hp : ((Expr.literal (.string value)).doc ⟨.groovy, interpolate⟩).Plain
      ("\"" ++ Text.escapeTemplate value ++ "\"") := .quoted (.text _)
  have he : "\"" ++ Text.escapeTemplate value ++ "\"" = String.ofList (quotedText value) := by
    rw [← String.toList_inj]
    simp only [quotedText, Text.escapeTemplate, String.toList_append, String.toList_ofList]
    rfl
  rwa [he] at hp

theorem newline_not_mem_string (value : String) :
    '\n' ∉ (String.ofList (quotedText value)).toList := by
  simp [quotedText, Text.newline_not_mem_escapeIn]

theorem lays_string (value : String) :
    Lays unit 1 false ((Expr.literal (.string value)).doc ⟨.groovy, interpolate⟩) false
      (quotedText value) := by
  have hl : Lays unit 1 false _ false _ :=
    .inLine (plain_string interpolate value) (newline_not_mem_string value)
  rwa [String.toList_ofList] at hl

theorem lays_array (values : List String) :
    Lays unit 1 false
      (Phrase.array .groovy
        (Expr.docs ⟨.groovy, interpolate⟩ (values.map fun value => .literal (.string value))))
      false (arrayText unit values) := by
  have hd : Expr.docs ⟨.groovy, interpolate⟩ (values.map fun value => .literal (.string value)) =
      values.map fun value => (Expr.literal (.string value)).doc ⟨.groovy, interpolate⟩ := by
    induction values with
    | nil => rfl
    | cons value values ih => exact congrArg (_ :: ·) ih
  rw [hd]
  have hs (value : String) (_ : value ∈ values) : Lays unit 2 true
      ((Expr.literal (.string value)).doc ⟨.groovy, interpolate⟩) false
      (margin unit 2 ++ quotedText value) := by
    have hl : Lays unit 2 true _ false _ := .atStart (plain_string interpolate value)
      (newline_not_mem_string value) (by simp [quotedText])
    rwa [String.toList_ofList] at hl
  cases values with
  | nil =>
    have hl : Lays unit 1 false (.text "[]") false _ := .inLine (.text "[]") (by decide)
    simpa [arrayText, Phrase.array, Containers.groovy] using hl
  | cons value values =>
    have ho : Lays unit 1 false (.text ("[" ++ "\n")) true _ :=
      .newline (.inLine (.text "[") (by decide))
    have hc : Lays unit 1 true (.text "]") false _ := .atStart (.text "]") (by decide) (by decide)
    have hl := (ho.append (Lays.rows _ hs).nest).append hc
    simpa [arrayText, Phrase.array, Containers.groovy] using hl

theorem lays_member {member : TextMember} (h : '\n' ∉ member.name.toList) :
    Lays unit 1 true (row interpolate member) false
      (margin unit 1 ++ memberText unit member) := by
  have hk : (Doc.text member.name ++ Doc.text ":").Plain (member.name ++ ":") :=
    .append (.text _) (.text _)
  have hl : Lays unit 1 true _ false _ := .atStart hk (by simpa using h) (by simp)
  have ht : margin unit 1 ++ memberText unit member =
      margin unit 1 ++ (member.name ++ ":").toList ++ valueText unit member := by
    simp [memberText]
  rw [ht]
  cases member with
  | single name value => exact hl.append (lays_string interpolate value)
  | array name values => exact hl.append (lays_array interpolate values)

theorem lays_object {members : List TextMember}
    (h : ∀ member ∈ members, '\n' ∉ member.name.toList) :
    Lays unit 0 true
      ((Expr.jsonObject (members.map TextMember.member)).doc ⟨.groovy, interpolate⟩) false
      (objectText unit members) := by
  rw [doc_jsonObject]
  have hz : margin unit 0 = [] := by simp [margin]
  have hs (text : String) (hn : '\n' ∉ text.toList) (ht : text ≠ "") :
      Lays unit 0 true (.text text) false text.toList := by
    simpa [hz] using @Lays.atStart unit 0 _ _ (.text text) hn ht
  cases members with
  | nil =>
    have hl := hs "[:]" (by decide) (by decide)
    simpa [objectText, Phrase.object, Containers.groovy] using hl
  | cons member members =>
    have ho : Lays unit 0 true (.text ("[" ++ "\n")) true _ :=
      (hs "[" (by decide) (by decide)).newline
    have hm := Lays.rows (member :: members) fun member hm =>
      @lays_member unit interpolate _ (h member hm)
    have hl := (ho.append hm.nest).append (hs "]" (by decide) (by decide))
    simpa [objectText, Phrase.object, Containers.groovy] using hl

end Documents

/-! What the text tells. -/

/-- Rows that end where one of the two endings begins. -/
def Delimited {α : Type} (row : α → List Char) (p : α → Prop) : Prop :=
  ∀ (first second : α) (last final : Bool) (rest more : List Char), p first → p second →
    row first ++ ending last ++ rest = row second ++ ending final ++ more →
      first = second ∧ last = final ∧ rest = more

theorem ending_inj {last final : Bool} {rest more : List Char}
    (h : ending last ++ rest = ending final ++ more) : last = final ∧ rest = more := by
  cases last <;> cases final <;> simp_all [ending]

theorem rowsText_inj {α : Type} {row : α → List Char} {p : α → Prop} (hd : Delimited row p)
    {margin : List Char} {rows others : List α} (hr : ∀ item ∈ rows, p item)
    (ho : ∀ item ∈ others, p item) (he : rows.isEmpty = others.isEmpty) {rest more : List Char}
    (h : rowsText margin row rows ++ rest = rowsText margin row others ++ more) :
    rows = others ∧ rest = more := by
  induction rows generalizing others with
  | nil =>
    cases others with
    | nil => exact ⟨rfl, h⟩
    | cons other others => cases he
  | cons item rows ih =>
    cases others with
    | nil => cases he
    | cons other others =>
      obtain ⟨hi, hrs⟩ := List.forall_mem_cons.mp hr
      obtain ⟨hp, hos⟩ := List.forall_mem_cons.mp ho
      simp only [rowsText, List.append_assoc, List.append_cancel_left_eq] at h
      rw [← List.append_assoc, ← List.append_assoc (row other)] at h
      obtain ⟨hio, hes, ht⟩ := hd _ _ _ _ _ _ hi hp h
      obtain ⟨hrows, hrest⟩ := ih hrs hos hes ht
      exact ⟨by rw [hio, hrows], hrest⟩

theorem delimited_quotedText : Delimited quotedText fun _ => True := by
  intro first second last final rest more _ _ h
  simp only [quotedText, List.cons_append, List.append_assoc, List.cons.injEq, true_and,
    List.nil_append] at h
  obtain ⟨hv, he⟩ := Text.escaped_quote_inj h
  exact ⟨String.toList_inj.mp hv, ending_inj he⟩

/-- A name in front of a quoted text: the colon in front of the last bare quote ends the name. -/
theorem named_inj {name other value text : List Char}
    (h : name ++ ':' :: '"' :: value.flatMap (Text.escapeIn true) =
      other ++ ':' :: '"' :: text.flatMap (Text.escapeIn true)) : name = other ∧ value = text := by
  -- A colon and a quote inside an escaped text would make its quote a bare one.
  have hg {gap value text : List Char}
      (h : ':' :: '"' :: value.flatMap (Text.escapeIn true) =
        gap ++ ':' :: '"' :: text.flatMap (Text.escapeIn true)) : gap = [] := by
    match gap with
    | [] => rfl
    | [_] => simp at h
    | _ :: _ :: gap =>
      have hv := (List.cons.inj (List.cons.inj h).2).2
      exact absurd hv (Text.escaped_ne_bareQuote (by decide) _ gap _)
  rcases List.append_eq_append_iff.mp h with ⟨gap, rfl, hr⟩ | ⟨gap, rfl, hr⟩
  all_goals
    obtain rfl := hg hr
    simp only [List.nil_append, List.cons.injEq, true_and] at hr
    have hq := congrArg (· ++ ['"']) hr
    obtain ⟨rfl, -⟩ := Text.escaped_quote_inj hq
    exact ⟨by simp, rfl⟩

/-! The first line of a member. -/

/-- The first line up to its tip. -/
def stem : TextMember → List Char
  | .single name value => name.toList ++ ':' :: '"' :: value.toList.flatMap (Text.escapeIn true)
  | .array name _ => name.toList ++ [':']

/-- The tip shows what kind of value there is, and unless more lines follow, whether it is the last
member. -/
def tip (last : Bool) : TextMember → List Char
  | .single _ _ => if last then ['"'] else ['"', ',']
  | .array _ [] => if last then ['[', ']'] else ['[', ']', ',']
  | .array _ (_ :: _) => ['[']

/-- What stands behind the first line. -/
def later (unit : String) (last : Bool) (rest : List Char) : TextMember → List Char
  | .array _ (value :: values) =>
    rowsText (margin unit 2) quotedText (value :: values) ++
      (margin unit 1 ++ ']' :: (ending last ++ rest))
  | _ => rest

theorem memberText_eq (unit : String) (member : TextMember) (last : Bool) (rest : List Char) :
    memberText unit member ++ ending last ++ rest =
      stem member ++ tip last member ++ '\n' :: later unit last rest member := by
  cases member with
  | single name value =>
    cases last <;>
      simp [memberText, valueText, quotedText, ending, stem, tip, later, TextMember.name]
  | array name values =>
    cases values with
    | nil =>
      cases last <;>
        simp [memberText, valueText, arrayText, ending, stem, tip, later, TextMember.name]
    | cons value values =>
      simp [memberText, valueText, arrayText, stem, tip, later, TextMember.name]

theorem newline_not_mem_line {member : TextMember} (h : '\n' ∉ member.name.toList) (last : Bool) :
    '\n' ∉ stem member ++ tip last member := by
  cases member with
  | single name value =>
    have hn : '\n' ∉ name.toList := h
    cases last <;> simp [stem, tip, hn, Text.newline_not_mem_escapeIn]
  | array name values =>
    have hn : '\n' ∉ name.toList := h
    cases values <;> cases last <;> simp [stem, tip, hn]

def tips : List (List Char) :=
  [['"'], ['"', ','], ['[', ']'], ['[', ']', ','], ['[']]

theorem tip_mem_tips (last : Bool) (member : TextMember) : tip last member ∈ tips := by
  cases member with
  | single name value => cases last <;> simp [tip, tips]
  | array name values => cases values <;> cases last <;> simp [tip, tips]

/-- No tip is the end of another one. -/
theorem tips_inj {first second tip other : List Char} (ht : tip ∈ tips) (ho : other ∈ tips)
    (h : first ++ tip = second ++ other) : first = second ∧ tip = other := by
  have hr := congrArg List.reverse h
  rw [List.reverse_append, List.reverse_append] at hr
  simp only [tips, List.mem_cons, List.not_mem_nil, or_false] at ht ho
  clear h
  rcases ht with rfl | rfl | rfl | rfl | rfl <;>
    rcases ho with rfl | rfl | rfl | rfl | rfl <;> simp_all

theorem delimited_memberText (unit : String) :
    Delimited (memberText unit) fun member => '\n' ∉ member.name.toList := by
  intro first second last final rest more hf hs h
  rw [memberText_eq, memberText_eq] at h
  obtain ⟨hl, hr⟩ := Text.cut_inj (newline_not_mem_line hf last) (newline_not_mem_line hs final) h
  obtain ⟨hn, ht⟩ := tips_inj (tip_mem_tips last first) (tip_mem_tips final second) hl
  cases first with
  | single name value =>
    cases second with
    | single other text =>
      obtain ⟨ho, hv⟩ := named_inj hn
      have he : last = final := by cases last <;> cases final <;> simp_all [tip]
      rw [String.toList_inj.mp ho, String.toList_inj.mp hv]
      exact ⟨rfl, he, hr⟩
    | array other values => cases values <;> cases last <;> cases final <;> simp [tip] at ht
  | array name values =>
    cases second with
    | single other text => cases values <;> cases last <;> cases final <;> simp [tip] at ht
    | array other others =>
      have ho : name = other := String.toList_inj.mp (List.append_cancel_right hn)
      cases values with
      | nil =>
        cases others with
        | nil =>
          have he : last = final := by cases last <;> cases final <;> simp_all [tip]
          exact ⟨by rw [ho], he, hr⟩
        | cons value others => cases last <;> simp [tip] at ht
      | cons value values =>
        cases others with
        | nil => cases final <;> simp [tip] at ht
        | cons text others =>
          rw [later, later] at hr
          have hi : (value :: values).isEmpty = (text :: others).isEmpty := rfl
          obtain ⟨hv, hb⟩ := rowsText_inj delimited_quotedText (fun _ _ => trivial)
            (fun _ _ => trivial) hi hr
          obtain ⟨he, hm⟩ := ending_inj (List.cons.inj (List.append_cancel_left hb)).2
          exact ⟨by rw [ho, hv], he, hm⟩

theorem objectText_inj {unit : String} {members others : List TextMember}
    (hm : ∀ member ∈ members, '\n' ∉ member.name.toList)
    (ho : ∀ member ∈ others, '\n' ∉ member.name.toList)
    (h : objectText unit members = objectText unit others) : members = others := by
  cases members with
  | nil =>
    cases others with
    | nil => rfl
    | cons other others => simp [objectText] at h
  | cons member members =>
    cases others with
    | nil => simp [objectText] at h
    | cons other others =>
      have hr := (List.cons.inj (List.cons.inj h).2).2
      exact (rowsText_inj (delimited_memberText unit) hm ho rfl hr).1

end BareNames

namespace TextMember

/-- The member with this name instead. -/
def renamed (name : String) : TextMember → TextMember
  | .single _ value => .single name value
  | .array _ values => .array name values

theorem renamed_name (member : TextMember) : member.renamed member.name = member := by
  cases member <;> rfl

/-- A name that holds the text of a member, up to the end of its line, in front of a name. -/
def swallowing (name value rest : String) : String :=
  name ++ ":" ++ ("\"" ++ Text.escapeTemplate value ++ "\"") ++ ",\n" ++ rest

end TextMember

namespace BareNames

section Swallowed

variable (interpolate : Bool) (dialect : Dialect)

def valueDoc : TextMember → Doc
  | .single _ value => (Expr.literal (.string value)).doc ⟨.groovy, interpolate⟩
  | .array _ values =>
    Phrase.array .groovy
      (Expr.docs ⟨.groovy, interpolate⟩ (values.map fun value => .literal (.string value)))

theorem row_renamed (name : String) (member : TextMember) :
    row interpolate (member.renamed name) =
      .text name ++ .text ":" ++ valueDoc interpolate member := by
  cases member <;> rfl

/-- The name is the first thing that a row writes. -/
theorem play_row (name : String) (member : TextMember) (pass : Pass) :
    (row interpolate (member.renamed name)).play dialect pass =
      (valueDoc interpolate member).play dialect ((pass.write name).write ":") := by
  rw [row_renamed]
  rfl

theorem exists_play_rows (rest : List Doc) : ∃ next : Pass → Outcome, ∀ (doc : Doc) (pass : Pass),
    (Phrase.rows "," (doc :: rest)).play dialect pass = (doc.play dialect pass).andThen next := by
  cases rest with
  | nil => exact ⟨_, fun doc pass => rfl⟩
  | cons other rest => exact ⟨_, fun doc pass => Outcome.andThen_assoc ..⟩

theorem play_rows_cons (doc : Doc) {rest : List Doc} (hr : rest ≠ []) (pass : Pass) :
    (Phrase.rows "," (doc :: rest)).play dialect pass =
      (doc.play dialect pass).andThen fun pass =>
        (Phrase.rows "," rest).play dialect (pass.write ",\n") := by
  obtain ⟨other, rest, rfl⟩ := List.exists_cons_of_ne_nil hr
  exact Outcome.andThen_assoc ..

/-- The row of a text and the next one are one row with a longer name. -/
theorem play_swallowing (name value : String) (next : TextMember) (front rest : List Doc)
    (pass : Pass) :
    (Phrase.rows "," (front ++ row interpolate (.single name value) :: row interpolate next ::
        rest)).play dialect pass =
      (Phrase.rows "," (front ++ row interpolate
        (next.renamed (TextMember.swallowing name value next.name)) :: rest)).play dialect pass := by
  induction front generalizing pass with
  | nil =>
    have hp : (row interpolate (.single name value)).Plain
        (name ++ ":" ++ ("\"" ++ Text.escapeTemplate value ++ "\"")) :=
      .append (.append (.text name) (.text ":")) (.quoted (.text _))
    obtain ⟨after, ha⟩ := exists_play_rows dialect rest
    have hn (pass : Pass) : (row interpolate next).play dialect pass =
        (valueDoc interpolate next).play dialect ((pass.write next.name).write ":") := by
      rw [← play_row, next.renamed_name]
    rw [List.nil_append, List.nil_append, play_rows_cons _ _ (List.cons_ne_nil _ _), hp.play,
      Outcome.andThen_done, ha, ha, hn, play_row]
    simp only [TextMember.swallowing, Pass.write, Page.write_append]
  | cons doc front ih =>
    rw [List.cons_append, List.cons_append, play_rows_cons _ _ (by simp),
      play_rows_cons _ _ (by simp)]
    congr 1
    funext pass
    exact ih _

/-- An object depends on its rows only. -/
theorem play_object {docs others : List Doc} (hd : docs ≠ []) (ho : others ≠ [])
    (h : ∀ pass, (Phrase.rows "," docs).play dialect pass =
      (Phrase.rows "," others).play dialect pass) (pass : Pass) :
    (Phrase.object .groovy docs).play dialect pass =
      (Phrase.object .groovy others).play dialect pass := by
  have hp {docs : List Doc} (hd : docs ≠ []) : (Phrase.object .groovy docs).play dialect pass =
      ((Doc.nest (Phrase.rows "," docs)).play dialect (pass.write "[\n")).andThen fun pass =>
        .done (pass.write "]") := by
    rw [Phrase.object, if_neg (by simpa using hd)]
    rfl
  rw [hp hd, hp ho, Doc.play, Doc.play, h]

end Swallowed

end BareNames

namespace Session

open BareNames

variable {session : Session}

theorem renderExpr_of_lays {expr : Expr} {stop : Bool} {content : List Char}
    (h : Lays session.settings.indent 0 true (expr.doc session.style) stop content) :
    (session.renderExpr expr).1 = .ok (String.ofList content) := by
  have hp := h session.dialect "" 1 session.imports
  rw [renderExpr_of_play hp, String.empty_append]

/-- Names of one line are told apart by the text of a JSON object, and so are the values. A member
with one text in it can be hidden in the name of the next one, behind an end of line. -/
theorem bareNames_told_apart (session : Session) (hg : session.dialect = .groovy) :
    (∀ members others : List TextMember,
      (∀ member ∈ members ++ others, '\n' ∉ member.name.toList) →
      (session.renderExpr (.jsonObject (members.map TextMember.member))).1 =
        (session.renderExpr (.jsonObject (others.map TextMember.member))).1 →
      members = others) ∧
    ∀ (front rest : List TextMember) (name value : String) (next : TextMember),
      session.renderExpr (.jsonObject
          ((front ++ .single name value :: next :: rest).map TextMember.member)) =
        session.renderExpr (.jsonObject
          ((front ++ next.renamed (TextMember.swallowing name value next.name) :: rest).map
            TextMember.member)) := by
  have hs : session.style = ⟨.groovy, session.settings.interpolate⟩ := by
    rw [style, hg]
  constructor
  · intro members others hn h
    obtain ⟨hm, ho⟩ := List.forall_mem_append.mp hn
    rw [renderExpr_of_lays (hs ▸ lays_object session.settings.interpolate hm),
      renderExpr_of_lays (hs ▸ lays_object session.settings.interpolate ho)] at h
    exact objectText_inj hm ho (String.ofList_inj.mp (Except.ok.inj h))
  · intro front rest name value next
    apply renderExpr_eq_of_play
    intro pass
    rw [hs, doc_jsonObject, doc_jsonObject]
    simp only [List.map_append, List.map_cons]
    apply play_object
    · simp
    · simp
    · exact play_swallowing _ _ name value next _ _

/-- Two members, and one with a name of two lines. -/
theorem bareNames_told_apart_twoLines :
    let session : Session := { dialect := .groovy }
    let two : List TextMember := [.single "a" "x", .single "b" "y"]
    let one : List TextMember := [.single "a:\"x\",\nb" "y"]
    session.renderExpr (.jsonObject (two.map TextMember.member)) =
        session.renderExpr (.jsonObject (one.map TextMember.member)) ∧
      (session.renderExpr (.jsonObject (two.map TextMember.member))).1 ≠
        (session.renderExpr (.jsonObject (two.reverse.map TextMember.member))).1 := by
  intro session two one
  obtain ⟨ha, hs⟩ := bareNames_told_apart session rfl
  have hn : TextMember.swallowing "a" "x" "b" = "a:\"x\",\nb" := by decide
  have he := hs [] [] "a" "x" (.single "b" "y")
  rw [TextMember.name, hn] at he
  refine ⟨he, fun h => ?_⟩
  exact absurd (ha two two.reverse (by simp [two, TextMember.name]) h) (by decide)

end Session

end Polyglot
