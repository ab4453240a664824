import Polyglot.Proofs.LuaPrecedence
import Polyglot.Proofs.PlainText

/-! Expressions of names, literals, logical operators, comparisons and conditionals, as Lua reads
their texts. A conditional keeps its meaning unless it is written with `and` and `or` and its test
is a bare `or`, whose last operand alone then decides. -/
namespace Polyglot

open Lua (Connective Formula Setting Word Means notStrength)
open Script (Value)

section Meaning

/-- The sign and the digits of a number. -/
def Literal.signed (digits : String) : Bool × String :=
  match digits.toList with
  | '-' :: rest => (true, String.ofList rest)
  | _ => (false, digits)

def Literal.meaning (setting : Setting) : Literal → Value
  | .int digits | .long digits | .float digits | .double digits =>
    setting.number (signed digits).1 (signed digits).2
  | .char value => .string (String.singleton value)
  | .string value => .string value
  | .bool value => .bool value
  | .null => .nil

/-- Numbers are written as numerals, with a sign in front if they are negative. -/
def Literal.hasNumeral : Literal → Bool
  | .int digits | .long digits | .float digits | .double digits =>
    Word.isNumeral (signed digits).2.toList
  | _ => true

def BinaryOp.connective? : BinaryOp → Option Connective
  | .or => some .or
  | .and => some .and
  | .eq => some .eq
  | .ne => some .ne
  | _ => none

/-- How tightly an operand on the right has to hold together. Comparisons in a row are grouped from
the left. -/
def Lua.Connective.rightStrength : Connective → Nat
  | .or => 1
  | .and => 2
  | .eq | .ne => notStrength

theorem Lua.Connective.strength_rightStrength (connective : Connective) :
    connective.strength < connective.rightStrength ∨
      connective.strength = connective.rightStrength ∧ connective.rightStrength ≤ 2 := by
  cases connective <;> decide

namespace Expr

/-- How tightly an expression holds together in the notation of the C family. -/
def rank : Expr → Nat
  | .binary _ op _ false => (op.connective?.map Connective.strength).getD notStrength
  | .conditional .. => 0
  | _ => notStrength

/-- Expressions with parentheses wherever the C family needs them. -/
inductive Logical : Expr → Prop
  | literal {value : Literal} (h : value.hasNumeral = true) : Logical (.literal value)
  | ident {name : String} (h : Word.isName name = true) : Logical (.ident name)
  | parens {inner : Expr} (h : Logical inner) : Logical (.parens inner)
  | not {operand : Expr} (h : Logical operand) (hr : notStrength ≤ operand.rank) :
    Logical (.unary .not operand)
  | binary {left right : Expr} {op : BinaryOp} {connective : Connective}
    (hc : op.connective? = some connective) (hl : Logical left) (hr : Logical right)
    (hf : connective.strength ≤ left.rank) (hs : connective.rightStrength ≤ right.rank) :
    Logical (.binary left op right false)
  | conditional {test consequent alternative : Expr} (ht : Logical test)
    (hc : Logical consequent) (ha : Logical alternative) (hr : 0 < test.rank) :
    Logical (.conditional test consequent alternative)

/-- The value of a logical expression: a conditional has the value of one of its branches. -/
def meaning (setting : Setting) : Expr → Value
  | .literal value => value.meaning setting
  | .ident name => setting.names name
  | .parens inner => inner.meaning setting
  | .unary _ operand => .bool !(operand.meaning setting).isTruthy
  | .binary left op right _ =>
    match op.connective? with
    | some connective => setting.apply connective (left.meaning setting) (right.meaning setting)
    | none => .nil
  | .conditional test consequent alternative =>
    if (test.meaning setting).isTruthy then consequent.meaning setting
    else alternative.meaning setting
  | _ => .nil

/-- The last operand of a bare `or` decides alone, and the others stand in front. -/
def decidedBy (consequent alternative : Expr) : Expr → Expr
  | .binary left .or right false =>
    .binary left .or (decidedBy consequent alternative right) false
  | test => .conditional test consequent alternative

/-- An expression as Lua reads its text. -/
def asRead : Expr → Expr
  | .parens inner => .parens inner.asRead
  | .unary op operand => .unary op operand.asRead
  | .binary left op right concat => .binary left.asRead op right.asRead concat
  | .conditional test consequent alternative =>
    if consequent.isTruthy then decidedBy consequent.asRead alternative.asRead test.asRead
    else .conditional test.asRead consequent.asRead alternative.asRead
  | expr => expr

/-- No conditional that is written with `and` and `or` has a bare `or` for a test. -/
def testsHold : Expr → Bool
  | .parens inner => inner.testsHold
  | .unary _ operand => operand.testsHold
  | .binary left _ right _ => left.testsHold && right.testsHold
  | .conditional test consequent alternative =>
    (!consequent.isTruthy || Connective.and.strength ≤ test.rank) && test.testsHold &&
      consequent.testsHold && alternative.testsHold
  | _ => true

theorem decidedBy_of_rank {consequent alternative test : Expr}
    (h : Connective.and.strength ≤ test.rank) :
    decidedBy consequent alternative test = .conditional test consequent alternative := by
  unfold decidedBy
  split
  · exact absurd h (Nat.lt_irrefl 1)
  · rfl

/-- What holds together in this way is read as it is meant. -/
theorem Logical.asRead_eq {expr : Expr} (h : expr.Logical) (ht : expr.testsHold = true) :
    expr.asRead = expr := by
  induction h with
  | literal | ident => rfl
  | parens h ih => rw [asRead, ih ht]
  | not h hr ih => rw [asRead, ih ht]
  | binary hc hl hr hf hs ihl ihr =>
    obtain ⟨htl, htr⟩ := Bool.and_eq_true_iff.mp ht
    rw [asRead, ihl htl, ihr htr]
  | @conditional test consequent alternative _ _ _ _ iht ihc iha =>
    simp only [testsHold, Bool.and_eq_true, Bool.or_eq_true, Bool.not_eq_true',
      decide_eq_true_eq] at ht
    obtain ⟨⟨⟨hr, htt⟩, htc⟩, hta⟩ := ht
    rw [asRead, iht htt, ihc htc, iha hta]
    obtain hf | hr := hr
    · simp [hf]
    · rw [decidedBy_of_rank hr, ite_self]

end Expr

end Meaning

section Words

def Literal.words : Literal → List Word
  | .int digits | .long digits | .float digits | .double digits =>
    (if (signed digits).1 then [.minus] else []) ++ [.numeral (signed digits).2]
  | .char value => [.string (String.singleton value)]
  | .string value => [.string value]
  | .bool value => [.bool value]
  | .null => [.nil]

/-- The words of a logical expression on Lua. -/
def Expr.words : Expr → List Word
  | .literal value => value.words
  | .ident name => [.name name]
  | .parens inner => [.openParen] ++ inner.words ++ [.closeParen]
  | .unary _ operand => [.not] ++ operand.words
  | .binary left op right _ =>
    left.words ++ (op.connective?.map Word.connective).toList ++ right.words
  | .conditional test consequent alternative =>
    if consequent.isTruthy then
      test.words ++ [.connective .and] ++ consequent.words ++ [.connective .or] ++
        alternative.words
    else
      [.openParen, .functionWord, .openParen, .closeParen, .ifWord] ++ test.words ++
        [.thenWord, .returnWord] ++ consequent.words ++ [.elseWord, .returnWord] ++
        alternative.words ++ [.endWord, .endWord, .closeParen, .openParen, .closeParen]
  | _ => []

theorem Literal.means (value : Literal) (level : Nat) :
    Means value.words level value.meaning := by
  have hn (digits : String) : Means ((if (signed digits).1 then [.minus] else []) ++
      [.numeral (signed digits).2]) level
      (Setting.number · (signed digits).1 (signed digits).2) := by
    cases (signed digits).1 with
    | true => exact .negative _
    | false => exact .numeral _
  cases value with
  | int digits | long digits | float digits | double digits => exact hn digits
  | char value => exact .single (.string _) fun _ _ => rfl
  | string value => exact .single (.string _) fun _ _ => rfl
  | bool value => exact .single (.bool _) fun _ _ => rfl
  | null => exact .single .nil fun _ _ => rfl

/-- `and` and `or` in the place of a conditional. -/
theorem Lua.Means.decided {test consequent alternative : List Word}
    {decides value other : Setting → Value}
    (ht : Means test Connective.and.strength decides)
    (hc : Means consequent Connective.and.strength value)
    (ha : Means alternative Connective.or.strength other)
    (hv : ∀ setting, (value setting).isTruthy = true) :
    Means (test ++ [.connective .and] ++ consequent ++ [.connective .or] ++ alternative)
      Connective.or.strength fun setting =>
        if (decides setting).isTruthy then value setting else other setting := by
  have hb := (ht.binary .and hc (Nat.le_refl _) (.inr ⟨rfl, by decide⟩)).binary .or ha
    (by decide) (.inr ⟨rfl, by decide⟩)
  convert hb using 2 with setting
  cases hd : (decides setting).isTruthy <;> simp [Setting.apply, hd, hv]

namespace Expr

/-- Both ways of reading a logical expression: as an operand, and as a test in front of `and`. -/
structure Fits (expr : Expr) : Prop where
  operand : Means expr.words (max 1 expr.rank) (expr.asRead.meaning ·)
  test : 0 < expr.rank → ∀ {consequent alternative : Expr} {taken left : List Word},
    Means taken Connective.and.strength (consequent.meaning ·) →
    Means left Connective.or.strength (alternative.meaning ·) →
    (∀ setting, (consequent.meaning setting).isTruthy = true) →
    Means (expr.words ++ [.connective .and] ++ taken ++ [.connective .or] ++ left)
      Connective.or.strength ((decidedBy consequent alternative expr.asRead).meaning ·)

/-- Where nothing holds less tightly than `and`, the whole test decides. -/
theorem Fits.of_rank {expr : Expr} (h : Means expr.words expr.rank (expr.asRead.meaning ·))
    (hr : Connective.and.strength ≤ expr.rank) (he : expr.asRead.rank = expr.rank) : expr.Fits where
  operand := h.weaken (Nat.max_le.mpr ⟨Nat.le_trans (by decide) hr, Nat.le_refl _⟩)
  test _ _ _ _ _ hc ha hv := by
    rw [decidedBy_of_rank (he ▸ hr)]
    exact (h.weaken hr).decided hc ha hv

theorem and_le_not : Connective.and.strength ≤ notStrength :=
  Nat.le_of_lt (Connective.strength_lt_not .and)

/-- A consequent that counts as true. -/
theorem Logical.of_isTruthy {expr : Expr} (h : expr.Logical) (ht : expr.isTruthy = true) :
    Connective.and.strength ≤ expr.rank ∧
      ∀ setting, (expr.asRead.meaning setting).isTruthy = true := by
  induction h with
  | @literal value h =>
    refine ⟨and_le_not, fun setting => ?_⟩
    cases value with
    | bool value => exact ht
    | null => cases ht
    | int | long | float | double | char | string => rfl
  | parens h ih => exact ⟨and_le_not, (ih ht).2⟩
  | ident | not | binary | conditional => cases ht

theorem fits_binary {left right : Expr} {op : BinaryOp} {connective : Connective}
    (hc : op.connective? = some connective) (hl : left.Fits) (hr : right.Fits)
    (hf : connective.strength ≤ left.rank) (hs : connective.rightStrength ≤ right.rank) :
    (Expr.binary left op right false).Fits := by
  have hrank (first second : Expr) :
      (Expr.binary first op second false).rank = connective.strength := by
    simp [rank, hc]
  have hleft : connective.strength ≤ max 1 left.rank := Nat.le_trans hf (Nat.le_max_right _ _)
  have hm : Means (Expr.binary left op right false).words connective.strength
      ((Expr.binary left op right false).asRead.meaning ·) := by
    have hb := hl.operand.binary connective
      (hr.operand.weaken (Nat.le_trans hs (Nat.le_max_right _ _))) hleft
      connective.strength_rightStrength
    simpa [words, asRead, meaning, hc] using hb
  cases connective with
  | or =>
    obtain rfl : op = .or := by
      cases op <;> simp [BinaryOp.connective?] at hc
      rfl
    refine ⟨hm, fun _ _ _ _ _ ht ha hv => ?_⟩
    -- The words in front of the last operand of the test are those of an `or` of their own.
    have hb := hl.operand.binary .or (hr.test hs ht ha hv) hleft (.inr ⟨rfl, by decide⟩)
    simpa [words, asRead, decidedBy, meaning, hc] using hb
  | and | eq | ne =>
    have hle : Connective.and.strength ≤ (Expr.binary left op right false).rank :=
      Nat.le_trans (by decide) (Nat.le_of_eq (hrank left right).symm)
    exact .of_rank (hrank left right ▸ hm) hle (hrank left right ▸ hrank _ _)

theorem Logical.fits {expr : Expr} (h : expr.Logical) : expr.Fits := by
  induction h with
  | @literal value h => exact .of_rank (value.means _) and_le_not rfl
  | @ident name h => exact .of_rank (.single (.name name) fun _ _ => rfl) and_le_not rfl
  | parens h ih => exact .of_rank ih.operand.parens and_le_not rfl
  | not h hr ih =>
    exact .of_rank (ih.operand.weaken (Nat.le_trans hr (Nat.le_max_right _ _))).not and_le_not rfl
  | binary hc hl hr hf hs ihl ihr => exact fits_binary hc ihl ihr hf hs
  | @conditional test consequent alternative ht hc ha hr iht ihc iha =>
    refine ⟨?_, fun hp => absurd hp (Nat.lt_irrefl 0)⟩
    simp only [words, asRead]
    cases htruthy : consequent.isTruthy with
    | true =>
      obtain ⟨hrank, hvalue⟩ := hc.of_isTruthy htruthy
      exact iht.test hr (ihc.operand.weaken (Nat.le_trans hrank (Nat.le_max_right _ _)))
        (iha.operand.weaken (Nat.le_max_left _ _)) hvalue
    | false =>
      exact (iht.operand.choice ihc.operand iha.operand).weaken (by decide : 1 ≤ notStrength)

end Expr

end Words

section Texts

/-- A document whose text has these words. -/
def Doc.Shows (doc : Doc) (words : List Word) : Prop :=
  ∃ text, doc.Plain text ∧ Word.Lexes text words

namespace Doc.Shows

variable {doc second : Doc} {gap : String} {words between last : List Word}

theorem append (h : doc.Shows words) (hs : second.Shows last) (hg : Word.Closed gap between)
    (he : Word.endsWord gap = true) :
    (doc ++ .text gap ++ second).Shows (words ++ between ++ last) := by
  obtain ⟨text, hp, hl⟩ := h
  obtain ⟨rest, hr, hm⟩ := hs
  exact ⟨_, .append (.append hp (.text gap)) hr, hl.append hg he hm⟩

theorem behind (h : doc.Shows words) (hg : Word.Closed gap between) :
    (.text gap ++ doc).Shows (between ++ words) := by
  obtain ⟨text, hp, hl⟩ := h
  exact ⟨_, .append (.text gap) hp, hg.append hl⟩

theorem close (h : doc.Shows words) (hg : Word.Closed gap between)
    (he : Word.endsWord gap = true) : (doc ++ .text gap).Shows (words ++ between) := by
  obtain ⟨text, hp, hl⟩ := h
  exact ⟨_, .append hp (.text gap), hl.close hg he⟩

end Doc.Shows

theorem Literal.lexes_digits {digits : String}
    (h : Word.isNumeral (signed digits).2.toList = true) :
    Word.Lexes digits ((if (signed digits).1 then [.minus] else []) ++
      [.numeral (signed digits).2]) := by
  unfold signed at h ⊢
  split at h
  · next rest hr =>
    have hd : digits = "-" ++ String.ofList rest := by
      rw [← String.toList_inj, hr]
      simp
    rw [hd]
    exact Word.lexes_negative h
  · exact Word.lexes_numeral h

theorem Literal.shows {value : Literal} (h : value.hasNumeral = true) :
    (Phrase.literal .lua value).Shows value.words := by
  cases value with
  | int digits | long digits | float digits | double digits =>
    exact ⟨digits, .text digits, lexes_digits h⟩
  | char value => exact ⟨_, .quoted (.text _), Word.lexes_string _⟩
  | string value => exact ⟨_, .quoted (.text _), Word.lexes_string _⟩
  | bool value => cases value <;> exact ⟨_, .text _, fun _ => rfl⟩
  | null => exact ⟨_, .text _, fun _ => rfl⟩

theorem Expr.Logical.shows {expr : Expr} (h : expr.Logical) {style : Style}
    (hd : style.dialect = .lua) : (expr.doc style).Shows expr.words := by
  induction h with
  | literal h =>
    rw [doc, hd]
    exact Literal.shows h
  | ident h => exact ⟨_, .text _, Word.lexes_name h⟩
  | parens h ih => exact (ih.behind fun _ => rfl).close (fun _ => rfl) (by decide)
  | not h hr ih =>
    rw [doc, hd]
    exact ih.behind fun _ => rfl
  | @binary left right op connective hc hl hr hf hs ihl ihr =>
    have hw : (Expr.binary left op right false).words =
        left.words ++ [.connective connective] ++ right.words := by
      simp [words, hc]
    have hp : Phrase.binary style op false left.isStringPart right.isStringPart (left.doc style)
        (right.doc style) =
        Phrase.infixed (left.doc style) (Dialect.operator .lua op) (right.doc style) := by
      cases op <;> simp_all [Phrase.binary, BinaryOp.connective?]
    rw [hw, doc, hp]
    refine ihl.append ihr (fun before => ?_) ?_ <;> cases op <;> cases hc <;> rfl
  | @conditional test consequent alternative ht hc ha hr iht ihc iha =>
    rw [doc, words, hd]
    cases consequent.isTruthy with
    | true => exact (iht.append ihc (fun _ => rfl) rfl).append iha (fun _ => rfl) rfl
    | false =>
      refine (((iht.behind ?_).append ihc ?_ rfl).append iha ?_ rfl).close ?_ rfl <;>
        exact Word.closed_of_foldl fun _ => rfl

end Texts

/-- A logical expression is rendered on Lua as a text that is read as the expression, except that
the last operand alone of a bare `or` decides where a conditional is written with `and` and `or`. -/
theorem Session.renderExpr_logical (session : Session) (hd : session.dialect = .lua) {expr : Expr}
    (h : expr.Logical) :
    ∃ text formula, (session.renderExpr expr).1 = .ok text ∧
      Formula.ofText? text = some formula ∧
      (∀ setting, formula.value setting = expr.asRead.meaning setting) ∧
      (expr.testsHold = true → ∀ setting, formula.value setting = expr.meaning setting) := by
  obtain ⟨text, hp, hl⟩ := (h.shows hd : (expr.doc session.style).Shows expr.words)
  obtain ⟨formula, hw, hv⟩ := h.fits.operand.ofWords?
  refine ⟨text, formula, ?_, ?_, hv, fun ht => h.asRead_eq ht ▸ hv⟩
  · have hl : session.newPass.page.enterBlock.level = 0 := rfl
    rw [renderExpr, Doc.playFragment, hp.play]
    exact congrArg Except.ok
      ((Page.text_write_of_level_zero hl text).trans String.empty_append)
  · rw [Formula.ofText?, hl.ofText?]
    exact hw

/-- `a || b ? 1 : 2`, with a bare `or` for its test. -/
def Expr.bareOr : Expr :=
  .conditional (.binary (.ident "a") .or (.ident "b") false) (.literal (.int "1"))
    (.literal (.int "2"))

/-- Where `a` counts as true, its value comes out in the place of the consequent. -/
theorem Session.renderExpr_logical_bareOr :
    ∃ formula, (renderExpr ⟨.lua, {}, .empty⟩ .bareOr).1 = .ok "a or b and 1 or 2" ∧
      Formula.ofText? "a or b and 1 or 2" = some formula ∧
      ∀ setting, (setting.names "a").isTruthy = true →
        formula.value setting = setting.names "a" ∧
          Expr.bareOr.meaning setting = setting.number false "1" := by
  have h : Expr.bareOr.Logical :=
    .conditional (.binary rfl (.ident (by decide +kernel)) (.ident (by decide +kernel)) (by decide)
      (by decide)) (.literal (by decide +kernel)) (.literal (by decide +kernel)) (by decide)
  obtain ⟨text, formula, hr, hf, hv, -⟩ := renderExpr_logical ⟨.lua, {}, .empty⟩ rfl h
  have ht : (renderExpr ⟨.lua, {}, .empty⟩ .bareOr).1 = .ok "a or b and 1 or 2" := by rfl
  obtain rfl : text = "a or b and 1 or 2" := Except.ok.inj (hr.symm.trans ht)
  refine ⟨formula, ht, hf, fun setting ha => ⟨?_, ?_⟩⟩
  · rw [hv]
    exact if_pos ha
  · have hm : (setting.apply .or (setting.names "a") (setting.names "b")).isTruthy = true := by
      simp [Setting.apply, ha]
    exact if_pos hm

end Polyglot
