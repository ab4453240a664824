import Mathlib.Data.List.Forall2
import Mathlib.Tactic.Common
import Polyglot.Json.Node

/-! How the tokens of a JSON text are written, and that the scanner finds them. -/
namespace Polyglot.Json

/-- How a piece of a string is written. -/
inductive Piece.Spells : Piece → List Char → Prop
  | plain {c : Char} (hq : c ≠ '"') (hb : c ≠ '\\') (hc : 0x20 ≤ c.toNat) : Spells (.char c) [c]
  | escape {mark value : Char} (h : Scan.escaped? mark = some value) :
    Spells (.char value) ['\\', mark]
  | unit {a b c d : Char} {p q r s : Nat} (ha : Scan.hexDigit? a = some p)
    (hb : Scan.hexDigit? b = some q) (hc : Scan.hexDigit? c = some r)
    (hd : Scan.hexDigit? d = some s) :
    Spells (.unit (Scan.codeOf [s, r, q, p])) ['\\', 'u', a, b, c, d]

namespace NumberText

/-- Decimal digits and their characters. -/
def SpellsDigits : List Nat → List Char → Prop :=
  List.Forall₂ fun digit c => Scan.digit? c = some digit

/-- A zero stands alone in front of the point. -/
inductive SpellsWhole : List Nat → List Char → Prop
  | zero : SpellsWhole [0] ['0']
  | digits {first : Nat} {rest : List Nat} {c : Char} {text : List Char} (hz : first ≠ 0)
    (hc : Scan.digit? c = some first) (h : SpellsDigits rest text) :
    SpellsWhole (first :: rest) (c :: text)

inductive SpellsFraction : List Nat → List Char → Prop
  | none : SpellsFraction [] []
  | digits {first : Nat} {rest : List Nat} {text : List Char}
    (h : SpellsDigits (first :: rest) text) : SpellsFraction (first :: rest) ('.' :: text)

inductive SpellsSign : Bool → List Char → Prop
  | none : SpellsSign false []
  | plus : SpellsSign false ['+']
  | minus : SpellsSign true ['-']

inductive SpellsExponent : Option (Bool × List Nat) → List Char → Prop
  | none : SpellsExponent none []
  | digits {mark : Char} {isNegative : Bool} {sign text : List Char} {first : Nat}
    {rest : List Nat} (hm : mark = 'e' ∨ mark = 'E') (hs : SpellsSign isNegative sign)
    (h : SpellsDigits (first :: rest) text) :
    SpellsExponent (some (isNegative, first :: rest)) (mark :: (sign ++ text))

/-- How a number is written. -/
inductive Spells : NumberText → List Char → Prop
  | mk {negative : Bool} {whole fraction : List Nat} {exponent : Option (Bool × List Nat)}
    {w f e : List Char} (hw : SpellsWhole whole w) (hf : SpellsFraction fraction f)
    (he : SpellsExponent exponent e) :
    Spells ⟨negative, whole, fraction, exponent⟩
      ((if negative then ['-'] else []) ++ (w ++ (f ++ e)))

end NumberText

/-- The brackets and signs between values. -/
def Token.sign? : Token → Option Char
  | .openArray => some '['
  | .closeArray => some ']'
  | .openObject => some '\x7b'
  | .closeObject => some '\x7d'
  | .comma => some ','
  | .colon => some ':'
  | _ => none

/-- A number does not run on into the text behind it. -/
def EndsNumber (text : List Char) : Prop :=
  ∀ c ∈ text.head?, Scan.digit? c = none ∧ c ≠ '.' ∧ c ≠ 'e' ∧ c ≠ 'E'

/-- How tokens are written, with blanks in any place between them. -/
inductive Lexes : List Char → List Token → Prop
  | nil : Lexes [] []
  | blank {c : Char} {rest : List Char} {tokens : List Token} (hb : Scan.isBlank c = true)
    (h : Lexes rest tokens) : Lexes (c :: rest) tokens
  | sign {c : Char} {token : Token} {rest : List Char} {tokens : List Token}
    (hs : token.sign? = some c) (h : Lexes rest tokens) : Lexes (c :: rest) (token :: tokens)
  | null {rest : List Char} {tokens : List Token} (h : Lexes rest tokens) :
    Lexes ("null".toList ++ rest) (.null :: tokens)
  | bool (value : Bool) {rest : List Char} {tokens : List Token} (h : Lexes rest tokens) :
    Lexes ((if value then "true" else "false").toList ++ rest) (.bool value :: tokens)
  | number {number : NumberText} {text rest : List Char} {tokens : List Token}
    (hn : number.Spells text) (he : EndsNumber rest) (h : Lexes rest tokens) :
    Lexes (text ++ rest) (.number number :: tokens)
  | string {pieces : List Piece} {parts : List (List Char)} {rest : List Char}
    {tokens : List Token} (hp : List.Forall₂ Piece.Spells pieces parts) (h : Lexes rest tokens) :
    Lexes ('"' :: (parts.flatten ++ '"' :: rest)) (.string pieces :: tokens)

namespace Scan

section Strings

variable (pieces : List Piece) (rest : List Char)

theorem tokens_piece {piece : Piece} {text : List Char} (h : piece.Spells text) :
    (Scan.string pieces).tokens (text ++ rest) = (Scan.string (piece :: pieces)).tokens rest := by
  cases h with
  | @plain c hq hb hc =>
    have hn : ¬ c.toNat < 0x20 := Nat.not_lt.mpr hc
    simp [tokens, step, hq, hb, hn]
  | @escape mark value h =>
    have hu : mark ≠ 'u' := by
      rintro rfl
      contradiction
    simp [tokens, step, h, hu]
  | unit ha hb hc hd => simp [tokens, step, ha, hb, hc, hd]

theorem tokens_pieces {added : List Piece} {parts : List (List Char)}
    (h : List.Forall₂ Piece.Spells added parts) :
    (Scan.string pieces).tokens (parts.flatten ++ '"' :: rest) =
      .string (pieces.reverse ++ added) :: Scan.between.tokens rest := by
  induction h generalizing pieces with
  | nil => simp [tokens, step]
  | cons hp _ ih =>
    rw [List.flatten_cons, List.append_assoc, tokens_piece pieces _ hp, ih]
    simp

end Strings

section Numbers

variable (rest : List Char)

/-- A digit other than zero starts a number. -/
theorem start_digit {c : Char} {digit : Nat} (h : digit? c = some digit) (hz : digit ≠ 0) :
    start c = ([], .number .whole { whole := [digit] }) := by
  have hb : isBlank c = false := by
    have hne : ∀ blank, digit? blank = none → c ≠ blank := by
      rintro _ hn rfl
      rw [hn] at h
      contradiction
    simp [isBlank, hne ' ' rfl, hne '\n' rfl, hne '\t' rfl, hne '\r' rfl]
  unfold start
  rw [if_neg (by simp [hb])]
  split
  case h_12 => exact absurd (Option.some.inj h).symm hz
  case h_13 => rw [h]
  all_goals contradiction

theorem tokens_of_step {scan next : Scan} {c : Char} (h : scan.step c = ([], next)) :
    scan.tokens (c :: rest) = next.tokens rest := by
  simp [tokens, h]

/-- Where each digit is put behind those before it, so are all of them. -/
theorem tokens_digits (scan : List Nat → Scan)
    (hs : ∀ before c digit, digit? c = some digit →
      (scan before).step c = ([], scan (before ++ [digit])))
    {digits : List Nat} {text : List Char} (h : NumberText.SpellsDigits digits text)
    (before : List Nat) :
    (scan before).tokens (text ++ rest) = (scan (before ++ digits)).tokens rest := by
  induction h generalizing before with
  | nil => simp
  | cons hc _ ih =>
    rw [List.cons_append, tokens_of_step _ (hs before _ _ hc), ih, List.append_assoc]
    rfl

/-- The stages from which a number can go on with a fraction. -/
def InWhole (stage : NumberStage) : Prop :=
  stage = .zero ∨ stage = .whole

/-- The stages from which a number can go on with an exponent. -/
def BeforeExponent (stage : NumberStage) : Prop :=
  InWhole stage ∨ stage = .fraction

theorem tokens_whole (negative : Bool) {whole : List Nat} {text : List Char}
    (h : NumberText.SpellsWhole whole text) :
    ∃ stage, InWhole stage ∧
      Scan.between.tokens ((if negative then ['-'] else []) ++ (text ++ rest)) =
        (Scan.number stage { negative := negative, whole := whole }).tokens rest := by
  cases h with
  | zero => exact ⟨.zero, .inl rfl, by cases negative <;> rfl⟩
  | @digits first others c text hz hc h =>
    have hd := tokens_digits rest
      (fun digits => Scan.number .whole { negative := negative, whole := digits })
      (fun before c digit hd => by simp [step, numberStep, hd]) h [first]
    refine ⟨.whole, .inr rfl, Eq.trans ?_ hd⟩
    cases negative with
    | false => exact tokens_of_step _ (start_digit hc hz)
    | true =>
      rw [if_pos rfl, List.cons_append, tokens_of_step _ (rfl : step .between '-' = _)]
      exact tokens_of_step _ (by simp [step, numberStep, hc, hz])

theorem tokens_fraction {stage : NumberStage} (hs : InWhole stage) {number : NumberText}
    (hf : number.fraction = []) {fraction : List Nat} {text : List Char}
    (h : NumberText.SpellsFraction fraction text) :
    ∃ next, BeforeExponent next ∧
      (Scan.number stage number).tokens (text ++ rest) =
        (Scan.number next { number with fraction := fraction }).tokens rest := by
  cases h with
  | none => exact ⟨stage, .inl hs, by rw [← hf]; rfl⟩
  | @digits first others text h =>
    cases h with
    | @cons _ c _ text hc h =>
      have hd := tokens_digits rest
        (fun digits => Scan.number .fraction { number with fraction := digits })
        (fun before c digit hd => by simp [step, numberStep, hd]) h [first]
      have hpoint : (Scan.number stage number).step '.' = ([], .number .point number) := by
        obtain rfl | rfl := hs <;> rfl
      refine ⟨.fraction, .inr rfl, Eq.trans ?_ hd⟩
      rw [List.cons_append, List.cons_append, tokens_of_step _ hpoint]
      exact tokens_of_step _ (by simp [step, numberStep, hc, hf])

theorem tokens_exponent {stage : NumberStage} (hs : BeforeExponent stage) {number : NumberText}
    (hn : number.exponent = none) {exponent : Option (Bool × List Nat)} {text : List Char}
    (h : NumberText.SpellsExponent exponent text) :
    ∃ next, (BeforeExponent next ∨ next = .power) ∧
      (Scan.number stage number).tokens (text ++ rest) =
        (Scan.number next { number with exponent := exponent }).tokens rest := by
  cases h with
  | none => exact ⟨stage, .inl hs, by rw [← hn]; rfl⟩
  | @digits mark isNegative sign text first others hm hsign h =>
    cases h with
    | @cons _ c _ text hc h =>
      have hd := tokens_digits rest
        (fun digits => Scan.number .power { number with exponent := some (isNegative, digits) })
        (fun before c digit hd => by simp [step, numberStep, hd]) h [first]
      have hmark : (Scan.number stage number).step mark = ([], .number .mark number) := by
        obtain (rfl | rfl) | rfl := hs <;> obtain rfl | rfl := hm <;> rfl
      refine ⟨.power, .inr rfl, Eq.trans ?_ hd⟩
      rw [List.cons_append, tokens_of_step _ hmark]
      cases hsign with
      | none => exact tokens_of_step _ (by simp [step, numberStep, hc, hn])
      | plus =>
        rw [List.cons_append, List.cons_append, tokens_of_step _ (rfl : step _ '+' = _)]
        exact tokens_of_step _ (by simp [step, numberStep, hc])
      | minus =>
        rw [List.cons_append, List.cons_append, tokens_of_step _ (rfl : step _ '-' = _)]
        exact tokens_of_step _ (by simp [step, numberStep, hc])

theorem tokens_ended (number : NumberText) {stage : NumberStage}
    (hs : BeforeExponent stage ∨ stage = .power) (he : EndsNumber rest) :
    (Scan.number stage number).tokens rest = .number number :: Scan.between.tokens rest := by
  cases rest with
  | nil => obtain ((rfl | rfl) | rfl) | rfl := hs <;> rfl
  | cons c rest =>
    obtain ⟨hd, hp, hl, hu⟩ := he c rfl
    obtain ((rfl | rfl) | rfl) | rfl := hs <;>
      simp [tokens, step, numberStep, hd, hp, hl, hu]

theorem tokens_number {number : NumberText} {text : List Char} (h : number.Spells text)
    (he : EndsNumber rest) :
    Scan.between.tokens (text ++ rest) = .number number :: Scan.between.tokens rest := by
  cases h with
  | @mk negative whole fraction exponent w f e hw hf hx =>
    obtain ⟨first, hfirst, hw⟩ := tokens_whole (f ++ (e ++ rest)) negative hw
    obtain ⟨second, hsecond, hf⟩ := @tokens_fraction (e ++ rest) first hfirst
      { negative := negative, whole := whole } rfl fraction f hf
    obtain ⟨third, hthird, hx⟩ := @tokens_exponent rest second hsecond
      { negative := negative, whole := whole, fraction := fraction } rfl exponent e hx
    rw [List.append_assoc, List.append_assoc, List.append_assoc, hw, hf, hx]
    exact tokens_ended rest _ hthird he

end Numbers

end Scan

/-- The scanner finds the tokens that a text is written from. -/
theorem Lexes.tokens_eq {text : List Char} {tokens : List Token} (h : Lexes text tokens) :
    Scan.between.tokens text = tokens := by
  induction h with
  | nil => rfl
  | blank hb _ ih => simp [Scan.tokens, Scan.step, Scan.start, hb, ih]
  | @sign c token _ _ hs _ ih =>
    rw [← ih]
    cases token <;> cases hs <;> rfl
  | null _ ih =>
    rw [← ih]
    rfl
  | bool value _ ih =>
    rw [← ih]
    cases value <;> rfl
  | number hn he _ ih => rw [Scan.tokens_number _ hn he, ih]
  | string hp _ ih =>
    rw [Scan.tokens_of_step _ (rfl : Scan.step .between '"' = _), Scan.tokens_pieces _ _ hp, ih]
    rfl

end Polyglot.Json
